import ClusteringKeys.RangeSet.Endpoint

namespace ClusteringKeys

/-- The values between two ends, each of which may be open, closed or absent. -/
structure Range (α : Type) where
  lower : Endpoint α
  upper : Endpoint α
  deriving BEq, DecidableEq

namespace Range

variable {α : Type}

def all : Range α := ⟨.unbounded, .unbounded⟩

def closed (lower upper : α) : Range α := ⟨.included lower, .included upper⟩

def closedOpen (lower upper : α) : Range α := ⟨.included lower, .excluded upper⟩

def openClosed (lower upper : α) : Range α := ⟨.excluded lower, .included upper⟩

def opened (lower upper : α) : Range α := ⟨.excluded lower, .excluded upper⟩

def atMost (upper : α) : Range α := ⟨.unbounded, .included upper⟩

def lessThan (upper : α) : Range α := ⟨.unbounded, .excluded upper⟩

def atLeast (lower : α) : Range α := ⟨.included lower, .unbounded⟩

def greaterThan (lower : α) : Range α := ⟨.excluded lower, .unbounded⟩

def text [ToString α] (r : Range α) : String :=
  let lower := match r.lower with
    | .unbounded => "(-∞"
    | .included a => s!"[{a}"
    | .excluded a => s!"({a}"
  let upper := match r.upper with
    | .unbounded => "+∞)"
    | .included a => s!"{a}]"
    | .excluded a => s!"{a})"
  lower ++ ".." ++ upper

instance [ToString α] : ToString (Range α) := ⟨text⟩

variable [Ord α]

def contains (r : Range α) (x : α) : Bool :=
  r.lower.admitsAbove x && r.upper.admitsBelow x

def isEmpty (r : Range α) : Bool :=
  match r.lower, r.upper with
  | .unbounded, _ | _, .unbounded => false
  | .included l, .included u => (compare l u).isGT
  | .included l, .excluded u | .excluded l, .included u | .excluded l, .excluded u => (compare l u).isGE

/-- The values in both ranges, if the ends leave room for any. -/
def intersection? (r s : Range α) : Option (Range α) :=
  let lower := if r.lower.compareLower s.lower = .lt then s.lower else r.lower
  let upper := if r.upper.compareUpper s.upper = .gt then s.upper else r.upper
  if isEmpty ⟨lower, upper⟩ then none else some ⟨lower, upper⟩

/-- A range that also reaches as far up as another one. -/
def extendUpTo (r s : Range α) : Range α :=
  if s.upper.compareUpper r.upper = .gt then { r with upper := s.upper } else r

end Range

end ClusteringKeys
