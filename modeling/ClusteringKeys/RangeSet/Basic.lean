import ClusteringKeys.RangeSet.Range
import ClusteringKeys.Sorting

namespace ClusteringKeys

/-- A union of ranges, kept in ascending order and so far apart that no two overlap or touch. -/
structure RangeSet (α : Type) where
  ranges : List (Range α)
  deriving BEq, DecidableEq

namespace RangeSet

variable {α : Type}

def empty : RangeSet α := ⟨[]⟩

instance : Inhabited (RangeSet α) := ⟨empty⟩

def isEmpty (s : RangeSet α) : Bool :=
  s.ranges.isEmpty

def size (s : RangeSet α) : Nat :=
  s.ranges.length

def text [ToString α] (s : RangeSet α) : String :=
  "\x7b" ++ ", ".intercalate (s.ranges.map Range.text) ++ "\x7d"

instance [ToString α] : ToString (RangeSet α) := ⟨text⟩

variable [Ord α]

/-- Joins each range to those before it that it overlaps or touches. The ranges come in order of their lower ends, so
    only the last one joined so far can meet the next. -/
def joinFrom (pending : Range α) : List (Range α) → List (Range α)
  | [] => [pending]
  | r :: rest =>
    if pending.upper.connects r.lower then joinFrom (pending.extendUpTo r) rest
    else pending :: joinFrom r rest

/-- The ranges that are left when all that overlap or touch are joined. -/
def join : List (Range α) → List (Range α)
  | [] => []
  | r :: rest => joinFrom r rest

/-- The union of ranges that are not empty, in any order. -/
def ofRanges (ranges : List (Range α)) : RangeSet α :=
  ⟨join (stableSort (fun r s => r.lower.compareLower s.lower) ranges)⟩

def add (s : RangeSet α) (r : Range α) : RangeSet α :=
  if r.isEmpty then s else ofRanges (s.ranges ++ [r])

def ofRange (r : Range α) : RangeSet α :=
  empty.add r

def all : RangeSet α :=
  ofRange .all

def contains (s : RangeSet α) (x : α) : Bool :=
  s.ranges.any (·.contains x)

def union (s t : RangeSet α) : RangeSet α :=
  ofRanges (s.ranges ++ t.ranges)

/-- The values in both sets: each range of one meets each range of the other. -/
def intersection (s t : RangeSet α) : RangeSet α :=
  ofRanges (s.ranges.flatMap fun r => t.ranges.filterMap r.intersection?)

end RangeSet

end ClusteringKeys
