namespace ClusteringKeys

inductive Endpoint (α : Type) where
  | unbounded
  | included (a : α)
  | excluded (a : α)
  deriving BEq, DecidableEq

namespace Endpoint

variable {α : Type} [Ord α]

/-- The value is inside the end, seen as a lower end. -/
def admitsAbove : Endpoint α → α → Bool
  | unbounded, _ => true
  | included lower, x => (compare x lower).isGE
  | excluded lower, x => (compare x lower).isGT

/-- The value is inside the end, seen as an upper end. -/
def admitsBelow : Endpoint α → α → Bool
  | unbounded, _ => true
  | included upper, x => (compare x upper).isLE
  | excluded upper, x => (compare x upper).isLT

/-- Order of lower ends: the one that admits more values comes first. -/
def compareLower : Endpoint α → Endpoint α → Ordering
  | unbounded, unbounded => .eq
  | unbounded, _ => .lt
  | _, unbounded => .gt
  | included l, included r | excluded l, excluded r => compare l r
  | included l, excluded r => (compare l r).then .lt
  | excluded l, included r => (compare l r).then .gt

/-- Order of upper ends: the one that admits more values comes last. -/
def compareUpper : Endpoint α → Endpoint α → Ordering
  | unbounded, unbounded => .eq
  | unbounded, _ => .gt
  | _, unbounded => .lt
  | included l, included r | excluded l, excluded r => compare l r
  | included l, excluded r => (compare l r).then .gt
  | excluded l, included r => (compare l r).then .lt

/-- A range with this upper end overlaps or touches one with that lower end, so that no value lies between them. -/
def connects : (upper lower : Endpoint α) → Bool
  | unbounded, _ | _, unbounded => true
  | excluded u, excluded l => (compare u l).isGT
  | included u, included l | included u, excluded l | excluded u, included l => (compare u l).isGE

end Endpoint

end ClusteringKeys
