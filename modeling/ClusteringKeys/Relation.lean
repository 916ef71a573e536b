import ClusteringKeys.Key.Order
import ClusteringKeys.RangeSet.Basic

namespace ClusteringKeys

/-- The side of a pivot in the natural order of its values. -/
inductive Side where
  | below
  | above
  deriving DecidableEq

namespace Key

/-- The keys that begin like the pivot in its first `level` columns and lie strictly on one side of it in the next
    column, which has the given direction. They stand together at one end of the block of keys with that beginning:
    those below at the bottom, unless the column is reversed. -/
def levelRange (pivot : Key) (side : Side) (level : Nat) (direction : Direction) : Range Key :=
  let outer := pivot.take level
  let inner := pivot.take (level + 1)
  if (side = .below) ≠ direction.isReversed then .closedOpen outer.bottom inner.bottom
  else .openClosed inner.top outer.top

/-- The keys on one side of the pivot: column after column those that part from it there, and the block of the pivot
    itself if it is to be included. -/
def sideRanges (pivot : Key) (side : Side) (includePivot : Bool) : RangeSet Key :=
  let parted := pivot.cells.zipIdx.foldl
    (fun set (cell, level) => set.add (pivot.levelRange side level cell.column.direction)) RangeSet.empty
  if includePivot then parted.add (.closed pivot.bottom pivot.top) else parted

/-- The keys whose values are at most those of the pivot. -/
def atMost (pivot : Key) : RangeSet Key :=
  pivot.sideRanges .below !pivot.isBottom

/-- The keys whose values are less than those of the pivot. Keys that extend the pivot are not among them. -/
def lessThan (pivot : Key) : RangeSet Key :=
  pivot.sideRanges .below pivot.isTop

/-- The keys whose values are at least those of the pivot. -/
def atLeast (pivot : Key) : RangeSet Key :=
  pivot.sideRanges .above !pivot.isTop

/-- The keys whose values are greater than those of the pivot. Keys that extend the pivot are not among them. -/
def greaterThan (pivot : Key) : RangeSet Key :=
  pivot.sideRanges .above pivot.isBottom

/-- The keys that begin with the values of the pivot. Nothing equals a bound. -/
def equalTo (pivot : Key) : RangeSet Key :=
  if pivot.isEndpoint then .empty else .ofRange (.closed pivot.bottom pivot.top)

/-- The keys that do not begin with the values of the pivot. -/
def notEqualTo (pivot : Key) : RangeSet Key :=
  if pivot.isEndpoint then .all else pivot.lessThan.union pivot.greaterThan

end Key

/-- How keys compare with a pivot in the natural order of the pivot's columns, whatever their directions. A bound as
    pivot stands for a point just below or just above its block. -/
inductive Relation where
  | atMost
  | lessThan
  | atLeast
  | greaterThan
  | equalTo
  | notEqualTo
  deriving DecidableEq

def Relation.keys : Relation → Key → RangeSet Key
  | atMost => Key.atMost
  | lessThan => Key.lessThan
  | atLeast => Key.atLeast
  | greaterThan => Key.greaterThan
  | equalTo => Key.equalTo
  | notEqualTo => Key.notEqualTo

end ClusteringKeys
