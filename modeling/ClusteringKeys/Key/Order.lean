import ClusteringKeys.Key.Basic

namespace ClusteringKeys

namespace Marker

def rank : Marker → Nat
  | bottom => 0
  | regular => 1
  | top => 2

/-- A bottom comes before the key, and a top after it. -/
instance : Ord Marker := ⟨compareOn rank⟩

/-- A key or bound with this marker against a key with the same values and more. -/
def againstExtension : Marker → Ordering
  | bottom | regular => .lt
  | top => .gt

end Marker

/-- Columns decide first, so that values are only compared within one column, and there in its direction. -/
def Cell.compare (left right : Cell) : Ordering :=
  (left.column.compareIdentity right.column).then (left.column.compareValues left.value right.value)

namespace Key

/-- The first cell that differs decides. If one key is a beginning of the other, its marker does. -/
def compareCells (leftMarker rightMarker : Marker) : List Cell → List Cell → Ordering
  | [], [] => Ord.compare leftMarker rightMarker
  | [], _ :: _ => leftMarker.againstExtension
  | _ :: _, [] => rightMarker.againstExtension.swap
  | left :: lefts, right :: rights =>
    (left.compare right).then (compareCells leftMarker rightMarker lefts rights)

/-- The order in which a table keeps its keys, extended to beginnings of keys and to bounds. -/
def compare (left right : Key) : Ordering :=
  compareCells left.marker right.marker left.cells right.cells

instance : Ord Key := ⟨compare⟩

/-- Keys are equal if neither comes before the other. -/
instance : BEq Key := ⟨fun left right => left.compare right = .eq⟩

/-- Data that agrees for equal keys: names and types of columns are left out. -/
def digest (k : Key) : Option KeyKind × Marker × List UInt64 × List Bytes :=
  (k.kind?, k.marker, k.columns.map Column.position, k.values)

end Key

end ClusteringKeys
