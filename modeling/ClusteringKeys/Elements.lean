import ClusteringKeys.Key.Order
import ClusteringKeys.KeyLayout

namespace ClusteringKeys

/-- A key as it is stored. The columns and the values stand in two lists, and nothing but the operations keeps the lists
    in step. -/
structure Elements where
  columns : List Column
  values : List Bytes
  marker : Marker
  deriving DecidableEq

namespace Elements

def empty : Elements := ⟨[], [], .regular⟩

instance : Inhabited Elements := ⟨empty⟩

def ofColumn (column : Column) (value : Bytes) : Elements :=
  ⟨[column], [value], .regular⟩

/-- Accepts lists of one length, if the columns are of one kind and in ascending order of position. -/
def of (columns : List Column) (values : List Bytes) : Except ElementsFault Elements := do
  if columns.length ≠ values.length then throw (.lengthMismatch columns.length values.length)
  Key.checkColumns columns
  return ⟨columns, values, .regular⟩

def length (e : Elements) : Nat :=
  e.values.length

def kind? (e : Elements) : Option KeyKind :=
  e.columns.head?.map Column.kind

def isEndpoint (e : Elements) : Bool :=
  e.marker ≠ .regular

def bottom (e : Elements) : Elements :=
  { e with marker := .bottom }

def top (e : Elements) : Elements :=
  { e with marker := .top }

/-- The first `n` elements, or all if there are fewer values. Both lists are cut at the same place. -/
def take (e : Elements) (n : Nat) : Elements :=
  let stop := min n e.length
  ⟨e.columns.take stop, e.values.take stop, .regular⟩

/-- Appends elements, and with them their marker. Whether a side is empty is told by its columns. -/
def extend (e other : Elements) : Except Error Elements :=
  if e.isEndpoint then .error .endpointExtension
  else
    match e.columns.getLast?, other.columns.head? with
    | none, _ => .ok other
    | some _, none => .ok { e with marker := other.marker }
    | some last, some first =>
      if last.kind ≠ first.kind then .error .differentKind
      else if last.isFollowedBy first then
        .ok ⟨e.columns ++ other.columns, e.values ++ other.values, other.marker⟩
      else .error .nonConsecutive

/-- The first column or value that differs decides, among those that both sides have. -/
def comparePairs : List (Column × Bytes) → List (Column × Bytes) → Ordering
  | (column, value) :: lefts, (column', value') :: rights =>
    ((column.compareIdentity column').then (column.compareValues value value')).then (comparePairs lefts rights)
  | _, _ => .eq

/-- The order of the stored keys. Keys of two kinds are told apart first, and the numbers of values last. -/
def compare (left right : Elements) : Ordering :=
  let kinds :=
    match left.kind?, right.kind? with
    | some kind, some kind' => Ord.compare kind kind'
    | _, _ => .eq
  let rest :=
    match Ord.compare left.length right.length with
    | .eq => Ord.compare left.marker right.marker
    | .lt => left.marker.againstExtension
    | .gt => right.marker.againstExtension.swap
  (kinds.then (comparePairs (left.columns.zip left.values) (right.columns.zip right.values))).then rest

def digest (e : Elements) : Option KeyKind × Marker × List UInt64 × List Bytes :=
  (e.kind?, e.marker, e.columns.map Column.position, e.values)

variable (layout : KeyLayout)

/-- Elements of columns with serialized values, once each value is checked. -/
def build (columns : List Column) (values : List Bytes) : Except Error Elements := do
  (columns.zip values).forM fun (column, value) => (layout.checkValue column value).mapError .conversion
  (of columns values).mapError .elements

/-- Elements of the clustering columns from a position on. -/
def slice (start : UInt64) (values : List Value) : Except Error Elements := do
  let columns ← (layout.clusteringRange start values.length).mapError .elements
  build layout columns (← (KeyLayout.encodeAll columns values).mapError .conversion)

def sliceSerialized (start : UInt64) (values : List Bytes) : Except Error Elements := do
  build layout (← (layout.clusteringRange start values.length).mapError .elements) values

def leading (values : List Value) : Except Error Elements :=
  slice layout 0 values

def leadingBound (values : List Value) (marker : Marker) : Except Error Elements := do
  let e ← leading layout values
  match marker with
  | .bottom => return e.bottom
  | .regular => return e
  | .top => return e.top

def partitionKey (values : List Value) : Except Error Elements := do
  if values.length ≠ layout.partition.length then
    throw (.elements (.partitionKeySize layout.partition.length values.length))
  build layout layout.partition (← (KeyLayout.encodeAll layout.partition values).mapError .conversion)

end Elements

/-- The elements that store a key. -/
def Key.elements (k : Key) : Elements :=
  ⟨k.columns, k.values, k.marker⟩

end ClusteringKeys
