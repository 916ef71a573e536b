import ClusteringKeys.Column
import ClusteringKeys.KeyType.Format

namespace ClusteringKeys

structure Cell where
  column : Column
  value : Bytes
  deriving DecidableEq

/-- Tells a key from the two bounds of the block of keys that begin like it. -/
inductive Marker where
  /-- Below every key of the block. -/
  | bottom
  | regular
  /-- Above every key of the block. -/
  | top
  deriving DecidableEq

/-- A key as far as it is known: values of successive columns of one kind, or a bound of the block of keys that begin
    with them. -/
structure Key where
  cells : List Cell
  marker : Marker := .regular

namespace Key

/-- The key without columns. All keys of any kind begin with it. -/
def empty : Key := ⟨[], .regular⟩

instance : Inhabited Key := ⟨empty⟩

def ofColumn (column : Column) (value : Bytes) : Key :=
  ⟨[⟨column, value⟩], .regular⟩

def length (k : Key) : Nat :=
  k.cells.length

def isEmpty (k : Key) : Bool :=
  k.cells.isEmpty

def columns (k : Key) : List Column :=
  k.cells.map Cell.column

def values (k : Key) : List Bytes :=
  k.cells.map Cell.value

def kind? (k : Key) : Option KeyKind :=
  k.cells.head?.map fun cell => cell.column.kind

def lastColumn? (k : Key) : Option Column :=
  k.cells.getLast?.map Cell.column

def isBottom (k : Key) : Bool :=
  k.marker = .bottom

def isTop (k : Key) : Bool :=
  k.marker = .top

def isEndpoint (k : Key) : Bool :=
  k.marker ≠ .regular

/-- The lower bound of the keys that begin with these values. -/
def bottom (k : Key) : Key :=
  { k with marker := .bottom }

/-- The upper bound of the keys that begin with these values. -/
def top (k : Key) : Key :=
  { k with marker := .top }

/-- The key of the first `n` columns, or of all if there are fewer. -/
def take (k : Key) (n : Nat) : Key :=
  ⟨k.cells.take n, .regular⟩

/-- Accepts columns of one kind in ascending order of position. -/
def checkColumns : List Column → Except ElementsFault Unit
  | left :: right :: rest =>
    if left.kind ≠ right.kind then .error (.mixedKinds left.name left.kind right.name right.kind)
    else if right.position ≤ left.position then
      .error (.outOfOrder left.name left.position right.name right.position)
    else checkColumns (right :: rest)
  | _ => .ok ()

def ofColumns (columns : List Column) (values : List Bytes) : Except ElementsFault Key := do
  if columns.length ≠ values.length then throw (.lengthMismatch columns.length values.length)
  checkColumns columns
  return ⟨List.zipWith Cell.mk columns values, .regular⟩

/-- Appends a key, and with it its marker. Only a key can be extended, and only by what starts at the next column. -/
def extend (k other : Key) : Except Error Key :=
  if k.isEndpoint then .error .endpointExtension
  else
    match k.cells.getLast?, other.cells.head? with
    | none, _ => .ok other
    | some _, none => .ok { k with marker := other.marker }
    | some last, some first =>
      if last.column.kind ≠ first.column.kind then .error .differentKind
      else if last.column.isFollowedBy first.column then .ok ⟨k.cells ++ other.cells, other.marker⟩
      else .error .nonConsecutive

def text (k : Key) : String :=
  let values := ", ".intercalate (k.cells.map fun cell => cell.column.type.format cell.value)
  let marker := match k.marker with
    | .bottom => " BOTTOM"
    | .regular => ""
    | .top => " TOP"
  "(" ++ values ++ ")" ++ marker

instance : ToString Key := ⟨text⟩

end Key

end ClusteringKeys
