import ClusteringKeys.Floating.Shortest
import ClusteringKeys.KeyType.Format

namespace ClusteringKeys

/-- A column value as a restriction states it. -/
inductive Value where
  | null
  | boolean (b : Bool)
  | tinyint (n : Int8)
  | smallint (n : Int16)
  | int (n : Int32)
  | bigint (n : Int64)
  | float (x : Single)
  | double (x : Double)
  | text (s : String)
  | blob (b : Bytes)
  /-- Milliseconds since the epoch. -/
  | timestamp (milliseconds : Int64)
  /-- Days since the epoch. -/
  | date (days : Int32)
  /-- Nanoseconds since midnight. -/
  | time (nanoseconds : Int64)
  | uuid (u : Uuid)
  /-- The bytes of a network address. -/
  | inet (address : Bytes)
  deriving DecidableEq

namespace Value

def isNull : Value → Bool
  | null => true
  | _ => false

/-- Equality of values of one type. Floating point numbers compare as numbers, all others by what they hold. -/
def same : Value → Value → Bool
  | float x, float y => x.same y
  | double x, double y => x.same y
  | v, w => v = w

/-- The text of a value. Types that plain text would not tell apart are named. -/
def display : Value → String
  | null => "NULL"
  | boolean b => if b then "true" else "false"
  | tinyint n => toString n.toInt
  | smallint n => toString n.toInt
  | int n => toString n.toInt
  | bigint n => toString n.toInt
  | float x => x.text
  | double x => x.text
  | text s => quoted s
  | blob b => s!"BLOB({b.length} bytes)"
  | timestamp n => s!"TIMESTAMP({n.toInt})"
  | date n => s!"DATE({n.toInt})"
  | time n => s!"TIME({n.toInt})"
  | uuid u => s!"UUID({String.ofList u.bytes.hex})"
  | inet b => s!"INET({String.ofList b.hex})"

instance : ToString Value := ⟨display⟩

end Value

end ClusteringKeys
