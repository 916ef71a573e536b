import ClusteringKeys.Floating.Shortest
import ClusteringKeys.KeyType.Basic
import ClusteringKeys.Text.Utf8
import ClusteringKeys.Uuid

namespace ClusteringKeys

def quoted (s : String) : String :=
  String.ofList ('\'' :: s.toList ++ ['\''])

namespace KeyType

/-- The days before the epoch that a stored date can reach. Dates are stored as unsigned numbers with the epoch in the
    middle, which lets bytes order them. -/
def epochDay : Nat :=
  0x80000000

/-- The text of a serialized value, if it has the form that its type asks for. -/
def formatWellFormed? (type : KeyType) (value : Bytes) : Option String :=
  match type with
  | boolean => value.head?.map fun x => if x = 0 then "false" else "true"
  | tinyint => (value.signed? 1).map toString
  | smallint => (value.signed? 2).map toString
  | int => (value.signed? 4).map toString
  | bigint | timestamp | time => (value.signed? 8).map toString
  | date => (value.unsigned? 4).map fun n => toString ((n : Int) - epochDay)
  | float => (Floating.ofBytes? .single value).map Floating.text
  | double => (Floating.ofBytes? .double value).map Floating.text
  | text | ascii => (Utf8.decode value).toOption.map quoted
  | uuid | timeuuid => (Uuid.ofBytes? value).map fun u => String.ofList u.text
  | blob | inet | custom _ => none

/-- The text of a serialized value. What does not have the form of its type is shown as hexadecimal digits. -/
def format (type : KeyType) (value : Bytes) : String :=
  match value with
  | [] => "EMPTY"
  | _ :: _ => (type.formatWellFormed? value).getD (String.ofList ('0' :: 'x' :: value.hex))

end KeyType

end ClusteringKeys
