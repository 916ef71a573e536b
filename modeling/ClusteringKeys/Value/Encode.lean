import ClusteringKeys.Error
import ClusteringKeys.Floating.Round

namespace ClusteringKeys.Value

/-- The stored form of a value in a column of a type that takes it. Narrower numbers widen, save that a bigint column
    takes nothing narrower than an int. Dates count from the least date, which makes them unsigned. -/
def encode? (type : KeyType) (value : Value) : Option Bytes :=
  match type with
  | .boolean => match value with
    | boolean b => some [if b then 1 else 0]
    | _ => none
  | .tinyint => match value with
    | tinyint n => some (Bytes.ofInt 1 n.toInt)
    | _ => none
  | .smallint => match value with
    | smallint n => some (Bytes.ofInt 2 n.toInt)
    | tinyint n => some (Bytes.ofInt 2 n.toInt)
    | _ => none
  | .int => match value with
    | int n => some (Bytes.ofInt 4 n.toInt)
    | smallint n => some (Bytes.ofInt 4 n.toInt)
    | tinyint n => some (Bytes.ofInt 4 n.toInt)
    | _ => none
  | .bigint => match value with
    | bigint n => some (Bytes.ofInt 8 n.toInt)
    | int n => some (Bytes.ofInt 8 n.toInt)
    | _ => none
  | .float => match value with
    | float x => some x.bytes
    | _ => none
  | .double => match value with
    | double x => some x.bytes
    | float x => some (x.convert .double).bytes
    | _ => none
  | .text => match value with
    | text s => some (Utf8.encode s)
    | _ => none
  | .ascii => match value with
    | text s => if (Utf8.encode s).isAscii then some (Utf8.encode s) else none
    | _ => none
  | .blob | .custom _ => match value with
    | blob b => some b
    | _ => none
  | .timestamp => match value with
    | timestamp n => some (Bytes.ofInt 8 n.toInt)
    | _ => none
  | .date => match value with
    | date n => some (Bytes.ofInt 4 (n.toInt + KeyType.epochDay))
    | _ => none
  | .time => match value with
    | time n => some (Bytes.ofInt 8 n.toInt)
    | _ => none
  | .uuid | .timeuuid => match value with
    | uuid u => some u.bytes
    | _ => none
  | .inet => match value with
    | inet b => some b
    | _ => none

def encode (type : KeyType) (value : Value) : Except ConversionFault Bytes :=
  if value.isNull then .error (.nullValue type)
  else
    match value.encode? type with
    | some b => .ok b
    | none => .error (.unsuited value type)

end ClusteringKeys.Value
