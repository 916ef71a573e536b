import ClusteringKeys.Json.Standard
import ClusteringKeys.Value.Basic

namespace ClusteringKeys

open Json (Library)

variable [Library]

def Bytes.toJson (b : Bytes) : Json :=
  Library.ofList (b.map fun x => Library.ofInteger x.toNat)

def Bytes.ofJson? (j : Json) : Option Bytes :=
  Library.listOf? (fun x => do return UInt8.ofNat (← Library.integer? 0 255 x).toNat) j

namespace Value

/-- A value that holds something, under the name of its alternative. -/
def tagged (tag : String) (payload : Json) : Json :=
  Library.ofVariant tag (some payload)

def toJson : Value → Json
  | null => Library.ofVariant "Null" none
  | boolean b => tagged "Boolean" (Library.ofBool b)
  | tinyint n => tagged "TinyInt" (Library.ofInteger n.toInt)
  | smallint n => tagged "SmallInt" (Library.ofInteger n.toInt)
  | int n => tagged "Integer" (Library.ofInteger n.toInt)
  | bigint n => tagged "BigInt" (Library.ofInteger n.toInt)
  | float x => tagged "Float32" (Library.ofSingle x)
  | double x => tagged "Float" (Library.ofDouble x)
  | text s => tagged "Text" (Library.ofString s)
  | blob b => tagged "Blob" b.toJson
  | timestamp n => tagged "Timestamp" (Library.ofInteger n.toInt)
  | date n => tagged "Date" (Library.ofInteger n.toInt)
  | time n => tagged "Time" (Library.ofInteger n.toInt)
  | uuid u => tagged "Uuid" u.bytes.toJson
  | inet b => tagged "Inet" b.toJson

def int8? (j : Json) : Option Int8 :=
  Int8.ofInt <$> Library.integer? Int8.minValue.toInt Int8.maxValue.toInt j

def int16? (j : Json) : Option Int16 :=
  Int16.ofInt <$> Library.integer? Int16.minValue.toInt Int16.maxValue.toInt j

def int32? (j : Json) : Option Int32 :=
  Int32.ofInt <$> Library.integer? Int32.minValue.toInt Int32.maxValue.toInt j

def int64? (j : Json) : Option Int64 :=
  Int64.ofInt <$> Library.integer? Int64.minValue.toInt Int64.maxValue.toInt j

def holding : List String :=
  ["Boolean", "TinyInt", "SmallInt", "Integer", "BigInt", "Float32", "Float", "Text", "Blob", "Timestamp", "Date",
    "Time", "Uuid", "Inet"]

def ofTagged? (tag : String) (payload : Json) : Option Value :=
  match tag with
  | "Boolean" => boolean <$> Library.bool? payload
  | "TinyInt" => tinyint <$> int8? payload
  | "SmallInt" => smallint <$> int16? payload
  | "Integer" => int <$> int32? payload
  | "BigInt" => bigint <$> int64? payload
  | "Float32" => float <$> Library.single? payload
  | "Float" => double <$> Library.double? payload
  | "Text" => text <$> Library.string? payload
  | "Blob" => blob <$> Bytes.ofJson? payload
  | "Timestamp" => timestamp <$> int64? payload
  | "Date" => date <$> int32? payload
  | "Time" => time <$> int64? payload
  | "Uuid" => uuid <$> (Bytes.ofJson? payload).bind Uuid.ofBytes?
  | "Inet" => inet <$> Bytes.ofJson? payload
  | _ => none

/-- Reads a value. Only null holds nothing. -/
def ofJson? (j : Json) : Option Value := do
  match ← Library.variant? ["Null"] holding j with
  | (_, none) => return null
  | (tag, some payload) => ofTagged? tag payload

end Value

end ClusteringKeys
