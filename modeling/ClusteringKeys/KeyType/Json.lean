import ClusteringKeys.Json.Standard
import ClusteringKeys.KeyType.Basic

namespace ClusteringKeys.KeyType

def tag : KeyType → String
  | boolean => "Boolean"
  | tinyint => "TinyInt"
  | smallint => "SmallInt"
  | int => "Int"
  | bigint => "BigInt"
  | float => "Float"
  | double => "Double"
  | text => "Text"
  | ascii => "Ascii"
  | blob => "Blob"
  | timestamp => "Timestamp"
  | date => "Date"
  | time => "Time"
  | uuid => "Uuid"
  | timeuuid => "TimeUuid"
  | inet => "Inet"
  | custom _ => "Custom"

open Json (Library)
open Json.Library (ofVariant ofString variant? string?)

variable [Library]

def toJson : KeyType → Json
  | custom name => ofVariant "Custom" (some (ofString name))
  | type => ofVariant type.tag none

/-- Reads a type. The name of a custom type is taken as it is. -/
def ofJson? (j : Json) : Option KeyType := do
  match ← variant? (builtin.map tag) ["Custom"] j with
  | (tag, none) => builtin.find? fun type => type.tag = tag
  | (_, some payload) => custom <$> string? payload

end ClusteringKeys.KeyType
