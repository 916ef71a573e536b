import ClusteringKeys.Document
import ClusteringKeys.Json.Standard

namespace ClusteringKeys

structure KeySettings where
  /-- Refuse serialized values that do not have the form of their column's type. -/
  validateValues : Bool := true
  /-- Accept the empty value for types of a fixed width. -/
  allowEmptyValues : Bool := false
  deriving DecidableEq

structure Settings where
  keys : KeySettings := {}
  deriving DecidableEq

/-- Empty values can only be let through where values are checked at all. -/
def Settings.check (s : Settings) : Except SettingsFault Unit :=
  if s.keys.allowEmptyValues ∧ ¬s.keys.validateValues then .error .uncheckedEmptyValues else .ok ()

open Json (Library)
open Json.Library (ofRecord ofBool record? optional bool? parse?)

variable [Library]

namespace KeySettings

def toJson (s : KeySettings) : Json :=
  ofRecord [("validate_values", ofBool s.validateValues),
    ("allow_empty_values", ofBool s.allowEmptyValues)]

def ofJson? (j : Json) : Option KeySettings := do
  match ← record? ["validate_values", "allow_empty_values"] j with
  | [validateValues, allowEmptyValues] =>
    return {
      validateValues := ← optional true bool? validateValues
      allowEmptyValues := ← optional false bool? allowEmptyValues }
  | _ => none

end KeySettings

namespace Settings

def toJson (s : Settings) : Json :=
  ofRecord [("keys", s.keys.toJson)]

def ofJson? (j : Json) : Option Settings := do
  match ← record? ["keys"] j with
  | [keys] => return { keys := ← optional {} KeySettings.ofJson? keys }
  | _ => none

def read? (s : String) : Option Settings :=
  (parse? s).bind ofJson?

def ofText (s : String) : Except SettingsFault Settings :=
  match read? s with
  | none => .error .notSettings
  | some settings => do
    settings.check
    return settings

def ofDocument (d : Document) : Except Error Settings := do
  (ofText (← d.text.mapError .file)).mapError .settings

end Settings

end ClusteringKeys
