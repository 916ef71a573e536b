import ClusteringKeys.Floating.Basic
import ClusteringKeys.Json.Basic

namespace ClusteringKeys.Json

/-- A library that keeps the data of declared types as text. Between the data and its text stands a tree. -/
class Library where
  /-- The text of a tree. -/
  print : Json → String
  /-- The tree that a text writes. -/
  parse? : String → Option Json
  ofBool : Bool → Json
  bool? : Json → Option Bool
  ofString : String → Json
  string? : Json → Option String
  ofInteger : Int → Json
  /-- An integer from the first bound to the second. -/
  integer? : Int → Int → Json → Option Int
  ofSingle : Single → Json
  single? : Json → Option Single
  ofDouble : Double → Json
  double? : Json → Option Double
  ofList : List Json → Json
  list? : Json → Option (List Json)
  /-- A record, from the names of its fields and what each of them holds. -/
  ofRecord : List (String × Json) → Json
  /-- What the fields of these names hold, as far as they are there. -/
  record? : List String → Json → Option (List (Option Json))
  /-- One of several alternatives, from its name and what it holds, if it can hold something. -/
  ofVariant : String → Option Json → Json
  /-- One of several alternatives. The first names are of those that hold nothing, the second of those that do. -/
  variant? : List String → List String → Json → Option (String × Option Json)

namespace Library

variable [Library] {α : Type}

def listOf? (read : Json → Option α) (j : Json) : Option (List α) := do
  (← list? j).mapM read

/-- A field that has to be there. -/
def required (read : Json → Option α) (field : Option Json) : Option α :=
  field.bind read

/-- A field that may be left out. -/
def optional (default : α) (read : Json → Option α) : Option Json → Option α
  | none => some default
  | some j => read j

end Library

end ClusteringKeys.Json
