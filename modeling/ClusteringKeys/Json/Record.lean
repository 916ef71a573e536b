import ClusteringKeys.Json.Basic

namespace ClusteringKeys.Json

def isNull : Json → Bool
  | null => true
  | _ => false

def bool? : Json → Option Bool
  | bool b => some b
  | _ => none

def text? : Json → Option String
  | text s => some s
  | _ => none

/-- The integer that a literal without point and exponent writes. Minus zero is no integer. -/
def Number.toInt? (n : Number) : Option Int :=
  if n.fraction ≠ [] ∨ n.exponent ≠ none ∨ (n.negative ∧ n.whole = 0) then none
  else some (if n.negative then -(n.whole : Int) else n.whole)

def int? (low high : Int) : Json → Option Int
  | number n => do
    let i ← n.toInt?
    guard (low ≤ i ∧ i ≤ high)
    return i
  | _ => none

def list? : Json → Option (List Json)
  | list items => some items
  | _ => none

/-- The fields of a record, in the order of their names. A record is an object, in which other names do not matter and
    none of these may be repeated, or a list of the fields in order, which may end early. -/
def record? (names : List String) : Json → Option (List (Option Json))
  | object members =>
    let given := (members.map Prod.fst).filter names.contains
    if given.Nodup then some (names.map fun name => members.lookup name) else none
  | list items =>
    if items.length ≤ names.length then
      some (items.map some ++ List.replicate (names.length - items.length) none)
    else none
  | _ => none

/-- One of several alternatives, by its name, with what it holds. Those that hold nothing are written as their name
    alone, or as holding null, and the others as an object of one member under the name. -/
def variant? (plain holding : List String) : Json → Option (String × Option Json)
  | text tag => if tag ∈ plain then some (tag, none) else none
  | object [(tag, payload)] =>
    if tag ∈ holding then some (tag, some payload)
    else if tag ∈ plain ∧ payload.isNull then some (tag, none)
    else none
  | _ => none

end ClusteringKeys.Json
