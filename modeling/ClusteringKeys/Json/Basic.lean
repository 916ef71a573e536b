namespace ClusteringKeys

/-- A number literal as it is written. -/
structure Json.Number where
  negative : Bool
  whole : Nat
  /-- The digits after the point; none without a point. -/
  fraction : List (Fin 10)
  exponent : Option Int
  deriving DecidableEq

/-- A tree of data in JavaScript Object Notation. Members keep their order and may repeat a name. -/
inductive Json where
  | null
  | bool (b : Bool)
  | number (n : Json.Number)
  | text (s : String)
  | list (items : List Json)
  | object (members : List (String × Json))
  /-- A string or an object whose form is right but whose text, or a name in it, has half a surrogate pair. It can be
      skipped and not used. -/
  | unreadable

namespace Json

def lastDigit (n : Nat) : Fin 10 :=
  ⟨n % 10, Nat.mod_lt n (by decide)⟩

def Number.ofInt (n : Int) : Number :=
  ⟨n < 0, n.natAbs, [], none⟩

def ofInt (n : Int) : Json :=
  .number (.ofInt n)

def tagged (tag : String) (payload : Json) : Json :=
  .object [(tag, payload)]

/-- The object of members whose names were read, if all were. -/
def ofMembers (members : List (Option String × Json)) : Json :=
  match members.mapM fun (name, value) => name.map (·, value) with
  | some members => .object members
  | none => .unreadable

end Json

end ClusteringKeys
