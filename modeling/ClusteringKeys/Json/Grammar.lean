import ClusteringKeys.Json.Basic
import ClusteringKeys.Text.Hex

namespace ClusteringKeys.Json

/-- The number that four hexadecimal digits write. -/
def unit? (a b c d : Char) : Option Nat := do
  let high := 0x10 * (← Text.hexValue? a) + (← Text.hexValue? b)
  let low := 0x10 * (← Text.hexValue? c) + (← Text.hexValue? d)
  return 0x100 * high + low

/-- The character that a backslash and a letter stand for. -/
def unescape? (c : Char) : Option Char :=
  match c with
  | '"' | '\\' | '/' => some c
  | 'b' => some '\x08'
  | 'f' => some '\x0c'
  | 'n' => some '\n'
  | 'r' => some '\r'
  | 't' => some '\t'
  | _ => none

def isHighSurrogate (n : Nat) : Bool := 0xD800 ≤ n && n < 0xDC00

def isLowSurrogate (n : Nat) : Bool := 0xDC00 ≤ n && n < 0xE000

/-- What stands between the quotes of a string literal, and the text that it spells. Characters that take two escapes
    are left out. -/
inductive Spells : List Char → List Char → Prop where
  | nil : Spells [] []
  | plain {c : Char} {literal text : List Char} :
    0x20 ≤ c.toNat → c ≠ '"' → c ≠ '\\' → Spells literal text → Spells (c :: literal) (c :: text)
  | escaped {e c : Char} {literal text : List Char} :
    unescape? e = some c → Spells literal text → Spells ('\\' :: e :: literal) (c :: text)
  | unit {a b c d : Char} {n : Nat} {literal text : List Char} :
    unit? a b c d = some n → isHighSurrogate n = false → isLowSurrogate n = false → Spells literal text →
      Spells ('\\' :: 'u' :: a :: b :: c :: d :: literal) (Char.ofNat n :: text)

/-- The integer is one of 64 bits, with or without a sign. -/
def IsWord (i : Int) : Prop :=
  Int64.minValue.toInt ≤ i ∧ i < UInt64.size

mutual

/-- The tree that a text writes, by the grammar of the format. At most so many lists and objects stand inside one
    another. Blank space is left out, and so are numbers other than integers of 64 bits. -/
inductive Denotes : Nat → List Char → Json → Prop where
  | null {depth : Nat} : Denotes depth ['n', 'u', 'l', 'l'] null
  | true {depth : Nat} : Denotes depth ['t', 'r', 'u', 'e'] (bool true)
  | false {depth : Nat} : Denotes depth ['f', 'a', 'l', 's', 'e'] (bool false)
  | natural {depth n : Nat} : IsWord (.ofNat n) → Denotes depth (Nat.toDigits 10 n) (ofInt (.ofNat n))
  | negative {depth n : Nat} :
    IsWord (.negSucc n) → Denotes depth ('-' :: Nat.toDigits 10 (n + 1)) (ofInt (.negSucc n))
  | text {depth : Nat} {literal : List Char} {s : String} :
    Spells literal s.toList → Denotes depth ('"' :: (literal ++ ['"'])) (text s)
  | emptyList {depth : Nat} : Denotes (depth + 1) ['[', ']'] (list [])
  | list {depth : Nat} {t ts : List Char} {item : Json} {items : List Json} :
    Denotes depth t item → DenotesItems depth ts items → Denotes (depth + 1) ('[' :: (t ++ ts)) (list (item :: items))
  | emptyObject {depth : Nat} : Denotes (depth + 1) ['\x7b', '\x7d'] (object [])
  | object {depth : Nat} {literal t ts : List Char} {name : String} {value : Json} {members : List (String × Json)} :
    Spells literal name.toList → Denotes depth t value → DenotesMembers depth ts members →
      Denotes (depth + 1) ('\x7b' :: '"' :: (literal ++ '"' :: ':' :: (t ++ ts))) (object ((name, value) :: members))

/-- The items that follow an item of a list, up to its end. -/
inductive DenotesItems : Nat → List Char → List Json → Prop where
  | nil {depth : Nat} : DenotesItems depth [']'] []
  | cons {depth : Nat} {t ts : List Char} {item : Json} {items : List Json} :
    Denotes depth t item → DenotesItems depth ts items → DenotesItems depth (',' :: (t ++ ts)) (item :: items)

/-- The members that follow a member of an object, up to its end. -/
inductive DenotesMembers : Nat → List Char → List (String × Json) → Prop where
  | nil {depth : Nat} : DenotesMembers depth ['\x7d'] []
  | cons {depth : Nat} {literal t ts : List Char} {name : String} {value : Json} {members : List (String × Json)} :
    Spells literal name.toList → Denotes depth t value → DenotesMembers depth ts members →
      DenotesMembers depth (',' :: '"' :: (literal ++ '"' :: ':' :: (t ++ ts))) ((name, value) :: members)

end

end ClusteringKeys.Json
