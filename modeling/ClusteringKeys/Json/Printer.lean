import ClusteringKeys.Json.Basic

namespace ClusteringKeys.Json

/-- A character inside a string: only quotes, backslashes and control characters are escaped. -/
def escape (c : Char) : List Char :=
  match c with
  | '"' => ['\\', '"']
  | '\\' => ['\\', '\\']
  | '\x08' => ['\\', 'b']
  | '\t' => ['\\', 't']
  | '\n' => ['\\', 'n']
  | '\x0c' => ['\\', 'f']
  | '\r' => ['\\', 'r']
  | c =>
    if c.toNat < 0x20 then
      ['\\', 'u', '0', '0', Nat.digitChar (c.toNat / 16), Nat.digitChar (c.toNat % 16)]
    else [c]

def renderString (s : String) : List Char :=
  '"' :: s.toList.flatMap escape ++ ['"']

/-- A number literal, without a plus sign or needless zeros. -/
def Number.render (n : Number) : List Char :=
  let fraction := n.fraction.map fun d => Nat.digitChar d.val
  (if n.negative then ['-'] else []) ++ Nat.toDigits 10 n.whole ++
    (if fraction.isEmpty then [] else '.' :: fraction) ++
    match n.exponent with
    | none => []
    | some e => 'e' :: (if e < 0 then ['-'] else []) ++ Nat.toDigits 10 e.natAbs

mutual

def render : Json → List Char
  | null => ['n', 'u', 'l', 'l']
  | bool true => ['t', 'r', 'u', 'e']
  | bool false => ['f', 'a', 'l', 's', 'e']
  | number n => n.render
  | text s => renderString s
  | list [] => ['[', ']']
  | list (item :: items) => '[' :: render item ++ renderItems items
  | object [] => ['\x7b', '\x7d']
  | object ((name, value) :: members) => '\x7b' :: renderString name ++ ':' :: render value ++ renderMembers members
  | unreadable => ['"', '\\', 'u', 'd', '8', '0', '0', '"']

def renderItems : List Json → List Char
  | [] => [']']
  | item :: items => ',' :: render item ++ renderItems items

def renderMembers : List (String × Json) → List Char
  | [] => ['\x7d']
  | (name, value) :: members => ',' :: renderString name ++ ':' :: render value ++ renderMembers members

end

end ClusteringKeys.Json
