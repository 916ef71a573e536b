import ClusteringKeys.Json.Grammar

namespace ClusteringKeys.Json

def isSpace (c : Char) : Bool :=
  c = ' ' || c = '\n' || c = '\t' || c = '\r'

def skipSpace (s : List Char) : List Char :=
  s.dropWhile isSpace

def digit? (c : Char) : Option (Fin 10) :=
  if c.isDigit then some (lastDigit (c.toNat - '0'.toNat)) else none

def digits : List Char → List (Fin 10) × List Char
  | [] => ([], [])
  | c :: rest =>
    match digit? c with
    | none => ([], c :: rest)
    | some d => (d :: (digits rest).1, (digits rest).2)

def ofDigits (ds : List (Fin 10)) : Nat :=
  ds.foldl (fun n d => 10 * n + d.val) 0

/-- A point with at least one digit after it, or nothing. -/
def fraction? : List Char → Option (List (Fin 10) × List Char)
  | '.' :: s =>
    match digits s with
    | ([], _) => none
    | (ds, rest) => some (ds, rest)
  | s => some ([], s)

def signed? : List Char → Option (Int × List Char)
  | '-' :: s =>
    match digits s with
    | ([], _) => none
    | (ds, rest) => some (-(ofDigits ds : Int), rest)
  | s =>
    match digits (if s.head? = some '+' then s.tail else s) with
    | ([], _) => none
    | (ds, rest) => some (ofDigits ds, rest)

def exponent? : List Char → Option (Option Int × List Char)
  | 'e' :: s | 'E' :: s => (signed? s).map fun (e, rest) => (some e, rest)
  | s => some (none, s)

/-- A number literal; its integer part has no needless zeros in front. -/
def number? (s : List Char) : Option (Number × List Char) := do
  let negative := s.head? = some '-'
  let (whole, s) := digits (if negative then s.tail else s)
  guard (whole ≠ [] ∧ (whole.length = 1 ∨ whole.head? ≠ some 0))
  let (fraction, s) ← fraction? s
  let (exponent, s) ← exponent? s
  return (⟨negative, ofDigits whole, fraction, exponent⟩, s)

/-- A part of a string literal: a character, or an escape with the number of a code unit. -/
inductive Piece where
  | char (c : Char)
  | unit (n : Nat)

/-- The parts of a string up to its closing quote. Control characters have to be escaped. -/
def pieces? : List Char → Option (List Piece × List Char)
  | [] => none
  | '"' :: rest => some ([], rest)
  | '\\' :: 'u' :: a :: b :: c :: d :: rest => do
    let n ← unit? a b c d
    let (ps, rest) ← pieces? rest
    return (.unit n :: ps, rest)
  | '\\' :: c :: rest => do
    let c ← unescape? c
    let (ps, rest) ← pieces? rest
    return (.char c :: ps, rest)
  | c :: rest => do
    guard (0x20 ≤ c.toNat ∧ c ≠ '\\')
    let (ps, rest) ← pieces? rest
    return (.char c :: ps, rest)

/-- The text that the parts spell, where every half of a pair has its other half. -/
def assemble? : List Piece → Option (List Char)
  | [] => some []
  | .char c :: ps => (assemble? ps).map (c :: ·)
  | .unit n :: .unit m :: ps =>
    if isHighSurrogate n && isLowSurrogate m then
      (assemble? ps).map (Char.ofNat (0x10000 + 0x400 * (n - 0xD800) + (m - 0xDC00)) :: ·)
    else if isHighSurrogate n || isLowSurrogate n then none
    else (assemble? (.unit m :: ps)).map (Char.ofNat n :: ·)
  | .unit n :: ps =>
    if isHighSurrogate n || isLowSurrogate n then none
    else (assemble? ps).map (Char.ofNat n :: ·)

/-- A string literal after its opening quote: its text, if there is one, and what follows. -/
def string? (s : List Char) : Option (Option String × List Char) := do
  let (ps, rest) ← pieces? s
  return ((assemble? ps).map String.ofList, rest)

def name? (s : List Char) : Option (Option String × List Char) :=
  match skipSpace s with
  | '"' :: s => do
    let (name, s) ← string? s
    match skipSpace s with
    | ':' :: s => some (name, s)
    | _ => none
  | _ => none

mutual

/-- A tree and what follows it. The first argument bounds the number of nested and successive parts. -/
def value? : Nat → List Char → Option (Json × List Char)
  | 0, _ => none
  | fuel + 1, s =>
    match skipSpace s with
    | 'n' :: 'u' :: 'l' :: 'l' :: rest => some (null, rest)
    | 't' :: 'r' :: 'u' :: 'e' :: rest => some (bool true, rest)
    | 'f' :: 'a' :: 'l' :: 's' :: 'e' :: rest => some (bool false, rest)
    | '"' :: rest => do
      let (s, rest) ← string? rest
      return (s.elim unreadable text, rest)
    | '[' :: rest =>
      match skipSpace rest with
      | ']' :: rest => some (list [], rest)
      | rest => do
        let (item, rest) ← value? fuel rest
        let (items, rest) ← items? fuel rest
        return (list (item :: items), rest)
    | '\x7b' :: rest =>
      match skipSpace rest with
      | '\x7d' :: rest => some (object [], rest)
      | rest => do
        let (name, rest) ← name? rest
        let (value, rest) ← value? fuel rest
        let (members, rest) ← members? fuel rest
        return (ofMembers ((name, value) :: members), rest)
    | rest => do
      let (n, rest) ← number? rest
      return (number n, rest)

def items? : Nat → List Char → Option (List Json × List Char)
  | 0, _ => none
  | fuel + 1, s =>
    match skipSpace s with
    | ']' :: rest => some ([], rest)
    | ',' :: rest => do
      let (item, rest) ← value? fuel rest
      let (items, rest) ← items? fuel rest
      return (item :: items, rest)
    | _ => none

def members? : Nat → List Char → Option (List (Option String × Json) × List Char)
  | 0, _ => none
  | fuel + 1, s =>
    match skipSpace s with
    | '\x7d' :: rest => some ([], rest)
    | ',' :: rest => do
      let (name, rest) ← name? rest
      let (value, rest) ← value? fuel rest
      let (members, rest) ← members? fuel rest
      return ((name, value) :: members, rest)
    | _ => none

end

/-- Reads a text that holds one tree and nothing else but blank space. Every part takes at least one character, so the
    length of the text bounds their number. -/
def parse? (s : String) : Option Json := do
  let (j, rest) ← value? (s.length + 1) s.toList
  guard ((skipSpace rest).isEmpty)
  return j

end ClusteringKeys.Json
