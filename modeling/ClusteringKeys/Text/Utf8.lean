import ClusteringKeys.Bytes.Basic

namespace ClusteringKeys.Utf8

/-- Why bytes are not well-formed text. `index` counts the bytes before the first character that cannot be read. -/
inductive Fault where
  /-- `length` bytes begin like a character, at least one, and the byte after them cannot continue it. -/
  | malformed (length index : Nat)
  /-- The data ends inside a character. -/
  | incomplete (index : Nat)
  deriving DecidableEq

def Fault.message : Fault → String
  | malformed length index => s!"invalid utf-8 sequence of {length} bytes from index {index}"
  | incomplete index => s!"incomplete utf-8 byte sequence from index {index}"

/-- The one to four bytes of a character: the first tells how many follow, and each of those carries six bits. -/
def encodeChar (c : Char) : Bytes :=
  let n := c.toNat
  if n < 0x80 then [UInt8.ofNat n]
  else if n < 0x800 then [UInt8.ofNat (0xC0 + n / 0x40), UInt8.ofNat (0x80 + n % 0x40)]
  else if n < 0x10000 then
    [UInt8.ofNat (0xE0 + n / 0x1000), UInt8.ofNat (0x80 + n / 0x40 % 0x40), UInt8.ofNat (0x80 + n % 0x40)]
  else
    [UInt8.ofNat (0xF0 + n / 0x40000), UInt8.ofNat (0x80 + n / 0x1000 % 0x40),
      UInt8.ofNat (0x80 + n / 0x40 % 0x40), UInt8.ofNat (0x80 + n % 0x40)]

def encode (s : String) : Bytes :=
  s.toList.flatMap encodeChar

/-- A character of several bytes under way: the bits read so far, how many bytes carried them, how many are still to
    come, and the values that the next one may have. -/
structure Pending where
  bits : Nat
  read : Nat
  missing : Nat
  low : UInt8
  high : UInt8

/-- What a first byte above ASCII opens. The limits on the second byte rule out longer spellings of a character than
    needed, surrogates, and numbers past the last character. -/
def Pending.open? (b : UInt8) : Option Pending :=
  if b < 0xC2 then none
  else if b < 0xE0 then some ⟨b.toNat - 0xC0, 1, 1, 0x80, 0xBF⟩
  else if b < 0xF0 then
    some ⟨b.toNat - 0xE0, 1, 2, if b = 0xE0 then 0xA0 else 0x80, if b = 0xED then 0x9F else 0xBF⟩
  else if b < 0xF5 then
    some ⟨b.toNat - 0xF0, 1, 3, if b = 0xF0 then 0x90 else 0x80, if b = 0xF4 then 0x8F else 0xBF⟩
  else none

def Pending.step (p : Pending) (b : UInt8) : Pending :=
  ⟨0x40 * p.bits + (b.toNat - 0x80), p.read + 1, p.missing - 1, 0x80, 0xBF⟩

/-- Reads characters from `index` on, the first of them possibly under way. -/
def decodeFrom (index : Nat) : Option Pending → Bytes → Except Fault (List Char)
  | none, [] => .ok []
  | some _, [] => .error (.incomplete index)
  | none, b :: rest =>
    if b < 0x80 then do
      return Char.ofNat b.toNat :: (← decodeFrom (index + 1) none rest)
    else
      match Pending.open? b with
      | none => .error (.malformed 1 index)
      | some p => decodeFrom index (some p) rest
  | some p, b :: rest =>
    if p.low ≤ b ∧ b ≤ p.high then
      let next := p.step b
      if next.missing = 0 then do
        return Char.ofNat next.bits :: (← decodeFrom (index + next.read) none rest)
      else decodeFrom index (some next) rest
    else .error (.malformed p.read index)

/-- The text that the bytes spell, or the first place where they spell none. -/
def decode (b : Bytes) : Except Fault String :=
  String.ofList <$> decodeFrom 0 none b

end ClusteringKeys.Utf8
