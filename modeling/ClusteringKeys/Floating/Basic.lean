import ClusteringKeys.Bytes.Word

namespace ClusteringKeys

/-- The two binary floating point formats that keys can hold. -/
inductive FloatFormat where
  | single
  | double
  deriving DecidableEq

namespace FloatFormat

def width : FloatFormat → Nat
  | single => 4
  | double => 8

def fractionBits : FloatFormat → Nat
  | single => 23
  | double => 52

/-- The bit above the fraction. It counts the exponent, and is understood to lead the significand. -/
def leadingBit : FloatFormat → Nat
  | single => 0x800000
  | double => 0x10000000000000

/-- The power of two that the lowest fraction bit of the smallest numbers stands for. -/
def minExponent : FloatFormat → Int
  | single => -149
  | double => -1074

/-- The bits of positive infinity, which are also the first above those of every finite number. -/
def infinity : FloatFormat → Nat
  | single => 0x7F800000
  | double => 0x7FF0000000000000

/-- The highest bit, set for negative numbers and for negative zero. -/
def signBit : FloatFormat → Nat
  | single => 0x80000000
  | double => 0x8000000000000000

end FloatFormat

/-- A floating point number as its bits: from the highest down a sign, a biased exponent and a fraction. -/
structure Floating (f : FloatFormat) where
  bits : BitVec (8 * f.width)
  deriving DecidableEq

abbrev Single := Floating .single

abbrev Double := Floating .double

namespace Floating

variable {f : FloatFormat}

inductive Datum where
  | nan
  | infinite (negative : Bool)
  /-- The significand times two to the exponent. -/
  | finite (negative : Bool) (significand : Nat) (exponent : Int)
  deriving DecidableEq

def isNegative (x : Floating f) : Bool :=
  f.signBit ≤ x.bits.toNat

def magnitude (x : Floating f) : Nat :=
  x.bits.toNat % f.signBit

/-- Reads the bits. The smallest biased exponent has no leading bit in the significand, and the largest none of the
    finite numbers. -/
def datum (x : Floating f) : Datum :=
  let fraction := x.magnitude % f.leadingBit
  let biased := x.magnitude / f.leadingBit
  if f.infinity < x.magnitude then .nan
  else if x.magnitude = f.infinity then .infinite x.isNegative
  else if biased = 0 then .finite x.isNegative fraction f.minExponent
  else .finite x.isNegative (f.leadingBit + fraction) (f.minExponent + biased - 1)

def isNaN (x : Floating f) : Bool :=
  f.infinity < x.magnitude

/-- Numeric equality: NaN equals nothing, and the two zeros are equal. -/
def same (x y : Floating f) : Bool :=
  !x.isNaN && !y.isNaN && (x.bits == y.bits || (x.magnitude == 0 && y.magnitude == 0))

/-- The place of a number in the order of all bit patterns: negative before positive, larger magnitudes further from
    zero, and NaN beyond infinity on either side. -/
def rank (x : Floating f) : Int :=
  if x.isNegative then -(x.magnitude : Int) - 1 else x.magnitude

def bytes (x : Floating f) : Bytes :=
  Bytes.ofNat f.width x.bits.toNat

def ofBytes? (f : FloatFormat) (b : Bytes) : Option (Floating f) :=
  (b.unsigned? f.width).map fun n => ⟨BitVec.ofNat _ n⟩

end Floating

end ClusteringKeys
