import ClusteringKeys.Floating.Round
import ClusteringKeys.Floating.Shortest
import ClusteringKeys.Json.Record

namespace ClusteringKeys.Json

def decimalDigits (n : Nat) : List Nat :=
  (Nat.toDigits 10 n).map fun c => c.toNat - '0'.toNat

/-- Appends digits to a number for as long as it stays within 64 bits. Gives the number and how many digits are left
    over. -/
def accumulate : Nat → List Nat → Nat × Nat
  | n, [] => (n, 0)
  | n, d :: ds => if 10 * n + d < UInt64.size then accumulate (10 * n + d) ds else (n, ds.length + 1)

def maxPower : Nat := 308

def powerOfTen (n : Nat) : Double :=
  Floating.nearest .double false (Nat.pow 10 n) 1

/-- Divides by a power of ten, in steps if it is too large for one. -/
def divideByPower (x : Double) (n : Nat) : Option Double :=
  if n ≤ maxPower then x.div? (powerOfTen n)
  else if x.magnitude = 0 then some x
  else do divideByPower (← x.div? (powerOfTen maxPower)) (n - maxPower)
termination_by n
decreasing_by simp only [maxPower] at *; omega

/-- Multiplies by a power of ten; none past the largest double. -/
def multiplyByPower? (x : Double) (n : Nat) : Option Double :=
  if x.magnitude = 0 then some x
  else if n ≤ maxPower then do
    let y ← x.mul? (powerOfTen n)
    guard (y.magnitude < FloatFormat.infinity .double)
    return y
  else none

/-- The double that a literal writes: its leading digits, as many as fit in 64 bits, times or divided by a power of
    ten. Each step is rounded, so that a literal of many digits need not give the double nearest to it. -/
def Number.toDouble? (n : Number) : Option Double :=
  let (leading, dropped) := accumulate 0 (decimalDigits n.whole)
  let (significand, unused) := accumulate leading (n.fraction.map Fin.val)
  let exponent : Int := dropped - (n.fraction.length - unused : Nat) + n.exponent.getD 0
  let x := Floating.nearest .double n.negative significand 1
  if exponent < 0 then divideByPower x exponent.natAbs else multiplyByPower? x exponent.toNat

/-- An integer of 64 bits is rounded once, any other number by way of a double. -/
def Number.toSingle? (n : Number) : Option Single :=
  match int? Int64.minValue.toInt (UInt64.size - 1) (number n) with
  | some i => some (Floating.nearest .single (i < 0) i.natAbs 1)
  | none => n.toDouble?.map (Floating.convert .single)

def single? : Json → Option Single
  | number n => n.toSingle?
  | _ => none

def double? : Json → Option Double
  | number n => n.toDouble?
  | _ => none

/-- A decimal in positional notation, with at least one decimal place. -/
def Number.ofDecimal (negative : Bool) (d : Decimal) : Number :=
  let places := (-d.exponent).toNat
  let unit := Nat.pow 10 places
  let value := d.digits * Nat.pow 10 d.exponent.toNat
  let fraction := (List.range (max 1 places)).reverse.map fun i => lastDigit (value % unit / Nat.pow 10 i)
  ⟨negative, value / unit, fraction, none⟩

/-- A number by its shortest digits. What is not finite has no literal and is written as null. -/
def ofFloating {f : FloatFormat} (x : Floating f) : Json :=
  match x.datum with
  | .nan | .infinite _ => null
  | .finite negative 0 _ => number (.ofDecimal negative ⟨0, 0⟩)
  | .finite negative significand exponent =>
    number (.ofDecimal negative (Floating.shortest f significand exponent))

end ClusteringKeys.Json
