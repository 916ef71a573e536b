import ClusteringKeys.Floating.Basic

namespace ClusteringKeys

structure Decimal where
  digits : Nat
  exponent : Int
  deriving DecidableEq

def Decimal.text (d : Decimal) : List Char :=
  let digits := Nat.toDigits 10 d.digits
  let places := (-d.exponent).toNat
  if places = 0 then digits ++ List.replicate d.exponent.toNat '0'
  else
    let padded := List.replicate (places + 1 - digits.length) '0' ++ digits
    padded.take (padded.length - places) ++ '.' :: padded.drop (padded.length - places)

namespace Floating

/-- The reals that round to a positive number, over one denominator; `closed` tells whether the ends do too. -/
structure Rounding where
  low : Nat
  value : Nat
  high : Nat
  den : Nat
  closed : Bool

/-- The ends lie half way to the neighbours. Below a power of two numbers are twice as dense, and a half goes to the
    even significand. -/
def rounding (f : FloatFormat) (significand : Nat) (exponent : Int) : Rounding :=
  let dense := significand = f.leadingBit ∧ f.minExponent < exponent
  let scale := (exponent - 2).toNat
  { low := (4 * significand - if dense then 1 else 2) <<< scale
    value := (4 * significand) <<< scale
    high := (4 * significand + 2) <<< scale
    den := 1 <<< (2 - exponent).toNat
    closed := significand % 2 = 0 }

/-- The multiple of ten to the `exponent` that is nearest to the value, if it lies in the interval. Only the two
    multiples beside the value can be nearest, and half way between them the upper one is taken. -/
def Rounding.onGrid? (r : Rounding) (exponent : Int) : Option Nat :=
  let fine := Nat.pow 10 (-exponent).toNat
  let step := r.den * Nat.pow 10 exponent.toNat
  let inside := fun n =>
    if r.closed then r.low * fine ≤ n ∧ n ≤ r.high * fine else r.low * fine < n ∧ n < r.high * fine
  let below := r.value * fine / step
  match decide (inside (below * step)), decide (inside ((below + 1) * step)) with
  | true, true => if 2 * (r.value * fine) < (2 * below + 1) * step then some below else some (below + 1)
  | true, false => some below
  | false, true => some (below + 1)
  | false, false => none

/-- The coarsest grid that meets the interval gives the fewest digits. -/
def Rounding.coarsest (r : Rounding) : Nat → Int → Decimal
  | 0, exponent => ⟨0, exponent⟩
  | tries + 1, exponent =>
    match r.onGrid? exponent with
    | some digits => ⟨digits, exponent⟩
    | none => r.coarsest tries (exponent - 1)

/-- The fewest digits that read back as the same number, and of those the nearest to it. The search starts at a power
    of ten above the number: a bit is worth a little more than three tenths of a digit. -/
def shortest (f : FloatFormat) (significand : Nat) (exponent : Int) : Decimal :=
  let bound : Int := significand.log2 + exponent + 1
  (rounding f significand exponent).coarsest 400 (bound * 3 / 10 + 2)

def text {f : FloatFormat} (x : Floating f) : String :=
  let signed := fun (negative : Bool) (digits : List Char) =>
    String.ofList (if negative then '-' :: digits else digits)
  match x.datum with
  | .nan => "NaN"
  | .infinite negative => signed negative ['i', 'n', 'f']
  | .finite negative 0 _ => signed negative ['0']
  | .finite negative significand exponent => signed negative (shortest f significand exponent).text

end Floating

end ClusteringKeys
