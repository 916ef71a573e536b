import ClusteringKeys.Floating.Basic

namespace ClusteringKeys

/-- The quotient rounded to the nearest integer, a half to the even one. -/
def roundDiv (n d : Nat) : Nat :=
  let quotient := n / d
  let twice := 2 * (n % d)
  if twice < d then quotient
  else if d < twice then quotient + 1
  else quotient + quotient % 2

namespace Floating

variable {f : FloatFormat}

def ofMagnitude (f : FloatFormat) (negative : Bool) (magnitude : Nat) : Floating f :=
  ⟨BitVec.ofNat _ (magnitude + if negative then f.signBit else 0)⟩

/-- The number nearest to a ratio, a half to the one with an even significand; infinity past the largest number.
    The exponent is the least that keeps the significand within its bits, and a significand that rounding carries past
    them runs over into the exponent, as it should. -/
def nearest (f : FloatFormat) (negative : Bool) (num den : Nat) : Floating f :=
  if num = 0 then ofMagnitude f negative 0
  else
    let guess : Int := (num.log2 : Int) - den.log2 - f.fractionBits
    let tooHigh := num <<< (-guess).toNat < (f.leadingBit * den) <<< guess.toNat
    let exponent := max (if tooHigh then guess - 1 else guess) f.minExponent
    let significand := roundDiv (num <<< (-exponent).toNat) (den <<< exponent.toNat)
    let magnitude := (exponent - f.minExponent).toNat * f.leadingBit + significand
    ofMagnitude f negative (min magnitude f.infinity)

def ratio (significand : Nat) (exponent : Int) : Nat × Nat :=
  (significand <<< exponent.toNat, 1 <<< (-exponent).toNat)

/-- Conversion between formats. NaN keeps its sign and the leading bits of its fraction and becomes quiet. -/
def convert (g : FloatFormat) (x : Floating f) : Floating g :=
  match x.datum with
  | .nan =>
    let fraction := x.magnitude % f.leadingBit * g.leadingBit / f.leadingBit
    ofMagnitude g x.isNegative (g.infinity + (fraction ||| g.leadingBit / 2))
  | .infinite negative => ofMagnitude g negative g.infinity
  | .finite negative significand exponent =>
    let (num, den) := ratio significand exponent
    nearest g negative num den

def mul? (x y : Floating f) : Option (Floating f) :=
  match x.datum, y.datum with
  | .finite s m p, .finite t n q =>
    let (num, den) := ratio (m * n) (p + q)
    some (nearest f (s != t) num den)
  | _, _ => none

def div? (x y : Floating f) : Option (Floating f) :=
  match x.datum, y.datum with
  | .finite s m p, .finite t (n + 1) q =>
    let (num, den) := ratio m (p - q)
    some (nearest f (s != t) num (den * (n + 1)))
  | _, _ => none

end Floating

end ClusteringKeys
