import ClusteringKeys.Bytes.Basic

namespace ClusteringKeys.Bytes

/-- The number whose digits to base 256 are the bytes, the most significant first. -/
def toNat (b : Bytes) : Nat :=
  b.foldl (fun n x => 256 * n + x.toNat) 0

/-- The lowest `width` digits of a number to base 256, the most significant first. -/
def ofNat : Nat → Nat → Bytes
  | 0, _ => []
  | width + 1, n => ofNat width (n / 256) ++ [UInt8.ofNat n]

/-- The sign bit: the highest bit of the first byte. -/
def isNegative : Bytes → Bool
  | [] => false
  | x :: _ => 0x80 ≤ x

/-- The number that the bytes write in two's complement of their own width. -/
def toInt (b : Bytes) : Int :=
  if b.isNegative then (b.toNat : Int) - Nat.pow 256 b.length else b.toNat

/-- Two's complement in `width` bytes; numbers outside that range lose their high digits. -/
def ofInt (width : Nat) (n : Int) : Bytes :=
  ofNat width (n % Nat.pow 256 width).toNat

def unsigned? (width : Nat) (b : Bytes) : Option Nat :=
  if b.length = width then some b.toNat else none

def signed? (width : Nat) (b : Bytes) : Option Int :=
  if b.length = width then some b.toInt else none

/-- Fills up on the left with copies of the sign bit, which keeps the two's complement number. -/
def signExtend (width : Nat) (b : Bytes) : Bytes :=
  List.replicate (width - b.length) (if b.isNegative then 0xFF else 0) ++ b

/-- Orders two's complement numbers of any widths. Once both have the same sign and width, unsigned bytes decide.
    Equal numbers order by width, so that only identical bytes compare equal. -/
def compareSigned (left right : Bytes) : Ordering :=
  match left.isNegative, right.isNegative with
  | true, false => .lt
  | false, true => .gt
  | _, _ =>
    let width := max left.length right.length
    (compare (left.signExtend width) (right.signExtend width)).then (compare left.length right.length)

end ClusteringKeys.Bytes
