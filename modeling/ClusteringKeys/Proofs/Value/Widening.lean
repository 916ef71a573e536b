import ClusteringKeys.Proofs.Value.Encode
import Mathlib

namespace ClusteringKeys

/-- The bytes that each value takes, for the types of plain whole numbers. -/
def KeyType.integerWidth? : KeyType → Option Nat
  | tinyint => some 1
  | smallint => some 2
  | int => some 4
  | bigint => some 8
  | _ => none

namespace Value

/-- A plain whole number, and the bytes of the width in which it is stated. -/
def integer? : Value → Option (Nat × Int)
  | tinyint n => some (1, n.toInt)
  | smallint n => some (2, n.toInt)
  | int n => some (4, n.toInt)
  | bigint n => some (8, n.toInt)
  | _ => none

/-- A column takes whole numbers stated in `stated` bytes: those of its own width and of smaller ones, but a column of
    eight bytes takes none of less than four. -/
def Widens (stated width : Nat) : Prop :=
  stated ≤ width ∧ (width < 8 ∨ 4 ≤ stated)

instance (stated width : Nat) : Decidable (Widens stated width) :=
  inferInstanceAs (Decidable (_ ∧ _))

theorem fits_of_integer? {v : Value} {stated : Nat} {n : Int} (hv : v.integer? = some (stated, n)) :
    Bytes.Fits stated n := by
  cases v <;> cases hv
  case tinyint n => exact fits_int8 n
  case smallint n => exact fits_int16 n
  case int n => exact fits_int32 n
  case bigint n => exact fits_int64 n

/-- Each number in the range of a width can be stated in it, and the type of that width takes it. -/
theorem exists_integer?_of_fits {type : KeyType} {width : Nat} (htype : type.integerWidth? = some width) {n : Int}
    (hn : Bytes.Fits width n) :
    ∃ w : Value, w.integer? = some (width, n) ∧ w.encode? type = some (Bytes.ofInt width n) := by
  obtain ⟨hlow, hhigh⟩ := hn
  cases type <;> cases htype
  case tinyint =>
    have hread : (Int8.ofInt n).toInt = n := Int8.toInt_ofInt_of_le (by omega) (by omega)
    exact ⟨tinyint (Int8.ofInt n), by rw [integer?, hread], by rw [encode?, hread]⟩
  case smallint =>
    have hread : (Int16.ofInt n).toInt = n := Int16.toInt_ofInt_of_le (by omega) (by omega)
    exact ⟨smallint (Int16.ofInt n), by rw [integer?, hread], by rw [encode?, hread]⟩
  case int =>
    have hread : (Int32.ofInt n).toInt = n := Int32.toInt_ofInt_of_le (by omega) (by omega)
    exact ⟨int (Int32.ofInt n), by rw [integer?, hread], by rw [encode?, hread]⟩
  case bigint =>
    have hread : (Int64.ofInt n).toInt = n := Int64.toInt_ofInt_of_le (by omega) (by omega)
    exact ⟨bigint (Int64.ofInt n), by rw [integer?, hread], by rw [encode?, hread]⟩

theorem encode?_eq_of_integer? {type : KeyType} {width : Nat} (htype : type.integerWidth? = some width) {v : Value}
    {stated : Nat} {n : Int} (hv : v.integer? = some (stated, n)) :
    v.encode? type = if Widens stated width then some (Bytes.ofInt width n) else none := by
  cases type <;> cases htype <;> cases v <;> cases hv <;> rfl

/-- Columns of whole numbers take those of their own width and of smaller ones, except that a bigint column takes none
    narrower than an int. What a column takes it stores in two's complement at its own width, with the bytes that the
    number has if it is stated in that width. It refuses everything else. -/
theorem encode_widens_integers {type : KeyType} {width : Nat} (htype : type.integerWidth? = some width) {v : Value}
    {stated : Nat} {n : Int} (hv : v.integer? = some (stated, n)) :
    (Widens stated width → ∃ b, v.encode type = .ok b ∧ b.length = width ∧ b.toInt = n ∧
      ∃ w : Value, w.integer? = some (width, n) ∧ w.encode type = .ok b) ∧
    (¬ Widens stated width → v.encode type = .error (.unsuited v type)) := by
  have hencode := encode?_eq_of_integer? htype hv
  constructor
  · intro hwidens
    have hfits : Bytes.Fits width n := (fits_of_integer? hv).mono hwidens.1
    rw [if_pos hwidens] at hencode
    obtain ⟨w, hw, hwEncode⟩ := exists_integer?_of_fits htype hfits
    exact ⟨Bytes.ofInt width n, encode_eq_ok_iff.mpr hencode, Bytes.length_ofInt width n, Bytes.toInt_ofInt hfits, w,
      hw, encode_eq_ok_iff.mpr hwEncode⟩
  · intro hnot
    have hnull : v.isNull = false := by
      cases v <;> cases hv <;> rfl
    rw [if_neg hnot] at hencode
    simp only [encode, hnull, hencode, Bool.false_eq_true, if_false]

/-- A negative smallint is widened in an int column, and no bigint column takes it. -/
theorem encode_widens_integers_of_smallint :
    let b : Bytes := [0xFF, 0xFF, 0xFF, 0xFD]
    KeyType.int.integerWidth? = some 4 ∧ KeyType.bigint.integerWidth? = some 8 ∧
      (smallint (-3)).integer? = some (2, -3) ∧ (smallint (-3)).encode .int = .ok b ∧ b.toInt = -3 ∧
      (smallint (-3)).encode .bigint = .error (.unsuited (smallint (-3)) .bigint) := by
  intro b
  have hint : KeyType.int.integerWidth? = some 4 := rfl
  have hbigint : KeyType.bigint.integerWidth? = some 8 := rfl
  have hv : (smallint (-3)).integer? = some (2, -3) := rfl
  obtain ⟨b', hencode, _, hnumber, _⟩ := (encode_widens_integers hint hv).1 (by decide)
  have hb : (smallint (-3)).encode .int = .ok b := by decide +kernel
  obtain rfl : b' = b := Except.ok.inj (hencode.symm.trans hb)
  exact ⟨hint, hbigint, hv, hb, hnumber, (encode_widens_integers hbigint hv).2 (by decide)⟩

/-- A tinyint is narrower than a bigint and not stored in one. -/
theorem bigint_refuses_tinyint :
    ¬ ∀ (type : KeyType) (width : Nat) (v : Value) (stated : Nat) (n : Int), type.integerWidth? = some width →
      v.integer? = some (stated, n) → stated ≤ width → ∃ b, v.encode type = .ok b := by
  intro hwidens
  obtain ⟨b, hb⟩ := hwidens .bigint 8 (tinyint 5) 1 5 rfl rfl (by decide)
  cases hb

end Value

end ClusteringKeys
