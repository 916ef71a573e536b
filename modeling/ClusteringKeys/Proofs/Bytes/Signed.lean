import ClusteringKeys.Proofs.Bytes.Word
import Mathlib

namespace ClusteringKeys.Bytes

theorem isNegative_iff (b : Bytes) : b.isNegative ↔ 256 ^ b.length ≤ 2 * b.toNat := by
  cases b with
  | nil => simp [isNegative]
  | cons x rest =>
    have hlt := toNat_lt rest
    have hsign : isNegative (x :: rest) ↔ 128 ≤ x.toNat := by
      rw [isNegative, decide_eq_true_iff, UInt8.le_iff_toNat_le]
      rfl
    rw [hsign, toNat_cons, List.length_cons, pow_succ]
    constructor
    · intro h
      have := Nat.mul_le_mul_right (256 ^ rest.length) h
      omega
    · intro h
      by_contra hx
      have hx : x.toNat + 1 ≤ 128 := by omega
      have := Nat.mul_le_mul_right (256 ^ rest.length) hx
      rw [Nat.succ_mul] at this
      omega

theorem toInt_of_isNegative {b : Bytes} (h : b.isNegative) : b.toInt = (b.toNat : Int) - 256 ^ b.length := by
  rw [toInt, if_pos h]
  rfl

theorem toInt_of_not_isNegative {b : Bytes} (h : ¬ b.isNegative) : b.toInt = b.toNat := by
  rw [toInt, if_neg h]

theorem toInt_neg_iff (b : Bytes) : b.toInt < 0 ↔ b.isNegative := by
  have hlt := toNat_lt b
  by_cases h : b.isNegative
  · rw [toInt_of_isNegative h]
    simp only [h, iff_true]
    zify at hlt
    omega
  · rw [toInt_of_not_isNegative h]
    simp [h]

/-- Two's complement of one width tells all numbers apart. -/
theorem toInt_injective {a b : Bytes} (hlength : a.length = b.length) (h : a.toInt = b.toInt) : a = b := by
  refine toNat_injective hlength ?_
  have hsign : a.isNegative ↔ b.isNegative := by rw [← toInt_neg_iff, ← toInt_neg_iff, h]
  by_cases ha : a.isNegative
  · rw [toInt_of_isNegative ha, toInt_of_isNegative (hsign.mp ha), hlength] at h
    omega
  · rw [toInt_of_not_isNegative ha, toInt_of_not_isNegative (mt hsign.mpr ha)] at h
    omega

theorem signed?_eq_some_iff {width : Nat} {b : Bytes} {n : Int} :
    signed? width b = some n ↔ b.length = width ∧ b.toInt = n := by
  rw [signed?]
  split
  next hlength => simp [hlength]
  next hlength => simp [hlength]

@[simp]
theorem length_ofInt (width : Nat) (n : Int) : (ofInt width n).length = width :=
  length_ofNat _ _

theorem toNat_ofInt (width : Nat) (n : Int) : ((ofInt width n).toNat : Int) = n % 256 ^ width := by
  have hpos : (0 : Int) < 256 ^ width := by positivity
  have hnonneg : 0 ≤ n % 256 ^ width := Int.emod_nonneg n hpos.ne'
  have hlt : n % 256 ^ width < 256 ^ width := Int.emod_lt_of_pos n hpos
  have hcast : ((Nat.pow 256 width : Nat) : Int) = 256 ^ width := rfl
  rw [ofInt, toNat_ofNat, hcast, Nat.mod_eq_of_lt, Int.toNat_of_nonneg hnonneg]
  zify
  rwa [Int.toNat_of_nonneg hnonneg]

/-- So many bytes can write the number in two's complement. -/
def Fits (width : Nat) (n : Int) : Prop :=
  -(256 ^ width) ≤ 2 * n ∧ 2 * n < 256 ^ width

theorem Fits.mono {width width' : Nat} {n : Int} (h : Fits width n) (hle : width ≤ width') : Fits width' n := by
  have hpow : (256 : Int) ^ width ≤ 256 ^ width' := pow_le_pow_right₀ (by decide) hle
  exact ⟨Int.le_trans (Int.neg_le_neg hpow) h.1, Int.lt_of_lt_of_le h.2 hpow⟩

/-- Numbers in the range of a width are read back from it. -/
theorem toInt_ofInt {width : Nat} {n : Int} (h : Fits width n) : (ofInt width n).toInt = n := by
  obtain ⟨hlow, hhigh⟩ := h
  have hnat := toNat_ofInt width n
  have hsign := isNegative_iff (ofInt width n)
  rw [length_ofInt] at hsign
  zify at hsign
  by_cases hn : 0 ≤ n
  · rw [Int.emod_eq_of_lt hn (by omega)] at hnat
    rw [toInt_of_not_isNegative (by rw [hsign]; omega), hnat]
  · have hmod : n % 256 ^ width = n + 256 ^ width := by
      rw [← Int.add_emod_right, Int.emod_eq_of_lt (by omega) (by omega)]
    rw [hmod] at hnat
    rw [toInt_of_isNegative (by rw [hsign]; omega), length_ofInt, hnat]
    omega

theorem fits_toInt (b : Bytes) : Fits b.length b.toInt := by
  have hlt := toNat_lt b
  have hsign := isNegative_iff b
  zify at hlt hsign
  by_cases hneg : b.isNegative
  · have hhalf := hsign.mp hneg
    rw [toInt_of_isNegative hneg]
    exact ⟨by omega, by omega⟩
  · have hhalf := mt hsign.mpr hneg
    rw [toInt_of_not_isNegative hneg]
    exact ⟨by omega, by omega⟩

/-- Bytes are the two's complement, at their own width, of the number that they write. -/
theorem ofInt_toInt (b : Bytes) : ofInt b.length b.toInt = b :=
  toInt_injective (length_ofInt _ _) (toInt_ofInt (fits_toInt b))

theorem ofInt_toNat (b : Bytes) : ofInt b.length b.toNat = b := by
  have hlt := toNat_lt b
  have hnat := toNat_ofInt b.length b.toNat
  zify at hlt
  rw [Int.emod_eq_of_lt (Int.natCast_nonneg _) hlt] at hnat
  exact toNat_injective (length_ofInt _ _) (Int.natCast_inj.mp hnat)

private theorem toNat_replicate_zero (k : Nat) : toNat (List.replicate k 0) = 0 := by
  induction k with
  | zero => rfl
  | succ k ih => rw [List.replicate_succ, toNat_cons, ih, UInt8.toNat_zero, Nat.zero_mul]

private theorem toNat_replicate_ones (k : Nat) : toNat (List.replicate k 0xFF) + 1 = 256 ^ k := by
  induction k with
  | zero => rfl
  | succ k ih =>
    have hbyte : (0xFF : UInt8).toNat = 255 := rfl
    rw [List.replicate_succ, toNat_cons, List.length_replicate, hbyte, Nat.add_assoc, ih, pow_succ]
    ring

theorem length_signExtend {width : Nat} {b : Bytes} (h : b.length ≤ width) : (b.signExtend width).length = width := by
  rw [signExtend, List.length_append, List.length_replicate, Nat.sub_add_cancel h]

/-- Sign extension keeps the number: nothing is put in front of a number that is not negative, and the value of all
    the ones in front of a negative number makes up for its larger width. -/
theorem toNat_signExtend {width : Nat} {b : Bytes} (h : b.length ≤ width) :
    ((b.signExtend width).toNat : Int) = b.toInt + if b.isNegative then 256 ^ width else 0 := by
  have hpow : 256 ^ (width - b.length) * 256 ^ b.length = 256 ^ width := by
    rw [← pow_add, Nat.sub_add_cancel h]
  rw [signExtend, toNat_append]
  split
  next hneg =>
    have hones := toNat_replicate_ones (width - b.length)
    rw [← hones, Nat.add_one_mul] at hpow
    rw [toInt_of_isNegative hneg]
    zify at hpow
    push_cast
    omega
  next hpos =>
    rw [toNat_replicate_zero, toInt_of_not_isNegative hpos]
    omega

/-- Two's complement numbers order by number, and equal ones by width. -/
theorem compareSigned_eq (a b : Bytes) :
    compareSigned a b = (compare a.toInt b.toInt).then (compare a.length b.length) := by
  have ha := toInt_neg_iff a
  have hb := toInt_neg_iff b
  have hsame (hsign : a.isNegative = b.isNegative) :
      compare (a.signExtend (max a.length b.length)) (b.signExtend (max a.length b.length)) =
        compare a.toInt b.toInt := by
    have hextA := length_signExtend (le_max_left a.length b.length)
    have hextB := length_signExtend (le_max_right a.length b.length)
    have hnatA := toNat_signExtend (le_max_left a.length b.length)
    have hnatB := toNat_signExtend (le_max_right a.length b.length)
    rw [hsign] at hnatA
    rw [compare_eq_compare_toNat (hextA.trans hextB.symm)]
    rcases lt_trichotomy a.toInt b.toInt with h | h | h
    · rw [Std.compare_eq_lt.mpr h, Nat.compare_eq_lt.mpr (by omega)]
    · rw [h, Nat.compare_eq_eq.mpr (by omega), Std.ReflOrd.compare_self]
    · rw [Std.compare_eq_gt.mpr h, Nat.compare_eq_gt.mpr (by omega)]
  rw [compareSigned]
  cases hsa : a.isNegative with
  | false =>
    have ha : 0 ≤ a.toInt := by rw [← not_lt, ha, hsa]; exact Bool.false_ne_true
    cases hsb : b.isNegative with
    | false => exact congrArg (·.then (compare a.length b.length)) (hsame (hsa.trans hsb.symm))
    | true =>
      rw [Std.compare_eq_gt.mpr (lt_of_lt_of_le (hb.mpr hsb) ha)]
      rfl
  | true =>
    cases hsb : b.isNegative with
    | false =>
      have hb : 0 ≤ b.toInt := by rw [← not_lt, hb, hsb]; exact Bool.false_ne_true
      rw [Std.compare_eq_lt.mpr (lt_of_lt_of_le (ha.mpr hsa) hb)]
      rfl
    | true => exact congrArg (·.then (compare a.length b.length)) (hsame (hsa.trans hsb.symm))

theorem compareSigned_eq_compareLex : compareSigned = compareLex (compareOn toInt) (compareOn List.length) :=
  funext₂ compareSigned_eq

instance : Std.TransCmp compareSigned := by
  rw [compareSigned_eq_compareLex]
  infer_instance

theorem compareSigned_isLE_trans {a b c : Bytes} (hab : (compareSigned a b).isLE) (hbc : (compareSigned b c).isLE) :
    (compareSigned a c).isLE :=
  Std.TransCmp.isLE_trans hab hbc

instance : Std.LawfulEqCmp compareSigned where
  compare_self := Std.ReflCmp.compare_self
  eq_of_compare h := by
    rw [compareSigned_eq_compareLex] at h
    obtain ⟨hnumber, hlength⟩ := compareLex_eq_eq.mp h
    exact toInt_injective (Std.LawfulEqOrd.eq_of_compare hlength) (Std.LawfulEqOrd.eq_of_compare hnumber)

end ClusteringKeys.Bytes
