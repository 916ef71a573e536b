import ClusteringKeys.Bytes.Word
import Mathlib

namespace ClusteringKeys.Bytes

private theorem foldl_digits (b : Bytes) (n : Nat) :
    b.foldl (fun n x => 256 * n + x.toNat) n = n * 256 ^ b.length + b.toNat := by
  induction b generalizing n with
  | nil => simp [toNat]
  | cons x rest ih =>
    have hrest : toNat (x :: rest) = (256 * 0 + x.toNat) * 256 ^ rest.length + toNat rest := ih _
    rw [List.foldl_cons, ih, hrest, List.length_cons]
    ring

@[simp]
theorem toNat_nil : toNat [] = 0 := rfl

theorem toNat_cons (x : UInt8) (b : Bytes) : toNat (x :: b) = x.toNat * 256 ^ b.length + b.toNat := by
  rw [toNat, List.foldl_cons, foldl_digits]
  ring

theorem toNat_append (a b : Bytes) : toNat (a ++ b) = a.toNat * 256 ^ b.length + b.toNat := by
  rw [toNat, List.foldl_append, foldl_digits]
  rfl

theorem toNat_lt (b : Bytes) : b.toNat < 256 ^ b.length := by
  induction b with
  | nil => simp
  | cons x rest ih =>
    have hx : x.toNat + 1 ≤ 256 := x.toNat_lt
    calc toNat (x :: rest) < x.toNat * 256 ^ rest.length + 256 ^ rest.length := by rw [toNat_cons]; omega
      _ = (x.toNat + 1) * 256 ^ rest.length := by ring
      _ ≤ 256 * 256 ^ rest.length := Nat.mul_le_mul_right _ hx
      _ = 256 ^ (x :: rest).length := by rw [List.length_cons]; ring

/-- The first digit decides between two numbers, and the lower digits only if it is the same. -/
private theorem compare_digits {base m n x y : Nat} (hm : m < base) (hn : n < base) :
    compare (x * base + m) (y * base + n) = (compare x y).then (compare m n) := by
  rcases Nat.lt_trichotomy x y with hxy | rfl | hxy
  · have hle := Nat.mul_le_mul_right base (Nat.succ_le_of_lt hxy)
    rw [Nat.succ_mul] at hle
    rw [Nat.compare_eq_lt.mpr hxy, Nat.compare_eq_lt.mpr (by omega)]
    rfl
  · rw [Nat.compare_eq_eq.mpr rfl, Ordering.eq_then]
    rcases Nat.lt_trichotomy m n with h | rfl | h
    · rw [Nat.compare_eq_lt.mpr h, Nat.compare_eq_lt.mpr (by omega)]
    · rw [Nat.compare_eq_eq.mpr rfl, Nat.compare_eq_eq.mpr rfl]
    · rw [Nat.compare_eq_gt.mpr h, Nat.compare_eq_gt.mpr (by omega)]
  · have hle := Nat.mul_le_mul_right base (Nat.succ_le_of_lt hxy)
    rw [Nat.succ_mul] at hle
    rw [Nat.compare_eq_gt.mpr hxy, Nat.compare_eq_gt.mpr (by omega)]
    rfl

private theorem compare_byte (x y : UInt8) : compare x y = compare x.toNat y.toNat := by
  change compareOfLessAndEq x y = compareOfLessAndEq x.toNat y.toNat
  simp only [compareOfLessAndEq, UInt8.lt_iff_toNat_lt, ← UInt8.toNat_inj]

/-- Between beginnings of one length the first difference decides, and what comes after them only if there is none. -/
theorem compare_append {a b : Bytes} (hlength : a.length = b.length) (c d : Bytes) :
    compare (a ++ c) (b ++ d) = (compare a b).then (compare c d) := by
  induction a generalizing b with
  | nil =>
    cases b with
    | nil => rfl
    | cons y b => cases hlength
  | cons x a ih =>
    cases b with
    | nil => cases hlength
    | cons y b =>
      rw [List.cons_append, List.cons_append, List.compare_cons_cons, List.compare_cons_cons,
        ih (Nat.succ.inj hlength), Ordering.then_assoc]

/-- Bytes of one length order like the numbers that they write. -/
theorem compare_eq_compare_toNat {a b : Bytes} (hlength : a.length = b.length) :
    compare a b = compare a.toNat b.toNat := by
  induction a generalizing b with
  | nil =>
    cases b with
    | nil => rfl
    | cons y b => cases hlength
  | cons x a ih =>
    cases b with
    | nil => cases hlength
    | cons y b =>
      have hrest : a.length = b.length := Nat.succ.inj hlength
      have ha : toNat a < 256 ^ b.length := hrest ▸ toNat_lt a
      rw [List.compare_cons_cons, compare_byte, ih hrest, toNat_cons, toNat_cons, hrest,
        compare_digits ha (toNat_lt b)]

theorem toNat_injective {a b : Bytes} (hlength : a.length = b.length) (h : a.toNat = b.toNat) : a = b := by
  have hcompare := compare_eq_compare_toNat hlength
  rw [h, Nat.compare_eq_eq.mpr rfl] at hcompare
  exact Std.LawfulEqOrd.eq_of_compare hcompare

@[simp]
theorem length_ofNat (width n : Nat) : (ofNat width n).length = width := by
  induction width generalizing n with
  | zero => rfl
  | succ width ih => rw [ofNat, List.length_append, ih, List.length_singleton]

theorem toNat_ofNat (width n : Nat) : (ofNat width n).toNat = n % 256 ^ width := by
  induction width generalizing n with
  | zero => simp [ofNat, Nat.mod_one]
  | succ width ih =>
    have hdigit : toNat [UInt8.ofNat n] = n % 256 := by simp [toNat]
    rw [ofNat, toNat_append, ih, hdigit, List.length_singleton, pow_one, pow_succ', Nat.mod_mul]
    ring

theorem ofNat_toNat (b : Bytes) : ofNat b.length b.toNat = b := by
  apply toNat_injective (length_ofNat _ _)
  rw [toNat_ofNat, Nat.mod_eq_of_lt (toNat_lt b)]

theorem unsigned?_eq_some_iff {width : Nat} {b : Bytes} {n : Nat} :
    unsigned? width b = some n ↔ b.length = width ∧ b.toNat = n := by
  rw [unsigned?]
  split
  next hlength => simp [hlength]
  next hlength => simp [hlength]

end ClusteringKeys.Bytes
