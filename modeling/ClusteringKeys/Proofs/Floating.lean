import ClusteringKeys.Floating.Basic
import ClusteringKeys.Proofs.Bytes.Word
import Mathlib

namespace ClusteringKeys.Floating

variable {f : FloatFormat}

theorem bits_lt (x : Floating f) : x.bits.toNat < 2 * f.signBit := by
  have hlt := x.bits.isLt
  cases f <;> exact hlt

/-- Sign and magnitude make up the number that the bits write. -/
theorem bits_eq (x : Floating f) : x.bits.toNat = x.magnitude + if x.isNegative then f.signBit else 0 := by
  have hlt := bits_lt x
  rw [magnitude, isNegative]
  by_cases hsign : f.signBit ≤ x.bits.toNat
  · rw [if_pos (decide_eq_true hsign), Nat.mod_eq_sub_mod hsign, Nat.mod_eq_of_lt (by omega), Nat.sub_add_cancel hsign]
  · rw [if_neg (by simpa using hsign), Nat.mod_eq_of_lt (by omega), Nat.add_zero]

/-- The total order of bit patterns tells all of them apart, the two zeros and the NaNs included. -/
theorem rank_injective : Function.Injective (rank (f := f)) := by
  intro x y h
  have hx := bits_eq x
  have hy := bits_eq y
  have hbits : x.bits.toNat = y.bits.toNat := by
    rw [rank, rank] at h
    rw [hx, hy]
    split at h <;> split at h <;> simp_all <;> omega
  obtain ⟨bits⟩ := x
  obtain ⟨bits'⟩ := y
  exact congrArg Floating.mk (BitVec.eq_of_toNat_eq hbits)

theorem ofBytes?_eq_some_iff {b : Bytes} {x : Floating f} :
    ofBytes? f b = some x ↔ b.length = f.width ∧ x.bits.toNat = b.toNat := by
  have hlt := Bytes.toNat_lt b
  have hpow : 256 ^ f.width = 2 ^ (8 * f.width) := pow_mul 2 8 f.width |>.symm
  obtain ⟨bits⟩ := x
  rw [ofBytes?, Bytes.unsigned?]
  split
  next hlength =>
    rw [hlength, hpow] at hlt
    simp [hlength, ← BitVec.toNat_inj, Nat.mod_eq_of_lt hlt, eq_comm]
  next hlength => simp [hlength]

theorem ofBytes?_injective {a b : Bytes} {x : Floating f} (ha : ofBytes? f a = some x) (hb : ofBytes? f b = some x) :
    a = b := by
  obtain ⟨hlength, hbits⟩ := ofBytes?_eq_some_iff.mp ha
  obtain ⟨hlength', hbits'⟩ := ofBytes?_eq_some_iff.mp hb
  exact Bytes.toNat_injective (hlength.trans hlength'.symm) (hbits.symm.trans hbits')

theorem isSome_ofBytes?_iff {b : Bytes} : (ofBytes? f b).isSome ↔ b.length = f.width := by
  rw [ofBytes?, Option.isSome_map, Bytes.unsigned?]
  split <;> simp_all

instance : Std.TransCmp fun x y : Floating f => compare x.rank y.rank :=
  inferInstanceAs (Std.TransCmp (compareOn rank))

instance : Std.LawfulEqCmp fun x y : Floating f => compare x.rank y.rank where
  compare_self := Std.ReflCmp.compare_self
  eq_of_compare h := rank_injective (Std.LawfulEqOrd.eq_of_compare h)

@[simp]
theorem length_bytes (x : Floating f) : x.bytes.length = f.width :=
  Bytes.length_ofNat _ _

theorem bytes_of_ofBytes? {b : Bytes} {x : Floating f} (h : ofBytes? f b = some x) : x.bytes = b := by
  obtain ⟨hlength, hbits⟩ := ofBytes?_eq_some_iff.mp h
  rw [bytes, hbits, ← hlength, Bytes.ofNat_toNat]

end ClusteringKeys.Floating
