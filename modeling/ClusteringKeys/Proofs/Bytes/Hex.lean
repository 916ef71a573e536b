import ClusteringKeys.Bytes.Basic
import Mathlib

namespace ClusteringKeys

theorem Text.hexValue?_digitChar {n : Nat} (hn : n < 16) : hexValue? (Nat.digitChar n) = some n := by
  have hall : ∀ d : Fin 16, hexValue? (Nat.digitChar d.val) = some d.val := by decide
  exact hall ⟨n, hn⟩

theorem Text.isSome_hexValue?_of_isDigit {c : Char} (hc : c.isDigit) : (hexValue? c).isSome := by
  rw [hexValue?, if_pos hc]
  rfl

namespace Bytes

theorem hex_cons (x : UInt8) (b : Bytes) :
    hex (x :: b) = Nat.digitChar (x.toNat / 16) :: Nat.digitChar (x.toNat % 16) :: hex b :=
  rfl

theorem hex_append (a b : Bytes) : hex (a ++ b) = hex a ++ hex b :=
  List.flatMap_append

/-- Bytes are read back from their digits. -/
theorem ofHex?_hex (b : Bytes) : ofHex? (hex b) = some b := by
  induction b with
  | nil => rfl
  | cons x b ih =>
    have hx := x.toNat_lt
    have hhigh := Text.hexValue?_digitChar (show x.toNat / 16 < 16 by omega)
    have hlow := Text.hexValue?_digitChar (Nat.mod_lt x.toNat (show 16 > 0 by decide))
    rw [hex_cons, ofHex?, hhigh, hlow, ih]
    change some (UInt8.ofNat (16 * (x.toNat / 16) + x.toNat % 16) :: b) = some (x :: b)
    rw [Nat.div_add_mod, UInt8.ofNat_toNat]

theorem hex_injective : Function.Injective hex := by
  intro a b h
  have ha := ofHex?_hex a
  rw [h, ofHex?_hex] at ha
  exact (Option.some.inj ha).symm

theorem isSome_hexValue?_of_mem_hex {b : Bytes} {c : Char} (hc : c ∈ hex b) : (Text.hexValue? c).isSome := by
  obtain ⟨x, _, hc⟩ := List.mem_flatMap.mp hc
  have hx := x.toNat_lt
  have hdigit (n : Nat) (hn : n < 16) : (Text.hexValue? (Nat.digitChar n)).isSome := by
    rw [Text.hexValue?_digitChar hn]
    rfl
  rcases List.mem_pair.mp hc with rfl | rfl
  · exact hdigit _ (by omega)
  · exact hdigit _ (Nat.mod_lt _ (by decide))

end Bytes

end ClusteringKeys
