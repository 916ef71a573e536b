import ClusteringKeys.Proofs.Except
import ClusteringKeys.Text.Utf8
import Mathlib

namespace ClusteringKeys.Utf8

/-- The bytes that a character under way still needs, and the number that the character then has. -/
inductive Pending.Completes : Pending → Bytes → Nat → Prop where
  | last {p : Pending} {b : UInt8} :
    p.low ≤ b ∧ b ≤ p.high → (p.step b).missing = 0 → Completes p [b] (p.step b).bits
  | more {p : Pending} {b : UInt8} {tail : Bytes} {n : Nat} :
    p.low ≤ b ∧ b ≤ p.high → (p.step b).missing ≠ 0 → Completes (p.step b) tail n → Completes p (b :: tail) n

/-- A first byte is a character of its own or opens a longer one. -/
theorem decodeFrom_none_cons {i : Nat} {b : UInt8} {rest : Bytes} {cs : List Char} :
    decodeFrom i none (b :: rest) = .ok cs ↔
      (b < 0x80 ∧ ∃ cs', decodeFrom (i + 1) none rest = .ok cs' ∧ Char.ofNat b.toNat :: cs' = cs) ∨
        (¬ b < 0x80 ∧ ∃ p, Pending.open? b = some p ∧ decodeFrom i (some p) rest = .ok cs) := by
  rw [decodeFrom]
  by_cases hascii : b < 0x80
  · rw [if_pos hascii, bind_pure_eq_ok_iff]
    simp only [hascii, true_and, not_true_eq_false, false_and, or_false]
  · rw [if_neg hascii]
    simp only [hascii, false_and, not_false_eq_true, true_and, false_or]
    cases hopen : Pending.open? b with
    | none => simp
    | some p => simp

/-- A character under way takes a byte in its range, and is complete once no more are missing. -/
theorem decodeFrom_some_cons {i : Nat} {p : Pending} {b : UInt8} {rest : Bytes} {cs : List Char} :
    decodeFrom i (some p) (b :: rest) = .ok cs ↔
      (p.low ≤ b ∧ b ≤ p.high) ∧
        (((p.step b).missing = 0 ∧
            ∃ cs', decodeFrom (i + (p.step b).read) none rest = .ok cs' ∧ Char.ofNat (p.step b).bits :: cs' = cs) ∨
          ((p.step b).missing ≠ 0 ∧ decodeFrom i (some (p.step b)) rest = .ok cs)) := by
  rw [decodeFrom]
  by_cases hrange : p.low ≤ b ∧ b ≤ p.high
  · rw [if_pos hrange, and_iff_right hrange]
    by_cases hlast : (p.step b).missing = 0
    · simp only [hlast, if_true, bind_pure_eq_ok_iff, true_and, ne_eq, not_true_eq_false, false_and, or_false]
    · simp only [hlast, if_false, false_and, ne_eq, not_false_eq_true, true_and, false_or]
  · rw [if_neg hrange]
    exact iff_of_false nofun fun h => hrange h.1

/-- What the bytes spell does not depend on how many are counted before them. -/
theorem decodeFrom_index {i j : Nat} {pending : Option Pending} {b : Bytes} {cs : List Char}
    (h : decodeFrom i pending b = .ok cs) : decodeFrom j pending b = .ok cs := by
  induction b generalizing i j pending cs with
  | nil =>
    cases pending with
    | none => exact h
    | some p => cases h
  | cons b rest ih =>
    cases pending with
    | none =>
      rw [decodeFrom_none_cons] at h ⊢
      rcases h with ⟨hascii, cs', hrest, hcs⟩ | ⟨hlead, p, hopen, hrest⟩
      · exact .inl ⟨hascii, cs', ih hrest, hcs⟩
      · exact .inr ⟨hlead, p, hopen, ih hrest⟩
    | some p =>
      rw [decodeFrom_some_cons] at h ⊢
      obtain ⟨hrange, ⟨hlast, cs', hrest, hcs⟩ | ⟨hmore, hrest⟩⟩ := h
      · exact ⟨hrange, .inl ⟨hlast, cs', ih hrest, hcs⟩⟩
      · exact ⟨hrange, .inr ⟨hmore, ih hrest⟩⟩

/-- A character under way is read from the bytes that complete it, and the text goes on after them. -/
theorem decodeFrom_some_iff {p : Pending} {b : Bytes} {cs : List Char} :
    decodeFrom 0 (some p) b = .ok cs ↔
      ∃ tail rest n cs', b = tail ++ rest ∧ p.Completes tail n ∧ decodeFrom 0 none rest = .ok cs' ∧
        cs = Char.ofNat n :: cs' := by
  constructor
  · intro h
    induction b generalizing p with
    | nil => cases h
    | cons b bytes ih =>
      obtain ⟨hrange, ⟨hlast, cs', hrest, rfl⟩ | ⟨hmore, hrest⟩⟩ := decodeFrom_some_cons.mp h
      · exact ⟨[b], bytes, _, cs', rfl, .last hrange hlast, decodeFrom_index hrest, rfl⟩
      · obtain ⟨tail, rest, n, cs', rfl, hcompletes, hrest, hcs⟩ := ih hrest
        exact ⟨b :: tail, rest, n, cs', rfl, .more hrange hmore hcompletes, hrest, hcs⟩
  · rintro ⟨tail, rest, n, cs', rfl, hcompletes, hrest, rfl⟩
    induction hcompletes with
    | last hrange hlast =>
      exact decodeFrom_some_cons.mpr ⟨hrange, .inl ⟨hlast, cs', decodeFrom_index hrest, rfl⟩⟩
    | more hrange hmore _ ih => exact decodeFrom_some_cons.mpr ⟨hrange, .inr ⟨hmore, ih⟩⟩

/-- The bytes of a character as numbers. -/
def octets (n : Nat) : List Nat :=
  if n < 0x80 then [n]
  else if n < 0x800 then [0xC0 + n / 0x40, 0x80 + n % 0x40]
  else if n < 0x10000 then [0xE0 + n / 0x1000, 0x80 + n / 0x40 % 0x40, 0x80 + n % 0x40]
  else [0xF0 + n / 0x40000, 0x80 + n / 0x1000 % 0x40, 0x80 + n / 0x40 % 0x40, 0x80 + n % 0x40]

theorem encodeChar_eq_iff {c : Char} {b : Bytes} : encodeChar c = b ↔ octets c.toNat = b.map UInt8.toNat := by
  have hlt : c.toNat < 0x110000 := by
    have hvalid : c.toNat.isValidChar := c.valid
    simp only [Nat.isValidChar] at hvalid
    omega
  have hoctets : (encodeChar c).map UInt8.toNat = octets c.toNat := by
    simp only [encodeChar, octets]
    split_ifs <;> simp only [List.map_cons, List.map_nil, UInt8.toNat_ofNat', List.cons.injEq, and_true] <;> omega
  rw [← hoctets, (List.map_injective_iff.mpr fun _ _ => UInt8.toNat_inj.mp).eq_iff]

namespace Pending

theorem open?_eq_some_iff {b : UInt8} {p : Pending} :
    open? b = some p ↔
      (0xC2 ≤ b.toNat ∧ b.toNat < 0xE0 ∧ p = ⟨b.toNat - 0xC0, 1, 1, 0x80, 0xBF⟩) ∨
        (0xE0 ≤ b.toNat ∧ b.toNat < 0xF0 ∧
          p = ⟨b.toNat - 0xE0, 1, 2, if b = 0xE0 then 0xA0 else 0x80, if b = 0xED then 0x9F else 0xBF⟩) ∨
        (0xF0 ≤ b.toNat ∧ b.toNat < 0xF5 ∧
          p = ⟨b.toNat - 0xF0, 1, 3, if b = 0xF0 then 0x90 else 0x80, if b = 0xF4 then 0x8F else 0xBF⟩) := by
  simp only [open?, UInt8.lt_iff_toNat_lt, UInt8.reduceToNat]
  grind

theorem not_lt_of_open? {b : UInt8} {p : Pending} (h : open? b = some p) : ¬ b < 0x80 := by
  intro hascii
  have hlt : b.toNat < 0x80 := UInt8.lt_iff_toNat_lt.mp hascii
  rcases open?_eq_some_iff.mp h with h | h | h <;> omega

theorem completes_last_iff {bits read : Nat} {low high : UInt8} {tail : Bytes} {n : Nat} :
    Completes ⟨bits, read, 1, low, high⟩ tail n ↔
      ∃ y, tail = [y] ∧ (low.toNat ≤ y.toNat ∧ y.toNat ≤ high.toNat) ∧ n = 0x40 * bits + (y.toNat - 0x80) := by
  constructor
  · intro h
    cases h with
    | last hrange _ => exact ⟨_, rfl, hrange, rfl⟩
    | more _ hmore _ => exact absurd rfl hmore
  · rintro ⟨y, rfl, hrange, hn⟩
    rw [hn]
    exact .last hrange rfl

theorem completes_more_iff {bits read missing : Nat} {low high : UInt8} {tail : Bytes} {n : Nat} :
    Completes ⟨bits, read, missing + 2, low, high⟩ tail n ↔
      ∃ y rest, tail = y :: rest ∧ (low.toNat ≤ y.toNat ∧ y.toNat ≤ high.toNat) ∧
        Completes ⟨0x40 * bits + (y.toNat - 0x80), read + 1, missing + 1, 0x80, 0xBF⟩ rest n := by
  constructor
  · intro h
    cases h with
    | last _ hlast => exact absurd hlast (Nat.succ_ne_zero missing)
    | more hrange _ hrest => exact ⟨_, _, rfl, hrange, hrest⟩
  · rintro ⟨y, rest, rfl, hrange, hrest⟩
    exact .more hrange (Nat.succ_ne_zero missing) hrest

private theorem completes_two_iff {b : UInt8} {tail : Bytes} {n : Nat} :
    (0xC2 ≤ b.toNat ∧ b.toNat < 0xE0 ∧ Completes ⟨b.toNat - 0xC0, 1, 1, 0x80, 0xBF⟩ tail n) ↔
      (0x80 ≤ n ∧ n < 0x800) ∧ [0xC0 + n / 0x40, 0x80 + n % 0x40] = b.toNat :: tail.map UInt8.toNat := by
  simp only [completes_last_iff, UInt8.reduceToNat]
  constructor
  · rintro ⟨hlow, hhigh, y, rfl, hy, hn⟩
    simp only [List.map_cons, List.map_nil, List.cons.injEq, and_true]
    omega
  · rintro ⟨hn, hoctets⟩
    obtain ⟨hb, htail⟩ := List.cons.inj hoctets
    obtain ⟨y, rfl, hy⟩ := List.map_eq_singleton_iff.mp htail.symm
    exact ⟨by omega, by omega, y, rfl, by omega, by omega⟩

/-- The limits on the second byte leave out surrogates and what fits two bytes. -/
private theorem completes_three_iff {b : UInt8} {tail : Bytes} {n : Nat} :
    (0xE0 ≤ b.toNat ∧ b.toNat < 0xF0 ∧
        Completes ⟨b.toNat - 0xE0, 1, 2, if b = 0xE0 then 0xA0 else 0x80, if b = 0xED then 0x9F else 0xBF⟩ tail n) ↔
      (0x800 ≤ n ∧ n < 0x10000 ∧ n.isValidChar) ∧
        [0xE0 + n / 0x1000, 0x80 + n / 0x40 % 0x40, 0x80 + n % 0x40] = b.toNat :: tail.map UInt8.toNat := by
  simp only [completes_more_iff, completes_last_iff, Nat.reduceAdd, apply_ite UInt8.toNat, ← UInt8.toNat_inj,
    UInt8.reduceToNat, Nat.isValidChar]
  constructor
  · rintro ⟨hlow, hhigh, y, _, rfl, hy, z, rfl, hz, hn⟩
    simp only [List.map_cons, List.map_nil, List.cons.injEq, and_true]
    split_ifs at hy <;> omega
  · rintro ⟨hn, hoctets⟩
    obtain ⟨hb, htail⟩ := List.cons.inj hoctets
    obtain ⟨y, _, rfl, hy, htail⟩ := List.map_eq_cons_iff.mp htail.symm
    obtain ⟨z, rfl, hz⟩ := List.map_eq_singleton_iff.mp htail
    refine ⟨by omega, by omega, y, _, rfl, ?_, z, rfl, by omega, by omega⟩
    split_ifs <;> omega

/-- The limits on the second byte leave out numbers past the last character and what fits three bytes. -/
private theorem completes_four_iff {b : UInt8} {tail : Bytes} {n : Nat} :
    (0xF0 ≤ b.toNat ∧ b.toNat < 0xF5 ∧
        Completes ⟨b.toNat - 0xF0, 1, 3, if b = 0xF0 then 0x90 else 0x80, if b = 0xF4 then 0x8F else 0xBF⟩ tail n) ↔
      (0x10000 ≤ n ∧ n.isValidChar) ∧
        [0xF0 + n / 0x40000, 0x80 + n / 0x1000 % 0x40, 0x80 + n / 0x40 % 0x40, 0x80 + n % 0x40] =
          b.toNat :: tail.map UInt8.toNat := by
  simp only [completes_more_iff, completes_last_iff, Nat.reduceAdd, apply_ite UInt8.toNat, ← UInt8.toNat_inj,
    UInt8.reduceToNat, Nat.isValidChar]
  constructor
  · rintro ⟨hlow, hhigh, y, _, rfl, hy, z, _, rfl, hz, w, rfl, hw, hn⟩
    simp only [List.map_cons, List.map_nil, List.cons.injEq, and_true]
    split_ifs at hy <;> omega
  · rintro ⟨hn, hoctets⟩
    obtain ⟨hb, htail⟩ := List.cons.inj hoctets
    obtain ⟨y, _, rfl, hy, htail⟩ := List.map_eq_cons_iff.mp htail.symm
    obtain ⟨z, _, rfl, hz, htail⟩ := List.map_eq_cons_iff.mp htail
    obtain ⟨w, rfl, hw⟩ := List.map_eq_singleton_iff.mp htail
    refine ⟨by omega, by omega, y, _, rfl, ?_, z, _, rfl, by omega, w, rfl, by omega, by omega⟩
    split_ifs <;> omega

/-- A byte opens a character that other bytes complete just where they are the bytes of that character. -/
theorem exists_completes_iff {b : UInt8} {tail : Bytes} {n : Nat} :
    (∃ p, open? b = some p ∧ p.Completes tail n) ↔
      (0x80 ≤ n ∧ n.isValidChar) ∧ octets n = b.toNat :: tail.map UInt8.toNat := by
  constructor
  · rintro ⟨p, hopen, hcompletes⟩
    rcases open?_eq_some_iff.mp hopen with ⟨hlow, hhigh, rfl⟩ | ⟨hlow, hhigh, rfl⟩ | ⟨hlow, hhigh, rfl⟩
    · obtain ⟨hn, hoctets⟩ := completes_two_iff.mp ⟨hlow, hhigh, hcompletes⟩
      refine ⟨⟨hn.1, .inl (by omega)⟩, ?_⟩
      rwa [octets, if_neg (by omega), if_pos hn.2]
    · obtain ⟨hn, hoctets⟩ := completes_three_iff.mp ⟨hlow, hhigh, hcompletes⟩
      refine ⟨⟨by omega, hn.2.2⟩, ?_⟩
      rwa [octets, if_neg (by omega), if_neg (by omega), if_pos hn.2.1]
    · obtain ⟨hn, hoctets⟩ := completes_four_iff.mp ⟨hlow, hhigh, hcompletes⟩
      refine ⟨⟨by omega, hn.2⟩, ?_⟩
      rwa [octets, if_neg (by omega), if_neg (by omega), if_neg (by omega)]
  · rintro ⟨⟨hlow, hvalid⟩, hoctets⟩
    rw [octets, if_neg (by omega)] at hoctets
    split at hoctets
    next htwo =>
      obtain ⟨hopens, hends, hcompletes⟩ := completes_two_iff.mpr ⟨⟨hlow, htwo⟩, hoctets⟩
      exact ⟨_, open?_eq_some_iff.mpr (.inl ⟨hopens, hends, rfl⟩), hcompletes⟩
    next htwo =>
      split at hoctets
      next hthree =>
        obtain ⟨hopens, hends, hcompletes⟩ := completes_three_iff.mpr ⟨⟨by omega, hthree, hvalid⟩, hoctets⟩
        exact ⟨_, open?_eq_some_iff.mpr (.inr (.inl ⟨hopens, hends, rfl⟩)), hcompletes⟩
      next hthree =>
        obtain ⟨hopens, hends, hcompletes⟩ := completes_four_iff.mpr ⟨⟨by omega, hvalid⟩, hoctets⟩
        exact ⟨_, open?_eq_some_iff.mpr (.inr (.inr ⟨hopens, hends, rfl⟩)), hcompletes⟩

end Pending

theorem exists_encodeChar_eq_cons (c : Char) : ∃ x tail, encodeChar c = x :: tail := by
  simp only [encodeChar]
  split_ifs <;> exact ⟨_, _, rfl⟩

theorem encodeChar_ofNat {x : UInt8} (hascii : x < 0x80) : encodeChar (Char.ofNat x.toNat) = [x] := by
  have hlt : x.toNat < 0x80 := UInt8.lt_iff_toNat_lt.mp hascii
  have hvalid : x.toNat.isValidChar := .inl (by omega)
  rw [encodeChar_eq_iff, Char.toNat_ofNat, if_pos hvalid, octets, if_pos hlt]
  rfl

/-- The first character of a text is read from its own bytes, and the rest from those after them. -/
theorem decodeFrom_eq_cons_iff {b : Bytes} {c : Char} {cs : List Char} :
    decodeFrom 0 none b = .ok (c :: cs) ↔ ∃ rest, b = encodeChar c ++ rest ∧ decodeFrom 0 none rest = .ok cs := by
  constructor
  · intro h
    cases b with
    | nil => cases h
    | cons x b =>
      rcases decodeFrom_none_cons.mp h with ⟨hascii, cs', hrest, hcs⟩ | ⟨_, p, hopen, hrest⟩
      · obtain ⟨rfl, rfl⟩ := List.cons.inj hcs
        exact ⟨b, by rw [encodeChar_ofNat hascii]; rfl, decodeFrom_index hrest⟩
      · obtain ⟨tail, rest, n, cs', rfl, hcompletes, hrest, hcs⟩ := decodeFrom_some_iff.mp hrest
        obtain ⟨rfl, rfl⟩ := List.cons.inj hcs
        obtain ⟨⟨_, hvalid⟩, hoctets⟩ := Pending.exists_completes_iff.mp ⟨p, hopen, hcompletes⟩
        have hchar : encodeChar (Char.ofNat n) = x :: tail := by
          rw [encodeChar_eq_iff, Char.toNat_ofNat, if_pos hvalid]
          exact hoctets
        exact ⟨rest, by rw [hchar]; rfl, hrest⟩
  · rintro ⟨rest, rfl, hrest⟩
    have hoctets := encodeChar_eq_iff.mp (rfl : encodeChar c = encodeChar c)
    by_cases hascii : c.toNat < 0x80
    · rw [octets, if_pos hascii] at hoctets
      obtain ⟨x, hbytes, hx⟩ := List.map_eq_singleton_iff.mp hoctets.symm
      rw [hbytes]
      refine decodeFrom_none_cons.mpr (.inl ⟨UInt8.lt_iff_toNat_lt.mpr (hx ▸ hascii), cs, decodeFrom_index hrest, ?_⟩)
      rw [hx, Char.ofNat_toNat]
    · obtain ⟨x, tail, hbytes⟩ := exists_encodeChar_eq_cons c
      rw [hbytes] at hoctets ⊢
      obtain ⟨p, hopen, hcompletes⟩ := Pending.exists_completes_iff.mpr ⟨⟨not_lt.mp hascii, c.valid⟩, hoctets⟩
      have hspelled := decodeFrom_some_iff.mpr ⟨tail, rest, c.toNat, cs, rfl, hcompletes, hrest, rfl⟩
      rw [Char.ofNat_toNat] at hspelled
      exact decodeFrom_none_cons.mpr (.inr ⟨Pending.not_lt_of_open? hopen, p, hopen, hspelled⟩)

/-- Bytes spell a text if they are those of its characters, one after the other. -/
theorem decodeFrom_eq_ok_iff {b : Bytes} {cs : List Char} :
    decodeFrom 0 none b = .ok cs ↔ cs.flatMap encodeChar = b := by
  induction cs generalizing b with
  | nil =>
    constructor
    · intro h
      cases b with
      | nil => rfl
      | cons x b =>
        rcases decodeFrom_none_cons.mp h with ⟨_, _, _, hcs⟩ | ⟨_, p, _, hrest⟩
        · cases hcs
        · obtain ⟨_, _, _, _, _, _, _, hcs⟩ := decodeFrom_some_iff.mp hrest
          cases hcs
    · rintro rfl
      rfl
  | cons c cs ih =>
    rw [decodeFrom_eq_cons_iff, List.flatMap_cons]
    simp only [ih]
    constructor
    · rintro ⟨rest, hb, hrest⟩
      rw [hb, hrest]
    · intro hb
      exact ⟨_, hb.symm, rfl⟩

/-- Bytes are read as the text that is written so, and refused if there is none. -/
theorem decode_eq_ok_iff {b : Bytes} {s : String} : decode b = .ok s ↔ encode s = b := by
  rw [decode, encode, map_eq_ok_iff]
  constructor
  · rintro ⟨cs, hcs, rfl⟩
    rw [String.toList_ofList, decodeFrom_eq_ok_iff.mp hcs]
  · intro hb
    exact ⟨s.toList, decodeFrom_eq_ok_iff.mpr hb, String.ofList_toList⟩

theorem encode_injective : Function.Injective encode := by
  intro s t h
  have hs : decode (encode t) = .ok s := decode_eq_ok_iff.mpr h
  exact Except.ok.inj (hs.symm.trans (decode_eq_ok_iff.mpr rfl))

theorem exists_encode_of_isAscii {b : Bytes} (h : b.isAscii) : ∃ s, encode s = b := by
  rw [Bytes.isAscii, List.all_eq_true] at h
  refine ⟨String.ofList (b.map fun x => Char.ofNat x.toNat), ?_⟩
  rw [encode, String.toList_ofList, List.flatMap_map, List.flatMap_congr fun x hx =>
    encodeChar_ofNat (of_decide_eq_true (h x hx)), List.flatMap_singleton']

end ClusteringKeys.Utf8
