import ClusteringKeys.Proofs.Bytes.Hex
import ClusteringKeys.Uuid
import Mathlib

namespace ClusteringKeys

/-- What comes second counts only if the first leaves it open. -/
theorem then_eq_then_of_eq {a b c : Ordering} (h : a = .eq → b = c) : a.then b = a.then c := by
  cases a with
  | lt => rfl
  | eq => exact h rfl
  | gt => rfl

namespace Uuid

theorem bytes_injective : Function.Injective bytes := by
  rintro ⟨b, _⟩ ⟨_, _⟩ rfl
  rfl

theorem ofBytes?_eq_some_iff {b : Bytes} {u : Uuid} : ofBytes? b = some u ↔ u.bytes = b := by
  obtain ⟨bytes, hlength⟩ := u
  rw [ofBytes?]
  split
  next => simp [eq_comm]
  next hother =>
    simp only [reduceCtorEq, false_iff]
    rintro rfl
    exact hother hlength

theorem isSome_ofBytes?_iff {b : Bytes} : (ofBytes? b).isSome ↔ b.length = 16 := by
  rw [ofBytes?]
  split <;> simp_all

private theorem eq_of_compare_bytes {l r : Uuid} (h : Ord.compare l.bytes r.bytes = .eq) : l = r :=
  bytes_injective (Std.LawfulEqOrd.eq_of_compare h)

/-- Measures that decide one after the other order transitively. They are variables here, so that checking this never
    computes with a time of creation. -/
private theorem transCmp_measures {β γ : Type} [Ord β] [Std.TransOrd β] [Ord γ] [Std.TransOrd γ] (f : Uuid → β)
    (g : Uuid → γ) :
    Std.TransCmp fun l r : Uuid =>
      (Ord.compare (f l) (f r)).then ((Ord.compare (g l) (g r)).then (Ord.compare l.bytes r.bytes)) :=
  inferInstanceAs (Std.TransCmp (compareLex (compareOn f) (compareLex (compareOn g) (compareOn bytes))))

/-- The time of creation as far as it takes part in the order of all versions. -/
private def orderedTime (u : Uuid) : Nat :=
  if u.version = 1 then u.timestamp else 0

/-- Times are compared only once the versions agree, so each side may look at its own version. -/
private theorem compare_eq (l r : Uuid) :
    compare l r = (Ord.compare l.version r.version).then
      ((Ord.compare l.orderedTime r.orderedTime).then (Ord.compare l.bytes r.bytes)) := by
  refine then_eq_then_of_eq fun hversion => ?_
  have htime : (if l.version = 1 then Ord.compare l.timestamp r.timestamp else .eq) =
      Ord.compare l.orderedTime r.orderedTime := by
    rw [orderedTime, orderedTime, ← Std.LawfulEqOrd.eq_of_compare hversion]
    split
    · rfl
    · exact Std.ReflOrd.compare_self.symm
  rw [htime]

instance : Std.TransCmp compare := by
  have hmeasures := transCmp_measures version orderedTime
  rwa [← funext₂ compare_eq] at hmeasures

instance : Std.LawfulEqCmp compare where
  compare_self := Std.ReflCmp.compare_self
  eq_of_compare h := by
    rw [compare, Ordering.then_eq_eq, Ordering.then_eq_eq] at h
    exact eq_of_compare_bytes h.2.2

instance : Std.TransCmp compareByTime :=
  transCmp_measures timestamp fun u => u.origin.map fun x : UInt8 => x.toInt8.toInt

instance : Std.LawfulEqCmp compareByTime where
  compare_self := Std.ReflCmp.compare_self
  eq_of_compare h := by
    rw [compareByTime, Ordering.then_eq_eq, Ordering.then_eq_eq] at h
    exact eq_of_compare_bytes h.2.2

/-- The groups of digits are those of all bytes in their order. -/
private theorem groups_eq (u : Uuid) :
    u.bytes.take 4 ++ ((u.bytes.drop 4).take 2 ++ ((u.bytes.drop 6).take 2 ++
      ((u.bytes.drop 8).take 2 ++ (u.bytes.drop 10).take 6))) = u.bytes := by
  have hgroup (start length : Nat) :
      (u.bytes.drop start).take length ++ u.bytes.drop (start + length) = u.bytes.drop start := by
    rw [← List.drop_drop, List.take_append_drop]
  have hlast : (u.bytes.drop 10).take 6 = u.bytes.drop 10 := by
    refine List.take_of_length_le ?_
    rw [List.length_drop, u.length_eq]
  rw [hlast, hgroup 8 2, hgroup 6 2, hgroup 4 2, List.take_append_drop]

/-- Without its dashes, the text is that of the bytes. -/
theorem filter_text (u : Uuid) : u.text.filter (· ≠ '-') = Bytes.hex u.bytes := by
  have hdigits (b : Bytes) : (Bytes.hex b).filter (· ≠ '-') = Bytes.hex b := by
    refine List.filter_eq_self.mpr fun c hc => decide_eq_true ?_
    rintro rfl
    exact Bool.false_ne_true (Bytes.isSome_hexValue?_of_mem_hex hc)
  have hdash (s : List Char) : ('-' :: s).filter (· ≠ '-') = s.filter (· ≠ '-') := rfl
  have htext : u.text = Bytes.hex (u.bytes.take 4) ++ '-' :: (Bytes.hex ((u.bytes.drop 4).take 2) ++
      '-' :: (Bytes.hex ((u.bytes.drop 6).take 2) ++ '-' :: (Bytes.hex ((u.bytes.drop 8).take 2) ++
        '-' :: Bytes.hex ((u.bytes.drop 10).take 6)))) := by
    simp [text]
  rw [htext]
  simp only [List.filter_append, hdash, hdigits, ← Bytes.hex_append]
  rw [groups_eq]

theorem text_injective : Function.Injective text := by
  intro u w h
  have hdigits : Bytes.hex u.bytes = Bytes.hex w.bytes := by rw [← filter_text, ← filter_text, h]
  exact bytes_injective (Bytes.hex_injective hdigits)

theorem eq_dash_or_isSome_hexValue?_of_mem_text {u : Uuid} {c : Char} (hc : c ∈ u.text) :
    c = '-' ∨ (Text.hexValue? c).isSome := by
  by_cases hdash : c = '-'
  · exact .inl hdash
  · have hdigit : c ∈ Bytes.hex u.bytes := by
      rw [← filter_text]
      exact List.mem_filter.mpr ⟨hc, decide_eq_true hdash⟩
    exact .inr (Bytes.isSome_hexValue?_of_mem_hex hdigit)

end Uuid

end ClusteringKeys
