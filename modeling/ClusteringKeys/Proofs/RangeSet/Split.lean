import ClusteringKeys.Proofs.RangeSet.Within
import Mathlib

namespace ClusteringKeys

/-- What lies in the whole lies in exactly one of three parts: below an inner part, in it or above it. -/
structure Splits (whole below inner above : Prop) : Prop where
  cover : whole ↔ below ∨ inner ∨ above
  below_inner : below → ¬ inner
  below_above : below → ¬ above
  inner_above : inner → ¬ above

/-- Splitting the inner part again leaves more below it and more above it. -/
theorem Splits.refine {whole below inner above below' inner' above' : Prop} (h : Splits whole below inner above)
    (h' : Splits inner below' inner' above') : Splits whole (below ∨ below') inner' (above ∨ above') := by
  have hinner : below' ∨ inner' ∨ above' → inner := h'.cover.mpr
  refine ⟨?_, ?_, ?_, ?_⟩
  · rw [h.cover, h'.cover, or_assoc, or_assoc, or_assoc, or_comm (a := above)]
  · rintro (hbelow | hbelow) hinner'
    · exact h.below_inner hbelow (hinner (.inr (.inl hinner')))
    · exact h'.below_inner hbelow hinner'
  · rintro (hbelow | hbelow) (habove | habove)
    · exact h.below_above hbelow habove
    · exact h.below_inner hbelow (hinner (.inr (.inr habove)))
    · exact h.inner_above (hinner (.inl hbelow)) habove
    · exact h'.below_above hbelow habove
  · rintro hinner' (habove | habove)
    · exact h.inner_above (hinner (.inr (.inl hinner'))) habove
    · exact h'.inner_above hinner' habove

theorem Splits.swap {whole below inner above : Prop} (h : Splits whole below inner above) :
    Splits whole above inner below := by
  refine ⟨?_, fun habove hinner => h.inner_above hinner habove, fun habove hbelow => h.below_above hbelow habove,
    fun hinner hbelow => h.below_inner hbelow hinner⟩
  rw [h.cover, ← or_assoc, or_comm, or_comm (a := below)]

theorem Splits.outer_iff {whole below inner above : Prop} (h : Splits whole below inner above) :
    below ∨ above ↔ whole ∧ ¬ inner := by
  constructor
  · rintro (hbelow | habove)
    · exact ⟨h.cover.mpr (.inl hbelow), h.below_inner hbelow⟩
    · exact ⟨h.cover.mpr (.inr (.inr habove)), fun hinner => h.inner_above hinner habove⟩
  · rintro ⟨hwhole, hinner⟩
    exact (h.cover.mp hwhole).imp_right fun hrest => hrest.resolve_left hinner

/-- What lies above the inner part is what is left of the whole without what lies below. The inner part may be counted
    to either side. -/
theorem Splits.above_iff {whole below inner above : Prop} (h : Splits whole below inner above) (inBelow : Bool) :
    above ∨ !inBelow ∧ inner ↔ whole ∧ ¬ (below ∨ inBelow ∧ inner) := by
  obtain ⟨hcover, hbelowInner, hbelowAbove, hinnerAbove⟩ := h
  cases inBelow with
  | false =>
    simp only [Bool.not_false, Bool.false_eq_true, true_and, false_and, or_false, hcover]
    grind
  | true =>
    simp only [Bool.not_true, Bool.false_eq_true, true_and, false_and, or_false, hcover]
    grind

namespace Range

variable {α : Type} [Ord α]

/-- A block inside another one leaves a half-open range at each end of it. -/
theorem splits_closed [Std.TransOrd α] {a b d e : α} (hab : (compare a b).isLE) (hbd : (compare b d).isLE)
    (hde : (compare d e).isLE) (c : Cut α) :
    Splits ((closed a e).Covers c) ((closedOpen a b).Covers c) ((closed b d).Covers c)
      ((openClosed d e).Covers c) := by
  have hstart : Cut.before a ≤ .before b := Cut.before_le_before.mpr hab
  have hinner : Cut.before b < .after d := Cut.before_lt_after.mpr hbd
  have hstop : Cut.after d ≤ .after e := Cut.after_le_after.mpr hde
  have hclosed : ∀ l u : α, (closed l u).Covers c ↔ .before l ≤ c ∧ c < .after u := fun _ _ => Iff.rfl
  have hclosedOpen : ∀ l u : α, (closedOpen l u).Covers c ↔ .before l ≤ c ∧ c < .before u := fun _ _ => Iff.rfl
  have hopenClosed : ∀ l u : α, (openClosed l u).Covers c ↔ .after l ≤ c ∧ c < .after u := fun _ _ => Iff.rfl
  rw [hclosed, hclosedOpen, hclosed, hopenClosed]
  constructor <;> grind

theorem splits_closed_within {P : α → Prop} [Std.TransOrd (Subtype P)] {a b d e : α} (ha : P a) (hb : P b)
    (hd : P d) (he : P e) (hab : (compare a b).isLE) (hbd : (compare b d).isLE) (hde : (compare d e).isLE)
    (c : Cut (Subtype P)) :
    Splits ((closed a e).Covers (c.map Subtype.val)) ((closedOpen a b).Covers (c.map Subtype.val))
      ((closed b d).Covers (c.map Subtype.val)) ((openClosed d e).Covers (c.map Subtype.val)) := by
  have hsplits := splits_closed (a := ⟨a, ha⟩) (b := ⟨b, hb⟩) (d := ⟨d, hd⟩) (e := ⟨e, he⟩) hab hbd hde c
  rw [← covers_map_val, ← covers_map_val, ← covers_map_val, ← covers_map_val] at hsplits
  exact hsplits

section Within

variable {P : α → Prop} [Std.TransOrd (Subtype P)] {r s t : Range α}

theorem not_covers_of_start_eq_stop_within (hr : r.Within P) (hroom : r.start = r.stop) (c : Cut (Subtype P)) :
    ¬ r.Covers (c.map Subtype.val) := by
  obtain ⟨r, rfl⟩ := hr
  intro hcovers
  rw [Covers, hroom, stop_map, Cut.map_le_map compare_subtype_val, Cut.map_lt_map compare_subtype_val] at hcovers
  exact Std.not_lt.mpr hcovers.1 hcovers.2

/-- Two ranges make a longer one if the second one starts where the first one stops. -/
theorem covers_or_iff_of_follows_within (hr : r.Within P) (hs : s.Within P) (hstart : t.start = r.start)
    (hmeets : r.stop = s.start) (hstop : t.stop = s.stop) (hfirst : r.start ≤ r.stop) (hsecond : s.start ≤ s.stop)
    (c : Cut (Subtype P)) :
    r.Covers (c.map Subtype.val) ∨ s.Covers (c.map Subtype.val) ↔ t.Covers (c.map Subtype.val) := by
  obtain ⟨r, rfl⟩ := hr
  obtain ⟨s, rfl⟩ := hs
  rw [Covers, Covers, Covers, hstart, hstop]
  rw [hmeets] at hfirst ⊢
  simp only [start_map, stop_map, Cut.map_le_map compare_subtype_val, Cut.map_lt_map compare_subtype_val] at *
  grind

end Within

end Range

end ClusteringKeys
