import ClusteringKeys.Proofs.RangeSet.Embedding
import Mathlib

namespace ClusteringKeys

variable {α : Type} {P : α → Prop}

theorem compare_subtype_val [Ord α] (a b : Subtype P) : compare a.val b.val = compare a b := rfl

/-- The ends are values with the property. -/
def Range.Within (P : α → Prop) (r : Range α) : Prop :=
  ∃ q : Range (Subtype P), q.map Subtype.val = r

theorem Range.within_closed {a b : α} (ha : P a) (hb : P b) : (closed a b).Within P :=
  ⟨closed ⟨a, ha⟩ ⟨b, hb⟩, rfl⟩

theorem Range.within_closedOpen {a b : α} (ha : P a) (hb : P b) : (closedOpen a b).Within P :=
  ⟨closedOpen ⟨a, ha⟩ ⟨b, hb⟩, rfl⟩

theorem Range.within_openClosed {a b : α} (ha : P a) (hb : P b) : (openClosed a b).Within P :=
  ⟨openClosed ⟨a, ha⟩ ⟨b, hb⟩, rfl⟩

theorem Range.covers_map_val [Ord α] (r : Range (Subtype P)) (c : Cut (Subtype P)) :
    (r.map Subtype.val).Covers (c.map Subtype.val) ↔ r.Covers c :=
  covers_map compare_subtype_val r c

namespace RangeSet

variable [Ord α]

theorem covers_map_val (s : RangeSet (Subtype P)) (c : Cut (Subtype P)) :
    (s.map Subtype.val).Covers (c.map Subtype.val) ↔ s.Covers c :=
  covers_map compare_subtype_val s c

/-- The set is in canonical form, and its ends are values with the property. An order that is only transitive among
    such values still does for sets of this kind. -/
def Within (P : α → Prop) (s : RangeSet α) : Prop :=
  ∃ t : RangeSet (Subtype P), t.Canonical ∧ t.map Subtype.val = s

theorem within_empty : (empty : RangeSet α).Within P :=
  ⟨empty, canonical_empty, rfl⟩

variable [Std.TransOrd (Subtype P)]

theorem Within.add {s : RangeSet α} {r : Range α} (hs : s.Within P) (hr : r.Within P) : (s.add r).Within P := by
  obtain ⟨s, hs, rfl⟩ := hs
  obtain ⟨r, rfl⟩ := hr
  exact ⟨s.add r, hs.add r, (add_map compare_subtype_val s r).symm⟩

theorem Within.union {s t : RangeSet α} (hs : s.Within P) (ht : t.Within P) : (s.union t).Within P := by
  obtain ⟨s, hs, rfl⟩ := hs
  obtain ⟨t, ht, rfl⟩ := ht
  exact ⟨s.union t, hs.union ht, (union_map compare_subtype_val s t).symm⟩

theorem Within.intersection {s t : RangeSet α} (hs : s.Within P) (ht : t.Within P) :
    (s.intersection t).Within P := by
  obtain ⟨s, hs, rfl⟩ := hs
  obtain ⟨t, ht, rfl⟩ := ht
  exact ⟨s.intersection t, canonical_intersection s t, (intersection_map compare_subtype_val s t).symm⟩

theorem within_ofRange {r : Range α} (hr : r.Within P) : (ofRange r).Within P :=
  within_empty.add hr

theorem within_all : (all : RangeSet α).Within P :=
  within_ofRange ⟨.all, rfl⟩

theorem Within.covers_add {s : RangeSet α} {r : Range α} (hs : s.Within P) (hr : r.Within P)
    (c : Cut (Subtype P)) :
    (s.add r).Covers (c.map Subtype.val) ↔ s.Covers (c.map Subtype.val) ∨ r.Covers (c.map Subtype.val) := by
  obtain ⟨s, hs, rfl⟩ := hs
  obtain ⟨r, rfl⟩ := hr
  rw [add_map compare_subtype_val, covers_map_val, covers_map_val, Range.covers_map_val, RangeSet.covers_add]

theorem Within.foldl_add {ι : Type} {f : ι → Range α} {l : List ι} (hf : ∀ i ∈ l, (f i).Within P) {s : RangeSet α}
    (hs : s.Within P) : (l.foldl (fun s i => s.add (f i)) s).Within P := by
  induction l generalizing s with
  | nil => exact hs
  | cons i l ih =>
    obtain ⟨hi, hl⟩ := List.forall_mem_cons.mp hf
    exact ih hl (hs.add hi)

theorem Within.covers_foldl_add {ι : Type} {f : ι → Range α} {l : List ι} (hf : ∀ i ∈ l, (f i).Within P)
    {s : RangeSet α} (hs : s.Within P) (c : Cut (Subtype P)) :
    (l.foldl (fun s i => s.add (f i)) s).Covers (c.map Subtype.val) ↔
      s.Covers (c.map Subtype.val) ∨ ∃ i ∈ l, (f i).Covers (c.map Subtype.val) := by
  induction l generalizing s with
  | nil => simp
  | cons i l ih =>
    obtain ⟨hi, hl⟩ := List.forall_mem_cons.mp hf
    rw [List.foldl_cons, ih hl (hs.add hi), hs.covers_add hi, List.exists_mem_cons_iff, or_assoc]

theorem Within.covers_union {s t : RangeSet α} (hs : s.Within P) (ht : t.Within P) (c : Cut (Subtype P)) :
    (s.union t).Covers (c.map Subtype.val) ↔ s.Covers (c.map Subtype.val) ∨ t.Covers (c.map Subtype.val) := by
  obtain ⟨s, hs, rfl⟩ := hs
  obtain ⟨t, ht, rfl⟩ := ht
  rw [union_map compare_subtype_val, covers_map_val, covers_map_val, covers_map_val, RangeSet.covers_union]

theorem Within.covers_intersection {s t : RangeSet α} (hs : s.Within P) (ht : t.Within P) (c : Cut (Subtype P)) :
    (s.intersection t).Covers (c.map Subtype.val) ↔
      s.Covers (c.map Subtype.val) ∧ t.Covers (c.map Subtype.val) := by
  obtain ⟨s, hs, rfl⟩ := hs
  obtain ⟨t, ht, rfl⟩ := ht
  rw [intersection_map compare_subtype_val, covers_map_val, covers_map_val, covers_map_val,
    RangeSet.covers_intersection]

theorem covers_ofRange_within {r : Range α} (hr : r.Within P) (c : Cut (Subtype P)) :
    (ofRange r).Covers (c.map Subtype.val) ↔ r.Covers (c.map Subtype.val) := by
  rw [ofRange, within_empty.covers_add hr]
  exact or_iff_right (not_covers_empty _)

theorem Within.contains_iff {s : RangeSet α} (hs : s.Within P) {x : α} (hx : P x) :
    s.contains x ↔ s.Covers (.before x) := by
  obtain ⟨s, hs, rfl⟩ := hs
  have hcontains := contains_map compare_subtype_val s ⟨x, hx⟩
  rw [hcontains, RangeSet.contains_iff, ← covers_map_val]
  exact Iff.rfl

theorem Within.contains_intersection {s t : RangeSet α} (hs : s.Within P) (ht : t.Within P) {x : α} (hx : P x) :
    (s.intersection t).contains x = (s.contains x && t.contains x) := by
  rw [Bool.eq_iff_iff, Bool.and_eq_true, (hs.intersection ht).contains_iff hx, hs.contains_iff hx,
    ht.contains_iff hx]
  exact hs.covers_intersection ht (.before ⟨x, hx⟩)

theorem Within.contains_union {s t : RangeSet α} (hs : s.Within P) (ht : t.Within P) {x : α} (hx : P x) :
    (s.union t).contains x = (s.contains x || t.contains x) := by
  rw [Bool.eq_iff_iff, Bool.or_eq_true, (hs.union ht).contains_iff hx, hs.contains_iff hx, ht.contains_iff hx]
  exact hs.covers_union ht (.before ⟨x, hx⟩)

theorem Within.eq_of_covers [Std.LawfulEqOrd (Subtype P)] {s t : RangeSet α} (hs : s.Within P) (ht : t.Within P)
    (hcovers : ∀ c : Cut (Subtype P), s.Covers (c.map Subtype.val) ↔ t.Covers (c.map Subtype.val)) : s = t := by
  obtain ⟨s, hs, rfl⟩ := hs
  obtain ⟨t, ht, rfl⟩ := ht
  rw [hs.eq_of_covers ht]
  intro c
  rw [← covers_map_val, ← covers_map_val]
  exact hcovers c

theorem ofRange_of_isEmpty_eq_false {r : Range α} (hr : r.isEmpty = false) : ofRange r = ⟨[r]⟩ := by
  rw [ofRange, add, hr]
  rfl

/-- A set that covers what a range with room covers holds just that range. -/
theorem Within.eq_singleton [Std.LawfulEqOrd (Subtype P)] {s : RangeSet α} (hs : s.Within P) {r : Range α}
    (hr : r.Within P) (hnonempty : r.isEmpty = false)
    (hcovers : ∀ c : Cut (Subtype P), s.Covers (c.map Subtype.val) ↔ r.Covers (c.map Subtype.val)) : s = ⟨[r]⟩ := by
  rw [← ofRange_of_isEmpty_eq_false hnonempty]
  apply hs.eq_of_covers (within_ofRange hr)
  intro c
  rw [hcovers, covers_ofRange_within hr]

/-- It makes no difference whether a range is added before others or after them. -/
theorem Within.foldl_add_add [Std.LawfulEqOrd (Subtype P)] {ι : Type} {f : ι → Range α} {l : List ι}
    (hf : ∀ i ∈ l, (f i).Within P) {s : RangeSet α} (hs : s.Within P) {r : Range α} (hr : r.Within P) :
    l.foldl (fun s i => s.add (f i)) (s.add r) = (l.foldl (fun s i => s.add (f i)) s).add r := by
  have hfold := hs.foldl_add hf
  apply ((hs.add hr).foldl_add hf).eq_of_covers (hfold.add hr)
  intro c
  rw [(hs.add hr).covers_foldl_add hf, hs.covers_add hr, hfold.covers_add hr, hs.covers_foldl_add hf, or_right_comm]

end RangeSet

end ClusteringKeys
