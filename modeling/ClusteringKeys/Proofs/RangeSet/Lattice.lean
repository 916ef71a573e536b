import ClusteringKeys.Proofs.RangeSet.Built
import Mathlib

namespace ClusteringKeys

section Equality

variable {α : Type} [Ord α] [BEq α] [Std.LawfulBEqOrd α]

theorem Endpoint.beq_of_compareLower {e f : Endpoint α} (h : e.compareLower f = .eq) : e == f := by
  cases e <;> cases f
  case unbounded.unbounded => rfl
  case included.included a b | excluded.excluded a b => exact (Std.compare_eq_iff_beq.mp h : a == b)
  all_goals simp [compareLower] at h

theorem Endpoint.beq_of_compareUpper {e f : Endpoint α} (h : e.compareUpper f = .eq) : e == f := by
  cases e <;> cases f
  case unbounded.unbounded => rfl
  case included.included a b | excluded.excluded a b => exact (Std.compare_eq_iff_beq.mp h : a == b)
  all_goals simp [compareUpper] at h

theorem Range.beq_of_sameCuts {r s : Range α} (h : r.SameCuts s) : r == s := by
  have hlower : r.lower == s.lower := Endpoint.beq_of_compareLower ((Endpoint.compareLower_eq _ _).trans h.1)
  have hupper : r.upper == s.upper := Endpoint.beq_of_compareUpper ((Endpoint.compareUpper_eq _ _).trans h.2)
  change (r.lower == s.lower && r.upper == s.upper) = true
  rw [hlower, hupper, Bool.and_true]

theorem Range.beq_of_forall₂_sameCuts {ranges ranges' : List (Range α)} (h : List.Forall₂ SameCuts ranges ranges') :
    ranges == ranges' := by
  induction h with
  | nil => rfl
  | cons hcuts _ ih => rw [List.cons_beq_cons, beq_of_sameCuts hcuts, ih, Bool.and_true]

end Equality

namespace RangeSet

variable {α : Type} [Ord α] [Std.TransOrd α] [BEq α] [Std.LawfulBEqOrd α] {s t u : RangeSet α}

/-- Sets are equal in their ranges, and not only in their values, if the operations built both and they cover the same
    cuts. Values alone do not determine the ranges where no value lies between two neighbours. -/
theorem Built.beq_of_covers (hs : s.Built) (ht : t.Built) (hcovers : ∀ c, s.Covers c ↔ t.Covers c) : s == t :=
  Range.beq_of_forall₂_sameCuts (hs.canonical.forall₂_sameCuts ht.canonical hcovers)

/-- Order and repetition of the ranges added make no difference. -/
theorem foldl_add_beq_of_mem_iff {ranges ranges' : List (Range α)} (hmem : ∀ r, r ∈ ranges ↔ r ∈ ranges') :
    ranges.foldl add empty == ranges'.foldl add empty := by
  apply (built_foldl_add .empty ranges).beq_of_covers (built_foldl_add .empty ranges')
  intro c
  simp only [covers_foldl_add, hmem]

namespace Built

theorem union_comm (hs : s.Built) (ht : t.Built) : s.union t == t.union s :=
  (hs.union ht).beq_of_covers (ht.union hs) fun c => by rw [covers_union, covers_union, or_comm]

theorem union_assoc (hs : s.Built) (ht : t.Built) (hu : u.Built) : (s.union t).union u == s.union (t.union u) :=
  ((hs.union ht).union hu).beq_of_covers (hs.union (ht.union hu)) fun c => by
    rw [covers_union, covers_union, covers_union, covers_union, or_assoc]

theorem union_self (hs : s.Built) : s.union s == s :=
  (hs.union hs).beq_of_covers hs fun c => by rw [covers_union, or_self_iff]

theorem union_empty (hs : s.Built) : s.union .empty == s :=
  (hs.union .empty).beq_of_covers hs fun c => by
    rw [covers_union]
    exact or_iff_left (not_covers_empty c)

theorem union_all (hs : s.Built) : s.union .all == .all :=
  (hs.union .all).beq_of_covers .all fun c => by
    rw [covers_union]
    exact or_iff_right_of_imp Covers.all

theorem intersection_comm (hs : s.Built) (ht : t.Built) : s.intersection t == t.intersection s :=
  (hs.intersection ht).beq_of_covers (ht.intersection hs) fun c => by
    rw [covers_intersection, covers_intersection, and_comm]

theorem intersection_assoc (hs : s.Built) (ht : t.Built) (hu : u.Built) :
    (s.intersection t).intersection u == s.intersection (t.intersection u) :=
  ((hs.intersection ht).intersection hu).beq_of_covers (hs.intersection (ht.intersection hu)) fun c => by
    rw [covers_intersection, covers_intersection, covers_intersection, covers_intersection, and_assoc]

theorem intersection_self (hs : s.Built) : s.intersection s == s :=
  (hs.intersection hs).beq_of_covers hs fun c => by rw [covers_intersection, and_self_iff]

theorem intersection_all (hs : s.Built) : s.intersection .all == s :=
  (hs.intersection .all).beq_of_covers hs fun c => by
    rw [covers_intersection]
    exact and_iff_left_of_imp Covers.all

theorem intersection_empty (hs : s.Built) : s.intersection .empty == .empty :=
  (hs.intersection .empty).beq_of_covers .empty fun c => by
    rw [covers_intersection]
    exact and_iff_right_of_imp fun h => absurd h (not_covers_empty c)

theorem union_intersection_self (hs : s.Built) (ht : t.Built) : s.union (s.intersection t) == s :=
  (hs.union (hs.intersection ht)).beq_of_covers hs fun c => by
    rw [covers_union, covers_intersection]
    exact or_iff_left_of_imp And.left

theorem intersection_union_self (hs : s.Built) (ht : t.Built) : s.intersection (s.union t) == s :=
  (hs.intersection (hs.union ht)).beq_of_covers hs fun c => by
    rw [covers_intersection, covers_union]
    exact and_iff_left_of_imp Or.inl

theorem intersection_union_distrib (hs : s.Built) (ht : t.Built) (hu : u.Built) :
    s.intersection (t.union u) == (s.intersection t).union (s.intersection u) :=
  (hs.intersection (ht.union hu)).beq_of_covers ((hs.intersection ht).union (hs.intersection hu)) fun c => by
    rw [covers_intersection, covers_union, covers_union, covers_intersection, covers_intersection, and_or_left]

end Built

/-- The sets that the operations build form a distributive lattice with a least and a greatest element, where equality
    compares the ranges themselves. It is enough that the values' own equality agrees with their order. What a list of
    ranges adds up to depends neither on their order nor on how often each occurs. -/
theorem lattice_laws (hs : s.Built) (ht : t.Built) (hu : u.Built) :
    (∀ ranges ranges' : List (Range α), (∀ r, r ∈ ranges ↔ r ∈ ranges') →
      ranges.foldl add empty == ranges'.foldl add empty) ∧
    s.union t == t.union s ∧
    s.intersection t == t.intersection s ∧
    (s.union t).union u == s.union (t.union u) ∧
    (s.intersection t).intersection u == s.intersection (t.intersection u) ∧
    s.union s == s ∧
    s.intersection s == s ∧
    s.union .empty == s ∧
    s.intersection .all == s ∧
    s.union .all == .all ∧
    s.intersection .empty == .empty ∧
    s.union (s.intersection t) == s ∧
    s.intersection (s.union t) == s ∧
    s.intersection (t.union u) == (s.intersection t).union (s.intersection u) :=
  ⟨fun _ _ => foldl_add_beq_of_mem_iff, hs.union_comm ht, hs.intersection_comm ht, hs.union_assoc ht hu,
    hs.intersection_assoc ht hu, hs.union_self, hs.intersection_self, hs.union_empty, hs.intersection_all,
    hs.union_all, hs.intersection_empty, hs.union_intersection_self ht, hs.intersection_union_self ht,
    hs.intersection_union_distrib ht hu⟩

/-- No integer lies between one and two, and none in the range that is open on both sides of them. The laws hold all the
    same, and adding the neighbours in either order keeps them apart. -/
theorem lattice_laws_of_neighbours :
    let one : Range Int := .closed 1 1
    let two : Range Int := .closed 2 2
    let s := (ofRange one).add two
    let t : RangeSet Int := ofRange (.opened 1 2)
    let u : RangeSet Int := ofRange (.atMost 1)
    s.Built ∧ t.Built ∧ u.Built ∧ s.ranges = [one, two] ∧ s.union t = ofRange (.closed 1 2) ∧
      [one, two].foldl add empty == [two, one, two].foldl add empty ∧
      s.intersection (t.union u) == (s.intersection t).union (s.intersection u) := by
  intro one two s t u
  have hs : s.Built := (Built.ofRange one).add two
  have ht : t.Built := .ofRange _
  have hu : u.Built := .ofRange _
  obtain ⟨hadd, hlaws⟩ := lattice_laws hs ht hu
  have hmem : ∀ r, r ∈ [one, two] ↔ r ∈ [two, one, two] := by
    intro r
    rw [List.mem_cons (a := r) (b := two)]
    exact ⟨.inr, fun h => h.elim (fun htwo => htwo ▸ List.mem_cons_of_mem one List.mem_cons_self) id⟩
  obtain ⟨_, _, _, _, _, _, _, _, _, _, _, _, hdistrib⟩ := hlaws
  exact ⟨hs, ht, hu, by decide, by decide, hadd _ _ hmem, hdistrib⟩

end RangeSet

end ClusteringKeys
