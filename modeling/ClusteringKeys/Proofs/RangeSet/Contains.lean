import ClusteringKeys.Proofs.RangeSet.Algebra
import Mathlib

namespace ClusteringKeys

variable {α : Type} [Ord α] [Std.TransOrd α]

theorem Range.contains_intersection? (r s : Range α) (x : α) :
    (r.intersection? s).any (·.contains x) = (r.contains x && s.contains x) := by
  rw [Bool.eq_iff_iff, Bool.and_eq_true, r.contains_iff, s.contains_iff, ← exists_intersection?_covers]
  simp only [Option.any_eq_true, contains_iff]

namespace RangeSet

/-- Sorting and joining neither gains nor loses a value. -/
theorem contains_ofRanges (ranges : List (Range α)) (x : α) :
    (ofRanges ranges).contains x = ranges.any (·.contains x) := by
  rw [Bool.eq_iff_iff, contains_iff, covers_ofRanges, List.any_eq_true]
  simp only [Range.contains_iff]

theorem contains_add (s : RangeSet α) (r : Range α) (x : α) :
    (s.add r).contains x = (s.contains x || r.contains x) := by
  rw [Bool.eq_iff_iff, Bool.or_eq_true, contains_iff, contains_iff, Range.contains_iff]
  exact covers_add s r _

theorem contains_foldl_add (ranges : List (Range α)) (s : RangeSet α) (x : α) :
    (ranges.foldl add s).contains x = (s.contains x || ranges.any (·.contains x)) := by
  rw [Bool.eq_iff_iff, Bool.or_eq_true, contains_iff, contains_iff, covers_foldl_add, List.any_eq_true]
  simp only [Range.contains_iff]

theorem contains_ofRange (r : Range α) (x : α) : (ofRange r).contains x = r.contains x := by
  rw [ofRange, contains_add]
  exact Bool.false_or _

theorem contains_union (s t : RangeSet α) (x : α) :
    (s.union t).contains x = (s.contains x || t.contains x) := by
  rw [Bool.eq_iff_iff, Bool.or_eq_true, contains_iff, contains_iff, contains_iff]
  exact covers_union s t _

theorem contains_intersection (s t : RangeSet α) (x : α) :
    (s.intersection t).contains x = (s.contains x && t.contains x) := by
  rw [Bool.eq_iff_iff, Bool.and_eq_true, contains_iff, contains_iff, contains_iff]
  exact covers_intersection s t _

/-- The operations are those on sets of values, for any sets and ranges over a total order, among them ranges that
    nothing lies in and sets whose ranges overlap. Ranges without a common value have no intersection. -/
theorem operations_contain (s t : RangeSet α) (r q : Range α) (x : α) :
    (empty : RangeSet α).contains x = false ∧
    (all : RangeSet α).contains x = true ∧
    (ofRange r).contains x = r.contains x ∧
    (s.add r).contains x = (s.contains x || r.contains x) ∧
    (s.union t).contains x = (s.contains x || t.contains x) ∧
    (s.intersection t).contains x = (s.contains x && t.contains x) ∧
    (∀ ranges : List (Range α), (ofRanges ranges).contains x = ranges.any (·.contains x)) ∧
    (∀ ranges : List (Range α), (ranges.foldl add s).contains x = (s.contains x || ranges.any (·.contains x))) ∧
    (∀ u, r.intersection? q = some u → u.contains x = (r.contains x && q.contains x)) ∧
    (r.intersection? q = none → (r.contains x && q.contains x) = false) := by
  have hmeet := Range.contains_intersection? r q x
  refine ⟨rfl, contains_ofRange .all x, contains_ofRange r x, contains_add s r x, contains_union s t x,
    contains_intersection s t x, fun ranges => contains_ofRanges ranges x, fun ranges => contains_foldl_add ranges s x,
    ?_, ?_⟩
  · intro u hu
    rw [← hmeet, hu, Option.any_some]
  · intro hnone
    rw [← hmeet, hnone, Option.any_none]

/-- A range that fills a gap on both sides is joined with both, and one that runs downwards adds nothing. -/
theorem operations_contain_at_touching_ranges :
    let s : RangeSet Int := (ofRange (.closedOpen 0 10)).add (.openClosed 20 30)
    let r : Range Int := .closed 10 20
    let q : Range Int := .opened 15 25
    s.add r = ⟨[.closed 0 30]⟩ ∧ (s.add r).contains 10 = (s.contains 10 || r.contains 10) ∧
      (s.add (.closed 20 10)).contains 15 = (s.contains 15 || (Range.closed 20 10 : Range Int).contains 15) ∧
      r.intersection? q = some (.openClosed 15 20) ∧
      (Range.openClosed 15 20 : Range Int).contains 15 = (r.contains 15 && q.contains 15) ∧
      q.intersection? (.atLeast 25) = none ∧ (q.contains 25 && (Range.atLeast 25).contains 25) = false := by
  intro s r q
  have hmeet : r.intersection? q = some (.openClosed 15 20) := by decide
  have hapart : q.intersection? (.atLeast 25) = none := by decide
  obtain ⟨_, _, _, hadd, _⟩ := operations_contain s s r q 10
  obtain ⟨_, _, _, haddDown, _⟩ := operations_contain s s (.closed 20 10) q 15
  obtain ⟨_, _, _, _, _, _, _, _, hsome, _⟩ := operations_contain s s r q 15
  obtain ⟨_, _, _, _, _, _, _, _, _, hnone⟩ := operations_contain s s q (.atLeast 25) 25
  exact ⟨by decide, hadd, haddDown, hmeet, hsome _ hmeet, hapart, hnone hapart⟩

end RangeSet

end ClusteringKeys
