import ClusteringKeys.Proofs.RangeSet.Algebra
import Mathlib

namespace ClusteringKeys

variable {α β : Type}

/-- The end at the image of its value. -/
def Endpoint.map (f : α → β) : Endpoint α → Endpoint β
  | unbounded => unbounded
  | included a => included (f a)
  | excluded a => excluded (f a)

/-- The range between the images of its ends. -/
def Range.map (f : α → β) (r : Range α) : Range β :=
  ⟨r.lower.map f, r.upper.map f⟩

/-- The ranges between the images of their ends. -/
def RangeSet.map (f : α → β) (s : RangeSet α) : RangeSet β :=
  ⟨s.ranges.map (Range.map f)⟩

theorem RangeSet.size_map (f : α → β) (s : RangeSet α) : (s.map f).size = s.size :=
  List.length_map _

/-- The cut beside the image of its value. -/
def Cut.map (f : α → β) : Cut α → Cut β
  | bottom => bottom
  | before a => before (f a)
  | after a => after (f a)
  | top => top

theorem Range.start_map (f : α → β) (r : Range α) : (r.map f).start = r.start.map f := by
  obtain ⟨lower, upper⟩ := r
  cases lower <;> rfl

theorem Range.stop_map (f : α → β) (r : Range α) : (r.map f).stop = r.stop.map f := by
  obtain ⟨lower, upper⟩ := r
  cases upper <;> rfl

section Comparison

variable [Ord α] [Ord β] {f : α → β} (hf : ∀ a b, compare (f a) (f b) = compare a b)
include hf

theorem Cut.compare_map (c d : Cut α) : compare (c.map f) (d.map f) = compare c d := by
  cases c <;> cases d <;>
    simp only [map, compare_before_before, compare_after_after, compare_before_after, compare_after_before, hf] <;> rfl

theorem Cut.map_le_map (c d : Cut α) : c.map f ≤ d.map f ↔ c ≤ d := by
  change (compare (c.map f) (d.map f)).isLE ↔ (compare c d).isLE
  rw [compare_map hf]

theorem Cut.map_lt_map (c d : Cut α) : c.map f < d.map f ↔ c < d := by
  change compare (c.map f) (d.map f) = .lt ↔ compare c d = .lt
  rw [compare_map hf]

theorem Endpoint.compareLower_map (e e' : Endpoint α) : (e.map f).compareLower (e'.map f) = e.compareLower e' := by
  cases e <;> cases e' <;> simp [map, compareLower, hf]

theorem Endpoint.compareUpper_map (e e' : Endpoint α) : (e.map f).compareUpper (e'.map f) = e.compareUpper e' := by
  cases e <;> cases e' <;> simp [map, compareUpper, hf]

theorem Endpoint.connects_map (upper lower : Endpoint α) :
    (upper.map f).connects (lower.map f) = upper.connects lower := by
  cases upper <;> cases lower <;> simp [map, connects, hf]

theorem Range.contains_map (r : Range α) (x : α) : (r.map f).contains (f x) = r.contains x := by
  obtain ⟨lower, upper⟩ := r
  cases lower <;> cases upper <;>
    simp [map, Endpoint.map, contains, Endpoint.admitsAbove, Endpoint.admitsBelow, hf]

theorem Range.isEmpty_map (r : Range α) : (r.map f).isEmpty = r.isEmpty := by
  obtain ⟨lower, upper⟩ := r
  cases lower <;> cases upper <;> simp [map, Endpoint.map, isEmpty, hf]

theorem Range.covers_map (r : Range α) (c : Cut α) : (r.map f).Covers (c.map f) ↔ r.Covers c := by
  rw [Covers, start_map, stop_map, Cut.map_le_map hf, Cut.map_lt_map hf]
  exact Iff.rfl

theorem Range.intersection?_map (r s : Range α) :
    (r.map f).intersection? (s.map f) = (r.intersection? s).map (Range.map f) := by
  have hmeet : (r.map f).meet (s.map f) = (r.meet s).map f := by
    simp only [meet, map, Endpoint.compareLower_map hf, Endpoint.compareUpper_map hf]
    split <;> split <;> rfl
  rw [intersection?_eq, intersection?_eq, hmeet, isEmpty_map hf]
  split <;> rfl

theorem Range.extendUpTo_map (r s : Range α) : (r.map f).extendUpTo (s.map f) = (r.extendUpTo s).map f := by
  simp only [extendUpTo, map, Endpoint.compareUpper_map hf]
  split <;> rfl

namespace RangeSet

theorem joinFrom_map (pending : Range α) (rest : List (Range α)) :
    joinFrom (pending.map f) (rest.map (Range.map f)) = (joinFrom pending rest).map (Range.map f) := by
  induction rest generalizing pending with
  | nil => rfl
  | cons r rest ih =>
    have hconnects : (pending.map f).upper.connects (r.map f).lower = pending.upper.connects r.lower :=
      Endpoint.connects_map hf _ _
    rw [List.map_cons, joinFrom, joinFrom, hconnects]
    split
    · rw [Range.extendUpTo_map hf, ih]
    · rw [ih, List.map_cons]

theorem ofRanges_map (ranges : List (Range α)) :
    ofRanges (ranges.map (Range.map f)) = (ofRanges ranges).map f := by
  have hsort : stableSort (fun r s : Range β => r.lower.compareLower s.lower) (ranges.map (Range.map f)) =
      (stableSort (fun r s : Range α => r.lower.compareLower s.lower) ranges).map (Range.map f) :=
    stableSort_map (fun r s => Endpoint.compareLower_map hf r.lower s.lower) ranges
  rw [ofRanges, ofRanges, hsort]
  cases stableSort (fun r s : Range α => r.lower.compareLower s.lower) ranges with
  | nil => rfl
  | cons r rest => exact congrArg RangeSet.mk (joinFrom_map hf r rest)

/-- The operations on sets see values only through their comparisons. -/
theorem add_map (s : RangeSet α) (r : Range α) : (s.map f).add (r.map f) = (s.add r).map f := by
  rw [add, add, Range.isEmpty_map hf]
  split
  · rfl
  · rw [← ofRanges_map hf, List.map_append]
    rfl

theorem foldl_add_map {ι : Type} (g : ι → Range α) (l : List ι) (s : RangeSet α) :
    l.foldl (fun s i => s.add ((g i).map f)) (s.map f) = (l.foldl (fun s i => s.add (g i)) s).map f := by
  induction l generalizing s with
  | nil => rfl
  | cons i l ih => rw [List.foldl_cons, List.foldl_cons, add_map hf, ih]

theorem union_map (s t : RangeSet α) : (s.map f).union (t.map f) = (s.union t).map f := by
  rw [union, union, ← ofRanges_map hf, List.map_append]
  rfl

theorem intersection_map (s t : RangeSet α) : (s.map f).intersection (t.map f) = (s.intersection t).map f := by
  rw [intersection, intersection, ← ofRanges_map hf, List.map_flatMap]
  simp only [map, List.flatMap_map, List.filterMap_map, List.map_filterMap]
  simp only [Function.comp_def, Range.intersection?_map hf]

theorem covers_map (s : RangeSet α) (c : Cut α) : (s.map f).Covers (c.map f) ↔ s.Covers c := by
  simp [Covers, map, Range.covers_map hf]

theorem contains_map (s : RangeSet α) (x : α) : (s.map f).contains (f x) = s.contains x := by
  simp only [contains, map, List.any_map, Function.comp_def, Range.contains_map hf]

end RangeSet

end Comparison

end ClusteringKeys
