import ClusteringKeys.Sorting
import Mathlib

namespace ClusteringKeys

variable {α β : Type}

theorem insertDescending_perm (order : α → α → Ordering) (x : α) (xs : List α) :
    (insertDescending order x xs).Perm (x :: xs) := by
  induction xs with
  | nil => exact .refl _
  | cons y ys ih =>
    rw [insertDescending]
    split
    · exact (ih.cons y).trans (.swap x y ys)
    · exact .refl _

/-- Inserting keeps a list that descends. -/
theorem pairwise_insertDescending (order : α → α → Ordering) [Std.TransCmp order] (x : α) {xs : List α}
    (hxs : xs.Pairwise fun a b => (order b a).isLE) :
    (insertDescending order x xs).Pairwise fun a b => (order b a).isLE := by
  induction xs with
  | nil => simp [insertDescending]
  | cons y ys ih =>
    obtain ⟨hy, hys⟩ := List.pairwise_cons.mp hxs
    rw [insertDescending]
    split
    next hlt =>
      refine List.pairwise_cons.mpr ⟨fun z hz => ?_, ih hys⟩
      rcases List.mem_cons.mp ((insertDescending_perm order x ys).mem_iff.mp hz) with rfl | hz
      · exact Ordering.isLE_of_eq_lt hlt
      · exact hy z hz
    next hge =>
      have hyx : (order y x).isLE := Std.OrientedCmp.isGE_iff_isLE.mp (Ordering.ne_lt_iff_isGE.mp hge)
      refine List.pairwise_cons.mpr ⟨fun z hz => ?_, hxs⟩
      rcases List.mem_cons.mp hz with rfl | hz
      · exact hyx
      · exact Std.TransCmp.isLE_trans (hy z hz) hyx

private theorem foldl_insertDescending_perm (order : α → α → Ordering) (xs sorted : List α) :
    (xs.foldl (fun sorted x => insertDescending order x sorted) sorted).Perm (xs ++ sorted) := by
  induction xs generalizing sorted with
  | nil => exact .refl _
  | cons x xs ih =>
    refine (ih _).trans ?_
    exact ((insertDescending_perm order x sorted).append_left xs).trans List.perm_middle

private theorem pairwise_foldl_insertDescending (order : α → α → Ordering) [Std.TransCmp order]
    (xs : List α) {sorted : List α} (hsorted : sorted.Pairwise fun a b => (order b a).isLE) :
    (xs.foldl (fun sorted x => insertDescending order x sorted) sorted).Pairwise fun a b => (order b a).isLE := by
  induction xs generalizing sorted with
  | nil => exact hsorted
  | cons x xs ih => exact ih (pairwise_insertDescending order x hsorted)

theorem stableSort_perm (order : α → α → Ordering) (xs : List α) : (stableSort order xs).Perm xs := by
  have hperm := foldl_insertDescending_perm order xs []
  rw [List.append_nil] at hperm
  exact (List.reverse_perm _).trans hperm

theorem pairwise_stableSort (order : α → α → Ordering) [Std.TransCmp order] (xs : List α) :
    (stableSort order xs).Pairwise fun a b => (order a b).isLE :=
  List.pairwise_reverse.mpr (pairwise_foldl_insertDescending order xs .nil)

theorem insertDescending_of_forall_isLE (order : α → α → Ordering) [Std.OrientedCmp order] {x : α} {xs : List α}
    (hxs : ∀ y ∈ xs, (order y x).isLE) : insertDescending order x xs = x :: xs := by
  cases xs with
  | nil => rfl
  | cons y ys =>
    have hge : order x y ≠ .lt :=
      Ordering.ne_lt_iff_isGE.mpr (Std.OrientedCmp.isGE_iff_isLE.mpr (hxs y List.mem_cons_self))
    rw [insertDescending, if_neg hge]

/-- A list that ascends is left as it is. -/
theorem stableSort_of_pairwise (order : α → α → Ordering) [Std.OrientedCmp order] {xs : List α}
    (hxs : xs.Pairwise fun a b => (order a b).isLE) : stableSort order xs = xs := by
  have hfold : ∀ sorted : List α, (∀ x ∈ xs, ∀ y ∈ sorted, (order y x).isLE) →
      xs.foldl (fun sorted x => insertDescending order x sorted) sorted = xs.reverse ++ sorted := by
    induction xs with
    | nil => exact fun _ _ => rfl
    | cons x xs ih =>
      intro sorted hsorted
      obtain ⟨hx, hxs⟩ := List.pairwise_cons.mp hxs
      obtain ⟨hfirst, hrest⟩ := List.forall_mem_cons.mp hsorted
      rw [List.foldl_cons, insertDescending_of_forall_isLE order hfirst,
        ih hxs (x :: sorted) fun z hz => List.forall_mem_cons.mpr ⟨hx z hz, hrest z hz⟩]
      simp
  rw [stableSort, hfold [] fun _ _ => List.forall_mem_nil _, List.append_nil, List.reverse_reverse]

section Map

variable {order : α → α → Ordering} {order' : β → β → Ordering} {f : α → β}

theorem insertDescending_map (hf : ∀ a b, order' (f a) (f b) = order a b) (x : α) (xs : List α) :
    insertDescending order' (f x) (xs.map f) = (insertDescending order x xs).map f := by
  induction xs with
  | nil => rfl
  | cons y ys ih =>
    rw [List.map_cons, insertDescending, insertDescending, hf]
    split
    · rw [ih, List.map_cons]
    · rfl

/-- Sorting sees elements only through their comparisons. -/
theorem stableSort_map (hf : ∀ a b, order' (f a) (f b) = order a b) (xs : List α) :
    stableSort order' (xs.map f) = (stableSort order xs).map f := by
  have hfold : ∀ sorted : List α,
      (xs.map f).foldl (fun sorted x => insertDescending order' x sorted) (sorted.map f) =
        (xs.foldl (fun sorted x => insertDescending order x sorted) sorted).map f := by
    induction xs with
    | nil => exact fun _ => rfl
    | cons x xs ih =>
      intro sorted
      rw [List.map_cons, List.foldl_cons, List.foldl_cons, insertDescending_map hf, ih]
  rw [stableSort, stableSort, List.map_reverse]
  exact congrArg List.reverse (hfold [])

end Map

end ClusteringKeys
