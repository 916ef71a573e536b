import ClusteringKeys.Proofs.Key.Order
import Mathlib

namespace ClusteringKeys

/-- The value is empty or has the form that its column's type asks for. -/
def Cell.WellFormed (cell : Cell) : Prop :=
  cell.value = [] ∨ cell.column.type.check cell.value = .ok ()

theorem Cell.WellFormed.sized {cell : Cell} (h : cell.WellFormed) : cell.Sized := by
  rcases h with hempty | hcheck
  · exact .inl hempty
  · exact KeyType.sized_of_check hcheck

namespace Key

/-- All values are empty or have the form that their columns' types ask for. -/
def WellFormed (k : Key) : Prop :=
  ∀ cell ∈ k.cells, cell.WellFormed

theorem WellFormed.along_sized {k : Key} (h : k.WellFormed) : k.Along fun _ => Cell.Sized :=
  fun _ cell hcell => (h cell (List.mem_of_getElem? hcell)).sized

/-- Keys and bounds are ordered transitively where every value has a length at which its type is. -/
instance : Std.TransOrd (Subtype (Along fun _ => Cell.Sized)) :=
  transOrd_along fun _ _ _ _ => Cell.compare_isLE_trans

/-- Well-formed keys and bounds of any columns are totally ordered: transitively, with exactly one of before, equal and
    after for any two, and so that equal ones compare alike with all others. The bounds of the empty key are the least
    and the greatest of all. -/
theorem compare_total_order {a b c : Key} (ha : a.WellFormed) (hb : b.WellFormed) (hc : c.WellFormed) :
    ((a.compare b).isLE → (b.compare c).isLE → (a.compare c).isLE) ∧
    (a.compare b = .lt ∧ ¬ a == b ∧ b.compare a ≠ .lt ∨
      a.compare b ≠ .lt ∧ a == b ∧ b.compare a ≠ .lt ∨
      a.compare b ≠ .lt ∧ ¬ a == b ∧ b.compare a = .lt) ∧
    (a == b → a.compare c = b.compare c) ∧
    (empty.bottom.compare a).isLE ∧ (a ≠ empty.bottom → empty.bottom.compare a = .lt) ∧
    (a.compare empty.top).isLE ∧ (a ≠ empty.top → a.compare empty.top = .lt) := by
  have heq : a == b ↔ a.compare b = .eq := decide_eq_true_iff
  have hswap : b.compare a = (a.compare b).swap := Std.OrientedOrd.eq_swap (α := Key)
  have hbottom := compare_empty_bottom_isLE a
  have htop := compare_empty_top_isLE a
  refine ⟨?_, ?_, ?_, hbottom, ?_, htop, ?_⟩
  · intro hab hbc
    exact Std.TransOrd.isLE_trans (α := Subtype (Along fun _ => Cell.Sized)) (a := ⟨a, ha.along_sized⟩)
      (b := ⟨b, hb.along_sized⟩) (c := ⟨c, hc.along_sized⟩) hab hbc
  · rw [heq, hswap]
    cases a.compare b <;> simp
  · intro hab
    rw [Std.LawfulEqOrd.eq_of_compare (α := Key) (heq.mp hab)]
  · intro hne
    apply (Ordering.isLE_iff_eq_lt_or_eq_eq.mp hbottom).resolve_right
    intro hequal
    exact hne (Std.LawfulEqOrd.eq_of_compare hequal).symm
  · intro hne
    apply (Ordering.isLE_iff_eq_lt_or_eq_eq.mp htop).resolve_right
    intro hequal
    exact hne (Std.LawfulEqOrd.eq_of_compare hequal)

theorem compare_total_order_of_descending_years :
    let year := Column.ofClustering "ks" "logs" "year" .int .desc 0
    let month := Column.ofClustering "ks" "logs" "month" .tinyint .asc 1
    let a : Key := ⟨[⟨year, [0, 0, 7, 232]⟩, ⟨month, [3]⟩], .regular⟩
    let b : Key := ⟨[⟨year, [0, 0, 7, 232]⟩], .top⟩
    let c : Key := ⟨[⟨year, [0, 0, 7, 231]⟩], .regular⟩
    a.WellFormed ∧ b.WellFormed ∧ c.WellFormed ∧ a.compare b = .lt ∧ b.compare c = .lt ∧ (a.compare c).isLE ∧
      empty.bottom.compare a = .lt ∧ a.compare empty.top = .lt := by
  intro year month a b c
  have ha : a.WellFormed := List.forall_mem_cons.mpr ⟨.inr rfl, List.forall_mem_singleton.mpr (.inr rfl)⟩
  have hb : b.WellFormed := List.forall_mem_singleton.mpr (.inr rfl)
  have hc : c.WellFormed := List.forall_mem_singleton.mpr (.inr rfl)
  have hab : a.compare b = .lt := by decide +kernel
  have hbc : b.compare c = .lt := by decide +kernel
  have hcells : a.cells ≠ [] := List.cons_ne_nil _ _
  obtain ⟨htrans, _, _, _, hbottom, _, htop⟩ := compare_total_order ha hb hc
  exact ⟨ha, hb, hc, hab, hbc, htrans (congrArg Ordering.isLE hab) (congrArg Ordering.isLE hbc),
    hbottom fun h => hcells (congrArg Key.cells h), htop fun h => hcells (congrArg Key.cells h)⟩

end Key

end ClusteringKeys
