import ClusteringKeys.Key.Order
import ClusteringKeys.Proofs.Column
import Mathlib

namespace ClusteringKeys

namespace Marker

instance : Std.TransOrd Marker :=
  inferInstanceAs (Std.TransCmp (compareOn rank))

instance : Std.LawfulEqOrd Marker where
  compare_self := Std.ReflCmp.compare_self
  eq_of_compare {a b} h := by cases a <;> cases b <;> first | rfl | cases h

/-- The markers on one side of the longer keys lie together at one end of their order. -/
theorem againstExtension_isLE_of_le {m n : Marker} (hmn : (compare m n).isLE) (hn : n.againstExtension.isLE) :
    m.againstExtension.isLE := by
  revert hmn hn
  cases m <;> cases n <;> decide

theorem swap_againstExtension_isLE_of_le {m n : Marker} (hm : m.againstExtension.swap.isLE)
    (hmn : (compare m n).isLE) : n.againstExtension.swap.isLE := by
  revert hm hmn
  cases m <;> cases n <;> decide

theorem isLE_of_againstExtension {m n : Marker} (hm : m.againstExtension.isLE)
    (hn : n.againstExtension.swap.isLE) : (compare m n).isLE := by
  revert hm hn
  cases m <;> cases n <;> decide

theorem not_againstExtension_isLE_of_swap {m : Marker} (h : m.againstExtension.swap.isLE) :
    ¬ m.againstExtension.isLE := by
  revert h
  cases m <;> decide

end Marker

namespace Cell

instance : Std.OrientedCmp Cell.compare where
  eq_swap {a b} := by
    rw [compare, compare, Ordering.swap_then, ← Std.OrientedCmp.eq_swap]
    by_cases hcolumn : a.column = b.column
    · rw [hcolumn, ← Std.OrientedCmp.eq_swap]
    · have hne : a.column.compareIdentity b.column ≠ .eq := mt Std.LawfulEqCmp.eq_of_compare hcolumn
      cases hcompare : a.column.compareIdentity b.column with
      | lt => rfl
      | eq => exact absurd hcompare hne
      | gt => rfl

instance : Std.LawfulEqCmp Cell.compare where
  compare_self := Std.ReflCmp.compare_self
  eq_of_compare {a b} h := by
    obtain ⟨hcolumn, hvalue⟩ := Ordering.then_eq_eq.mp h
    cases a
    cases b
    rw [mk.injEq]
    exact ⟨Std.LawfulEqCmp.eq_of_compare hcolumn, Std.LawfulEqCmp.eq_of_compare hvalue⟩

/-- The value has a length at which the order of its type is transitive. -/
def Sized (cell : Cell) : Prop :=
  cell.column.type.Sized cell.value

theorem compare_isLE_trans {a b c : Cell} (ha : a.Sized) (hb : b.Sized) (hc : c.Sized)
    (hab : (a.compare b).isLE) (hbc : (b.compare c).isLE) : (a.compare c).isLE := by
  obtain ⟨column, a⟩ := a
  obtain ⟨column', b⟩ := b
  obtain ⟨column'', c⟩ := c
  obtain ⟨hidAB, hvalueAB⟩ := Ordering.isLE_then_iff_and.mp hab
  obtain ⟨hidBC, hvalueBC⟩ := Ordering.isLE_then_iff_and.mp hbc
  have hidAC : (column.compareIdentity column'').isLE := Std.TransCmp.isLE_trans hidAB hidBC
  refine Ordering.isLE_then_iff_and.mpr ⟨hidAC, ?_⟩
  rcases Ordering.isLE_iff_eq_lt_or_eq_eq.mp hidAC with hlt | heq
  · exact .inl hlt
  · obtain rfl : column = column'' := Std.LawfulEqCmp.eq_of_compare heq
    obtain rfl : column = column' := Std.LawfulEqCmp.eq_of_compare (Std.OrientedCmp.isLE_antisymm hidAB hidBC)
    have hsame : column.compareIdentity column ≠ .lt := by
      rw [heq]
      exact nofun
    exact .inr (column.compareValues_isLE_trans ha hb hc (hvalueAB.resolve_left hsame) (hvalueBC.resolve_left hsame))

end Cell

namespace Key

theorem compareCells_swap (m n : Marker) (as bs : List Cell) :
    compareCells m n as bs = (compareCells n m bs as).swap := by
  induction as generalizing bs with
  | nil =>
    cases bs with
    | nil => exact Std.OrientedOrd.eq_swap
    | cons b bs => exact Ordering.swap_swap.symm
  | cons a as ih =>
    cases bs with
    | nil => rfl
    | cons b bs => rw [compareCells, compareCells, Ordering.swap_then, ← ih, ← Std.OrientedCmp.eq_swap]

theorem eq_of_compareCells {m n : Marker} {as bs : List Cell} (h : compareCells m n as bs = .eq) :
    as = bs ∧ m = n := by
  induction as generalizing bs with
  | nil =>
    cases bs with
    | nil => exact ⟨rfl, Std.LawfulEqOrd.eq_of_compare h⟩
    | cons b bs => cases m <;> cases h
  | cons a as ih =>
    cases bs with
    | nil => cases n <;> cases h
    | cons b bs =>
      obtain ⟨hcell, hrest⟩ := Ordering.then_eq_eq.mp h
      obtain ⟨hcells, hmarker⟩ := ih hrest
      rw [Std.LawfulEqCmp.eq_of_compare hcell, hcells]
      exact ⟨rfl, hmarker⟩

/-- A common beginning does not count. -/
theorem compareCells_append (m n : Marker) (cs as bs : List Cell) :
    compareCells m n (cs ++ as) (cs ++ bs) = compareCells m n as bs := by
  induction cs with
  | nil => rfl
  | cons c cs ih =>
    have hself : c.compare c = .eq := Std.ReflCmp.compare_self
    rw [List.cons_append, List.cons_append, compareCells, hself, Ordering.eq_then, ih]

instance : Std.OrientedOrd Key where
  eq_swap := compareCells_swap _ _ _ _

/-- Keys that compare equal are identical, in columns, values and marker. -/
instance : Std.LawfulEqOrd Key where
  compare_self := Std.ReflCmp.compare_self
  eq_of_compare {a b} h := by
    obtain ⟨hcells, hmarker⟩ := eq_of_compareCells h
    cases a
    cases b
    exact congrArg₂ Key.mk hcells hmarker

/-- The bounds of the empty key enclose all keys and bounds. -/
theorem compare_empty_bottom_isLE (k : Key) : (Ord.compare empty.bottom k).isLE := by
  obtain ⟨cells, marker⟩ := k
  cases cells with
  | nil => cases marker <;> rfl
  | cons cell cells => rfl

theorem compare_empty_top_isLE (k : Key) : (Ord.compare k empty.top).isLE := by
  obtain ⟨cells, marker⟩ := k
  cases cells with
  | nil => cases marker <;> rfl
  | cons cell cells => rfl

/-- Each cell is one of those that are allowed in its place. -/
def CellsAlong (P : Nat → Cell → Prop) (cells : List Cell) : Prop :=
  ∀ i cell, cells[i]? = some cell → P i cell

theorem CellsAlong.head {P : Nat → Cell → Prop} {cell : Cell} {rest : List Cell} (h : CellsAlong P (cell :: rest)) :
    P 0 cell :=
  h 0 cell List.getElem?_cons_zero

theorem CellsAlong.tail {P : Nat → Cell → Prop} {cell : Cell} {rest : List Cell} (h : CellsAlong P (cell :: rest)) :
    CellsAlong (fun i => P (i + 1)) rest :=
  fun i other hother => h (i + 1) other (List.getElem?_cons_succ.trans hother)

theorem CellsAlong.take {P : Nat → Cell → Prop} {cells : List Cell} (h : CellsAlong P cells) (n : Nat) :
    CellsAlong P (cells.take n) := by
  intro i cell hcell
  rw [List.getElem?_take] at hcell
  split at hcell
  next => exact h i cell hcell
  next => cases hcell

/-- Keys are ordered transitively if in each place their cells are. The order looks at one place after the other, so
    cells of different places never meet. -/
theorem compareCells_isLE_trans {P : Nat → Cell → Prop} {m n o : Marker} {as bs cs : List Cell}
    (hP : ∀ i {a b c : Cell}, P i a → P i b → P i c → (a.compare b).isLE → (b.compare c).isLE → (a.compare c).isLE)
    (has : CellsAlong P as) (hbs : CellsAlong P bs) (hcs : CellsAlong P cs) (hab : (compareCells m n as bs).isLE)
    (hbc : (compareCells n o bs cs).isLE) : (compareCells m o as cs).isLE := by
  induction as generalizing P bs cs with
  | nil =>
    cases bs with
    | nil =>
      cases cs with
      | nil => exact Std.TransOrd.isLE_trans hab hbc
      | cons c cs => exact Marker.againstExtension_isLE_of_le hab hbc
    | cons b bs =>
      cases cs with
      | nil => exact Marker.isLE_of_againstExtension hab hbc
      | cons c cs => exact hab
  | cons a as ih =>
    cases bs with
    | nil =>
      cases cs with
      | nil => exact Marker.swap_againstExtension_isLE_of_le hab hbc
      | cons c cs => exact absurd hbc (Marker.not_againstExtension_isLE_of_swap hab)
    | cons b bs =>
      cases cs with
      | nil => exact hbc
      | cons c cs =>
        obtain ⟨hcellAB, hrestAB⟩ := Ordering.isLE_then_iff_and.mp hab
        obtain ⟨hcellBC, hrestBC⟩ := Ordering.isLE_then_iff_and.mp hbc
        have hcellAC := hP 0 has.head hbs.head hcs.head hcellAB hcellBC
        refine Ordering.isLE_then_iff_and.mpr ⟨hcellAC, ?_⟩
        rcases Ordering.isLE_iff_eq_lt_or_eq_eq.mp hcellAC with hlt | heq
        · exact .inl hlt
        -- Equal first cells are identical, so that the rest decides in both comparisons.
        · obtain rfl : a = c := Std.LawfulEqCmp.eq_of_compare heq
          obtain rfl : a = b := Std.LawfulEqCmp.eq_of_compare (Std.OrientedCmp.isLE_antisymm hcellAB hcellBC)
          have hsame : a.compare a ≠ .lt := by
            rw [heq]
            exact nofun
          exact .inr (ih (fun i => hP (i + 1)) has.tail hbs.tail hcs.tail (hrestAB.resolve_left hsame)
            (hrestBC.resolve_left hsame))

/-- The keys whose cells are allowed in their places. -/
def Along (P : Nat → Cell → Prop) (k : Key) : Prop :=
  CellsAlong P k.cells

theorem transOrd_along {P : Nat → Cell → Prop}
    (hP : ∀ i {a b c : Cell}, P i a → P i b → P i c → (a.compare b).isLE → (b.compare c).isLE → (a.compare c).isLE) :
    Std.TransOrd (Subtype (Along P)) where
  eq_swap := Std.OrientedOrd.eq_swap (α := Key)
  isLE_trans {a b c} := compareCells_isLE_trans hP a.2 b.2 c.2

/-- The cell stands in this place in one of two keys. -/
def CellOf (k k' : Key) (i : Nat) (cell : Cell) : Prop :=
  k.cells[i]? = some cell ∨ k'.cells[i]? = some cell

theorem along_cellOf_left (k k' : Key) : k.Along (CellOf k k') :=
  fun _ _ => .inl

theorem along_cellOf_right (k k' : Key) : k'.Along (CellOf k k') :=
  fun _ _ => .inr

/-- Two keys are compared lawfully with each other's beginnings and bounds, even if values have lengths at which their
    type is not ordered transitively: a chain of three comparisons needs three cells in one place. -/
instance (k k' : Key) : Std.TransOrd (Subtype (Along (CellOf k k'))) := by
  apply transOrd_along
  intro i a b c ha hb hc hab hbc
  have hsame : a = b ∨ b = c ∨ a = c := by
    rcases ha with ha | ha <;> rcases hb with hb | hb <;> rcases hc with hc | hc <;> grind
  rcases hsame with rfl | rfl | rfl
  · exact hbc
  · exact hab
  · have hself : a.compare a = .eq := Std.ReflCmp.compare_self
    rw [hself]
    rfl

instance {P : Key → Prop} : Std.LawfulEqOrd (Subtype P) where
  compare_self := Std.ReflOrd.compare_self (α := Key)
  eq_of_compare h := Subtype.ext (Std.LawfulEqOrd.eq_of_compare h)

end Key

end ClusteringKeys
