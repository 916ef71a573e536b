import ClusteringKeys.Column
import ClusteringKeys.Proofs.KeyType.Order
import Mathlib

namespace ClusteringKeys

namespace KeyKind

instance : Std.TransOrd KeyKind :=
  inferInstanceAs (Std.TransCmp (compareOn rank))

instance : Std.LawfulEqOrd KeyKind where
  compare_self := Std.ReflCmp.compare_self
  eq_of_compare {a b} h := by cases a <;> cases b <;> first | rfl | cases h

end KeyKind

namespace Direction

instance : Std.TransOrd Direction :=
  inferInstanceAs (Std.TransCmp (compareOn rank))

instance : Std.LawfulEqOrd Direction where
  compare_self := Std.ReflCmp.compare_self
  eq_of_compare {a b} h := by cases a <;> cases b <;> first | rfl | cases h

@[simp]
theorem apply_eq_eq_iff (d : Direction) (o : Ordering) : d.apply o = .eq ↔ o = .eq := by
  cases d <;> simp [apply]

theorem swap_apply (d : Direction) (o : Ordering) : (d.apply o).swap = d.apply o.swap := by
  cases d <;> rfl

end Direction

namespace KeyType

/-- A built-in type is known by its place among the types, and a custom one by its name. -/
theorem getD_rank (type : KeyType) : builtin.getD type.rank (custom type.name) = type := by
  cases type <;> rfl

instance : Std.TransOrd KeyType :=
  inferInstanceAs (Std.TransCmp (compareLex (compareOn rank) (compareOn name)))

instance : Std.LawfulEqOrd KeyType where
  compare_self := Std.ReflCmp.compare_self
  eq_of_compare {a b} h := by
    obtain ⟨hrank, hname⟩ := Ordering.then_eq_eq.mp h
    rw [← getD_rank a, ← getD_rank b, Std.LawfulEqOrd.eq_of_compare hrank, Std.LawfulEqOrd.eq_of_compare hname]

end KeyType

namespace Column

instance : Std.TransCmp compareIdentity :=
  inferInstanceAs (Std.TransCmp (compareLex (compareOn kind) (compareLex (compareOn position)
    (compareLex (compareOn keyspace) (compareLex (compareOn table) (compareLex (compareOn name)
      (compareLex (compareOn type) (compareOn direction))))))))

instance : Std.LawfulEqCmp compareIdentity where
  compare_self := Std.ReflCmp.compare_self
  eq_of_compare {a b} h := by
    simp only [compareIdentity, Ordering.then_eq_eq, Std.LawfulEqOrd.compare_eq_iff_eq] at h
    cases a
    cases b
    simp_all

instance (column : Column) : Std.OrientedCmp column.compareValues where
  eq_swap {a b} := by
    rw [compareValues, compareValues, Direction.swap_apply, ← Std.OrientedCmp.eq_swap]

instance (column : Column) : Std.LawfulEqCmp column.compareValues where
  compare_self := Std.ReflCmp.compare_self
  eq_of_compare h :=
    Std.LawfulEqCmp.eq_of_compare ((Direction.apply_eq_eq_iff _ _).mp h)

/-- Values that the type orders transitively stay so in either direction. -/
theorem compareValues_isLE_trans (column : Column) {a b c : Bytes} (ha : column.type.Sized a)
    (hb : column.type.Sized b) (hc : column.type.Sized c) (hab : (column.compareValues a b).isLE)
    (hbc : (column.compareValues b c).isLE) : (column.compareValues a c).isLE := by
  rw [compareValues] at hab hbc ⊢
  cases hdirection : column.direction with
  | asc =>
    rw [hdirection] at hab hbc
    exact column.type.compare_isLE_trans ha hb hc hab hbc
  | desc =>
    rw [hdirection, Direction.apply, ← Std.OrientedCmp.eq_swap] at hab hbc
    rw [Direction.apply, ← Std.OrientedCmp.eq_swap]
    exact column.type.compare_isLE_trans hc hb ha hbc hab

theorem isFollowedBy_iff {c d : Column} :
    c.isFollowedBy d ↔ c.kind = d.kind ∧ c.position.toNat + 1 = d.position.toNat := by
  rw [isFollowedBy, Bool.and_eq_true, decide_eq_true_iff, decide_eq_true_iff]

end Column

end ClusteringKeys
