import ClusteringKeys.KeyType.Check
import ClusteringKeys.KeyType.Order
import ClusteringKeys.Proofs.Bytes.Signed
import ClusteringKeys.Proofs.Floating
import ClusteringKeys.Proofs.Uuid
import Mathlib

namespace ClusteringKeys

section ReadOr

variable {α : Type} {read? : Bytes → Option α} {order : α → α → Ordering}

theorem compareReadOr_of_some {a b : Bytes} {x y : α} (ha : read? a = some x) (hb : read? b = some y) :
    compareReadOr read? order a b = order x y := by
  simp only [compareReadOr, ha, hb]

theorem compareReadOr_of_not_isSome {a b : Bytes} (h : ¬ ((read? a).isSome ∧ (read? b).isSome)) :
    compareReadOr read? order a b = compare a b := by
  cases ha : read? a <;> cases hb : read? b <;> simp_all [compareReadOr]

theorem orientedCmp_compareReadOr [Std.OrientedCmp order] : Std.OrientedCmp (compareReadOr read? order) where
  eq_swap {a b} := by
    cases ha : read? a <;> cases hb : read? b <;> simp only [compareReadOr, ha, hb] <;>
      exact Std.OrientedCmp.eq_swap

/-- Where only one side can be read the bytes decide, and they differ. -/
theorem eq_of_compareReadOr [Std.LawfulEqCmp order]
    (hinj : ∀ {a b : Bytes} {x : α}, read? a = some x → read? b = some x → a = b) {a b : Bytes}
    (h : compareReadOr read? order a b = .eq) : a = b := by
  cases ha : read? a with
  | none =>
    simp only [compareReadOr, ha] at h
    exact Std.LawfulEqOrd.eq_of_compare h
  | some x =>
    cases hb : read? b with
    | none =>
      simp only [compareReadOr, ha, hb] at h
      exact Std.LawfulEqOrd.eq_of_compare h
    | some y =>
      rw [compareReadOr_of_some ha hb] at h
      obtain rfl : x = y := Std.LawfulEqCmp.eq_of_compare h
      exact hinj ha hb

theorem compareReadOr_isLE_trans [Std.TransCmp order] {a b c : Bytes} (ha : (read? a).isSome)
    (hb : (read? b).isSome) (hc : (read? c).isSome) (hab : (compareReadOr read? order a b).isLE)
    (hbc : (compareReadOr read? order b c).isLE) : (compareReadOr read? order a c).isLE := by
  obtain ⟨x, hx⟩ := Option.isSome_iff_exists.mp ha
  obtain ⟨y, hy⟩ := Option.isSome_iff_exists.mp hb
  obtain ⟨z, hz⟩ := Option.isSome_iff_exists.mp hc
  rw [compareReadOr_of_some hx hy] at hab
  rw [compareReadOr_of_some hy hz] at hbc
  rw [compareReadOr_of_some hx hz]
  exact Std.TransCmp.isLE_trans hab hbc

end ReadOr

namespace KeyType

theorem compare_eq_compareNonempty (type : KeyType) {a b : Bytes} (ha : a ≠ []) (hb : b ≠ []) :
    type.compare a b = type.compareNonempty a b := by
  cases a with
  | nil => exact absurd rfl ha
  | cons x a =>
    cases b with
    | nil => exact absurd rfl hb
    | cons y b => rfl

instance (type : KeyType) : Std.OrientedCmp type.compareNonempty := by
  cases type
  case float | double | uuid | timeuuid => exact orientedCmp_compareReadOr
  case tinyint | smallint | int | bigint | timestamp | time =>
    exact inferInstanceAs (Std.OrientedCmp Bytes.compareSigned)
  all_goals exact inferInstanceAs (Std.OrientedOrd Bytes)

/-- Only identical bytes compare equal, whether or not they are well formed. -/
theorem eq_of_compareNonempty (type : KeyType) {a b : Bytes} (h : type.compareNonempty a b = .eq) : a = b := by
  cases type
  case float | double => exact eq_of_compareReadOr Floating.ofBytes?_injective h
  case uuid | timeuuid =>
    refine eq_of_compareReadOr (fun ha hb => ?_) h
    rw [← Uuid.ofBytes?_eq_some_iff.mp ha, Uuid.ofBytes?_eq_some_iff.mp hb]
  case tinyint | smallint | int | bigint | timestamp | time =>
    exact (Std.LawfulEqCmp.compare_eq_iff_eq : Bytes.compareSigned a b = .eq ↔ a = b).mp h
  all_goals exact Std.LawfulEqOrd.eq_of_compare h

instance (type : KeyType) : Std.OrientedCmp type.compare where
  eq_swap {a b} := by
    cases a with
    | nil => cases b <;> rfl
    | cons x a =>
      cases b with
      | nil => rfl
      | cons y b =>
        change type.compareNonempty (x :: a) (y :: b) = (type.compareNonempty (y :: b) (x :: a)).swap
        exact Std.OrientedCmp.eq_swap

instance (type : KeyType) : Std.LawfulEqCmp type.compare where
  compare_self := Std.ReflCmp.compare_self
  eq_of_compare {a b} h := by
    cases a with
    | nil =>
      cases b with
      | nil => rfl
      | cons y b => cases h
    | cons x a =>
      cases b with
      | nil => cases h
      | cons y b => exact type.eq_of_compareNonempty h

/-- The value is empty or takes the bytes that all values of the type take. Values of other lengths are where some of
    the orders stop being transitive. -/
def Sized (type : KeyType) (value : Bytes) : Prop :=
  value = [] ∨ ∀ width, type.width? = some width → value.length = width

theorem check_eq_ok_iff_length {type : KeyType} {width : Nat} (hwidth : type.width? = some width) {value : Bytes} :
    type.check value = .ok () ↔ value.length = width := by
  simp only [check, hwidth]
  split
  next hlength => exact iff_of_true rfl hlength
  next hlength => simp [hlength]

theorem sized_of_check {type : KeyType} {value : Bytes} (h : type.check value = .ok ()) : type.Sized value :=
  .inr fun _ hwidth => (check_eq_ok_iff_length hwidth).mp h

theorem width_pos {type : KeyType} {width : Nat} (hwidth : type.width? = some width) : 0 < width := by
  cases type <;> cases hwidth <;> decide

/-- The width at which the order of the type reads values. It takes those of other widths by their bytes alone. Types
    without one order all values alike. -/
def readWidth? : KeyType → Option Nat
  | float => some 4
  | double => some 8
  | uuid | timeuuid => some 16
  | _ => none

theorem width?_of_readWidth? {type : KeyType} {width : Nat} (h : type.readWidth? = some width) :
    type.width? = some width := by
  cases type <;> first | exact h | cases h

/-- On values that it reads, the order is that of what they spell. -/
theorem compareNonempty_isLE_trans (type : KeyType) {a b c : Bytes}
    (h : ∀ width, type.readWidth? = some width → a.length = width ∧ b.length = width ∧ c.length = width)
    (hab : (type.compareNonempty a b).isLE) (hbc : (type.compareNonempty b c).isLE) :
    (type.compareNonempty a c).isLE := by
  cases type
  case float | double =>
    obtain ⟨ha, hb, hc⟩ := h _ rfl
    exact compareReadOr_isLE_trans (Floating.isSome_ofBytes?_iff.mpr ha) (Floating.isSome_ofBytes?_iff.mpr hb)
      (Floating.isSome_ofBytes?_iff.mpr hc) hab hbc
  case uuid | timeuuid =>
    obtain ⟨ha, hb, hc⟩ := h _ rfl
    exact compareReadOr_isLE_trans (Uuid.isSome_ofBytes?_iff.mpr ha) (Uuid.isSome_ofBytes?_iff.mpr hb)
      (Uuid.isSome_ofBytes?_iff.mpr hc) hab hbc
  case tinyint | smallint | int | bigint | timestamp | time =>
    exact Bytes.compareSigned_isLE_trans hab hbc
  all_goals exact Std.TransOrd.isLE_trans hab hbc

/-- The order of a type is transitive among the empty value and values that it reads. -/
theorem compare_isLE_trans_of_readWidth? (type : KeyType) {a b c : Bytes}
    (h : ∀ width, type.readWidth? = some width → ∀ value ∈ [a, b, c], value ≠ [] → value.length = width)
    (hab : (type.compare a b).isLE) (hbc : (type.compare b c).isLE) : (type.compare a c).isLE := by
  cases a with
  | nil => cases c <;> rfl
  | cons x a =>
    cases b with
    | nil => cases hab
    | cons y b =>
      cases c with
      | nil => cases hbc
      | cons z c =>
        refine type.compareNonempty_isLE_trans (fun width hwidth => ?_) hab hbc
        have hlength := h width hwidth
        simp only [List.forall_mem_cons] at hlength
        obtain ⟨ha, hb, hc, _⟩ := hlength
        exact ⟨ha (List.cons_ne_nil x a), hb (List.cons_ne_nil y b), hc (List.cons_ne_nil z c)⟩

theorem compare_isLE_trans (type : KeyType) {a b c : Bytes} (ha : type.Sized a) (hb : type.Sized b)
    (hc : type.Sized c) (hab : (type.compare a b).isLE) (hbc : (type.compare b c).isLE) :
    (type.compare a c).isLE := by
  have hsized : ∀ value ∈ [a, b, c], type.Sized value := by simp [ha, hb, hc]
  refine type.compare_isLE_trans_of_readWidth? (fun width hwidth value hvalue hnonempty => ?_) hab hbc
  exact (hsized value hvalue).resolve_left hnonempty width (width?_of_readWidth? hwidth)

end KeyType

end ClusteringKeys
