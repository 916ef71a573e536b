import ClusteringKeys.Proofs.KeyType.Order
import Mathlib

namespace ClusteringKeys.KeyType

/-- The value has the width at which the order of the type reads values. -/
def Reads (type : KeyType) (value : Bytes) : Prop :=
  type.readWidth? = some value.length

instance (type : KeyType) (value : Bytes) : Decidable (type.Reads value) :=
  inferInstanceAs (Decidable (type.readWidth? = some value.length))

/-- Two values that the order reads, and one that it takes by its bytes, such that each comes before the next in a
    circle: the order of what they spell puts `x` before `y`, and that of the bytes puts `z` above `y` and below
    `x`. -/
structure Clash (type : KeyType) (x y z : Bytes) : Prop where
  reads_left : type.Reads x
  reads_right : type.Reads y
  not_reads : ¬ type.Reads z
  spelled : type.compare x y = .lt
  above : Ord.compare y z = .lt
  below : Ord.compare z x = .lt

/-- The order of a type that reads some values takes all others by their bytes. -/
theorem compare_eq_of_not_reads {type : KeyType} (hwidth : type.readWidth? ≠ none) {a b : Bytes}
    (h : ¬ (type.Reads a ∧ type.Reads b)) : type.compare a b = Ord.compare a b := by
  cases a with
  | nil => cases b <;> rfl
  | cons x a =>
    cases b with
    | nil => rfl
    | cons y b =>
      cases type
      case float | double =>
        refine compareReadOr_of_not_isSome fun hread => h ?_
        rw [Floating.isSome_ofBytes?_iff, Floating.isSome_ofBytes?_iff] at hread
        exact ⟨congrArg some hread.1.symm, congrArg some hread.2.symm⟩
      case uuid | timeuuid =>
        refine compareReadOr_of_not_isSome fun hread => h ?_
        rw [Uuid.isSome_ofBytes?_iff, Uuid.isSome_ofBytes?_iff] at hread
        exact ⟨congrArg some hread.1.symm, congrArg some hread.2.symm⟩
      all_goals exact absurd rfl hwidth

theorem Reads.readWidth?_ne_none {type : KeyType} {value : Bytes} (h : type.Reads value) :
    type.readWidth? ≠ none := by
  rw [h]
  exact Option.some_ne_none _

theorem Clash.compare_right {type : KeyType} {x y z : Bytes} (h : type.Clash x y z) : type.compare y z = .lt :=
  (compare_eq_of_not_reads h.reads_left.readWidth?_ne_none fun hreads => h.not_reads hreads.2).trans h.above

theorem Clash.compare_left {type : KeyType} {x y z : Bytes} (h : type.Clash x y z) : type.compare z x = .lt :=
  (compare_eq_of_not_reads h.reads_left.readWidth?_ne_none fun hreads => h.not_reads hreads.1).trans h.below

theorem compare_eq_lt_of_isLE {type : KeyType} {a b : Bytes} (hne : a ≠ b) (hab : (type.compare a b).isLE) :
    type.compare a b = .lt :=
  (Ordering.isLE_iff_eq_lt_or_eq_eq.mp hab).resolve_right fun heq => hne (Std.LawfulEqCmp.eq_of_compare heq)

/-- Where two values that the order reads and one that it does not come before each other in a circle, they clash. -/
theorem clash_of_circle {type : KeyType} {x y z : Bytes} (hx : type.Reads x) (hy : type.Reads y)
    (hz : ¬ type.Reads z) (hxy : (type.compare x y).isLE) (hyz : (type.compare y z).isLE)
    (hzx : (type.compare z x).isLE) : type.Clash x y z := by
  have hyzNe : y ≠ z := fun h => hz (h ▸ hy)
  have hzxNe : z ≠ x := fun h => hz (h ▸ hx)
  have hxyNe : x ≠ y := by
    rintro rfl
    exact hyzNe (Std.LawfulEqCmp.eq_of_compare (Std.OrientedCmp.isLE_antisymm hyz hzx))
  refine ⟨hx, hy, hz, compare_eq_lt_of_isLE hxyNe hxy, ?_, ?_⟩
  · rw [← compare_eq_of_not_reads hx.readWidth?_ne_none fun hreads => hz hreads.2]
    exact compare_eq_lt_of_isLE hyzNe hyz
  · rw [← compare_eq_of_not_reads hx.readWidth?_ne_none fun hreads => hz hreads.1]
    exact compare_eq_lt_of_isLE hzxNe hzx

/-- Among values of which at most one is read, all comparisons are those of bytes. -/
theorem compare_isLE_trans_of_not_reads {type : KeyType} (hwidth : type.readWidth? ≠ none) {a b c : Bytes}
    (hab : ¬ (type.Reads a ∧ type.Reads b)) (hbc : ¬ (type.Reads b ∧ type.Reads c))
    (hac : ¬ (type.Reads a ∧ type.Reads c)) (hleAB : (type.compare a b).isLE) (hleBC : (type.compare b c).isLE) :
    (type.compare a c).isLE := by
  rw [compare_eq_of_not_reads hwidth hab] at hleAB
  rw [compare_eq_of_not_reads hwidth hbc] at hleBC
  rw [compare_eq_of_not_reads hwidth hac]
  exact Std.TransOrd.isLE_trans hleAB hleBC

theorem compare_isLE_trans_of_reads {type : KeyType} {a b c : Bytes} (ha : type.Reads a) (hb : type.Reads b)
    (hc : type.Reads c) (hab : (type.compare a b).isLE) (hbc : (type.compare b c).isLE) :
    (type.compare a c).isLE := by
  have hreads : ∀ value ∈ [a, b, c], type.Reads value := by simp [ha, hb, hc]
  refine type.compare_isLE_trans_of_readWidth? (fun width hwidth value hvalue _ => ?_) hab hbc
  exact Option.some.inj ((hreads value hvalue).symm.trans hwidth)

/-- Only a clash stands in the way of transitivity. -/
theorem compare_isLE_trans_or_clash (type : KeyType) {a b c : Bytes} (hab : (type.compare a b).isLE)
    (hbc : (type.compare b c).isLE) :
    (type.compare a c).isLE ∨ type.Clash a b c ∨ type.Clash b c a ∨ type.Clash c a b := by
  by_contra hnot
  simp only [not_or] at hnot
  obtain ⟨hnotAC, hclashABC, hclashBCA, hclashCAB⟩ := hnot
  have hca : (type.compare c a).isLE := by
    refine Std.OrientedCmp.isLE_of_isGE ?_
    revert hnotAC
    cases type.compare a c <;> decide
  -- Two values of the circle that are read clash with the third unless it is read too.
  have hc : type.Reads a → type.Reads b → type.Reads c := fun ha hb =>
    not_not.mp fun hc => hclashABC (clash_of_circle ha hb hc hab hbc hca)
  have ha : type.Reads b → type.Reads c → type.Reads a := fun hb hc =>
    not_not.mp fun ha => hclashBCA (clash_of_circle hb hc ha hbc hca hab)
  have hb : type.Reads c → type.Reads a → type.Reads b := fun hc ha =>
    not_not.mp fun hb => hclashCAB (clash_of_circle hc ha hb hca hab hbc)
  apply hnotAC
  by_cases hall : type.Reads a ∧ type.Reads b ∧ type.Reads c
  · exact compare_isLE_trans_of_reads hall.1 hall.2.1 hall.2.2 hab hbc
  by_cases hwidth : type.readWidth? = none
  · exact type.compare_isLE_trans_of_readWidth? (by simp [hwidth]) hab hbc
  · exact compare_isLE_trans_of_not_reads hwidth (fun h => hall ⟨h.1, h.2, hc h.1 h.2⟩)
      (fun h => hall ⟨ha h.1 h.2, h.1, h.2⟩) (fun h => hall ⟨h.1, hb h.2 h.1, h.2⟩) hab hbc

/-- The bytes of some values order against what they spell: negative numbers have the higher bytes, and identifiers
    begin with the low bits of their time. -/
theorem exists_clash_iff (type : KeyType) :
    (∃ x y z, type.Clash x y z) ↔ type ∈ [float, double, uuid, timeuuid] := by
  constructor
  · rintro ⟨x, y, z, hclash⟩
    have hwidth := hclash.reads_left.readWidth?_ne_none
    cases type
    case float | double | uuid | timeuuid => simp
    all_goals exact absurd rfl hwidth
  · intro htype
    have hidentifiers : type = uuid ∨ type = timeuuid →
        type.Clash [0xFF, 0, 0, 0, 0, 0, 0, 0, 0, 0, 0, 0, 0, 0, 0, 0]
          [0, 0, 0, 0, 0, 0, 0x10, 1, 0, 0, 0, 0, 0, 0, 0, 0] [0x80] := by
      rintro (rfl | rfl) <;> constructor <;> decide +kernel
    rcases List.mem_cons.mp htype with rfl | htype
    · refine ⟨[0xBF, 0x80, 0, 0], [0x3F, 0x80, 0, 0], [0x80], ?_⟩
      constructor <;> decide +kernel
    rcases List.mem_cons.mp htype with rfl | htype
    · refine ⟨[0xBF, 0xF0, 0, 0, 0, 0, 0, 0], [0x3F, 0xF0, 0, 0, 0, 0, 0, 0], [0x80], ?_⟩
      constructor <;> decide +kernel
    · exact ⟨_, _, _, hidentifiers (by simpa using htype)⟩

/-- The order of a type is transitive on bytes of any length, except where two values that it reads clash with one that
    it does not. There it never is. Only the types of floating point numbers and identifiers have such values. -/
theorem compare_isLE_trans_iff_not_clash (type : KeyType) :
    (∀ a b c, (type.compare a b).isLE → (type.compare b c).isLE →
      ((type.compare a c).isLE ↔ ¬ (type.Clash a b c ∨ type.Clash b c a ∨ type.Clash c a b))) ∧
    ((∃ x y z, type.Clash x y z) ↔ type ∈ [float, double, uuid, timeuuid]) := by
  refine ⟨fun a b c hab hbc => ⟨fun hac hclash => ?_, ?_⟩, type.exists_clash_iff⟩
  · have hca : type.compare c a = .lt := by
      rcases hclash with h | h | h
      · exact h.compare_left
      · exact h.compare_right
      · exact h.spelled
    exact Std.OrientedCmp.not_isLE_of_lt hca hac
  · exact (type.compare_isLE_trans_or_clash hab hbc).resolve_right

/-- One and two as floating point numbers, and a byte that spells none: its bytes are above those of both. -/
theorem compare_isLE_trans_iff_not_clash_of_short_float :
    let one : Bytes := [0x3F, 0x80, 0, 0]
    let two : Bytes := [0x40, 0, 0, 0]
    let short : Bytes := [0x80]
    (float.compare one two).isLE ∧ (float.compare two short).isLE ∧
      ¬ (float.Clash one two short ∨ float.Clash two short one ∨ float.Clash short one two) ∧
      (float.compare one short).isLE := by
  intro one two short
  have hab : (float.compare one two).isLE := by decide +kernel
  have hbc : (float.compare two short).isLE := by decide +kernel
  have hclash : ¬ (float.Clash one two short ∨ float.Clash two short one ∨ float.Clash short one two) := by
    rintro (h | h | h)
    · exact absurd h.below (by decide)
    · exact absurd h.reads_right (by decide)
    · exact absurd h.reads_left (by decide)
  exact ⟨hab, hbc, hclash, ((compare_isLE_trans_iff_not_clash float).1 one two short hab hbc).mpr hclash⟩

/-- One is below the byte that spells no number, and that is below minus one. -/
theorem compare_not_isLE_trans :
    ¬ ∀ (type : KeyType) (a b c : Bytes), (type.compare a b).isLE → (type.compare b c).isLE →
      (type.compare a c).isLE := by
  intro htrans
  have hac := htrans float [0x3F, 0x80, 0, 0] [0x80] [0xBF, 0x80, 0, 0] (by decide +kernel) (by decide +kernel)
  revert hac
  decide +kernel

end ClusteringKeys.KeyType
