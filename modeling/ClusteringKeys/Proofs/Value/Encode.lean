import ClusteringKeys.Proofs.KeyType.Order
import ClusteringKeys.Proofs.Text.Utf8
import ClusteringKeys.Value.Encode
import Mathlib

namespace ClusteringKeys

/-- The order of the type's values is that of truth values, whole numbers or bytes. Floating point numbers and
    identifiers have orders of their own. -/
def KeyType.isNatural : KeyType → Bool
  | float | double | uuid | timeuuid => false
  | _ => true

/-- The type stores whole numbers in two's complement. -/
def KeyType.isInteger : KeyType → Bool
  | tinyint | smallint | int | bigint | timestamp | time => true
  | _ => false

theorem KeyType.compare_of_bytes {type : KeyType} (htype : type.compareNonempty = Ord.compare) (a b : Bytes) :
    type.compare a b = Ord.compare a b := by
  cases a with
  | nil => cases b <;> rfl
  | cons x a =>
    cases b with
    | nil => rfl
    | cons y b => exact congrFun₂ htype (x :: a) (y :: b)

theorem KeyType.compareNonempty_of_isInteger {type : KeyType} (htype : type.isInteger) :
    type.compareNonempty = Bytes.compareSigned := by
  cases type
  case tinyint | smallint | int | bigint | timestamp | time => rfl
  all_goals cases htype

/-- Values of any widths order by the numbers that they write, and values of one number by width. This is how all types
    of whole numbers and times order what is not empty, also where the widths are not theirs. -/
theorem KeyType.numbers_order_by_number_then_width {l r : Bytes} (hl : l ≠ []) (hr : r ≠ []) :
    Bytes.compareSigned l r = (Ord.compare l.toInt r.toInt).then (Ord.compare l.length r.length) ∧
    ∀ type : KeyType, type.isInteger → type.compare l r = Bytes.compareSigned l r := by
  refine ⟨Bytes.compareSigned_eq l r, fun type htype => ?_⟩
  rw [type.compare_eq_compareNonempty hl hr, compareNonempty_of_isInteger htype]

/-- Minus one in one byte and in four, and a number below both in two. -/
theorem KeyType.numbers_order_by_number_then_width_of_minus_one :
    let narrow : Bytes := [0xFF]
    let wide : Bytes := [0xFF, 0xFF, 0xFF, 0xFF]
    let below : Bytes := [0xFF, 0]
    narrow ≠ [] ∧ wide ≠ [] ∧ below ≠ [] ∧ int.isInteger ∧ narrow.toInt = -1 ∧ wide.toInt = -1 ∧
      below.toInt = -256 ∧ int.compare narrow wide = .lt ∧ int.compare wide below = .gt := by
  intro narrow wide below
  have hnarrow : narrow ≠ [] := List.cons_ne_nil _ _
  have hwide : wide ≠ [] := List.cons_ne_nil _ _
  have hbelow : below ≠ [] := List.cons_ne_nil _ _
  have hint : int.isInteger := rfl
  have hnarrowInt : narrow.toInt = -1 := by decide +kernel
  have hwideInt : wide.toInt = -1 := by decide +kernel
  have hbelowInt : below.toInt = -256 := by decide +kernel
  obtain ⟨hwidth, hsigned⟩ := numbers_order_by_number_then_width hnarrow hwide
  obtain ⟨hnumber, hsigned'⟩ := numbers_order_by_number_then_width hwide hbelow
  rw [hnarrowInt, hwideInt] at hwidth
  rw [hwideInt, hbelowInt] at hnumber
  exact ⟨hnarrow, hwide, hbelow, hint, hnarrowInt, hwideInt, hbelowInt, (hsigned int hint).trans hwidth,
    (hsigned' int hint).trans hnumber⟩

theorem Bytes.ofInt_ne_nil (width : Nat) (n : Int) : ofInt (width + 1) n ≠ [] :=
  List.ne_nil_of_length_eq_add_one (length_ofInt _ _)

theorem Bytes.compareSigned_ofInt {width : Nat} {m n : Int} (hm : Fits width m) (hn : Fits width n) :
    compareSigned (ofInt width m) (ofInt width n) = compare m n := by
  rw [compareSigned_eq, toInt_ofInt hm, toInt_ofInt hn, length_ofInt, length_ofInt, Nat.compare_eq_eq.mpr rfl,
    Ordering.then_eq]

private theorem compare_natCast (m n : Nat) : compare (m : Int) (n : Int) = compare m n := by
  change compareOfLessAndEq (m : Int) (n : Int) = compareOfLessAndEq m n
  simp only [compareOfLessAndEq, Int.ofNat_lt, Int.natCast_inj]

theorem Bytes.compare_ofInt {width : Nat} {m n : Int} (hm : 0 ≤ m ∧ m < 256 ^ width) (hn : 0 ≤ n ∧ n < 256 ^ width) :
    compare (ofInt width m) (ofInt width n) = compare m n := by
  have hlength : (ofInt width m).length = (ofInt width n).length := by rw [length_ofInt, length_ofInt]
  have hmNat := toNat_ofInt width m
  have hnNat := toNat_ofInt width n
  rw [Int.emod_eq_of_lt hm.1 hm.2] at hmNat
  rw [Int.emod_eq_of_lt hn.1 hn.2] at hnNat
  rw [compare_eq_compare_toNat hlength, ← compare_natCast, hmNat, hnNat]

namespace Value

/-- The whole number that a number, date or time stands for. -/
def number? : Value → Option Int
  | tinyint n => some n.toInt
  | smallint n => some n.toInt
  | int n | date n => some n.toInt
  | bigint n | timestamp n | time n => some n.toInt
  | _ => none

/-- The natural order of values of one type: false before true, texts by their encoded bytes, other data by its bytes,
    and numbers, dates and times by size, whatever their widths. -/
def compareNatural : Value → Value → Ordering
  | boolean a, boolean b => compare a b
  | text a, text b => compare (Utf8.encode a) (Utf8.encode b)
  | blob a, blob b | inet a, inet b => compare a b
  | v, w => compare v.number? w.number?

theorem compareNatural_of_number {v w : Value} {m n : Int} (hv : v.number? = some m) (hw : w.number? = some n) :
    v.compareNatural w = compare m n := by
  unfold compareNatural
  split
  case h_5 =>
    rw [hv, hw]
    rfl
  all_goals cases hv

theorem fits_int8 (n : Int8) : Bytes.Fits 1 n.toInt :=
  ⟨by have := n.le_toInt; omega, by have := n.toInt_lt; omega⟩

theorem fits_int16 (n : Int16) : Bytes.Fits 2 n.toInt :=
  ⟨by have := n.le_toInt; omega, by have := n.toInt_lt; omega⟩

theorem fits_int32 (n : Int32) : Bytes.Fits 4 n.toInt :=
  ⟨by have := n.le_toInt; omega, by have := n.toInt_lt; omega⟩

theorem fits_int64 (n : Int64) : Bytes.Fits 8 n.toInt :=
  ⟨by have := n.le_toInt; omega, by have := n.toInt_lt; omega⟩

/-- Columns of whole numbers store them in two's complement of a width in which all of them fit. -/
theorem exists_number_of_encode? {type : KeyType} (htype : type.isInteger) :
    ∃ width, ∀ {v : Value} {a : Bytes}, v.encode? type = some a →
      ∃ n, v.number? = some n ∧ a = Bytes.ofInt (width + 1) n ∧ Bytes.Fits (width + 1) n := by
  cases type
  case tinyint =>
    refine ⟨0, fun {v a} h => ?_⟩
    cases v <;> cases h
    case tinyint n => exact ⟨_, rfl, rfl, fits_int8 n⟩
  case smallint =>
    refine ⟨1, fun {v a} h => ?_⟩
    cases v <;> cases h
    case smallint n => exact ⟨_, rfl, rfl, fits_int16 n⟩
    case tinyint n => exact ⟨_, rfl, rfl, (fits_int8 n).mono (by decide)⟩
  case int =>
    refine ⟨3, fun {v a} h => ?_⟩
    cases v <;> cases h
    case int n => exact ⟨_, rfl, rfl, fits_int32 n⟩
    case smallint n => exact ⟨_, rfl, rfl, (fits_int16 n).mono (by decide)⟩
    case tinyint n => exact ⟨_, rfl, rfl, (fits_int8 n).mono (by decide)⟩
  case bigint =>
    refine ⟨7, fun {v a} h => ?_⟩
    cases v <;> cases h
    case bigint n => exact ⟨_, rfl, rfl, fits_int64 n⟩
    case int n => exact ⟨_, rfl, rfl, (fits_int32 n).mono (by decide)⟩
  case timestamp =>
    refine ⟨7, fun {v a} h => ?_⟩
    cases v <;> cases h
    case timestamp n => exact ⟨_, rfl, rfl, fits_int64 n⟩
  case time =>
    refine ⟨7, fun {v a} h => ?_⟩
    cases v <;> cases h
    case time n => exact ⟨_, rfl, rfl, fits_int64 n⟩
  all_goals cases htype

private theorem compare_encode_of_isInteger {type : KeyType} (htype : type.isInteger) {v w : Value} {a b : Bytes}
    (ha : v.encode? type = some a) (hb : w.encode? type = some b) : type.compare a b = v.compareNatural w := by
  obtain ⟨width, hnumber⟩ := exists_number_of_encode? htype
  obtain ⟨m, hm, rfl, hmFits⟩ := hnumber ha
  obtain ⟨n, hn, rfl, hnFits⟩ := hnumber hb
  rw [compareNatural_of_number hm hn, type.compare_eq_compareNonempty (Bytes.ofInt_ne_nil _ _) (Bytes.ofInt_ne_nil _ _),
    KeyType.compareNonempty_of_isInteger htype, Bytes.compareSigned_ofInt hmFits hnFits]

/-- A column of ASCII texts stores them as one of any texts does. -/
theorem encode?_ascii_eq_some_iff {v : Value} {a : Bytes} :
    v.encode? .ascii = some a ↔ a.isAscii ∧ v.encode? .text = some a := by
  cases v
  case text s =>
    simp only [encode?]
    split
    next hascii => exact ⟨fun h => ⟨Option.some.inj h ▸ hascii, h⟩, And.right⟩
    next hascii => exact iff_of_false nofun fun h => hascii (Option.some.inj h.2 ▸ h.1)
  all_goals simp [encode?]

/-- Stored values are ordered as the values are. -/
theorem compare_encode {type : KeyType} (htype : type.isNatural) {v w : Value} {a b : Bytes}
    (ha : v.encode? type = some a) (hb : w.encode? type = some b) : type.compare a b = v.compareNatural w := by
  cases type
  case tinyint | smallint | int | bigint | timestamp | time => exact compare_encode_of_isInteger rfl ha hb
  case float | double | uuid | timeuuid => cases htype
  case boolean =>
    cases v <;> cases ha
    cases w <;> cases hb
    case boolean.refl.boolean.refl x y => cases x <;> cases y <;> rfl
  case date =>
    cases v <;> cases ha
    cases w <;> cases hb
    case date.refl.date.refl m n =>
      have hrange (k : Int32) : 0 ≤ k.toInt + KeyType.epochDay ∧ k.toInt + KeyType.epochDay < 256 ^ 4 := by
        obtain ⟨hlow, hhigh⟩ := fits_int32 k
        simp only [KeyType.epochDay]
        omega
      rw [KeyType.compare_of_bytes rfl, Bytes.compare_ofInt (hrange m) (hrange n)]
      change compareOfLessAndEq _ _ = compareOfLessAndEq m.toInt n.toInt
      simp only [compareOfLessAndEq, Int.add_lt_add_iff_right, Int.add_left_inj]
  case ascii =>
    have ha := (encode?_ascii_eq_some_iff.mp ha).2
    have hb := (encode?_ascii_eq_some_iff.mp hb).2
    cases v <;> cases ha
    cases w <;> cases hb
    exact KeyType.compare_of_bytes rfl _ _
  case text | blob | inet | custom =>
    cases v <;> cases ha
    cases w <;> cases hb
    exact KeyType.compare_of_bytes rfl _ _

theorem encode_eq_ok_iff {type : KeyType} {v : Value} {b : Bytes} :
    v.encode type = .ok b ↔ v.encode? type = some b := by
  unfold encode
  split
  next hnull =>
    cases v <;> cases hnull
    cases type <;> simp [encode?]
  next => cases v.encode? type <;> simp

/-- Naturally equal values are identical, or the same number in different widths. -/
private theorem eq_or_number_of_compareNatural {type : KeyType} (htype : type.isNatural) {v w : Value} {a b : Bytes}
    (ha : v.encode? type = some a) (hb : w.encode? type = some b) (h : v.compareNatural w = .eq) :
    v = w ∨ ∃ n, v.number? = some n ∧ w.number? = some n := by
  by_cases hinteger : type.isInteger
  · obtain ⟨_, hnumber⟩ := exists_number_of_encode? hinteger
    obtain ⟨m, hm, _⟩ := hnumber ha
    obtain ⟨n, hn, _⟩ := hnumber hb
    rw [compareNatural_of_number hm hn] at h
    exact .inr ⟨m, hm, Std.LawfulEqOrd.eq_of_compare h ▸ hn⟩
  cases type
  case tinyint | smallint | int | bigint | timestamp | time => exact absurd rfl hinteger
  case float | double | uuid | timeuuid => cases htype
  case date =>
    cases v <;> cases ha
    cases w <;> cases hb
    rw [compareNatural_of_number rfl rfl] at h
    exact .inr ⟨_, rfl, congrArg some (Std.LawfulEqOrd.eq_of_compare h).symm⟩
  case text =>
    cases v <;> cases ha
    cases w <;> cases hb
    exact .inl (congrArg text (Utf8.encode_injective (Std.LawfulEqOrd.eq_of_compare h)))
  case ascii =>
    have ha := (encode?_ascii_eq_some_iff.mp ha).2
    have hb := (encode?_ascii_eq_some_iff.mp hb).2
    cases v <;> cases ha
    cases w <;> cases hb
    exact .inl (congrArg text (Utf8.encode_injective (Std.LawfulEqOrd.eq_of_compare h)))
  case boolean | blob | inet | custom =>
    cases v <;> cases ha
    cases w <;> cases hb
    exact .inl (congrArg _ (Std.LawfulEqOrd.eq_of_compare h))

/-- Stored values are ordered as the values are, so that two values are stored alike if neither comes before the other.
    These are the values that are identical or the same number in different widths. -/
theorem encode_keeps_order {type : KeyType} (htype : type.isNatural) {v w : Value} {a b : Bytes}
    (ha : v.encode type = .ok a) (hb : w.encode type = .ok b) :
    type.compare a b = v.compareNatural w ∧
    (a = b ↔ v.compareNatural w = .eq) ∧
    (a = b ↔ v = w ∨ ∃ n, v.number? = some n ∧ w.number? = some n) := by
  have ha := encode_eq_ok_iff.mp ha
  have hb := encode_eq_ok_iff.mp hb
  have hcompare := compare_encode htype ha hb
  have hequal : a = b ↔ v.compareNatural w = .eq := by
    rw [← hcompare]
    exact (Std.LawfulEqCmp.compare_eq_iff_eq : type.compare a b = .eq ↔ a = b).symm
  refine ⟨hcompare, hequal, ?_, ?_⟩
  · intro hab
    exact eq_or_number_of_compareNatural htype ha hb (hequal.mp hab)
  · rintro (rfl | ⟨n, hv, hw⟩)
    · exact Option.some.inj (ha.symm.trans hb)
    · rw [hequal, compareNatural_of_number hv hw]
      exact Std.ReflOrd.compare_self

/-- A number below zero and one above it, stated in different widths. -/
theorem encode_keeps_order_of_widths :
    let below : Bytes := [0xFF, 0xFF, 0xFF, 0xFE]
    let above : Bytes := [0, 0, 1, 0x2C]
    KeyType.int.isNatural ∧ (tinyint (-2)).encode .int = .ok below ∧ (int 300).encode .int = .ok above ∧
      KeyType.int.compare below above = .lt ∧ below ≠ above := by
  intro below above
  have htype : KeyType.int.isNatural := rfl
  have hbelow : (tinyint (-2)).encode .int = .ok below := by decide +kernel
  have habove : (int 300).encode .int = .ok above := by decide +kernel
  have hnatural : (tinyint (-2)).compareNatural (int 300) = .lt := by decide +kernel
  obtain ⟨hcompare, hequal, _⟩ := encode_keeps_order htype hbelow habove
  refine ⟨htype, hbelow, habove, hcompare.trans hnatural, fun h => ?_⟩
  rw [hequal, hnatural] at h
  cases h

/-- Stored values take as many bytes as their type asks for. -/
theorem length_of_encode? {type : KeyType} {v : Value} {a : Bytes} (h : v.encode? type = some a) {width : Nat}
    (hwidth : type.width? = some width) : a.length = width := by
  cases type <;> cases hwidth <;> cases v <;> cases h
  case boolean => rfl
  case float | double.refl.float.refl | double.refl.double.refl => exact Floating.length_bytes _
  case uuid u | timeuuid u => exact u.length_eq
  all_goals exact Bytes.length_ofInt _ _

theorem sized_of_encode? {type : KeyType} {v : Value} {a : Bytes} (h : v.encode? type = some a) : type.Sized a :=
  .inr fun _ hwidth => length_of_encode? h hwidth

end Value

end ClusteringKeys
