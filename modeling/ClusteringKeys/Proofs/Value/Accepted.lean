import ClusteringKeys.Proofs.KeyLayout
import ClusteringKeys.Proofs.Value.Widening
import Mathlib

namespace ClusteringKeys

namespace Value

/-- Whatever has the width that a type asks for is the stored form of a value. Only of the booleans there are fewer than
    bytes. -/
theorem exists_encode?_of_length {type : KeyType} (htype : type ≠ .boolean) {width : Nat}
    (hwidth : type.width? = some width) {b : Bytes} (hlength : b.length = width) :
    ∃ v : Value, v.encode? type = some b := by
  have hfits := Bytes.fits_toInt b
  have hsigned := Bytes.ofInt_toInt b
  rw [hlength] at hfits hsigned
  have hwhole (hinteger : type.integerWidth? = some width) : ∃ v : Value, v.encode? type = some b := by
    obtain ⟨v, _, hv⟩ := exists_integer?_of_fits hinteger hfits
    exact ⟨v, hv.trans (congrArg some hsigned)⟩
  obtain ⟨hlow, hhigh⟩ := hfits
  cases type <;> cases hwidth
  case boolean => exact absurd rfl htype
  case tinyint | smallint | int | bigint => exact hwhole rfl
  case timestamp =>
    refine ⟨timestamp (Int64.ofInt b.toInt), ?_⟩
    rw [encode?, Int64.toInt_ofInt_of_le (by omega) (by omega), hsigned]
  case time =>
    refine ⟨time (Int64.ofInt b.toInt), ?_⟩
    rw [encode?, Int64.toInt_ofInt_of_le (by omega) (by omega), hsigned]
  case date =>
    -- The day is found from the unsigned number, which the epoch in the middle of the range shifts into an `Int32`.
    have hlt := Bytes.toNat_lt b
    have hunsigned := Bytes.ofInt_toNat b
    rw [hlength] at hlt hunsigned
    have hday : (Int32.ofInt (b.toNat - KeyType.epochDay)).toInt = b.toNat - KeyType.epochDay := by
      rw [KeyType.epochDay]
      exact Int32.toInt_ofInt_of_le (by omega) (by omega)
    refine ⟨date (Int32.ofInt (b.toNat - KeyType.epochDay)), ?_⟩
    rw [encode?, hday, Int.sub_add_cancel, hunsigned]
  case float =>
    obtain ⟨x, hx⟩ := Option.isSome_iff_exists.mp (Floating.isSome_ofBytes?_iff (f := .single) |>.mpr hlength)
    exact ⟨float x, congrArg some (Floating.bytes_of_ofBytes? hx)⟩
  case double =>
    obtain ⟨x, hx⟩ := Option.isSome_iff_exists.mp (Floating.isSome_ofBytes?_iff (f := .double) |>.mpr hlength)
    exact ⟨double x, congrArg some (Floating.bytes_of_ofBytes? hx)⟩
  case uuid | timeuuid => exact ⟨uuid ⟨b, hlength⟩, rfl⟩

/-- The check of a type accepts the stored forms of values and nothing else. -/
theorem check_eq_ok_iff_exists_encode? {type : KeyType} (hboolean : type ≠ .boolean) (hinet : type ≠ .inet)
    {b : Bytes} : type.check b = .ok () ↔ ∃ v : Value, v.encode? type = some b := by
  cases hwidth : type.width? with
  | some width =>
    rw [KeyType.check_eq_ok_iff_length hwidth]
    constructor
    · intro hlength
      exact exists_encode?_of_length hboolean hwidth hlength
    · rintro ⟨v, hv⟩
      exact length_of_encode? hv hwidth
  | none =>
    cases type
    case text =>
      have hcheck : KeyType.text.check b = .ok () ↔ ∃ s, Utf8.decode b = .ok s := by
        simp only [KeyType.check, KeyType.width?]
        cases Utf8.decode b <;> simp
      rw [hcheck]
      constructor
      · rintro ⟨s, hs⟩
        exact ⟨text s, congrArg some (Utf8.decode_eq_ok_iff.mp hs)⟩
      · rintro ⟨v, hv⟩
        cases v <;> cases hv
        exact ⟨_, Utf8.decode_eq_ok_iff.mpr rfl⟩
    case ascii =>
      have hcheck : KeyType.ascii.check b = .ok () ↔ b.isAscii := by
        simp only [KeyType.check, KeyType.width?]
        split <;> simp_all
      rw [hcheck]
      constructor
      · intro hascii
        obtain ⟨s, hs⟩ := Utf8.exists_encode_of_isAscii hascii
        exact ⟨text s, encode?_ascii_eq_some_iff.mpr ⟨hascii, congrArg some hs⟩⟩
      · rintro ⟨v, hv⟩
        exact (encode?_ascii_eq_some_iff.mp hv).1
    case blob | custom => exact iff_of_true rfl ⟨blob b, rfl⟩
    case inet => exact absurd rfl hinet
    all_goals cases hwidth

theorem check_inet_eq_ok_iff {b : Bytes} : KeyType.inet.check b = .ok () ↔ b.length = 4 ∨ b.length = 16 := by
  simp only [KeyType.check, KeyType.width?]
  split <;> simp_all

theorem encode_boolean_eq_ok_iff {b : Bytes} : (∃ v : Value, v.encode .boolean = .ok b) ↔ b = [0] ∨ b = [1] := by
  constructor
  · rintro ⟨v, hencode⟩
    have hv := encode_eq_ok_iff.mp hencode
    cases v
    case boolean x =>
      obtain rfl := Option.some.inj hv
      cases x with
      | false => exact .inl rfl
      | true => exact .inr rfl
    all_goals cases hv
  · rintro (rfl | rfl)
    · exact ⟨boolean false, rfl⟩
    · exact ⟨boolean true, rfl⟩

theorem check_of_encode? {type : KeyType} (hinet : type ≠ .inet) {v : Value} {b : Bytes}
    (h : v.encode? type = some b) : type.check b = .ok () := by
  by_cases hboolean : type = .boolean
  · subst hboolean
    exact (KeyType.check_eq_ok_iff_length rfl).mpr (length_of_encode? h rfl)
  · exact (check_eq_ok_iff_exists_encode? hboolean hinet).mpr ⟨v, h⟩

/-- The check of a type accepts the stored forms of values and nothing else, with two exceptions. Addresses may be
    stated in any number of bytes, and only those of four and sixteen are accepted. Booleans are stored as zero and one,
    and every byte is accepted. So a layout refuses no value that a column stores, unless it is an address. -/
theorem check_accepts_stored_forms :
    (∀ type : KeyType, type ≠ .boolean → type ≠ .inet →
      ∀ b, type.check b = .ok () ↔ ∃ v : Value, v.encode type = .ok b) ∧
    (∀ b, KeyType.inet.check b = .ok () ↔
      (∃ address, (inet address).encode .inet = .ok b) ∧ (b.length = 4 ∨ b.length = 16)) ∧
    (∀ b, KeyType.boolean.check b = .ok () ↔ b.length = 1) ∧
    (∀ b, (∃ v : Value, v.encode .boolean = .ok b) ↔ b = [0] ∨ b = [1]) ∧
    (∀ (layout : KeyLayout) (column : Column) (v : Value) (b : Bytes), column.type ≠ .inet →
      v.encode column.type = .ok b → layout.checkValue column b = .ok ()) := by
  refine ⟨?_, ?_, ?_, ?_, ?_⟩
  · intro type hboolean hinet b
    simp only [encode_eq_ok_iff]
    exact check_eq_ok_iff_exists_encode? hboolean hinet
  · intro b
    have hstored : ∃ address, (inet address).encode .inet = .ok b := ⟨b, rfl⟩
    rw [check_inet_eq_ok_iff, and_iff_right hstored]
  · intro b
    exact KeyType.check_eq_ok_iff_length rfl
  · intro b
    exact encode_boolean_eq_ok_iff
  · intro layout column v b hinet hencode
    have hcheck := check_of_encode? hinet (encode_eq_ok_iff.mp hencode)
    exact KeyLayout.checkValue_eq_ok_iff.mpr (.inr (.inl hcheck))

/-- A letter with an accent is a text, and half a surrogate pair is not. -/
theorem check_accepts_stored_forms_of_texts :
    let column := Column.ofClustering "ks" "logs" "title" .text .desc 0
    let layout : KeyLayout := { partition := [], clustering := [column], settings := {} }
    let accent : Bytes := [0xC3, 0xA9]
    let surrogate : Bytes := [0xED, 0xA0, 0x80]
    KeyType.text ≠ .boolean ∧ KeyType.text ≠ .inet ∧ (∃ v : Value, v.encode .text = .ok accent) ∧
      (¬ ∃ v : Value, v.encode .text = .ok surrogate) ∧ layout.checkValue column accent = .ok () := by
  intro column layout accent surrogate
  obtain ⟨hforms, _, _, _, hlayout⟩ := check_accepts_stored_forms
  have hboolean : KeyType.text ≠ .boolean := by decide
  have hinet : KeyType.text ≠ .inet := by decide
  have haccent : KeyType.text.check accent = .ok () := by decide +kernel
  have hsurrogate : KeyType.text.check surrogate ≠ .ok () := by decide +kernel
  obtain ⟨v, hv⟩ := (hforms .text hboolean hinet accent).mp haccent
  exact ⟨hboolean, hinet, ⟨v, hv⟩, mt (hforms .text hboolean hinet surrogate).mpr hsurrogate,
    hlayout layout column v accent hinet hv⟩

end Value

end ClusteringKeys
