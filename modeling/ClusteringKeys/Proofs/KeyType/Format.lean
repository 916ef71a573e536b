import ClusteringKeys.KeyType.Format
import ClusteringKeys.Proofs.Value.Encode
import Mathlib

namespace ClusteringKeys

theorem quoted_injective : Function.Injective quoted := by
  intro s t h
  have hchars := congrArg String.toList h
  rw [quoted, quoted, String.toList_ofList, String.toList_ofList] at hchars
  exact String.toList_injective (List.append_cancel_right (List.cons.inj hchars).2)

theorem toString_int_injective : Function.Injective (toString : Int → String) := by
  intro m n h
  rwa [Int.toString_eq_repr, Int.toString_eq_repr, Int.repr_inj] at h

theorem eq_dash_or_isSome_hexValue?_of_mem_toString {n : Int} {c : Char} (hc : c ∈ (toString n).toList) :
    c = '-' ∨ (Text.hexValue? c).isSome := by
  have hdigits {m : Nat} (hm : c ∈ m.repr.toList) : (Text.hexValue? c).isSome := by
    rw [Nat.toList_repr] at hm
    exact Text.isSome_hexValue?_of_isDigit (Nat.isDigit_of_mem_toDigits (by decide) (by decide) hm)
  rw [Int.toString_eq_repr, Int.repr_eq_if] at hc
  split at hc
  next => exact .inr (hdigits hc)
  next =>
    rw [String.toList_append] at hc
    rcases List.mem_append.mp hc with hsign | hm
    · exact .inl (List.mem_singleton.mp hsign)
    · exact .inr (hdigits hm)

theorem Utf8.toOption_decode_eq_some_iff {b : Bytes} {s : String} :
    (decode b).toOption = some s ↔ encode s = b := by
  rw [← decode_eq_ok_iff]
  cases decode b <;> simp [Except.toOption]

namespace KeyType

/-- The text is made of digits and dashes, or begins with a quote. The texts of empty values and of values shown by
    their bytes are neither. -/
def Spelled (s : String) : Prop :=
  (∀ c ∈ s.toList, c = '-' ∨ (Text.hexValue? c).isSome) ∨ s.toList.head? = some '\''

theorem not_spelled_empty : ¬ Spelled "EMPTY" := by
  rintro (hchars | hquote)
  · exact absurd (hchars 'M' (by decide)) (by decide)
  · exact absurd hquote (by decide)

/-- The text of a value that does not have the form of its type. -/
def hexText (b : Bytes) : String :=
  String.ofList ('0' :: 'x' :: b.hex)

theorem not_spelled_hexText (b : Bytes) : ¬ Spelled (hexText b) := by
  rw [Spelled, hexText, String.toList_ofList]
  rintro (hchars | hquote)
  · exact absurd (hchars 'x' (List.mem_cons_of_mem _ List.mem_cons_self)) (by decide)
  · exact absurd (Option.some.inj hquote) (by decide)

theorem spelled_toString (n : Int) : Spelled (toString n) :=
  .inl fun _ => eq_dash_or_isSome_hexValue?_of_mem_toString

/-- Reading a value and showing what is read loses nothing, and the text is never one that is shown where nothing is
    read. -/
structure Faithful {α : Type} (read? : Bytes → Option α) (render : α → String) : Prop where
  eq_of_read? {a b : Bytes} {x : α} : read? a = some x → read? b = some x → a = b
  render_injective : Function.Injective render
  spelled (x : α) : Spelled (render x)

section Faithful

variable {α : Type} {read? : Bytes → Option α} {render : α → String}

theorem Faithful.getD_ne_empty (h : Faithful read? render) (b : Bytes) :
    ((read? b).map render).getD (hexText b) ≠ "EMPTY" := by
  cases read? b with
  | none =>
    intro hempty
    have hchars := congrArg String.toList hempty
    rw [Option.map_none, Option.getD_none, hexText, String.toList_ofList] at hchars
    exact absurd (List.cons.inj hchars).1 (by decide)
  | some x =>
    intro hempty
    exact not_spelled_empty (hempty ▸ h.spelled x)

/-- Of two values with one text, both are read or both are shown by their bytes. -/
theorem Faithful.getD_injective (h : Faithful read? render) :
    Function.Injective fun b => ((read? b).map render).getD (hexText b) := by
  intro a b hsame
  cases ha : read? a with
  | none =>
    cases hb : read? b with
    | none =>
      simp only [ha, hb, Option.map_none, Option.getD_none] at hsame
      have hdigits := String.ofList_injective hsame
      exact Bytes.hex_injective (List.cons.inj (List.cons.inj hdigits).2).2
    | some y =>
      simp only [ha, hb, Option.map_none, Option.map_some, Option.getD_none, Option.getD_some] at hsame
      exact absurd (hsame ▸ h.spelled y) (not_spelled_hexText a)
  | some x =>
    cases hb : read? b with
    | none =>
      simp only [ha, hb, Option.map_none, Option.map_some, Option.getD_none, Option.getD_some] at hsame
      exact absurd (hsame ▸ h.spelled x) (not_spelled_hexText b)
    | some y =>
      simp only [ha, hb, Option.map_some, Option.getD_some] at hsame
      obtain rfl := h.render_injective hsame
      exact h.eq_of_read? ha hb

end Faithful

theorem faithful_signed (width : Nat) : Faithful (Bytes.signed? width) toString where
  eq_of_read? ha hb := by
    obtain ⟨hlength, rfl⟩ := Bytes.signed?_eq_some_iff.mp ha
    obtain ⟨hlength', hnumber⟩ := Bytes.signed?_eq_some_iff.mp hb
    exact Bytes.toInt_injective (hlength.trans hlength'.symm) hnumber.symm
  render_injective := toString_int_injective
  spelled _ := spelled_toString _

theorem faithful_date :
    Faithful (Bytes.unsigned? 4) fun n : Nat => toString ((n : Int) - epochDay) where
  eq_of_read? ha hb := by
    obtain ⟨hlength, rfl⟩ := Bytes.unsigned?_eq_some_iff.mp ha
    obtain ⟨hlength', hnumber⟩ := Bytes.unsigned?_eq_some_iff.mp hb
    exact Bytes.toNat_injective (hlength.trans hlength'.symm) hnumber.symm
  render_injective m n h := by
    have hdays := toString_int_injective h
    omega
  spelled _ := spelled_toString _

theorem faithful_text : Faithful (fun b => (Utf8.decode b).toOption) quoted where
  eq_of_read? ha hb := by
    rw [← Utf8.toOption_decode_eq_some_iff.mp ha, Utf8.toOption_decode_eq_some_iff.mp hb]
  render_injective := quoted_injective
  spelled s := by
    refine .inr ?_
    rw [quoted, String.toList_ofList]
    rfl

theorem faithful_identifier : Faithful Uuid.ofBytes? fun u => String.ofList u.text where
  eq_of_read? ha hb := by
    rw [← Uuid.ofBytes?_eq_some_iff.mp ha, Uuid.ofBytes?_eq_some_iff.mp hb]
  render_injective _ _ h := Uuid.text_injective (String.ofList_injective h)
  spelled u := by
    refine .inl ?_
    rw [String.toList_ofList]
    exact fun _ => Uuid.eq_dash_or_isSome_hexValue?_of_mem_text

/-- Nothing is read where all values are shown by their bytes. -/
theorem faithful_nothing : Faithful (fun _ => none) Empty.elim where
  eq_of_read? ha := by cases ha
  render_injective x := x.elim
  spelled x := x.elim

theorem formatWellFormed?_date (b : Bytes) :
    date.formatWellFormed? b = (b.unsigned? 4).map fun n : Nat => toString ((n : Int) - epochDay) := by
  cases h : b.unsigned? 4 <;> simp [formatWellFormed?, h]

/-- All but truth values and floating point numbers are shown faithfully. Every byte but zero is shown as true, and
    numbers that are none all look alike. -/
theorem exists_faithful {type : KeyType} (htype : type ∉ [boolean, float, double]) :
    ∃ (α : Type) (read? : Bytes → Option α) (render : α → String), Faithful read? render ∧
      ∀ b, type.formatWellFormed? b = (read? b).map render := by
  cases type
  case boolean | float | double => exact absurd (by decide) htype
  case tinyint | smallint | int | bigint | timestamp | time => exact ⟨_, _, _, faithful_signed _, fun _ => rfl⟩
  case date => exact ⟨_, _, _, faithful_date, formatWellFormed?_date⟩
  case text | ascii => exact ⟨_, _, _, faithful_text, fun _ => rfl⟩
  case uuid | timeuuid => exact ⟨_, _, _, faithful_identifier, fun _ => rfl⟩
  case blob | inet | custom => exact ⟨_, _, _, faithful_nothing, fun _ => rfl⟩

theorem format_of_ne_nil (type : KeyType) {b : Bytes} (hb : b ≠ []) :
    type.format b = (type.formatWellFormed? b).getD (hexText b) := by
  cases b with
  | nil => exact absurd rfl hb
  | cons x b => rfl

/-- Texts of values tell them apart, whether or not the values are well formed. -/
theorem format_injective {type : KeyType} (htype : type ∉ [boolean, float, double]) :
    Function.Injective type.format := by
  obtain ⟨α, read?, render, hfaithful, hformat⟩ := exists_faithful htype
  have hshown {b : Bytes} (hb : b ≠ []) :
      type.format b = ((read? b).map render).getD (hexText b) := by
    rw [type.format_of_ne_nil hb, hformat]
  have hnonempty {b : Bytes} (hb : b ≠ []) : type.format b ≠ type.format [] := by
    rw [hshown hb]
    exact hfaithful.getD_ne_empty b
  intro a b h
  by_cases ha : a = []
  · subst ha
    exact (not_not.mp fun hb => hnonempty hb h.symm).symm
  by_cases hb : b = []
  · subst hb
    exact absurd h (hnonempty ha)
  rw [hshown ha, hshown hb] at h
  exact hfaithful.getD_injective h

theorem exists_width_of_isInteger {type : KeyType} (htype : type.isInteger) :
    ∃ width, type.width? = some width ∧ ∀ b, type.formatWellFormed? b = (b.signed? width).map toString := by
  cases type
  case tinyint | smallint | int | bigint | timestamp | time => exact ⟨_, rfl, fun _ => rfl⟩
  all_goals cases htype

theorem format_of_signed {type : KeyType} (htype : type.isInteger) {v : Value} {b : Bytes}
    (hv : v.encode? type = some b) : ∃ n, v.number? = some n ∧ type.format b = toString n := by
  obtain ⟨_, hnumber⟩ := Value.exists_number_of_encode? htype
  obtain ⟨n, hn, hbytes, hfits⟩ := hnumber hv
  obtain ⟨width, hwidth, hformat⟩ := exists_width_of_isInteger htype
  have hread : b.signed? width = some n := by
    refine Bytes.signed?_eq_some_iff.mpr ⟨Value.length_of_encode? hv hwidth, ?_⟩
    rw [hbytes, Bytes.toInt_ofInt hfits]
  have hnonempty : b ≠ [] := hbytes ▸ Bytes.ofInt_ne_nil _ _
  refine ⟨n, hn, ?_⟩
  rw [type.format_of_ne_nil hnonempty, hformat, hread]
  rfl

/-- A date is shown as the signed count of its days, which the stored form shifts into an unsigned one. -/
theorem format_of_date (days : Int32) :
    date.format (Bytes.ofInt 4 (days.toInt + epochDay)) = toString days.toInt := by
  obtain ⟨hlow, hhigh⟩ := Value.fits_int32 days
  have hnat := Bytes.toNat_ofInt 4 (days.toInt + epochDay)
  rw [Int.emod_eq_of_lt (by rw [epochDay]; omega) (by rw [epochDay]; omega)] at hnat
  have hread : Bytes.unsigned? 4 (Bytes.ofInt 4 (days.toInt + epochDay)) =
      some (Bytes.ofInt 4 (days.toInt + epochDay)).toNat :=
    Bytes.unsigned?_eq_some_iff.mpr ⟨Bytes.length_ofInt _ _, rfl⟩
  rw [date.format_of_ne_nil (Bytes.ofInt_ne_nil _ _), formatWellFormed?_date, hread, Option.map_some, Option.getD_some,
    hnat, Int.add_sub_cancel]

theorem format_of_text {type : KeyType} (htype : type = text ∨ type = ascii) {s : String} (hs : s ≠ "") :
    type.format (Utf8.encode s) = quoted s := by
  have hnonempty : Utf8.encode s ≠ [] := by
    intro hempty
    exact hs (Utf8.encode_injective (hempty : Utf8.encode s = Utf8.encode ""))
  have hread := Utf8.toOption_decode_eq_some_iff.mpr (rfl : Utf8.encode s = Utf8.encode s)
  have hformat : type.formatWellFormed? (Utf8.encode s) = (Utf8.decode (Utf8.encode s)).toOption.map quoted := by
    rcases htype with rfl | rfl <;> rfl
  rw [type.format_of_ne_nil hnonempty, hformat, hread]
  rfl

/-- Values of one type are shown by different texts, truth values and floating point numbers apart, whether or not
    they have the form of the type. Stored values are shown as what was stored: whole numbers, times and dates by their
    decimal digits, truth values by name, and texts in quotes. -/
theorem format_shows_stored_values :
    (∀ type : KeyType, type ∉ [boolean, float, double] → ∀ a b, type.format a = type.format b → a = b) ∧
    (∀ (type : KeyType) (v : Value) (b : Bytes), v.encode type = .ok b →
      (type.isInteger ∨ type = date → ∃ n, v.number? = some n ∧ type.format b = toString n) ∧
      (type = boolean → ∃ x, v = .boolean x ∧ type.format b = if x then "true" else "false") ∧
      (type = text ∨ type = ascii → ∃ s, v = .text s ∧ (s ≠ "" → type.format b = quoted s))) := by
  refine ⟨fun type htype a b h => format_injective htype h, fun type v b h => ?_⟩
  have hv := Value.encode_eq_ok_iff.mp h
  refine ⟨?_, ?_, ?_⟩
  · rintro (hinteger | rfl)
    · exact format_of_signed hinteger hv
    · cases v <;> cases hv
      exact ⟨_, rfl, format_of_date _⟩
  · rintro rfl
    cases v <;> cases hv
    case boolean.refl x =>
      refine ⟨x, rfl, ?_⟩
      cases x <;> rfl
  · intro htype
    have htext : v.encode? text = some b := by
      rcases htype with rfl | rfl
      · exact hv
      · exact (Value.encode?_ascii_eq_some_iff.mp hv).2
    cases v <;> cases htext
    exact ⟨_, rfl, format_of_text htype⟩

/-- The day before the epoch, a truth value, a short text, and zero in one and in four bytes. -/
theorem format_shows_stored_values_of_last_day :
    let day : Bytes := [0x7F, 0xFF, 0xFF, 0xFF]
    let greeting : Bytes := [0x68, 0x69]
    (Value.date (-1)).encode date = .ok day ∧ date.format day = "-1" ∧
      (Value.boolean true).encode boolean = .ok [1] ∧ boolean.format [1] = "true" ∧
      (Value.text "hi").encode ascii = .ok greeting ∧ ascii.format greeting = "'hi'" ∧
      int ∉ [boolean, float, double] ∧ int.format [0] ≠ int.format [0, 0, 0, 0] := by
  intro day greeting
  obtain ⟨hdistinct, hshown⟩ := format_shows_stored_values
  have hday : (Value.date (-1)).encode date = .ok day := by decide +kernel
  have htrue : (Value.boolean true).encode boolean = .ok [1] := by decide +kernel
  have hgreeting : (Value.text "hi").encode ascii = .ok greeting := by decide +kernel
  have hint : int ∉ [boolean, float, double] := by decide
  obtain ⟨n, hn, hdayText⟩ := (hshown _ _ _ hday).1 (.inr rfl)
  obtain ⟨x, hx, htrueText⟩ := (hshown _ _ _ htrue).2.1 rfl
  obtain ⟨s, hs, hgreetingText⟩ := (hshown _ _ _ hgreeting).2.2 (.inr rfl)
  cases hn
  cases hx
  cases hs
  have hminus : toString (Int32.toInt (-1)) = "-1" := by decide +kernel
  have hquoted : quoted "hi" = "'hi'" := by decide +kernel
  exact ⟨hday, hdayText.trans hminus, htrue, htrueText, hgreeting, (hgreetingText (by decide)).trans hquoted, hint,
    fun h => absurd (hdistinct int hint _ _ h) (by decide)⟩

end KeyType

end ClusteringKeys
