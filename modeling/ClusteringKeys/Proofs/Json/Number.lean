import ClusteringKeys.Json.Parser
import ClusteringKeys.Json.Printer
import Mathlib

namespace ClusteringKeys.Json

/-- What comes next is not a digit. -/
def DigitsEnd (rest : List Char) : Prop :=
  ∀ c ∈ rest.head?, c.isDigit = false

def digitChars (ds : List (Fin 10)) : List Char :=
  ds.map fun d => Nat.digitChar d.val

theorem digit?_digitChar (d : Fin 10) : digit? (Nat.digitChar d.val) = some d := by
  revert d
  decide

theorem isDigit_digitChar (d : Fin 10) : (Nat.digitChar d.val).isDigit := by
  rw [Nat.isDigit_digitChar]
  exact decide_eq_true d.isLt

theorem digits_append (ds : List (Fin 10)) {rest : List Char} (hrest : DigitsEnd rest) :
    digits (digitChars ds ++ rest) = (ds, rest) := by
  induction ds with
  | nil =>
    cases rest with
    | nil => rfl
    | cons c rest =>
      have hc : digit? c = none := if_neg (Bool.eq_false_iff.mp (hrest c rfl))
      rw [digitChars, List.map_nil, List.nil_append, digits, hc]
  | cons d ds ih =>
    rw [digitChars, List.map_cons, List.cons_append, digits, digit?_digitChar]
    change (d :: (digits (digitChars ds ++ rest)).1, (digits (digitChars ds ++ rest)).2) = _
    rw [ih]

theorem ofDigits_append_singleton (ds : List (Fin 10)) (d : Fin 10) :
    ofDigits (ds ++ [d]) = 10 * ofDigits ds + d.val := by
  rw [ofDigits, List.foldl_append]
  rfl

/-- The decimal digits of a number spell it, and none of them is needless. -/
theorem exists_toDigits_eq (n : Nat) :
    ∃ d ds, Nat.toDigits 10 n = digitChars (d :: ds) ∧ ofDigits (d :: ds) = n ∧ (ds = [] ∨ d ≠ 0) := by
  induction n using Nat.strong_induction_on with
  | _ n ih =>
    rw [Nat.toDigits_eq_if (by decide)]
    split
    next hsmall => exact ⟨⟨n, hsmall⟩, [], rfl, by simp [ofDigits], .inl rfl⟩
    next hlarge =>
      obtain ⟨d, ds, htext, hvalue, hneeded⟩ := ih (n / 10) (by omega)
      refine ⟨d, ds ++ [⟨n % 10, Nat.mod_lt n (by decide)⟩], ?_, ?_, .inr ?_⟩
      · rw [htext, ← List.cons_append, digitChars, digitChars, List.map_append]
        rfl
      · rw [← List.cons_append, ofDigits_append_singleton, hvalue]
        exact Nat.div_add_mod n 10
      · rintro rfl
        obtain rfl := hneeded.resolve_right (not_not_intro rfl)
        have hzero : n / 10 = 0 := hvalue.symm
        omega

theorem digitChar_ne (d : Fin 10) {c : Char} (hc : c.isDigit = false) : Nat.digitChar d.val ≠ c := by
  rintro rfl
  rw [isDigit_digitChar] at hc
  cases hc

/-- What comes next cannot go on with a number. -/
def NumberEnds (rest : List Char) : Prop :=
  ∀ c ∈ rest.head?, c.isDigit = false ∧ c ≠ '.' ∧ c ≠ 'e' ∧ c ≠ 'E'

theorem NumberEnds.digitsEnd {rest : List Char} (h : NumberEnds rest) : DigitsEnd rest :=
  fun c hc => (h c hc).1

def signChars (negative : Bool) : List Char :=
  if negative then ['-'] else []

def fractionChars (ds : List (Fin 10)) : List Char :=
  if (digitChars ds).isEmpty then [] else '.' :: digitChars ds

def exponentChars (exponent : Option Int) : List Char :=
  exponent.elim [] fun e => 'e' :: (signChars (e < 0) ++ Nat.toDigits 10 e.natAbs)

theorem Number.render_eq (n : Number) :
    n.render = signChars n.negative ++ (Nat.toDigits 10 n.whole ++
      (fractionChars n.fraction ++ exponentChars n.exponent)) := by
  rw [render, ← List.append_assoc, ← List.append_assoc]
  cases n.exponent with
  | none => rfl
  | some e => simp [exponentChars, signChars, fractionChars, digitChars]

theorem fraction?_append (ds : List (Fin 10)) {rest : List Char} (hdigits : DigitsEnd rest)
    (hpoint : rest.head? ≠ some '.') : fraction? (fractionChars ds ++ rest) = some (ds, rest) := by
  cases ds with
  | nil =>
    change fraction? rest = _
    rw [fraction?.eq_def]
    split
    next => exact absurd rfl hpoint
    next => rfl
  | cons d ds =>
    change fraction? ('.' :: (digitChars (d :: ds) ++ rest)) = _
    rw [fraction?, digits_append _ hdigits]

theorem signed?_append (e : Int) {rest : List Char} (hrest : DigitsEnd rest) :
    signed? (signChars (e < 0) ++ (Nat.toDigits 10 e.natAbs ++ rest)) = some (e, rest) := by
  obtain ⟨d, ds, htext, hvalue, _⟩ := exists_toDigits_eq e.natAbs
  rw [htext]
  by_cases hnegative : e < 0
  · rw [decide_eq_true hnegative]
    change signed? ('-' :: (digitChars (d :: ds) ++ rest)) = _
    rw [signed?, digits_append _ hrest]
    change some (-(ofDigits (d :: ds) : Int), rest) = _
    rw [hvalue, show -(e.natAbs : Int) = e by omega]
  · rw [decide_eq_false hnegative]
    change signed? (digitChars (d :: ds) ++ rest) = _
    have hplus : (digitChars (d :: ds) ++ rest).head? ≠ some '+' :=
      fun h => digitChar_ne d (by decide) (Option.some.inj h)
    rw [signed?.eq_def]
    split
    next heq => exact absurd (List.cons.inj heq).1 (digitChar_ne d (by decide))
    next =>
      rw [if_neg hplus, digits_append _ hrest]
      change some ((ofDigits (d :: ds) : Int), rest) = _
      rw [hvalue, show (e.natAbs : Int) = e by omega]

theorem exponent?_append (exponent : Option Int) {rest : List Char} (hrest : NumberEnds rest) :
    exponent? (exponentChars exponent ++ rest) = some (exponent, rest) := by
  cases exponent with
  | none =>
    change exponent? rest = _
    rw [exponent?.eq_def]
    split
    next => exact absurd rfl (hrest _ rfl).2.2.1
    next => exact absurd rfl (hrest _ rfl).2.2.2
    next => rfl
  | some e =>
    change (signed? ((signChars (e < 0) ++ Nat.toDigits 10 e.natAbs) ++ rest)).map _ = _
    rw [List.append_assoc, signed?_append e hrest.digitsEnd]
    rfl

theorem digitsEnd_exponentChars (exponent : Option Int) {rest : List Char} (hrest : NumberEnds rest) :
    DigitsEnd (exponentChars exponent ++ rest) ∧ (exponentChars exponent ++ rest).head? ≠ some '.' := by
  cases exponent with
  | none => exact ⟨hrest.digitsEnd, fun h => (hrest '.' h).2.1 rfl⟩
  | some e =>
    refine ⟨?_, by simp [exponentChars]⟩
    rintro c ⟨⟩
    decide

theorem digitsEnd_fractionChars (ds : List (Fin 10)) {rest : List Char} (hrest : DigitsEnd rest) :
    DigitsEnd (fractionChars ds ++ rest) := by
  cases ds with
  | nil => exact hrest
  | cons d ds =>
    rintro c ⟨⟩
    decide

theorem head?_signChars_append_iff (negative : Bool) {s : List Char} (hs : s.head? ≠ some '-') :
    (signChars negative ++ s).head? = some '-' ↔ negative := by
  cases negative with
  | false => exact iff_of_false hs Bool.false_ne_true
  | true => exact iff_of_true rfl rfl

theorem dropSign_append (negative : Bool) (s : List Char) :
    (if negative then (signChars negative ++ s).tail else signChars negative ++ s) = s := by
  cases negative <;> rfl

/-- A number is read back as it was, whatever comes after it that does not go on with it. -/
theorem number?_render_append (n : Number) {rest : List Char} (hrest : NumberEnds rest) :
    number? (n.render ++ rest) = some (n, rest) := by
  obtain ⟨d, ds, htext, hvalue, hneeded⟩ := exists_toDigits_eq n.whole
  obtain ⟨hexponent, hpoint⟩ := digitsEnd_exponentChars n.exponent hrest
  let tail := fractionChars n.fraction ++ (exponentChars n.exponent ++ rest)
  have hrender : n.render ++ rest = signChars n.negative ++ (digitChars (d :: ds) ++ tail) := by
    simp only [n.render_eq, htext, List.append_assoc, tail]
  have hhead : (digitChars (d :: ds) ++ tail).head? ≠ some '-' :=
    fun h => digitChar_ne d (by decide) (Option.some.inj h)
  have hdigits : digits (digitChars (d :: ds) ++ tail) = (d :: ds, tail) :=
    digits_append _ (digitsEnd_fractionChars _ hexponent)
  have hfraction : fraction? tail = some (n.fraction, exponentChars n.exponent ++ rest) :=
    fraction?_append _ hexponent hpoint
  have hguard : d :: ds ≠ [] ∧ ((d :: ds).length = 1 ∨ (d :: ds).head? ≠ some 0) :=
    ⟨List.cons_ne_nil d ds, by simpa using hneeded⟩
  simp only [number?, hrender, head?_signChars_append_iff _ hhead, dropSign_append, hdigits, guard, if_pos hguard,
    pure_bind, hfraction, Option.bind_eq_bind, Option.bind_some, exponent?_append _ hrest, hvalue, Bool.decide_eq_true]
  rfl

end ClusteringKeys.Json
