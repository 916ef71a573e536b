import ClusteringKeys.Proofs.Except
import ClusteringKeys.Proofs.Json.Number
import ClusteringKeys.Proofs.Json.Quoted
import Mathlib

namespace ClusteringKeys.Json

/-- What comes next ends a part of a list or of an object, or there is nothing more. -/
def PartEnds (rest : List Char) : Prop :=
  ∀ c ∈ rest.head?, c = ',' ∨ c = ']' ∨ c = '\x7d'

theorem partEnds_cons {c : Char} (h : c = ',' ∨ c = ']' ∨ c = '\x7d') (rest : List Char) : PartEnds (c :: rest) := by
  rintro _ ⟨⟩
  exact h

theorem PartEnds.numberEnds {rest : List Char} (h : PartEnds rest) : NumberEnds rest := by
  intro c hc
  rcases h c hc with rfl | rfl | rfl <;> decide

theorem skipSpace_cons {c : Char} (hc : isSpace c = false) (s : List Char) : skipSpace (c :: s) = c :: s := by
  rw [skipSpace, List.dropWhile_cons, hc, if_neg Bool.false_ne_true]

theorem name?_of_spells {literal : List Char} {name : String} (h : Spells literal name.toList) (rest : List Char) :
    name? ('"' :: (literal ++ '"' :: ':' :: rest)) = some (some name, rest) := by
  have hcolon : skipSpace (':' :: rest) = ':' :: rest := skipSpace_cons (by decide) _
  rw [name?, skipSpace_cons (by decide)]
  simp only [string?_of_spells h, Option.bind_eq_bind, Option.bind_some, hcolon]

/-- Members whose names were all read. -/
def named (members : List (String × Json)) : List (Option String × Json) :=
  members.map fun member => (some member.1, member.2)

theorem ofMembers_named (members : List (String × Json)) : ofMembers (named members) = object members := by
  rw [ofMembers, named, mapM_map_eq_some]
  exact fun _ => rfl

section Shapes

variable {fuel : Nat} {s s' s'' rest : List Char}

theorem value?_string {read : Option String} (h : string? s = some (read, rest)) :
    value? (fuel + 1) ('"' :: s) = some (read.elim unreadable text, rest) := by
  rw [value?, skipSpace_cons (by decide)]
  simp only [h, Option.bind_eq_bind, Option.bind_some]
  rfl

theorem value?_list {item : Json} {items : List Json} (hs : skipSpace s = s) (hclose : s.head? ≠ some ']')
    (hitem : value? fuel s = some (item, s')) (hitems : items? fuel s' = some (items, rest)) :
    value? (fuel + 1) ('[' :: s) = some (list (item :: items), rest) := by
  rw [value?, skipSpace_cons (by decide)]
  simp only [hs]
  split
  next => exact absurd rfl hclose
  next =>
    simp only [hitem, hitems, Option.bind_eq_bind, Option.bind_some]
    rfl

theorem value?_object {name : Option String} {value : Json} {members : List (Option String × Json)}
    (hs : skipSpace s = s) (hclose : s.head? ≠ some '\x7d') (hname : name? s = some (name, s'))
    (hvalue : value? fuel s' = some (value, s'')) (hmembers : members? fuel s'' = some (members, rest)) :
    value? (fuel + 1) ('\x7b' :: s) = some (ofMembers ((name, value) :: members), rest) := by
  rw [value?, skipSpace_cons (by decide)]
  simp only [hs]
  split
  next => exact absurd rfl hclose
  next =>
    simp only [hname, hvalue, hmembers, Option.bind_eq_bind, Option.bind_some]
    rfl

theorem items?_cons {item : Json} {items : List Json} (hitem : value? fuel s = some (item, s'))
    (hitems : items? fuel s' = some (items, rest)) : items? (fuel + 1) (',' :: s) = some (item :: items, rest) := by
  rw [items?, skipSpace_cons (by decide)]
  simp only [hitem, hitems, Option.bind_eq_bind, Option.bind_some]
  rfl

theorem members?_cons {name : Option String} {value : Json} {members : List (Option String × Json)}
    (hname : name? s = some (name, s')) (hvalue : value? fuel s' = some (value, s''))
    (hmembers : members? fuel s'' = some (members, rest)) :
    members? (fuel + 1) (',' :: s) = some ((name, value) :: members, rest) := by
  rw [members?, skipSpace_cons (by decide)]
  simp only [hname, hvalue, hmembers, Option.bind_eq_bind, Option.bind_some]
  rfl

end Shapes

/-- The text begins a tree and not the end of a list. -/
def BeginsTree (t : List Char) : Prop :=
  ∃ c s, t = c :: s ∧ isSpace c = false ∧ c ≠ ']'

namespace BeginsTree

variable {t : List Char} (h : BeginsTree t)

include h

theorem skipSpace_append (rest : List Char) : skipSpace (t ++ rest) = t ++ rest := by
  obtain ⟨c, s, rfl, hspace, _⟩ := h
  rw [List.cons_append, skipSpace_cons hspace]

theorem head?_append_ne (rest : List Char) : (t ++ rest).head? ≠ some ']' := by
  obtain ⟨c, s, rfl, _, hclose⟩ := h
  rw [List.cons_append, List.head?_cons]
  exact fun hc => hclose (Option.some.inj hc)

theorem length_ne_zero : t.length ≠ 0 := by
  obtain ⟨c, s, rfl, _⟩ := h
  exact Nat.succ_ne_zero _

end BeginsTree

/-- The character is a sign or a digit. -/
def BeginsNumber (c : Char) : Prop :=
  c = '-' ∨ c.isDigit

namespace BeginsNumber

variable {c : Char} (h : BeginsNumber c)

include h

theorem ne (other : Char) (hminus : other ≠ '-') (hdigit : other.isDigit = false) : c ≠ other := by
  rintro rfl
  exact h.elim hminus (Bool.eq_false_iff.mp hdigit)

theorem isSpace_eq_false : isSpace c = false := by
  have hblank := h.ne ' ' (by decide) (by decide)
  have hline := h.ne '\n' (by decide) (by decide)
  have htab := h.ne '\t' (by decide) (by decide)
  have hreturn := h.ne '\r' (by decide) (by decide)
  simp [isSpace, hblank, hline, htab, hreturn]

theorem beginsTree (s : List Char) : BeginsTree (c :: s) :=
  ⟨c, s, rfl, h.isSpace_eq_false, h.ne _ (by decide) (by decide)⟩

end BeginsNumber

theorem Number.exists_render_eq_cons (n : Number) : ∃ c s, n.render = c :: s ∧ BeginsNumber c := by
  obtain ⟨d, ds, htext, _⟩ := exists_toDigits_eq n.whole
  rw [n.render_eq, htext]
  cases n.negative with
  | false => exact ⟨_, _, rfl, .inr (isDigit_digitChar d)⟩
  | true => exact ⟨_, _, rfl, .inl rfl⟩

theorem Number.beginsTree_render (n : Number) : BeginsTree n.render := by
  obtain ⟨c, s, hrender, hc⟩ := n.exists_render_eq_cons
  rw [hrender]
  exact hc.beginsTree s

theorem value?_number {fuel : Nat} {n : Number} {rest : List Char} (hrest : NumberEnds rest) :
    value? (fuel + 1) (n.render ++ rest) = some (number n, rest) := by
  have hread := number?_render_append n hrest
  obtain ⟨c, s, hrender, hc⟩ := n.exists_render_eq_cons
  rw [hrender, List.cons_append] at hread ⊢
  rw [value?, skipSpace_cons hc.isSpace_eq_false]
  -- No other form begins as a number does.
  split
  case h_7 =>
    rw [hread]
    rfl
  all_goals
    next heq => exact absurd (List.cons.inj heq).1 (hc.ne _ (by decide) (by decide))

theorem render_natural (n : Nat) : (Number.ofInt (.ofNat n)).render = Nat.toDigits 10 n := by
  simp [Number.ofInt, Number.render]

theorem render_negative (n : Nat) : (Number.ofInt (.negSucc n)).render = '-' :: Nat.toDigits 10 (n + 1) := by
  simp [Number.ofInt, Number.render]

theorem Denotes.beginsTree {depth : Nat} {t : List Char} {j : Json} (h : Denotes depth t j) : BeginsTree t := by
  cases h with
  | natural => exact render_natural _ ▸ Number.beginsTree_render _
  | negative => exact render_negative _ ▸ Number.beginsTree_render _
  | _ => exact ⟨_, _, rfl, by decide, by decide⟩

theorem DenotesItems.partEnds {depth : Nat} {t : List Char} {items : List Json} (h : DenotesItems depth t items)
    (rest : List Char) : PartEnds (t ++ rest) := by
  cases h with
  | nil => exact partEnds_cons (.inr (.inl rfl)) _
  | cons => exact partEnds_cons (.inl rfl) _

theorem DenotesMembers.partEnds {depth : Nat} {t : List Char} {members : List (String × Json)}
    (h : DenotesMembers depth t members) (rest : List Char) : PartEnds (t ++ rest) := by
  cases h with
  | nil => exact partEnds_cons (.inr (.inr rfl)) _
  | cons => exact partEnds_cons (.inl rfl) _

/-- With this fuel, a text no longer than the fuel is read as what it writes, with what comes after it. -/
structure Reads (fuel : Nat) : Prop where
  value : ∀ {depth : Nat} {t : List Char} {j : Json} {rest : List Char}, Denotes depth t j → t.length ≤ fuel →
    PartEnds rest → value? fuel (t ++ rest) = some (j, rest)
  items : ∀ {depth : Nat} {t : List Char} {items : List Json} {rest : List Char}, DenotesItems depth t items →
    t.length ≤ fuel → items? fuel (t ++ rest) = some (items, rest)
  members : ∀ {depth : Nat} {t : List Char} {members : List (String × Json)} {rest : List Char},
    DenotesMembers depth t members → t.length ≤ fuel → members? fuel (t ++ rest) = some (named members, rest)

theorem reads_zero : Reads 0 where
  value h hlength _ := absurd (Nat.le_zero.mp hlength) h.beginsTree.length_ne_zero
  items h hlength := by
    cases h <;> exact absurd hlength (Nat.not_succ_le_zero _)
  members h hlength := by
    cases h <;> exact absurd hlength (Nat.not_succ_le_zero _)

namespace Reads

variable {fuel depth : Nat} {t rest : List Char} (h : Reads fuel)

include h

theorem value_succ {j : Json} (hj : Denotes depth t j) (hlength : t.length ≤ fuel + 1) (hrest : PartEnds rest) :
    value? (fuel + 1) (t ++ rest) = some (j, rest) := by
  cases hj with
  | null | true | false | emptyList | emptyObject => rfl
  | natural =>
    rw [← render_natural]
    exact value?_number hrest.numberEnds
  | negative =>
    rw [← render_negative]
    exact value?_number hrest.numberEnds
  | text hs =>
    rw [List.cons_append, List.append_assoc]
    exact value?_string (string?_of_spells hs rest)
  | list hitem hitems =>
    simp only [List.length_cons, List.length_append] at hlength
    rw [List.cons_append, List.append_assoc]
    exact value?_list (hitem.beginsTree.skipSpace_append _) (hitem.beginsTree.head?_append_ne _)
      (h.value hitem (by omega) (hitems.partEnds rest)) (h.items hitems (by omega))
  | object hname hvalue hmembers =>
    simp only [List.length_cons, List.length_append] at hlength
    simp only [List.cons_append, List.append_assoc]
    rw [← ofMembers_named]
    exact value?_object (skipSpace_cons (by decide) _) (by simp) (name?_of_spells hname _)
      (h.value hvalue (by omega) (hmembers.partEnds rest)) (h.members hmembers (by omega))

theorem items_succ {items : List Json} (hitems : DenotesItems depth t items) (hlength : t.length ≤ fuel + 1) :
    items? (fuel + 1) (t ++ rest) = some (items, rest) := by
  cases hitems with
  | nil => rfl
  | cons hitem hitems =>
    simp only [List.length_cons, List.length_append] at hlength
    rw [List.cons_append, List.append_assoc]
    exact items?_cons (h.value hitem (by omega) (hitems.partEnds rest)) (h.items hitems (by omega))

theorem members_succ {members : List (String × Json)} (hmembers : DenotesMembers depth t members)
    (hlength : t.length ≤ fuel + 1) : members? (fuel + 1) (t ++ rest) = some (named members, rest) := by
  cases hmembers with
  | nil => rfl
  | cons hname hvalue hmembers =>
    simp only [List.length_cons, List.length_append] at hlength
    simp only [List.cons_append, List.append_assoc]
    exact members?_cons (name?_of_spells hname _) (h.value hvalue (by omega) (hmembers.partEnds rest))
      (h.members hmembers (by omega))

theorem succ : Reads (fuel + 1) where
  value hj hlength hrest := h.value_succ hj hlength hrest
  items hitems hlength := h.items_succ hitems hlength
  members hmembers hlength := h.members_succ hmembers hlength

end Reads

theorem reads (fuel : Nat) : Reads fuel := by
  induction fuel with
  | zero => exact reads_zero
  | succ fuel ih => exact ih.succ

/-- A text that writes a tree is read as this tree. The nesting does not matter. -/
theorem parse?_of_denotes {depth : Nat} {s : String} {j : Json} (h : Denotes depth s.toList j) :
    parse? s = some j := by
  have hread : value? (s.length + 1) (s.toList ++ []) = some (j, []) :=
    (reads _).value h (by rw [String.length_toList]; exact Nat.le_succ _) (by rintro c ⟨⟩)
  rw [List.append_nil] at hread
  rw [parse?, hread]
  rfl

end ClusteringKeys.Json
