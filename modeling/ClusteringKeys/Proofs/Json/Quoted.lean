import ClusteringKeys.Json.Parser
import ClusteringKeys.Json.Printer
import ClusteringKeys.Proofs.Bytes.Hex
import Mathlib

namespace ClusteringKeys.Json

section Pieces

variable {rest after : List Char} {ps : List Piece}

theorem pieces?_plain {c : Char} (hc : 0x20 ≤ c.toNat) (hquote : c ≠ '"') (hbackslash : c ≠ '\\')
    (h : pieces? rest = some (ps, after)) : pieces? (c :: rest) = some (.char c :: ps, after) := by
  simp [pieces?, hc, hbackslash, h]

theorem pieces?_escaped {e c : Char} (he : unescape? e = some c) (h : pieces? rest = some (ps, after)) :
    pieces? ('\\' :: e :: rest) = some (.char c :: ps, after) := by
  have hu : e ≠ 'u' := by
    rintro rfl
    simp [unescape?] at he
  simp [pieces?, he, hu, h]

theorem pieces?_unit {a b c d : Char} {n : Nat} (hn : unit? a b c d = some n) (h : pieces? rest = some (ps, after)) :
    pieces? ('\\' :: 'u' :: a :: b :: c :: d :: rest) = some (.unit n :: ps, after) := by
  rw [pieces?, hn, h]
  rfl

end Pieces

theorem assemble?_unit_cons {n : Nat} (hhigh : isHighSurrogate n = false) (hlow : isLowSurrogate n = false)
    (ps : List Piece) : assemble? (.unit n :: ps) = (assemble? ps).map (Char.ofNat n :: ·) := by
  rcases ps with _ | ⟨_ | m, ps⟩ <;> simp [assemble?, hhigh, hlow]

theorem exists_pieces?_of_spells {literal text : List Char} (h : Spells literal text) (rest : List Char) :
    ∃ ps, pieces? (literal ++ '"' :: rest) = some (ps, rest) ∧ assemble? ps = some text := by
  induction h with
  | nil => exact ⟨[], by rw [List.nil_append, pieces?], by rw [assemble?]⟩
  | plain hc hquote hbackslash _ ih =>
    obtain ⟨ps, hread, htext⟩ := ih
    exact ⟨_, pieces?_plain hc hquote hbackslash hread, by rw [assemble?, htext, Option.map_some]⟩
  | escaped he _ ih =>
    obtain ⟨ps, hread, htext⟩ := ih
    exact ⟨_, pieces?_escaped he hread, by rw [assemble?, htext, Option.map_some]⟩
  | unit hn hhigh hlow _ ih =>
    obtain ⟨ps, hread, htext⟩ := ih
    exact ⟨_, pieces?_unit hn hread, by rw [assemble?_unit_cons hhigh hlow, htext, Option.map_some]⟩

/-- A string literal is read as the text that it spells, with what comes after it. -/
theorem string?_of_spells {literal : List Char} {s : String} (h : Spells literal s.toList) (rest : List Char) :
    string? (literal ++ '"' :: rest) = some (some s, rest) := by
  obtain ⟨ps, hread, htext⟩ := exists_pieces?_of_spells h rest
  rw [string?, hread]
  change some ((assemble? ps).map String.ofList, rest) = _
  rw [htext, Option.map_some, String.ofList_toList]

theorem unit?_control {n : Nat} (hn : n < 0x20) :
    unit? '0' '0' (Nat.digitChar (n / 16)) (Nat.digitChar (n % 16)) = some n := by
  rw [unit?, Text.hexValue?_digitChar (show n / 16 < 16 by omega), Text.hexValue?_digitChar (Nat.mod_lt n (by decide))]
  change some (0x100 * (0x10 * 0 + 0) + (0x10 * (n / 16) + n % 16)) = some n
  rw [Nat.div_add_mod n 16]
  simp

theorem Spells.control {c : Char} {literal text : List Char} (hc : c.toNat < 0x20) (h : Spells literal text) :
    Spells ('\\' :: 'u' :: '0' :: '0' :: Nat.digitChar (c.toNat / 16) :: Nat.digitChar (c.toNat % 16) :: literal)
      (c :: text) := by
  have hhigh : isHighSurrogate c.toNat = false := by simp [isHighSurrogate]; omega
  have hlow : isLowSurrogate c.toNat = false := by simp [isLowSurrogate]; omega
  have hspells := Spells.unit (unit?_control hc) hhigh hlow h
  rwa [Char.ofNat_toNat] at hspells

theorem spells_escape_append (c : Char) {literal text : List Char} (h : Spells literal text) :
    Spells (escape c ++ literal) (c :: text) := by
  rw [escape.eq_def]
  split
  · exact .escaped rfl h
  · exact .escaped rfl h
  · exact .escaped rfl h
  · exact .escaped rfl h
  · exact .escaped rfl h
  · exact .escaped rfl h
  · exact .escaped rfl h
  next hquote hbackslash _ _ _ _ _ =>
    split
    next hcontrol => exact .control hcontrol h
    next hplain => exact .plain (Nat.le_of_not_lt hplain) hquote hbackslash h

/-- Characters with their escapes spell the characters. -/
theorem spells_flatMap_escape (cs : List Char) : Spells (cs.flatMap escape) cs := by
  induction cs with
  | nil => exact .nil
  | cons c cs ih => exact spells_escape_append c ih

end ClusteringKeys.Json
