import ClusteringKeys.Json.Standard
import ClusteringKeys.Proofs.Json.Documented
import ClusteringKeys.Proofs.Json.Reader
import Mathlib

namespace ClusteringKeys.Json

theorem Number.toInt?_ofInt (i : Int) : (Number.ofInt i).toInt? = some i := by
  have hzero : ¬ (i < 0 ∧ i.natAbs = 0) := by omega
  have hsigned : (if i < 0 then -(i.natAbs : Int) else i.natAbs) = i := by split <;> omega
  simp only [toInt?, ofInt, ne_eq, not_true, false_or, decide_eq_true_eq, hzero, if_false, hsigned]

theorem int?_ofInt {low high i : Int} (hlow : low ≤ i) (hhigh : i ≤ high) : int? low high (ofInt i) = some i := by
  change (Number.ofInt i).toInt?.bind _ = _
  rw [Number.toInt?_ofInt, Option.bind_some, guard, if_pos ⟨hlow, hhigh⟩]
  rfl

theorem record?_object {names : List String} {members : List (String × Json)} (h : (members.map Prod.fst).Nodup) :
    record? names (object members) = some (names.map fun name => members.lookup name) :=
  if_pos (h.filter _)

theorem render_ofInt (i : Int) : (ofInt i).render = (toString i).toList := by
  rw [ofInt, render, Int.toString_eq_repr]
  cases i with
  | ofNat n =>
    change _ = n.repr.toList
    rw [render_natural, Nat.toList_repr]
  | negSucc n =>
    change _ = ("-" ++ (n + 1).repr).toList
    rw [render_negative, String.toList_append, Nat.toList_repr]
    rfl

theorem renderItems_eq (items : List Json) :
    renderItems items = items.flatMap (fun item => ',' :: item.render) ++ [']'] := by
  induction items with
  | nil =>
    rw [renderItems]
    rfl
  | cons item items ih => rw [renderItems, ih, List.flatMap_cons, List.append_assoc, List.cons_append]

theorem renderMembers_eq (members : List (String × Json)) :
    renderMembers members =
      members.flatMap (fun member => ',' :: (renderString member.1 ++ ':' :: member.2.render)) ++ ['\x7d'] := by
  induction members with
  | nil =>
    rw [renderMembers]
    rfl
  | cons member members ih => simp [renderMembers, ih]

theorem render_list (items : List Json) :
    (list items).render = '[' :: ([','].intercalate (items.map render) ++ [']']) := by
  cases items with
  | nil =>
    rw [render]
    rfl
  | cons item items => rw [render, renderItems_eq, intercalate_map_cons, List.append_assoc, List.cons_append]

theorem render_object (members : List (String × Json)) :
    (object members).render =
      '\x7b' :: ([','].intercalate (members.map fun member => renderString member.1 ++ ':' :: member.2.render) ++
        ['\x7d']) := by
  cases members with
  | nil =>
    rw [render]
    rfl
  | cons member members =>
    rw [render, renderMembers_eq, intercalate_map_cons]
    simp only [List.append_assoc, List.cons_append]

theorem toList_print (j : Json) : (Library.print j).toList = j.render :=
  String.toList_ofList

theorem print_list (items : List Json) :
    Library.print (list items) = "[" ++ ",".intercalate (items.map Library.print) ++ "]" := by
  have hparts : items.map (String.toList ∘ Library.print) = items.map render :=
    List.map_congr_left fun item _ => toList_print item
  rw [← String.toList_inj, toList_print, render_list]
  simp only [String.toList_append, String.toList_intercalate, List.map_map, hparts]
  rfl

theorem print_object (members : List (String × Json)) :
    Library.print (object members) =
      "\x7b" ++ ",".intercalate (members.map fun member => quoted member.1 ++ ":" ++ Library.print member.2) ++
        "\x7d" := by
  have hparts : (members.map fun member => quoted member.1 ++ ":" ++ Library.print member.2).map String.toList =
      members.map fun member => renderString member.1 ++ ':' :: member.2.render := by
    rw [List.map_map]
    refine List.map_congr_left fun member _ => ?_
    simp [quoted, toList_print]
  rw [← String.toList_inj, toList_print, render_object]
  simp only [String.toList_append, String.toList_intercalate, hparts]
  rfl

/-- The library that runs keeps to what is documented. -/
theorem documented_standard : Library.Documented where
  print_bool b := by
    rw [← String.toList_inj, toList_print]
    cases b <;> rw [render] <;> rfl
  print_text s := by
    rw [← String.toList_inj, toList_print, render, quoted, String.toList_ofList]
  print_ofInt _ := by
    rw [← String.toList_inj, toList_print, render_ofInt]
  print_list := print_list
  print_object := print_object
  parse?_of_denotes h := parse?_of_denotes h
  ofBool_eq _ := rfl
  bool?_bool _ := rfl
  ofString_eq _ := rfl
  string?_text _ := rfl
  ofInteger_eq _ := rfl
  integer?_ofInt _ := int?_ofInt
  ofList_eq _ := rfl
  list?_list _ := rfl
  ofRecord_eq _ := rfl
  record?_object := record?_object
  ofVariant_none _ := rfl
  ofVariant_some _ _ := rfl
  variant?_text h := if_pos h
  variant?_object h := if_pos h

end ClusteringKeys.Json
