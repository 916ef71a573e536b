import ClusteringKeys.Json.Grammar
import ClusteringKeys.Json.Library
import ClusteringKeys.Json.Printer
import ClusteringKeys.Proofs.Except
import ClusteringKeys.Proofs.Json.Quoted
import Mathlib

namespace ClusteringKeys.Json

/-- A string literal with its escapes. -/
def quoted (s : String) : String :=
  String.ofList (renderString s)

namespace Library

/-- What the documentation of the library says. Texts are compact, the reader takes whatever the grammar of the format
    derives up to a certain depth, the common types have forms of their own, the fields of a record stand under their
    names, and an alternative stands under its name with what it holds. -/
structure Documented [Library] : Prop where
  print_bool (b : Bool) : print (.bool b) = toString b
  print_text (s : String) : print (.text s) = quoted s
  print_ofInt {i : Int} : IsWord i → print (ofInt i) = toString i
  print_list (items : List Json) : print (.list items) = "[" ++ ",".intercalate (items.map print) ++ "]"
  print_object (members : List (String × Json)) :
    print (.object members) =
      "\x7b" ++ ",".intercalate (members.map fun member => quoted member.1 ++ ":" ++ print member.2) ++ "\x7d"
  /-- Texts that are nested deeper may be refused. -/
  parse?_of_denotes {s : String} {j : Json} : Denotes 127 s.toList j → parse? s = some j
  ofBool_eq (b : Bool) : ofBool b = .bool b
  bool?_bool (b : Bool) : bool? (.bool b) = some b
  ofString_eq (s : String) : ofString s = .text s
  string?_text (s : String) : string? (.text s) = some s
  ofInteger_eq {i : Int} : IsWord i → ofInteger i = ofInt i
  integer?_ofInt {low high i : Int} : IsWord i → low ≤ i → i ≤ high → integer? low high (ofInt i) = some i
  ofList_eq (items : List Json) : ofList items = .list items
  list?_list (items : List Json) : list? (.list items) = some items
  ofRecord_eq (fields : List (String × Json)) : ofRecord fields = .object fields
  /-- Members of other names do not matter. -/
  record?_object {names : List String} {members : List (String × Json)} :
    (members.map Prod.fst).Nodup → record? names (.object members) = some (names.map fun name => members.lookup name)
  ofVariant_none (tag : String) : ofVariant tag none = .text tag
  ofVariant_some (tag : String) (payload : Json) : ofVariant tag (some payload) = .object [(tag, payload)]
  variant?_text {plain holding : List String} {tag : String} :
    tag ∈ plain → variant? plain holding (.text tag) = some (tag, none)
  variant?_object {plain holding : List String} {tag : String} {payload : Json} :
    tag ∈ holding → variant? plain holding (.object [(tag, payload)]) = some (tag, some payload)

end Library

/-- Items between commas, up to the end of the list. -/
theorem denotesItems_flatMap {depth : Nat} {items : List Json} (text : Json → List Char)
    (h : ∀ item ∈ items, Denotes depth (text item) item) :
    DenotesItems depth (items.flatMap (fun item => ',' :: text item) ++ [']']) items := by
  induction items with
  | nil => exact .nil
  | cons item items ih =>
    have hrest := ih fun other hother => h other (List.mem_cons_of_mem _ hother)
    rw [List.flatMap_cons, List.append_assoc]
    exact .cons (h item List.mem_cons_self) hrest

theorem denotesMembers_flatMap {depth : Nat} {members : List (String × Json)} (text : Json → List Char)
    (h : ∀ member ∈ members, Denotes depth (text member.2) member.2) :
    DenotesMembers depth
      (members.flatMap (fun member => ',' :: (renderString member.1 ++ ':' :: text member.2)) ++ ['\x7d']) members := by
  induction members with
  | nil => exact .nil
  | cons member members ih =>
    have hrest := ih fun other hother => h other (List.mem_cons_of_mem _ hother)
    have hname := spells_flatMap_escape member.1.toList
    have hmember := DenotesMembers.cons hname (h member List.mem_cons_self) hrest
    simpa [renderString] using hmember

/-- The parts of a list between their separators: the first, and each other one after a separator. -/
theorem intercalate_map_cons {α β : Type} (separator : β) (f : α → List β) (a : α) (as : List α) :
    [separator].intercalate ((a :: as).map f) = f a ++ as.flatMap fun other => separator :: f other := by
  induction as generalizing a with
  | nil => simp
  | cons other as ih =>
    rw [List.map_cons, List.map_cons, List.intercalate_cons_cons, ← List.map_cons, ih, List.flatMap_cons]
    simp

theorem map_lookup_zip {names : List String} (values : List Json) (hnames : names.Nodup)
    (hlength : values.length = names.length) :
    (names.map fun name => (names.zip values).lookup name) = values.map some := by
  induction names generalizing values with
  | nil =>
    obtain rfl := List.length_eq_zero_iff.mp hlength
    rfl
  | cons name names ih =>
    obtain ⟨hnew, hnames⟩ := List.nodup_cons.mp hnames
    obtain ⟨value, values, rfl⟩ := List.exists_cons_of_length_eq_add_one hlength
    have hrest : (names.map fun other => ((name, value) :: names.zip values).lookup other) =
        names.map fun other => (names.zip values).lookup other := by
      refine List.map_congr_left fun other hother => ?_
      have hne : (other == name) = false := beq_false_of_ne (ne_of_mem_of_not_mem hother hnew)
      rw [List.lookup_cons, hne]
    rw [List.zip_cons_cons, List.map_cons, List.map_cons, List.lookup_cons_self, hrest,
      ih values hnames (Nat.succ.inj hlength)]

namespace Library

/-- The text that the library prints for the tree writes it, nested no deeper than this. -/
def Prints [Library] (depth : Nat) (j : Json) : Prop :=
  Denotes depth (print j).toList j

namespace Documented

variable [Library] (h : Documented)

include h

theorem bool?_ofBool (b : Bool) : bool? (ofBool b) = some b := by
  rw [h.ofBool_eq, h.bool?_bool]

theorem string?_ofString (s : String) : string? (ofString s) = some s := by
  rw [h.ofString_eq, h.string?_text]

/-- An integer within the bounds of its reader is read back. -/
theorem integer?_ofInteger {low high i : Int} (hi : IsWord i) (hlow : low ≤ i) (hhigh : i ≤ high) :
    integer? low high (ofInteger i) = some i := by
  rw [h.ofInteger_eq hi, h.integer?_ofInt hi hlow hhigh]

theorem listOf?_ofList_map {α : Type} {write : α → Json} {read : Json → Option α} (hread : ∀ a, read (write a) = some a)
    (as : List α) : listOf? read (ofList (as.map write)) = some as := by
  rw [listOf?, h.ofList_eq, h.list?_list]
  exact mapM_map_eq_some hread as

/-- The fields of a record that was written with all of its names, each once and in their order. -/
theorem record?_ofRecord_zip {names : List String} (values : List Json) (hnames : names.Nodup)
    (hlength : values.length = names.length) :
    record? names (ofRecord (names.zip values)) = some (values.map some) := by
  have hgiven : ((names.zip values).map Prod.fst).Nodup := by rwa [List.map_fst_zip hlength.ge]
  rw [h.ofRecord_eq, h.record?_object hgiven, map_lookup_zip values hnames hlength]

theorem parse?_print {j : Json} (hj : Prints 127 j) : parse? (print j) = some j :=
  h.parse?_of_denotes hj

variable {depth : Nat}

theorem prints_text (s : String) : Prints depth (.text s) := by
  rw [Prints, h.print_text, quoted, String.toList_ofList]
  exact .text (spells_flatMap_escape s.toList)

theorem prints_object {members : List (String × Json)} (hmembers : ∀ member ∈ members, Prints depth member.2) :
    Prints (depth + 1) (.object members) := by
  rw [Prints, h.print_object]
  simp only [String.toList_append, String.toList_intercalate, List.map_map]
  cases members with
  | nil => exact .emptyObject
  | cons member members =>
    have hrest : ∀ other ∈ members, Prints depth other.2 :=
      fun other hother => hmembers other (List.mem_cons_of_mem _ hother)
    have hname := spells_flatMap_escape member.1.toList
    have hobject := Denotes.object hname (hmembers member List.mem_cons_self)
      (denotesMembers_flatMap (fun j => (print j).toList) hrest)
    rw [show ",".toList = [','] from rfl, intercalate_map_cons]
    simpa [renderString, quoted] using hobject

theorem prints_ofBool (b : Bool) : Prints depth (ofBool b) := by
  rw [h.ofBool_eq, Prints, h.print_bool]
  cases b with
  | false => exact .false
  | true => exact .true

theorem prints_ofString (s : String) : Prints depth (ofString s) := by
  rw [h.ofString_eq]
  exact h.prints_text s

theorem prints_ofInteger {i : Int} (hi : IsWord i) : Prints depth (ofInteger i) := by
  rw [h.ofInteger_eq hi, Prints, h.print_ofInt hi, Int.toString_eq_repr]
  cases i with
  | ofNat n =>
    change Denotes depth n.repr.toList _
    rw [Nat.toList_repr]
    exact .natural hi
  | negSucc n =>
    change Denotes depth ("-" ++ (n + 1).repr).toList _
    rw [String.toList_append, Nat.toList_repr]
    exact .negative hi

theorem prints_ofList {items : List Json} (hitems : ∀ item ∈ items, Prints depth item) :
    Prints (depth + 1) (ofList items) := by
  rw [h.ofList_eq, Prints, h.print_list]
  simp only [String.toList_append, String.toList_intercalate, List.map_map]
  cases items with
  | nil => exact .emptyList
  | cons item items =>
    have hrest : ∀ other ∈ items, Prints depth other := fun other hother => hitems other (List.mem_cons_of_mem _ hother)
    have hlist := Denotes.list (hitems item List.mem_cons_self) (denotesItems_flatMap (fun j => (print j).toList) hrest)
    rw [show ",".toList = [','] from rfl, intercalate_map_cons]
    simpa using hlist

theorem prints_ofRecord {fields : List (String × Json)} (hfields : ∀ field ∈ fields, Prints depth field.2) :
    Prints (depth + 1) (ofRecord fields) := by
  rw [h.ofRecord_eq]
  exact h.prints_object hfields

theorem prints_ofVariant_none (tag : String) : Prints depth (ofVariant tag none) := by
  rw [h.ofVariant_none]
  exact h.prints_text tag

theorem prints_ofVariant_some (tag : String) {payload : Json} (hpayload : Prints depth payload) :
    Prints (depth + 1) (ofVariant tag (some payload)) := by
  rw [h.ofVariant_some]
  refine h.prints_object ?_
  rintro member hmember
  obtain rfl := List.mem_singleton.mp hmember
  exact hpayload

end Documented

end Library

end ClusteringKeys.Json
