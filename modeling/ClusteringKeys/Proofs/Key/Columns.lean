import ClusteringKeys.Proofs.Except
import ClusteringKeys.Proofs.Key.Order
import Mathlib

namespace ClusteringKeys

/-- Cells are known by their columns and their values. -/
theorem Cell.map_column_map_value_iff {as bs : List Cell} :
    as.map column = bs.map column ∧ as.map value = bs.map value ↔ as = bs := by
  constructor
  · rintro ⟨hcolumns, hvalues⟩
    have hcells : ∀ cells : List Cell, List.zipWith mk (cells.map column) (cells.map value) = cells := by
      intro cells
      rw [List.zipWith_map, List.zipWith_self]
      exact List.map_id cells
    rw [← hcells as, hcolumns, hvalues, hcells bs]
  · rintro rfl
    exact ⟨rfl, rfl⟩

theorem Cell.map_column_zipWith {columns : List Column} {values : List Bytes}
    (hlength : columns.length = values.length) : (List.zipWith mk columns values).map column = columns := by
  rw [← List.map_uncurry_zip_eq_zipWith, List.map_map]
  exact List.map_fst_zip hlength.le

theorem Cell.map_value_zipWith {columns : List Column} {values : List Bytes}
    (hlength : columns.length = values.length) : (List.zipWith mk columns values).map value = values := by
  rw [← List.map_uncurry_zip_eq_zipWith, List.map_map]
  exact List.map_snd_zip hlength.ge

namespace Key

@[simp]
theorem length_columns (k : Key) : k.columns.length = k.length :=
  List.length_map _

@[simp]
theorem length_values (k : Key) : k.values.length = k.length :=
  List.length_map _

theorem columns_take (k : Key) (n : Nat) : (k.take n).columns = k.columns.take n :=
  List.map_take

theorem values_take (k : Key) (n : Nat) : (k.take n).values = k.values.take n :=
  List.map_take

theorem eq_iff {a b : Key} : a = b ↔ a.columns = b.columns ∧ a.values = b.values ∧ a.marker = b.marker := by
  rw [← and_assoc, columns, columns, values, values, Cell.map_column_map_value_iff]
  cases a
  cases b
  rw [mk.injEq]

/-- The columns are of one kind, and their positions ascend. -/
theorem checkColumns_eq_ok_iff {columns : List Column} :
    checkColumns columns = .ok () ↔ columns.IsChain fun c d => c.kind = d.kind ∧ c.position < d.position := by
  fun_induction checkColumns columns with
  | case1 left right rest hkind => simp [hkind]
  | case2 left right rest hkind hposition => simp [UInt64.not_lt.mpr hposition]
  | case3 left right rest hkind hposition ih =>
    rw [ih, List.isChain_cons_cons, and_iff_right ⟨not_not.mp hkind, UInt64.not_le.mp hposition⟩]
  | case4 columns hshort =>
    rcases columns with _ | ⟨left, _ | ⟨right, rest⟩⟩
    · simp
    · simp
    · exact absurd rfl (hshort left right rest)

private theorem eq_zipWith_iff {columns : List Column} {values : List Bytes} (hlength : columns.length = values.length)
    {k : Key} :
    k = ⟨List.zipWith Cell.mk columns values, .regular⟩ ↔
      k.columns = columns ∧ k.values = values ∧ k.marker = .regular := by
  rw [eq_iff, Key.columns, Key.values, Key.columns, Key.values, Cell.map_column_zipWith hlength,
    Cell.map_value_zipWith hlength]

/-- Lists make a key if there is a value for each column and the columns ascend within one kind. The key then has all
    the columns and values, in their order. -/
theorem ofColumns_eq_ok_iff {columns : List Column} {values : List Bytes} {k : Key} :
    ofColumns columns values = .ok k ↔
      columns.length = values.length ∧ (columns.IsChain fun c d => c.kind = d.kind ∧ c.position < d.position) ∧
        k.columns = columns ∧ k.values = values ∧ k.marker = .regular := by
  rw [ofColumns]
  split
  next hne => exact iff_of_false nofun fun h => hne h.1
  next heq =>
    have hlength := not_not.mp heq
    rw [and_iff_right hlength, ← checkColumns_eq_ok_iff, ← eq_zipWith_iff hlength, bind_eq_ok_iff]
    constructor
    · rintro ⟨_, hcheck, hk⟩
      exact ⟨hcheck, (Except.ok.inj hk).symm⟩
    · rintro ⟨hcheck, hk⟩
      exact ⟨(), hcheck, congrArg Except.ok hk.symm⟩

theorem exists_ofColumns_iff {columns : List Column} {values : List Bytes} :
    (∃ k, ofColumns columns values = .ok k) ↔
      columns.length = values.length ∧ columns.IsChain fun c d => c.kind = d.kind ∧ c.position < d.position := by
  simp only [ofColumns_eq_ok_iff]
  constructor
  · rintro ⟨_, hlength, hascend, _⟩
    exact ⟨hlength, hascend⟩
  · rintro ⟨hlength, hascend⟩
    exact ⟨_, hlength, hascend, (eq_zipWith_iff hlength).mp rfl⟩

instance : LawfulBEq Key where
  eq_of_beq h := Std.LawfulEqOrd.eq_of_compare (α := Key) (of_decide_eq_true h)
  rfl := decide_eq_true (Std.ReflOrd.compare_self (α := Key))

/-- Keys are equal only if they are identical: in all that their columns declare, in every byte of their values, and in
    the marker. Turning a comparison around reverses it, so no key comes before another one and after it. Both hold of
    any columns and however ill-formed the values. Equal keys agree in all data of their digest. -/
theorem equal_keys_are_identical (a b : Key) :
    b.compare a = (a.compare b).swap ∧
    (a == b ↔ a.columns = b.columns ∧ a.values = b.values ∧ a.marker = b.marker) ∧
    (a == b → a.kind? = b.kind? ∧ a.marker = b.marker ∧
      a.columns.map Column.position = b.columns.map Column.position ∧ a.values = b.values ∧ a.digest = b.digest) := by
  refine ⟨Std.OrientedOrd.eq_swap (α := Key), ?_, ?_⟩
  · rw [beq_iff_eq, eq_iff]
  · intro hequal
    obtain rfl := beq_iff_eq.mp hequal
    exact ⟨rfl, rfl, rfl, rfl, rfl⟩

/-- One key is made at once and the other in two steps. The first value has the wrong width. -/
theorem equal_keys_are_identical_of_short_year :
    let year := Column.ofClustering "ks" "logs" "year" .int .desc 0
    let month := Column.ofClustering "ks" "logs" "month" .tinyint .asc 1
    ∃ a b : Key, ofColumns [year, month] [[7, 232], [3]] = .ok a ∧
      (ofColumn year [7, 232]).extend (ofColumn month [3]) = .ok b ∧ a == b ∧ a.columns = b.columns ∧
      a.kind? = b.kind? ∧ a.columns.map Column.position = b.columns.map Column.position ∧ a.values = b.values ∧
      a.digest = b.digest := by
  intro year month
  obtain ⟨_, hequal, hdata⟩ := equal_keys_are_identical ⟨[⟨year, [7, 232]⟩, ⟨month, [3]⟩], .regular⟩
    ⟨[⟨year, [7, 232]⟩, ⟨month, [3]⟩], .regular⟩
  have hbeq := hequal.mpr ⟨rfl, rfl, rfl⟩
  obtain ⟨hkind, _, hpositions, hvalues, hdigest⟩ := hdata hbeq
  exact ⟨_, _, rfl, rfl, hbeq, (hequal.mp hbeq).1, hkind, hpositions, hvalues, hdigest⟩

end Key

end ClusteringKeys
