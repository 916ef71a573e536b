import ClusteringKeys.Elements
import ClusteringKeys.Proofs.Key.Extend
import ClusteringKeys.Proofs.KeyLayout
import Mathlib

namespace ClusteringKeys

/-- The key of cells that pair columns with values is stored as these columns and values. -/
theorem Key.elements_zipWith {columns : List Column} {values : List Bytes} (hlength : columns.length = values.length)
    (marker : Marker) : elements ⟨List.zipWith Cell.mk columns values, marker⟩ = ⟨columns, values, marker⟩ := by
  rw [elements, Key.columns, Key.values, Cell.map_column_zipWith hlength, Cell.map_value_zipWith hlength]

namespace Elements

/-- Elements store a key just if they have a value for each column. -/
theorem exists_elements_iff {e : Elements} : (∃ k : Key, k.elements = e) ↔ e.columns.length = e.values.length := by
  constructor
  · rintro ⟨k, rfl⟩
    exact k.length_columns.trans k.length_values.symm
  · intro hlength
    obtain ⟨columns, values, marker⟩ := e
    exact ⟨_, Key.elements_zipWith hlength marker⟩

/-- Lists are stored just if they make a key, and then as that key. -/
theorem of_eq (columns : List Column) (values : List Bytes) :
    of columns values = Key.elements <$> Key.ofColumns columns values := by
  rw [of, Key.ofColumns]
  split
  next => rfl
  next hlength =>
    cases Key.checkColumns columns with
    | error fault => rfl
    | ok _ => exact congrArg Except.ok (Key.elements_zipWith (not_not.mp hlength) .regular).symm

end Elements

namespace Key

/-- Different keys are stored differently. -/
theorem elements_injective : Function.Injective elements := by
  intro a b h
  have hparts := Elements.mk.inj h
  exact eq_iff.mpr hparts

variable (k a b : Key)

theorem kind?_elements : k.elements.kind? = k.kind? := by
  rw [Elements.kind?, kind?, elements, columns, List.head?_map, Option.map_map]
  rfl

theorem length_elements : k.elements.length = k.length :=
  k.length_values

/-- What equal keys agree in is read off the lists alone. -/
theorem digest_elements : k.elements.digest = k.digest := by
  rw [Elements.digest, kind?_elements]
  rfl

theorem take_elements (n : Nat) : k.elements.take n = (k.take n).elements := by
  rw [Elements.take, length_elements, elements, elements, columns_take, values_take]
  refine congrArg₂ (Elements.mk · · .regular) ?_ ?_
  · rw [← length_columns, ← List.take_eq_take_min]
  · rw [← length_values, ← List.take_eq_take_min]

/-- Stored keys are extended as the keys are, with the same faults. -/
theorem extend_elements : a.elements.extend b.elements = elements <$> a.extend b := by
  have hendpoint : a.elements.isEndpoint = a.isEndpoint := rfl
  have hlast : a.elements.columns.getLast? = a.cells.getLast?.map Cell.column := List.getLast?_map
  have hfirst : b.elements.columns.head? = b.cells.head?.map Cell.column := List.head?_map
  rw [Elements.extend, extend, hendpoint, hlast, hfirst]
  split
  next => rfl
  next =>
    cases a.cells.getLast? with
    | none => rfl
    | some last =>
      cases b.cells.head? with
      | none => rfl
      | some first =>
        simp only [Option.map_some]
        split
        next => rfl
        next =>
          split
          next => simp [elements, columns, values]
          next => rfl

private theorem compareCells_eq (leftMarker rightMarker : Marker) (lefts rights : List Cell) :
    compareCells leftMarker rightMarker lefts rights =
      (Elements.comparePairs (lefts.map fun cell => (cell.column, cell.value))
        (rights.map fun cell => (cell.column, cell.value))).then
        (match Ord.compare lefts.length rights.length with
          | .eq => Ord.compare leftMarker rightMarker
          | .lt => leftMarker.againstExtension
          | .gt => rightMarker.againstExtension.swap) := by
  induction lefts generalizing rights with
  | nil =>
    cases rights with
    | nil => rfl
    | cons right rights => rfl
  | cons left lefts ih =>
    cases rights with
    | nil => rfl
    | cons right rights =>
      have hlengths :
          Ord.compare (left :: lefts).length (right :: rights).length = Ord.compare lefts.length rights.length := by
        simp [Nat.compare_eq_ite_lt]
      rw [compareCells, ih, hlengths, ← Ordering.then_assoc]
      rfl

/-- The kinds need not be compared first, since the first columns are compared by their kinds first. -/
theorem compare_elements : a.elements.compare b.elements = a.compare b := by
  have hpairs (k : Key) :
      k.elements.columns.zip k.elements.values = k.cells.map fun cell => (cell.column, cell.value) :=
    List.zip_map'
  rw [Elements.compare, kind?_elements, kind?_elements, hpairs, hpairs, length_elements, length_elements,
    Ordering.then_assoc]
  change _ = compareCells _ _ _ _
  rw [compareCells_eq]
  obtain ⟨cells, marker⟩ := a
  obtain ⟨cells', marker'⟩ := b
  cases cells with
  | nil => rfl
  | cons cell cells =>
    cases cells' with
    | nil => rfl
    | cons cell' cells' =>
      simp only [kind?, List.head?_cons, Option.map_some, List.map_cons, Elements.comparePairs,
        Column.compareIdentity, Ordering.then_assoc, length, elements]
      generalize Ord.compare cell.column.kind cell'.column.kind = kinds
      cases kinds <;> rfl

end Key

namespace Elements

variable (layout : KeyLayout)

theorem build_eq (columns : List Column) (values : List Bytes) :
    build layout columns values = Key.elements <$> layout.build columns values := by
  simp only [build, KeyLayout.build, of_eq, mapError_map, map_bind]

theorem slice_eq (start : UInt64) (values : List Value) :
    slice layout start values = Key.elements <$> layout.slice start values := by
  simp only [slice, KeyLayout.slice, build_eq, map_bind]

theorem sliceSerialized_eq (start : UInt64) (values : List Bytes) :
    sliceSerialized layout start values = Key.elements <$> layout.sliceSerialized start values := by
  simp only [sliceSerialized, KeyLayout.sliceSerialized, build_eq, map_bind]

theorem leading_eq (values : List Value) : leading layout values = Key.elements <$> layout.leading values :=
  slice_eq layout 0 values

/-- Without a bound the key is left as it is, for it has no other marker. -/
theorem leadingBound_eq (values : List Value) (marker : Marker) :
    leadingBound layout values marker = Key.elements <$> layout.leadingBound values marker := by
  rw [leadingBound, KeyLayout.leadingBound, leading_eq]
  cases hk : layout.leading values with
  | error fault => rfl
  | ok k =>
    cases marker with
    | bottom | top => rfl
    | regular =>
      have hregular : k = { k with marker := .regular } :=
        Key.eq_iff.mpr ⟨rfl, rfl, (KeyLayout.leading_eq_ok hk).1⟩
      exact congrArg (Except.ok ∘ Key.elements) hregular

theorem partitionKey_eq (values : List Value) :
    partitionKey layout values = Key.elements <$> layout.partitionKey values := by
  rw [partitionKey, KeyLayout.partitionKey]
  split
  next => rfl
  next => simp only [build_eq, map_bind]

end Elements

end ClusteringKeys
