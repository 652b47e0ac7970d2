import Devit.Library.JsonMaps

/-! Rows of objects as one table: the names of the columns once, and the values of each object under
them. Reading the table back gives objects that have just these columns. -/
namespace Devit
open Text

namespace CompactTables

def toRow (columns : List Text) (obj : Json) : Json :=
  .array (columns.map fun col => (obj.get col).getD .null)

/-- `to_table_format`. -/
def toTableFormat (objects : List Json) (columns : List Text) : Json :=
  .ofFields [("fmt", .string "table".toList), ("cols", .array (columns.map .string)),
    ("rows", .array (objects.map (toRow columns)))]

/-- The fields that a row is read as; a column that is no text is passed over. -/
def rowFields (cols row : List Json) : List (Text × Json) :=
  cols.zipIdx.foldl (fun obj col =>
    match col.1.asStr with
    | some name => Json.insertField name (row[col.2]?.getD .null) obj
    | none => obj) []

/-- `from_table_format`: rows that are no arrays are passed over. -/
def fromTableFormat (table : Json) : List Json :=
  let cols := ((table.get "cols".toList).bind Json.asArray).getD []
  let rows := ((table.get "rows".toList).bind Json.asArray).getD []
  (rows.filterMap Json.asArray).map fun row => .object (rowFields cols row)

/-! ## Reading a row -/

/-- A field for each column, one after the other. -/
def build (value : Text → Json) (fields : List (Text × Json)) (columns : List Text) :
    List (Text × Json) :=
  columns.foldl (fun obj col => Json.insertField col (value col) obj) fields

theorem build_mapped (value : Text → Json) {fields : List (Text × Json)}
    (mapped : Json.Mapped fields) (columns : List Text) :
    Json.Mapped (build value fields columns) := by
  induction columns generalizing fields with
  | nil => exact mapped
  | cons col columns ih => exact ih (Json.mapped_insertField mapped col _)

theorem find_build (value : Text → Json) (fields : List (Text × Json)) (columns : List Text)
    (key : Text) :
    (build value fields columns).find? (·.1 == key) =
      if key ∈ columns then some (key, value key) else fields.find? (·.1 == key) := by
  induction columns generalizing fields with
  | nil => rw [if_neg List.not_mem_nil]; rfl
  | cons col columns ih =>
    have first : build value fields (col :: columns) =
        build value (Json.insertField col (value col) fields) columns := rfl
    rw [first, ih, Json.find_insertField]
    by_cases later : key ∈ columns
    · rw [if_pos later, if_pos (List.mem_cons_of_mem _ later)]
    · rw [if_neg later]
      by_cases here : key = col
      · subst here
        rw [if_pos rfl, if_pos List.mem_cons_self]
      · rw [if_neg here, if_neg (by simp [here, later])]

/-- The values stand under their columns. -/
theorem rowFields_values (value : Text → Json) (columns : List Text) :
    rowFields (columns.map .string) (columns.map value) = build value [] columns := by
  have from_there : ∀ (later : List Text) (n : Nat) (row : List Json) (fields : List (Text × Json)),
      row.drop n = later.map value →
      ((later.map Json.string).zipIdx n).foldl (fun obj (col : Json × Nat) =>
        match col.1.asStr with
        | some name => Json.insertField name (row[col.2]?.getD .null) obj
        | none => obj) fields = build value fields later := by
    intro later
    induction later with
    | nil => exact fun _ _ _ _ => rfl
    | cons col later ih =>
      intro n row fields cut
      have here : row[n]? = some (value col) := by
        have head := congrArg (·[0]?) cut
        simpa using head
      have behind : row.drop (n + 1) = later.map value := by
        rw [← List.drop_drop, cut]
        rfl
      rw [List.map_cons, List.zipIdx_cons, List.foldl_cons]
      dsimp only [Json.asStr]
      rw [here]
      exact ih (n + 1) row _ behind
  exact from_there columns 0 (columns.map value) [] rfl

theorem fromTable_toTable (objects : List Json) (columns : List Text) :
    fromTableFormat (toTableFormat objects columns) = objects.map fun obj =>
      .object (build (fun col => (obj.get col).getD .null) [] columns) := by
  have cols : (toTableFormat objects columns).get "cols".toList =
      some (.array (columns.map .string)) := by
    have apart : ("rows".toList == "cols".toList) = false := by decide
    rw [toTableFormat, Json.get_ofFields, List.reverse_cons, List.reverse_cons,
      List.reverse_singleton, List.append_assoc, List.singleton_append, List.singleton_append,
      List.find?_cons, apart, List.find?_cons, beq_self_eq_true]
    rfl
  have rows : (toTableFormat objects columns).get "rows".toList =
      some (.array (objects.map (toRow columns))) := by
    rw [toTableFormat, Json.get_ofFields, List.reverse_cons, List.reverse_cons,
      List.reverse_singleton, List.append_assoc, List.singleton_append, List.singleton_append,
      List.find?_cons, beq_self_eq_true]
    rfl
  have arrays : (objects.map (toRow columns)).filterMap Json.asArray =
      objects.map fun obj => columns.map fun col => (obj.get col).getD .null := by
    rw [List.filterMap_map]
    exact congrFun List.filterMap_eq_map' objects
  unfold fromTableFormat
  dsimp only
  rw [cols, rows, Option.bind_some, Option.bind_some, Json.asArray, Json.asArray,
    Option.getD_some, Option.getD_some, arrays, List.map_map]
  exact List.map_congr_left fun obj _ => congrArg Json.object (rowFields_values _ columns)

/-! ## There and back -/

/-- The object has the columns as its keys, and no others. -/
def HasColumns (columns : List Text) (obj : Json) : Prop :=
  ∃ fields, obj = .object fields ∧ ∀ key, key ∈ columns ↔ key ∈ fields.map Prod.fst

theorem find_isSome {fields : List (Text × Json)} {key : Text} :
    (fields.find? (·.1 == key)).isSome = true ↔ key ∈ fields.map Prod.fst := by
  rw [List.find?_isSome, List.mem_map]
  exact exists_congr fun field => and_congr_right fun _ => beq_iff_eq

theorem restored_iff {columns : List Text} {obj : Json}
    (mapped : ∀ fields, obj = .object fields → Json.Mapped fields) :
    Json.object (build (fun col => (obj.get col).getD .null) [] columns) = obj ↔
      HasColumns columns obj := by
  constructor
  · intro same
    refine ⟨_, same.symm, fun key => ?_⟩
    rw [← find_isSome, find_build]
    by_cases named : key ∈ columns
    · simp [named]
    · simp [named]
  · rintro ⟨fields, rfl, named⟩
    refine congrArg Json.object (Json.mapped_ext (build_mapped _ List.Pairwise.nil _)
      (mapped fields rfl) fun key => ?_)
    rw [find_build]
    by_cases column : key ∈ columns
    · obtain ⟨field, found⟩ := Option.isSome_iff_exists.mp (find_isSome.mpr ((named key).mp column))
      have own : field.1 = key := by simpa using List.find?_some found
      rw [if_pos column, Json.get, found, ← own]
      rfl
    · rw [if_neg column, List.find?_nil]
      cases found : fields.find? (·.1 == key) with
      | none => rfl
      | some field =>
        exact absurd ((named key).mpr (find_isSome.mp (by rw [found]; rfl))) column

/-- **Objects survive the table** exactly where each of them has the columns as its keys, and no
others. -/
theorem tables_restored_iff {objects : List Json} {columns : List Text}
    (mapped : ∀ obj ∈ objects, ∀ fields, obj = .object fields → Json.Mapped fields) :
    fromTableFormat (toTableFormat objects columns) = objects ↔
      ∀ obj ∈ objects, HasColumns columns obj := by
  rw [fromTable_toTable]
  conv_lhs => rhs; rw [← List.map_id objects]
  rw [List.map_inj_left]
  exact forall₂_congr fun obj member => restored_iff (mapped obj member)

/-- Objects of two columns. -/
def twoObjects : List Json :=
  [.object [(['a'], .unsigned 1), (['b'], .null)], .object [(['a'], .null), (['b'], .bool true)]]

theorem two_columns_restored :
    fromTableFormat (toTableFormat twoObjects [['b'], ['a']]) = twoObjects := by
  have named : ∀ key : Text, key ∈ [['b'], ['a']] ↔ key ∈ [['a'], ['b']] := fun key => by
    simp [or_comm]
  refine (tables_restored_iff fun obj member fields own => ?_).mpr fun obj member => ?_
  · simp only [twoObjects, List.mem_cons, List.not_mem_nil, or_false] at member
    rcases member with rfl | rfl <;> cases own <;> simp [Json.Mapped] <;> decide
  · simp only [twoObjects, List.mem_cons, List.not_mem_nil, or_false] at member
    rcases member with rfl | rfl
    · exact ⟨_, rfl, named⟩
    · exact ⟨_, rfl, named⟩

end CompactTables

end Devit
