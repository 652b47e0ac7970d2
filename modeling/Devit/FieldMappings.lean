import Devit.Library.JsonKeys
import Devit.Library.Table

/-! The compact format: the long names of fields are replaced by short ones in the
written text, one after the other as the mapping is iterated, without reading it as a
value. The replacements together rename the keys of the value and change nothing else
of it, in whichever order they are made. -/
namespace Devit.FieldMappings
open Text Json

def fileMappings : List (Text × Text) :=
  [("name", "n"), ("path", "f"), ("entry_type", "t"), ("size", "s"), ("modified", "m"),
   ("permissions", "p"), ("readable", "r"), ("writable", "w"), ("executable", "x"),
   ("content", "c"), ("lines", "l"), ("encoding", "e"), ("file", "sf"), ("line_number", "ln"),
   ("line", "sl"), ("context_before", "cb"), ("context_after", "ca"), ("pattern", "pat"),
   ("files_searched", "fs"), ("total_matches", "tm"), ("matches", "mt"), ("truncated", "tc"),
   ("root", "rt"), ("project_type", "pt"), ("tree", "tr"), ("total_files", "tf"),
   ("total_dirs", "td"), ("node_type", "nt"), ("children", "ch"), ("directory", "dir"),
   ("symlink", "sym"), ("unknown", "unk")].map fun (long, short) => (long.toList, short.toList)

/-- A map collected from its entries. -/
def collect (entries : List (Text × Text)) : Table Text :=
  entries.foldl (fun mapping entry => mapping.insert entry.1 entry.2) ∅

def getMapping : Table Text := collect fileMappings

def getReverseMapping : Table Text := collect (fileMappings.map Prod.swap)

/-- `apply_mappings`, with the mapping iterated in the order given. -/
def applyMappings (order : List (Sigma fun _ : Text => Text)) (json : Text) : Text :=
  order.foldl (fun result entry =>
    replace ('"' :: (entry.1 ++ ['"', ':'])) ('"' :: (entry.2 ++ ['"', ':'])) result) json

/-- The value with the keys that a map has renamed as it says. -/
def mapKeys (mapping : Table Text) (v : Json) : Json :=
  v.renameKeys fun key => (mapping.lookup key).getD key

/-! ## The table -/

instance (key : Text) : Decidable (IsName key) := inferInstanceAs (Decidable (_ = true))

/-- A pair of names as they stand in the table: the text that is searched for and the one
it is replaced by are those of the two keys, and the key searched for is a name. -/
def Written (entry : Sigma fun _ : Text => Text) : Prop :=
  IsName entry.1 ∧ '"' ∉ entry.2 ∧
    entry.1.flatMap escapeChar = entry.1 ∧ entry.2.flatMap escapeChar = entry.2

/-- The two tables: names apart from each other, which lead back. -/
theorem mapping_table :
    (∀ entry ∈ getMapping.entries, Written entry ∧
        getReverseMapping.lookup entry.2 = some entry.1 ∧
        ∀ other ∈ getMapping.entries, entry.2 ≠ other.1) ∧
      ∀ key ∈ getReverseMapping.keys, key ∈ fileMappings.map Prod.snd := by
  unfold Written
  decide +kernel

theorem mapping_written : ∀ entry ∈ getMapping.entries, Written entry :=
  fun entry member => (mapping_table.1 entry member).1

/-- No short name is a long one. -/
theorem mapping_apart : ∀ entry ∈ getMapping.entries, ∀ other ∈ getMapping.entries,
    entry.2 ≠ other.1 :=
  fun entry member => (mapping_table.1 entry member).2.2

theorem mapping_back : ∀ entry ∈ getMapping.entries,
    getReverseMapping.lookup entry.2 = some entry.1 :=
  fun entry member => (mapping_table.1 entry member).2.1

theorem reverse_names : ∀ key ∈ getReverseMapping.keys, key ∈ fileMappings.map Prod.snd :=
  mapping_table.2

/-! ## Replacing one name after the other -/

/-- What becomes of a key by the renamings, one after the other. -/
def renamings (order : List (Sigma fun _ : Text => Text)) (key : Text) : Text :=
  order.foldl (fun name entry => renameOne entry.1 entry.2 name) key

/-- **Each replacement renames one key, and they do so together.** -/
theorem applyMappings_renamings {order : List (Sigma fun _ : Text => Text)}
    (written : ∀ entry ∈ order, Written entry) {v : Json} (plain : ∀ key ∈ v.keys, '"' ∉ key) :
    applyMappings order v.render = (v.renameKeys (renamings order)).render := by
  induction order generalizing v with
  | nil => exact congrArg render (renameKeys_id v).symm
  | cons entry order ih =>
    obtain ⟨name, unquoted, long, short⟩ := written entry List.mem_cons_self
    have first := replace_whole entry.2 name plain
    have kept : ∀ key ∈ (v.renameKeys (renameOne entry.1 entry.2)).keys, '"' ∉ key := by
      intro key member
      rw [keys_renameKeys] at member
      obtain ⟨old, inside, rfl⟩ := List.mem_map.mp member
      unfold renameOne
      split
      · exact unquoted
      · exact plain old inside
    have later := ih (fun other member => written other (List.mem_cons_of_mem _ member)) kept
    rw [keyText, keyText, renderString, renderString, long, short, List.cons_append,
      List.cons_append, List.append_assoc, List.append_assoc] at first
    rw [applyMappings, List.foldl_cons]
    refine (congrArg (applyMappings order) first).trans (later.trans ?_)
    rw [renameKeys_renameKeys]
    rfl

/-- Where no new name is an old one, a key is renamed at most once. -/
theorem renamings_eq {order : List (Sigma fun _ : Text => Text)}
    (apart : ∀ entry ∈ order, ∀ other ∈ order, entry.2 ≠ other.1) (key : Text) :
    renamings order key = (order.dlookup key).getD key := by
  induction order generalizing key with
  | nil => rfl
  | cons entry order ih =>
    obtain ⟨long, short⟩ := entry
    have later := ih fun entry member other inside =>
      apart entry (List.mem_cons_of_mem _ member) other (List.mem_cons_of_mem _ inside)
    rw [renamings, List.foldl_cons]
    refine (later (renameOne long short key)).trans ?_
    by_cases same : key = long
    · subst same
      have absent : short ∉ order.keys := by
        intro member
        obtain ⟨other, inside, eq⟩ := List.mem_map.mp member
        exact apart ⟨key, short⟩ List.mem_cons_self other (List.mem_cons_of_mem _ inside) eq.symm
      rw [renameOne, if_pos rfl, List.dlookup_cons_eq, List.dlookup_eq_none.mpr absent]
      rfl
    · have skipped : List.dlookup key (⟨long, short⟩ :: order) = List.dlookup key order :=
        List.dlookup_cons_ne order _ same
      rw [renameOne, if_neg same, skipped]

/-- A key that is not a short name is found again by the reverse mapping. -/
theorem renamed_back {key : Text} (long : key ∉ fileMappings.map Prod.snd) :
    (getReverseMapping.lookup ((getMapping.lookup key).getD key)).getD
      ((getMapping.lookup key).getD key) = key := by
  cases found : getMapping.lookup key with
  | none =>
    have absent : getReverseMapping.lookup key = none :=
      AList.lookup_eq_none.mpr fun member => long (reverse_names key member)
    rw [Option.getD_none, absent, Option.getD_none]
  | some short =>
    have back := mapping_back ⟨key, short⟩ (List.of_mem_dlookup found)
    rw [Option.getD_some, back, Option.getD_some]

/-- **The compact text is that of the value with its keys renamed**, in whichever order
the mapping is iterated; without short names among its keys, the value is recovered
by the reverse mapping. -/
theorem applyMappings_render {order : List (Sigma fun _ : Text => Text)}
    (iterated : order.Perm getMapping.entries) {v : Json} (plain : ∀ key ∈ v.keys, '"' ∉ key) :
    applyMappings order v.render = (mapKeys getMapping v).render ∧
      ((∀ key ∈ v.keys, key ∉ fileMappings.map Prod.snd) →
        mapKeys getReverseMapping (mapKeys getMapping v) = v) := by
  constructor
  · have written : ∀ entry ∈ order, Written entry := fun entry member =>
      mapping_written entry (iterated.subset member)
    have apart : ∀ entry ∈ order, ∀ other ∈ order, entry.2 ≠ other.1 :=
      fun entry member other inside =>
        mapping_apart entry (iterated.subset member) other (iterated.subset inside)
    have found (key : Text) : order.dlookup key = getMapping.lookup key :=
      (List.perm_dlookup key getMapping.nodupKeys iterated.symm).symm
    rw [applyMappings_renamings written plain]
    refine congrArg render (renameKeys_congr v fun key _ => ?_)
    rw [renamings_eq apart, found]
  · intro long
    rw [mapKeys, mapKeys, renameKeys_renameKeys]
    exact (renameKeys_congr v fun key member => renamed_back (long key member)).trans
      (renameKeys_id v)

/-- A value with a string that looks like a key, and a name within a key. -/
def quoting : Json :=
  .object [("path".toList, .string "\"path\":".toList),
    ("my_path".toList, .array [.object [("size".toList, .unsigned 7)]])]

theorem applyMappings_quoting :
    applyMappings getMapping.entries quoting.render = (mapKeys getMapping quoting).render ∧
      mapKeys getReverseMapping (mapKeys getMapping quoting) = quoting := by
  have whole := @applyMappings_render getMapping.entries (List.Perm.refl _) quoting
    (by decide +kernel)
  exact ⟨whole.1, whole.2 (by decide +kernel)⟩

end Devit.FieldMappings
