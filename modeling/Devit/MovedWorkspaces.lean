import Devit.FreshSnapshots

/-! Whether the snapshots of a workspace depend on where the workspace is. The patterns of the
engine are looked for in absolute paths: a directory above the workspace that is named like a
pattern hides all that is in the workspace. -/
namespace Devit
open Text Path FileSystem
open Files (entry)

namespace MovedWorkspaces
open FreshSnapshots (Takes capture_takings)
open SnapshotManager SnapshotRestore SnapshotFiles
open SnapshotReversion (capturedFiles skipped)

/-- A pattern of the snapshots of the engine is in the text. -/
def Patterned (text : Text) : Prop :=
  ∃ pattern ∈ SnapshotOptions.standard.excludePatterns, contains pattern text = true

instance (text : Text) : Decidable (Patterned text) :=
  inferInstanceAs (Decidable (∃ pattern ∈ SnapshotOptions.standard.excludePatterns, _))

theorem patterns_plain : ∀ pattern ∈ SnapshotOptions.standard.excludePatterns,
    pattern ≠ [] ∧ '/' ∉ pattern := by decide +kernel

/-- A pattern without slashes is in one of the two texts that a slash is between. -/
theorem contains_slash {pattern before behind : Text} (filled : pattern ≠ [])
    (free : '/' ∉ pattern) : contains pattern (before ++ '/' :: behind) =
      (contains pattern before || contains pattern behind) := by
  have stops : Stops pattern ('/' :: behind) := by
    intro c first inside
    obtain rfl : c = '/' := by simpa [eq_comm] using first
    exact free (List.mem_of_mem_tail inside)
  have other : ∀ c cs, pattern = c :: cs → c ≠ '/' := by
    rintro c cs rfl rfl
    exact free List.mem_cons_self
  rw [contains_stops filled before stops, contains]
  cases shape : pattern with
  | nil => exact absurd shape filled
  | cons c cs => rw [startsWith_head_ne (other c cs shape), Bool.false_or]

theorem contains_joined {pattern : Text} {base : PathBuf} {name : Text} (filled : pattern ≠ [])
    (free : '/' ∉ pattern) (some_text : base.text ≠ []) (plainName : PlainName name) :
    contains pattern (pathJoin base ⟨name⟩).text =
      (contains pattern base.text || contains pattern name) := by
  have relative := (components_name plainName).2
  rw [pathJoin, if_neg (by simp [relative])]
  split
  · rename_i ends
    rcases ends with empty | slash
    · exact absurd empty some_text
    · refine contains_closes filled name fun c last inside => ?_
      rw [slash] at last
      cases last
      exact free (List.mem_of_mem_dropLast inside)
  · exact contains_slash filled free

theorem entry_filled {root : PathBuf} {names : List Text} (some_text : root.text ≠ [])
    (plain : ∀ name ∈ names, PlainName name) : (entryPath root names).text ≠ [] := by
  induction names using List.reverseRecOn with
  | nil => exact some_text
  | append_singleton names name ih =>
    have relative := (components_name (plain name List.mem_concat_self)).2
    have above := ih fun other member => plain other (List.mem_append_left _ member)
    have step : entryPath root (names ++ [name]) = pathJoin (entryPath root names) ⟨name⟩ :=
      List.foldl_concat ..
    rw [step, pathJoin, if_neg (by simp [relative])]
    split <;> simp [above]

/-- What is in the path of an entry is in the root or in one of the names. -/
theorem contains_entry {pattern : Text} {root : PathBuf} {names : List Text}
    (filled : pattern ≠ []) (free : '/' ∉ pattern) (some_text : root.text ≠ [])
    (plain : ∀ name ∈ names, PlainName name) :
    contains pattern (entryPath root names).text =
      (contains pattern root.text || names.any (contains pattern)) := by
  induction names using List.reverseRecOn with
  | nil => simp [entryPath]
  | append_singleton names name ih =>
    have above := fun other member => plain other (List.mem_append_left _ member)
    have step : entryPath root (names ++ [name]) = pathJoin (entryPath root names) ⟨name⟩ :=
      List.foldl_concat ..
    rw [step, contains_joined filled free (entry_filled some_text above)
      (plain name List.mem_concat_self), ih above, List.any_append, Bool.or_assoc]
    simp

/-- What the engine leaves out of its snapshots, whatever is in the files. -/
theorem excluded_iff {root : PathBuf} {names : List Text} (some_text : root.text ≠ [])
    (plain : ∀ name ∈ names, PlainName name) :
    excluded .standard root names = true ↔
      Patterned root.text ∨ ∃ name ∈ names, Patterned name := by
  have entry := fun above (below : above <+: names) pattern known =>
    @contains_entry pattern root above (patterns_plain pattern known).1
      (patterns_plain pattern known).2 some_text fun name member => plain name (below.subset member)
  simp only [excluded, List.any_eq_true, List.mem_inits]
  constructor
  · rintro ⟨above, below, pattern, known, found⟩
    rw [entry above below pattern known, Bool.or_eq_true, List.any_eq_true] at found
    rcases found with atRoot | ⟨name, member, found⟩
    · exact .inl ⟨pattern, known, atRoot⟩
    · exact .inr ⟨name, below.subset member, pattern, known, found⟩
  · rintro (⟨pattern, known, found⟩ | ⟨name, member, pattern, known, found⟩) <;>
      refine ⟨names, List.prefix_rfl, pattern, known, ?_⟩ <;>
      rw [entry names List.prefix_rfl pattern known, Bool.or_eq_true, List.any_eq_true]
    · exact .inl found
    · exact .inr ⟨name, member, found⟩

/-- The trees at two roots are alike to a snapshot: the walk meets the same names, and the same
is found under each. -/
structure SameTree (crates : SnapshotCrates) (d₁ d₂ : Disk) (root₁ root₂ : PathBuf) : Prop where
  walk : crates.walkDir d₁ false root₁ = crates.walkDir d₂ false root₂
  look : ∀ names ∈ crates.walkDir d₁ false root₁,
    stat d₁ true (entryPath root₁ names) = stat d₂ true (entryPath root₂ names)

section
variable {crates : SnapshotCrates} {d d₁ d₂ : Disk} {root root₁ root₂ : PathBuf}
variable {names : List Text}

theorem takes_patterned {content : Content} (some_text : root.text ≠ [])
    (plain : ∀ name ∈ names, PlainName name) (patterned : Patterned root.text) :
    ¬ Takes d root names content := by
  rintro ⟨-, kept⟩
  have out := (excluded_iff some_text plain).mpr (.inl patterned)
  simp [skipped, out] at kept

/-- Below roots without a pattern, what is taken depends on the tree only. -/
theorem takes_moves {content : Content} (some₁ : root₁.text ≠ []) (some₂ : root₂.text ≠ [])
    (plain : ∀ name ∈ names, PlainName name) (bare₁ : ¬ Patterned root₁.text)
    (bare₂ : ¬ Patterned root₂.text)
    (look : stat d₁ true (entryPath root₁ names) = stat d₂ true (entryPath root₂ names)) :
    Takes d₁ root₁ names content ↔ Takes d₂ root₂ names content := by
  have excluded_eq : excluded .standard root₁ names = excluded .standard root₂ names := by
    rw [Bool.eq_iff_iff, excluded_iff some₁ plain, excluded_iff some₂ plain]
    exact or_congr_left (iff_of_false bare₁ bare₂)
  rw [Takes, Takes, look, skipped, skipped, excluded_eq]

theorem mem_captured {snapshot : Snapshot}
    (takings : FreshSnapshots.Takings crates d root snapshot)
    (plain : ∀ names ∈ crates.walkDir d false root, names ≠ [] ∧ ∀ name ∈ names, PlainName name) :
    names ∈ capturedFiles snapshot ↔
      names ∈ crates.walkDir d false root ∧ ∃ content, Takes d root names content := by
  rw [capturedFiles, Set.mem_ofPred_eq, takings.keys]
  constructor
  · rintro ⟨⟨-, clean⟩, names', member, taken, equal⟩
    obtain rfl := (same_pathOf (plain names' member).2 clean).mp equal
    exact ⟨member, taken⟩
  · rintro ⟨member, taken⟩
    exact ⟨plain names member, names, member, taken,
      (same_pathOf (plain names member).2 (plain names member).2).mpr rfl⟩

end

/-- **Snapshots** of the same tree at two roots have the same files exactly where both roots
have a name like a pattern above the files, or none has, or both snapshots are empty. -/
theorem snapshot_moves_iff {crates : StoreCrates} {d₁ d₂ : Disk} {creation₁ creation₂ : Creation}
    {made₁ made₂ : DatedSnapshot}
    (alike : SameTree crates.toSnapshotCrates d₁ d₂ creation₁.rootPath creation₂.rootPath)
    (some₁ : creation₁.rootPath.text ≠ []) (some₂ : creation₂.rootPath.text ≠ [])
    (plain : ∀ names ∈ crates.walkDir d₁ false creation₁.rootPath,
      names ≠ [] ∧ ∀ name ∈ names, PlainName name)
    (engine₁ : creation₁.options = none) (engine₂ : creation₂.options = none)
    (ran₁ : capture crates creation₁ d₁ = .ok made₁)
    (ran₂ : capture crates creation₂ d₂ = .ok made₂) :
    capturedFiles made₁.toSnapshot = capturedFiles made₂.toSnapshot ↔
      (Patterned creation₁.rootPath.text ↔ Patterned creation₂.rootPath.text) ∨
        capturedFiles made₁.toSnapshot = ∅ ∧ capturedFiles made₂.toSnapshot = ∅ := by
  have plain₂ := plain
  rw [alike.walk] at plain₂
  have mem₁ := fun names => @mem_captured _ _ _ names _
    (capture_takings some₁ plain engine₁ rfl ran₁) plain
  have mem₂ := fun names => @mem_captured _ _ _ names _
    (capture_takings some₂ plain₂ engine₂ rfl ran₂) plain₂
  have none₁ (patterned : Patterned creation₁.rootPath.text) :
      capturedFiles made₁.toSnapshot = ∅ := by
    refine Set.eq_empty_iff_forall_notMem.mpr fun names inside => ?_
    obtain ⟨member, content, taken⟩ := (mem₁ names).mp inside
    exact takes_patterned some₁ (plain names member).2 patterned taken
  have none₂ (patterned : Patterned creation₂.rootPath.text) :
      capturedFiles made₂.toSnapshot = ∅ := by
    refine Set.eq_empty_iff_forall_notMem.mpr fun names inside => ?_
    obtain ⟨member, content, taken⟩ := (mem₂ names).mp inside
    exact takes_patterned some₂ (plain₂ names member).2 patterned taken
  by_cases patterned₁ : Patterned creation₁.rootPath.text <;>
    by_cases patterned₂ : Patterned creation₂.rootPath.text
  · exact iff_of_true ((none₁ patterned₁).trans (none₂ patterned₂).symm)
      (.inl (iff_of_true patterned₁ patterned₂))
  · rw [or_iff_right fun both => patterned₂ (both.mp patterned₁), none₁ patterned₁, eq_comm]
    exact (and_iff_right rfl).symm
  · rw [or_iff_right fun both => patterned₁ (both.mpr patterned₂), none₂ patterned₂]
    exact (and_iff_left rfl).symm
  · refine iff_of_true (Set.ext fun names => ?_) (.inl (iff_of_false patterned₁ patterned₂))
    rw [mem₁, mem₂, ← alike.walk]
    refine and_congr_right fun member => exists_congr fun content => ?_
    exact takes_moves some₁ some₂ (plain names member).2 patterned₁ patterned₂
      (alike.look names member)

/-! ## A workspace of one note -/

theorem toOption_map {ε α β : Type} {x : Except ε α} {f : α → β} {b : β}
    (found : x.toOption.map f = some b) : ∃ a, x = .ok a ∧ f a = b := by
  cases x with
  | error e => cases found
  | ok a => exact ⟨a, rfl, Option.some.inj found⟩

/-- A note in a directory of the root. -/
def noteDisk (home : Text) : Disk where
  tree := Files.put (Files.put (fun _ => none) [home] (some .dir)) [home, "a.md".toList]
    (some (.file (.utf8 "todo".toList)))
  cwd := []
  touched := []

/-- Crates whose walk meets the file. -/
def noteCrates : StoreCrates := { FreshSnapshots.fileCrates [] with
  walkDir := fun _ _ _ => [["a.md".toList]] }

def noteCall (home : Text) : Creation :=
  ⟨⟨'/' :: home⟩, "manual".toList, none, 5, 5 * 10 ^ 9⟩

/-- The file is in the snapshot at one place and not at the other. -/
theorem snapshot_moves_notes : ∃ made₁ made₂,
    capture noteCrates (noteCall "w".toList) (noteDisk "w".toList) = .ok made₁ ∧
    capture noteCrates (noteCall "target".toList) (noteDisk "target".toList) = .ok made₂ ∧
    capturedFiles made₁.toSnapshot ≠ capturedFiles made₂.toSnapshot := by
  have kept : (capture noteCrates (noteCall "w".toList) (noteDisk "w".toList)).toOption.map
      (fun made => (made.files.get (pathOf ["a.md".toList])).isSome) = some true := by
    decide +kernel
  have left_out : (capture noteCrates (noteCall "target".toList)
      (noteDisk "target".toList)).toOption.map
      (fun made => (made.files.get (pathOf ["a.md".toList])).isSome) = some false := by
    decide +kernel
  obtain ⟨made₁, ran₁, has⟩ := toOption_map kept
  obtain ⟨made₂, ran₂, -⟩ := toOption_map left_out
  have alike : SameTree noteCrates.toSnapshotCrates (noteDisk "w".toList)
      (noteDisk "target".toList) ⟨"/w".toList⟩ ⟨"/target".toList⟩ := by
    refine ⟨rfl, fun names member => ?_⟩
    obtain rfl := List.mem_singleton.mp member
    decide +kernel
  have plain : ∀ names ∈ noteCrates.walkDir (noteDisk "w".toList) false ⟨"/w".toList⟩,
      names ≠ [] ∧ ∀ name ∈ names, PlainName name := by
    intro names member
    obtain rfl := List.mem_singleton.mp member
    exact ⟨List.cons_ne_nil _ _, by decide⟩
  refine ⟨made₁, made₂, ran₁, ran₂, ?_⟩
  rw [ne_eq, snapshot_moves_iff alike (by decide) (by decide) plain rfl rfl ran₁ ran₂]
  rintro (patterned | ⟨empty, -⟩)
  · exact absurd patterned (by decide +kernel)
  · have inside : ["a.md".toList] ∈ capturedFiles made₁.toSnapshot := ⟨⟨List.cons_ne_nil _ _, by decide⟩, has⟩
    rw [empty] at inside
    exact inside

end MovedWorkspaces

end Devit
