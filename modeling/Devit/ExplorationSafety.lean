import Devit.ExplorationWalks
import Devit.PatchPaths
import Mathlib.Algebra.BigOperators.Group.List.Basic
import Mathlib.Data.List.Dedup

/-! Whether listing, searching and outlining stay in the root and go into no directory
twice. They come to an end, since no path of 4096 bytes or more is gone into. They
leave the root, or come to a directory again, through links that they follow: these
are looked at by where they lead, and never by the checks of the paths. -/
namespace Devit
open Text Path FileSystem PathSecurityContext
open Files (Loc Errno Node entry placeAt)

namespace FileExploration

/-- A call that goes through the files of a project. -/
inductive Exploration where
  | list (recursive : Bool)
  | search (pattern : Text) (contextLines : Option Nat)
  | outline (maxDepth : Option UInt8)

/-- The trail of a call. -/
def explore (crates : ExplorationCrates) (ops : FileOpsManager) {d : Disk} (c : Catalog d)
    (fuel : Nat) (path : PathBuf) : Exploration → Explore Trail
  | .list recursive => do pure (← fileList crates ops c fuel path recursive).trail
  | .search pattern contextLines => do
    pure (← fileSearch crates ops c fuel pattern path contextLines).results.trail
  | .outline maxDepth => .mk (some do return (← projectStructure crates ops c path maxDepth).2)

/-- No directory is gone into twice, and what is gone into, listed or read is in the root. -/
structure Contained (d : Disk) (root : Loc Text) (trail : Trail) : Prop where
  once : (trail.visited.map (placeOf d)).Nodup
  inside : ∀ p ∈ trail.visited ++ trail.files, root <+: placeOf d p

/-- The call comes to an end, and is contained where it does not fail. -/
def Safe (crates : ExplorationCrates) (ops : FileOpsManager) {d : Disk} (c : Catalog d)
    (root : Loc Text) (path : PathBuf) (call : Exploration) : Prop :=
  ∃ result, (∃ enough, ∀ fuel ≥ enough, (explore crates ops c fuel path call).run = some result) ∧
    ∀ trail, result = .ok trail → Contained d root trail

/-- What a call does, in the words of its errors. -/
def Exploration.operation : Exploration → String
  | .list _ => "list directory"
  | .search _ _ => "search files"
  | .outline _ => "read project structure"

/-- The node is a link of the directory it is in. -/
def Linked (d : Disk) (start node : List Text) : Prop :=
  ∃ init name target, node = init ++ [name] ∧
    entry d.tree (place d start init ++ [name]) = some (.link target)

/-- The links that the walk reports lead inside the root. -/
def LinksInside {d : Disk} (c : Catalog d) (root : Loc Text) (start : List Text) : Prop :=
  ∀ node name, Reached c start node → name ∈ items c start node →
    Linked d start (node ++ [name]) → root <+: place d start (node ++ [name])

/-- A start in the root, and if it is a directory, a walk from it whose links lead inside
and which comes on one way only to the start and to where its links lead. -/
def Encloses {d : Disk} (c : Catalog d) (root : Loc Text) (start : List Text) : Prop :=
  root <+: place d start [] ∧ (presentDir d (absolute start) = true →
    LinksInside c root start ∧
      Walks.Apart (subdirs c start) (place d start) (Linked d start))

/-- Every start that a call can have for the path is enclosed. -/
def Confined (crates : ExplorationCrates) (ops : FileOpsManager) {d : Disk} (c : Catalog d)
    (root : Loc Text) (path : PathBuf) : Prop :=
  ∀ start, (∀ name ∈ start, PlainName name) →
    ops.pathSecurity.validatePatchPath crates.clean d (adjustUserPath ops path) =
      .ok (absolute start) →
    present d (absolute start) = true → Encloses c root start

variable {d : Disk} {c : Catalog d} {start node : List Text} {root : Loc Text}

theorem nodePath_nil : nodePath start [] = absolute start := by rw [nodePath, List.append_nil]

/-! ## The nodes of a walk -/

theorem reached_dir (there : presentDir d (nodePath start []) = true)
    (reached : Reached c start node) : presentDir d (nodePath start node) = true := by
  rcases List.eq_nil_or_concat node with rfl | ⟨init, name, rfl⟩
  · exact there
  · rw [List.concat_eq_append] at reached ⊢
    exact (mem_subdirs.mp (Walks.descends_concat.mp reached).2).2.1

theorem reached_plain (plain : ∀ name ∈ start, PlainName name) (reached : Reached c start node) :
    ∀ name ∈ start ++ node, PlainName name := by
  induction node using List.reverseRecOn with
  | nil => simpa using plain
  | append_singleton init name ih =>
    obtain ⟨above, member⟩ := Walks.descends_concat.mp reached
    exact plain_concat (ih above) (c.plain _ name (mem_subdirs.mp member).1)

theorem names_le_text (names : List Text) : names.length ≤ (absolute names).text.length := by
  rw [absolute_spelled, List.length_cons]
  induction names with
  | nil => exact Nat.zero_le _
  | cons name rest ih =>
    cases rest with
    | nil => simp
    | cons other rest =>
      rw [Text.join.eq_3 _ _ _ (by simp)]
      simp only [List.length_cons, List.length_append, List.length_nil] at ih ⊢
      omega

/-- A path that the system takes has less than 4096 names. -/
theorem taken_short {names : List Text} (fits : taken (absolute names) = true) :
    names.length < 4096 := by
  have bytes : ((absolute names).text.map Char.utf8Size).sum < 4096 := by
    simpa using (Bool.and_eq_true_iff.mp fits).2
  have chars : (absolute names).text.length ≤ ((absolute names).text.map Char.utf8Size).sum := by
    rw [← List.length_map Char.utf8Size]
    refine List.length_le_sum_of_one_le _ fun size member => ?_
    obtain ⟨char, -, rfl⟩ := List.mem_map.mp member
    exact char.utf8Size_pos
  exact Nat.lt_of_le_of_lt ((names_le_text names).trans chars) bytes

/-- **The end of a walk.** No walk gets 4096 names deep. -/
theorem reached_short (there : presentDir d (nodePath start []) = true)
    (reached : Reached c start node) : node.length < 4096 := by
  have fits := (Bool.and_eq_true_iff.mp (reached_dir there reached)).1
  have short := taken_short fits
  rw [List.length_append] at short
  omega

/-- An entry that is not a link stands below its directory. -/
theorem place_unlinked (sound : d.Sound) (plain : ∀ name ∈ start, PlainName name)
    (there : presentDir d (nodePath start []) = true) (reached : Reached c start node)
    {name : Text} (item : name ∈ items c start node)
    (unlinked : ¬ Linked d start (node ++ [name])) :
    place d start (node ++ [name]) = place d start node ++ [name] := by
  obtain ⟨-, leads, isDir⟩ := presentDir_found sound nodePath_text (reached_dir there reached)
  have opens : Opens d (absolute (start ++ node)) (place d start node) :=
    (opens_iff sound (absolute_text _)).mpr ⟨leads, isDir⟩
  have whole := plain_concat (reached_plain plain reached) (c.plain _ name (mem_items.mp item).1)
  rw [← List.append_assoc] at whole
  have below := lookup_in sound whole opens fun target link =>
    unlinked ⟨node, name, target, rfl, link⟩
  rw [place, placeOf, nodePath, ← List.append_assoc, below]
  exact Files.placeAt_loc _ _

theorem stands_walk (sound : d.Sound) (plain : ∀ name ∈ start, PlainName name)
    (there : presentDir d (nodePath start []) = true) :
    Walks.Stands (subdirs c start) (place d start) (Linked d start) := by
  intro node name down unlinked
  obtain ⟨reached, member⟩ := Walks.descends_concat.mp down
  exact place_unlinked sound plain there reached (subdirs_items member) unlinked

/-! ## Enclosed walks -/

/-- A walk that stays in the root and comes to no directory twice. -/
structure Enclosed {d : Disk} (c : Catalog d) (root : Loc Text) (start : List Text) : Prop where
  nodes : ∀ node, Reached c start node → root <+: place d start node
  items : ∀ node name, Reached c start node → name ∈ items c start node →
    root <+: place d start (node ++ [name])
  once : Walks.Once (subdirs c start) (place d start)

/-- **Links decide.** A walk is enclosed exactly if its links are. -/
theorem enclosed_iff (sound : d.Sound) (plain : ∀ name ∈ start, PlainName name)
    (there : presentDir d (nodePath start []) = true) :
    Enclosed c root start ↔ Encloses c root start := by
  have apart := Walks.once_iff_apart (@stands_walk d c start sound plain there)
  constructor
  · intro enclosed
    refine ⟨enclosed.nodes [] trivial, fun _ => ⟨?_, apart.mp enclosed.once⟩⟩
    exact fun node name reached item _ => enclosed.items node name reached item
  · rintro ⟨inside, links⟩
    obtain ⟨leadInside, landings⟩ := links (nodePath_nil ▸ there)
    have onward : ∀ node name, Reached c start node → root <+: place d start node →
        name ∈ items c start node → root <+: place d start (node ++ [name]) := by
      intro node name reached above item
      by_cases link : Linked d start (node ++ [name])
      · exact leadInside node name reached item link
      · rw [place_unlinked sound plain there reached item link]
        exact above.trans (List.prefix_append _ _)
    have nodes : ∀ node, Reached c start node → root <+: place d start node := by
      intro node reached
      induction node using List.reverseRecOn with
      | nil => exact inside
      | append_singleton node name ih =>
        obtain ⟨above, member⟩ := Walks.descends_concat.mp reached
        exact onward node name above (ih above) (subdirs_items member)
    exact ⟨nodes, fun node name reached item => onward node name reached (nodes node reached) item,
      apart.mpr landings⟩

/-- A trail through nodes of the walk, each once, that reports the start and what the
walk reports. From a start that is not a directory there is no walk. -/
structure Walked {d : Disk} (c : Catalog d) (start : List Text) (nodes : List (List Text))
    (trail : Trail) : Prop where
  distinct : nodes.Nodup
  reached : ∀ node ∈ nodes, presentDir d (nodePath start []) = true ∧ Reached c start node
  visited : trail.visited = nodes.map (nodePath start)
  files : ∀ p ∈ trail.files, p = nodePath start [] ∨
    (presentDir d (nodePath start []) = true ∧
      ∃ node, Reached c start node ∧ p ∈ itemPaths c start node)

theorem walked_start {trail : Trail} (visited : trail.visited = [])
    (files : ∀ p ∈ trail.files, p = nodePath start []) : Walked c start [] trail :=
  ⟨List.nodup_nil, fun _ member => absurd member List.not_mem_nil, visited,
    fun p listed => .inl (files p listed)⟩

/-- A trail of an enclosed walk is contained. -/
theorem Walked.contained {nodes : List (List Text)} {trail : Trail}
    (walked : Walked c start nodes trail) (sound : d.Sound)
    (plain : ∀ name ∈ start, PlainName name) (encloses : Encloses c root start) :
    Contained d root trail := by
  have enclosed : presentDir d (nodePath start []) = true → Enclosed c root start :=
    fun there => (enclosed_iff sound plain there).mpr encloses
  constructor
  · rw [walked.visited, List.map_map]
    refine (List.nodup_map_iff_inj_on walked.distinct).mpr fun x here y there' same => ?_
    obtain ⟨there, reached⟩ := walked.reached x here
    exact (enclosed there).once x y reached (walked.reached y there').2 same
  · intro p member
    rcases List.mem_append.mp member with gone | listed
    · rw [walked.visited] at gone
      obtain ⟨node, own, rfl⟩ := List.mem_map.mp gone
      obtain ⟨there, reached⟩ := walked.reached node own
      exact (enclosed there).nodes node reached
    · rcases walked.files p listed with rfl | ⟨there, node, reached, reported⟩
      · exact encloses.1
      · obtain ⟨name, item, rfl⟩ := List.mem_map.mp reported
        exact (enclosed there).items node name reached item

/-! ## The start of a call -/

section
variable {crates : ExplorationCrates} {ops : FileOpsManager} {path : PathBuf} {v : PathBuf}
  {operation : String}

theorem validated_ok : validated crates ops d operation path = .ok v ↔
    ops.pathSecurity.validatePatchPath crates.clean d (adjustUserPath ops path) = .ok v ∧
      present d v = true := by
  unfold validated
  cases ops.pathSecurity.validatePatchPath crates.clean d (adjustUserPath ops path) with
  | error e =>
    constructor
    · rintro ⟨⟩
    · rintro ⟨⟨⟩, -⟩
  | ok accepted =>
    change (if present d accepted then _ else _) = _ ↔ _
    split
    · rename_i there
      constructor
      · rintro ⟨⟩
        exact ⟨rfl, there⟩
      · rintro ⟨⟨⟩, -⟩
        rfl
    · rename_i missing
      constructor
      · rintro ⟨⟩
      · rintro ⟨⟨⟩, there⟩
        exact absurd there missing

/-- What exists is a file or a directory. -/
theorem present_cases (sound : d.Sound) (there : present d v = true) :
    (presentFile d v = true ∧ presentDir d v = false) ∨
      (presentFile d v = false ∧ presentDir d v = true) := by
  obtain ⟨fits, found⟩ := Bool.and_eq_true_iff.mp there
  obtain ⟨loc, -, leads, -, standing⟩ := exists_found sound found
  obtain ⟨node, holds⟩ := Option.ne_none_iff_exists'.mp standing.there
  have looked : metadata d v = .ok node := by
    rw [metadata, if_pos fits]
    exact (stat_eq_ok leads).mpr holds
  have isDirectory := @metadata_dir_iff d v
  rw [looked] at isDirectory
  unfold presentFile
  rw [looked]
  cases node with
  | dir => exact .inr ⟨rfl, isDirectory.mp rfl⟩
  | file content =>
    refine .inl ⟨rfl, ?_⟩
    rw [Bool.eq_false_iff, ne_eq, ← isDirectory]
    rintro ⟨⟩
  | link target => exact absurd holds (Files.standing_ne_link standing target)

/-! ## The calls -/

theorem list_file {recursive : Bool}
    (checked : validated crates ops d "list directory" path = .ok v)
    (isFile : presentFile d v = true) (fuel : Nat) :
    (explore crates ops c fuel path (.list recursive)).run =
      some (.ok (Trail.empty.report v)) := by
  obtain ⟨content, looked⟩ : ∃ node, metadata d v = .ok node := by
    have found := presentFile_isOk isFile
    cases looked : metadata d v with
    | error e => simp [looked, Except.isOk, Except.toBool] at found
    | ok node => exact ⟨node, rfl⟩
  simp only [explore, fileList, checked, settled_bind, isFile, createFileEntry, looked]
  rfl

theorem list_dir (sound : d.Sound) (plain : ∀ name ∈ start, PlainName name) (recursive : Bool)
    (checked : validated crates ops d "list directory" path = .ok (nodePath start []))
    (notFile : presentFile d (nodePath start []) = false)
    (there : presentDir d (nodePath start []) = true) :
    ∃ trail, (∀ fuel ≥ 4096,
        (explore crates ops c fuel path (.list recursive)).run = some (.ok trail)) ∧
      Covers c start (if recursive then Walks.preorder (subdirs c start) 4096 [] else [[]])
        .empty trail := by
  have plainNode : ∀ name ∈ start ++ [], PlainName name := by simpa using plain
  cases recursive with
  | true =>
    obtain ⟨s, ran, covers⟩ := collectEntriesRecursive_spec sound plainNode there
      (fun more down => reached_short there down) ⟨[], .empty⟩
    refine ⟨s.trail, fun fuel enough => ?_, covers⟩
    simp only [explore, fileList, checked, settled_bind, notFile, there, ran fuel enough]
    rfl
  | false =>
    obtain ⟨s, ran, covers⟩ :=
      @collectEntriesSingle_spec d c start [] sound plainNode there ⟨[], .empty⟩
    refine ⟨s.trail, fun fuel _ => ?_, covers⟩
    simp only [explore, fileList, checked, settled_bind, notFile, there, ran]
    rfl

theorem search_uncompiled {pattern message : Text} {contextLines : Option Nat}
    (checked : validated crates ops d "search files" path = .ok v)
    (compiled : crates.compile pattern = .error message) (fuel : Nat) :
    (explore crates ops c fuel path (.search pattern contextLines)).run =
      some (.error (.invalidDiff ("Invalid regex pattern: ".toList ++ message) none)) := by
  simp only [explore, fileSearch, checked, settled_bind, compiled]
  rfl

theorem search_file {pattern : Text} {contextLines : Option Nat}
    (checked : validated crates ops d "search files" path = .ok v)
    (isFile : presentFile d v = true) :
    ∃ result, (∀ fuel,
        (explore crates ops c fuel path (.search pattern contextLines)).run = some result) ∧
      ∀ trail, result = .ok trail → trail.visited = [] ∧ ∀ p ∈ trail.files, p = v := by
  cases compiled : crates.compile pattern with
  | error message => exact ⟨_, search_uncompiled checked compiled, by rintro trail ⟨⟩⟩
  | ok isMatch =>
    refine ⟨.ok (searchFile crates isMatch (contextLines.getD 2) d v ⟨0, 0, [], .empty⟩).trail,
      fun fuel => ?_, ?_⟩
    · simp only [explore, fileSearch, checked, settled_bind, compiled, isFile]
      rfl
    · rintro trail ⟨⟩
      rcases @searchFile_trail d crates isMatch (contextLines.getD 2) v ⟨0, 0, [], .empty⟩
        with same | reported
      · rw [same]
        exact ⟨rfl, by simp [Trail.empty]⟩
      · rw [reported]
        exact ⟨rfl, by simp [Trail.empty]⟩

theorem search_dir {pattern : Text} {contextLines : Option Nat} (sound : d.Sound)
    (plain : ∀ name ∈ start, PlainName name)
    (checked : validated crates ops d "search files" path = .ok (nodePath start []))
    (notFile : presentFile d (nodePath start []) = false)
    (there : presentDir d (nodePath start []) = true) :
    ∃ result, (∀ fuel ≥ 4096,
        (explore crates ops c fuel path (.search pattern contextLines)).run = some result) ∧
      ∀ trail, result = .ok trail →
        Inside c start (Walks.preorder (subdirs c start) 4096 []) .empty trail := by
  have plainNode : ∀ name ∈ start ++ [], PlainName name := by simpa using plain
  cases compiled : crates.compile pattern with
  | error message =>
    exact ⟨_, fun fuel _ => search_uncompiled checked compiled fuel, by rintro trail ⟨⟩⟩
  | ok isMatch =>
    obtain ⟨results, ran, inside⟩ := @searchDirectoryRecursive_spec d c start [] crates isMatch
      (contextLines.getD 2) sound 4096 trivial plainNode there
      (fun more down => reached_short there down) ⟨0, 0, [], .empty⟩
    refine ⟨.ok results.trail, fun fuel enough => ?_, ?_⟩
    · simp only [explore, fileSearch, checked, settled_bind, compiled, notFile, there,
        ran fuel enough]
      rfl
    · rintro trail ⟨⟩
      exact inside

theorem outline_start {maxDepth : Option UInt8} (sound : d.Sound)
    (plain : ∀ name ∈ start, PlainName name)
    (checked : validated crates ops d "read project structure" path = .ok (nodePath start [])) :
    ∃ result, (∀ fuel, (explore crates ops c fuel path (.outline maxDepth)).run = some result) ∧
      ∀ trail, result = .ok trail →
        Outlined c start [] (maxDepth.getD maxTreeDepth).toNat .empty trail := by
  have plainNode : ∀ name ∈ start ++ [], PlainName name := by simpa using plain
  have outlined := @buildTreeNode_spec d c start [] sound (maxDepth.getD maxTreeDepth).toNat
    plainNode (fun _ => trivial) ⟨0, 0, .empty⟩
  refine ⟨_, fun fuel => rfl, fun trail same => ?_⟩
  obtain ⟨⟨structure', trail'⟩, built, same⟩ := Except.bind_eq_ok same
  cases same
  rw [projectStructure, checked] at built
  obtain ⟨v, settled, built⟩ := Except.bind_eq_ok built
  cases settled
  obtain ⟨tree, built', same⟩ := Except.bind_eq_ok built
  cases same
  exact outlined

/-- The nodes of an outline are nodes of the walk. -/
theorem shown_reached (plain : ∀ name ∈ start, PlainName name)
    (down : Walks.Descends (shownDirs c start) [] node) : Reached c start node := by
  induction node using List.reverseRecOn with
  | nil => trivial
  | append_singleton init name ih =>
    obtain ⟨above, member⟩ := Walks.descends_concat.mp down
    have reached := ih above
    exact Walks.descends_concat.mpr
      ⟨reached, (mem_shownDirs (reached_plain plain reached)).mp member⟩

/-! ## Safety -/

theorem explore_failed {call : Exploration} {e : DevItError}
    (checked : validated crates ops d call.operation path = .error e) (fuel : Nat) :
    (explore crates ops c fuel path call).run = some (.error e) := by
  cases call with
  | list recursive =>
    have refused : validated crates ops d "list directory" path = .error e := checked
    simp only [explore, fileList, refused, failed_bind]
    rfl
  | search pattern contextLines =>
    have refused : validated crates ops d "search files" path = .error e := checked
    simp only [explore, fileSearch, refused, failed_bind]
    rfl
  | outline maxDepth =>
    have refused : validated crates ops d "read project structure" path = .error e := checked
    simp only [explore, projectStructure, refused]
    rfl

/-- A call ends with an error or with the trail of a walk. -/
def Explores (crates : ExplorationCrates) (ops : FileOpsManager) {d : Disk} (c : Catalog d)
    (start : List Text) (path : PathBuf) (call : Exploration) : Prop :=
  ∃ result, (∃ enough, ∀ fuel ≥ enough, (explore crates ops c fuel path call).run = some result) ∧
    ∀ trail, result = .ok trail → ∃ nodes, Walked c start nodes trail

theorem outline_walks {maxDepth : Option UInt8} (sound : d.Sound)
    (plain : ∀ name ∈ start, PlainName name)
    (checked : validated crates ops d "read project structure" path = .ok (nodePath start [])) :
    Explores crates ops c start path (.outline maxDepth) := by
  obtain ⟨result, ran, trails⟩ := outline_start sound plain checked
  refine ⟨result, ⟨0, fun fuel _ => ran fuel⟩, fun trail same => ?_⟩
  have outlined := trails trail same
  have files : ∀ p ∈ trail.files, p = nodePath start [] ∨
      (presentDir d (nodePath start []) = true ∧
        ∃ node, Reached c start node ∧ p ∈ itemPaths c start node) := by
    intro p listed
    rcases outlined.files p listed with ⟨⟨⟩⟩ | ⟨itself, -⟩ | reported
    · exact .inl itself
    · exact .inr reported
  have visited := outlined.visited
  split at visited
  · rename_i there
    refine ⟨_, Walks.nodup_preorder shownDirs_nodup _ _, fun node member => ⟨there, ?_⟩, visited,
      files⟩
    obtain ⟨more, rfl, down, -⟩ := Walks.mem_preorder.mp member
    exact shown_reached plain down
  · exact ⟨[], List.nodup_nil, fun _ member => absurd member List.not_mem_nil, visited, files⟩

/-- A call on a file looks at nothing else. -/
theorem file_walks (call : Exploration) (sound : d.Sound) (plain : ∀ name ∈ start, PlainName name)
    (checked : validated crates ops d call.operation path = .ok (nodePath start []))
    (isFile : presentFile d (nodePath start []) = true) :
    Explores crates ops c start path call := by
  cases call with
  | list recursive =>
    refine ⟨_, ⟨0, fun fuel _ => list_file checked isFile fuel⟩, ?_⟩
    rintro trail ⟨⟩
    exact ⟨[], walked_start rfl (by simp [Trail.empty])⟩
  | search pattern contextLines =>
    obtain ⟨result, ran, trails⟩ := search_file checked isFile
    refine ⟨result, ⟨0, fun fuel _ => ran fuel⟩, fun trail same => ?_⟩
    obtain ⟨visited, files⟩ := trails trail same
    exact ⟨[], walked_start visited files⟩
  | outline maxDepth => exact outline_walks sound plain checked

/-- A call on a directory goes through nodes below it. -/
theorem dir_walks (call : Exploration) (sound : d.Sound) (plain : ∀ name ∈ start, PlainName name)
    (checked : validated crates ops d call.operation path = .ok (nodePath start []))
    (notFile : presentFile d (nodePath start []) = false)
    (there : presentDir d (nodePath start []) = true) : Explores crates ops c start path call := by
  have walked : ∀ node ∈ Walks.preorder (subdirs c start) 4096 [],
      presentDir d (nodePath start []) = true ∧ Reached c start node := by
    intro node member
    obtain ⟨more, rfl, down, -⟩ := Walks.mem_preorder.mp member
    exact ⟨there, down⟩
  have distinct := Walks.nodup_preorder (@subdirs_nodup d c start) 4096 []
  cases call with
  | list recursive =>
    obtain ⟨trail, ran, covers⟩ := list_dir sound plain recursive checked notFile there
    refine ⟨.ok trail, ⟨4096, ran⟩, fun _ same => ?_⟩
    cases same
    have nodes : ∀ node ∈ (if recursive then Walks.preorder (subdirs c start) 4096 [] else [[]]),
        presentDir d (nodePath start []) = true ∧ Reached c start node := by
      cases recursive with
      | true => exact walked
      | false =>
        intro node member
        rw [List.mem_singleton.mp member]
        exact ⟨there, trivial⟩
    refine ⟨_, ?_, nodes, covers.visited, fun p listed => ?_⟩
    · cases recursive with
      | true => exact distinct
      | false => exact List.nodup_singleton _
    · rcases (covers.files p).mp listed with ⟨⟨⟩⟩ | ⟨node, member, item⟩
      exact .inr ⟨there, node, (nodes node member).2, item⟩
  | search pattern contextLines =>
    obtain ⟨result, ran, trails⟩ := search_dir sound plain checked notFile there
    refine ⟨result, ⟨4096, ran⟩, fun trail same => ?_⟩
    obtain ⟨⟨gone, sub, visited⟩, files⟩ := trails trail same
    refine ⟨gone, distinct.sublist sub, fun node member => walked node (sub.subset member), visited,
      fun p listed => ?_⟩
    rcases files p listed with ⟨⟨⟩⟩ | reported
    exact .inr ⟨there, reported⟩
  | outline maxDepth => exact outline_walks sound plain checked

/-- **What a call does.** It fails before its walk, or it is a walk from a start that the
checks let through. -/
theorem explore_cases (cleans : Cleans crates.clean) (sound : d.Sound) (spelled : Spelled d)
    (rooted : PatchPaths.RootedAt d ops.pathSecurity root) (c : Catalog d) (path : PathBuf)
    (call : Exploration) :
    (∃ e, ∀ fuel, (explore crates ops c fuel path call).run = some (.error e)) ∨
      ∃ start, (∀ name ∈ start, PlainName name) ∧
        ops.pathSecurity.validatePatchPath crates.clean d (adjustUserPath ops path) =
          .ok (absolute start) ∧
        present d (absolute start) = true ∧ Explores crates ops c start path call := by
  cases checked : validated crates ops d call.operation path with
  | error e => exact .inl ⟨e, explore_failed checked⟩
  | ok v =>
    obtain ⟨passed, there⟩ := validated_ok.mp checked
    obtain ⟨start, plain, rfl⟩ := PatchPaths.accepted_absolute cleans sound spelled rooted passed
    refine .inr ⟨start, plain, passed, there, ?_⟩
    rw [← nodePath_nil] at checked there
    rcases present_cases sound there with ⟨isFile, -⟩ | ⟨notFile, isDirectory⟩
    · exact file_walks call sound plain checked isFile
    · exact dir_walks call sound plain checked notFile isDirectory

/-- **Every call ends**, whatever links there are. -/
theorem exploration_ends (cleans : Cleans crates.clean) (sound : d.Sound) (spelled : Spelled d)
    (rooted : PatchPaths.RootedAt d ops.pathSecurity root) (c : Catalog d) (path : PathBuf)
    (call : Exploration) : ∃ result enough, ∀ fuel ≥ enough,
      (explore crates ops c fuel path call).run = some result := by
  rcases explore_cases cleans sound spelled rooted c path call with
    ⟨e, failed⟩ | ⟨start, -, -, -, result, ⟨enough, ran⟩, -⟩
  · exact ⟨.error e, 0, fun fuel _ => failed fuel⟩
  · exact ⟨result, enough, ran⟩

/-- A recursive listing that is contained has an enclosed walk. -/
theorem enclosed_of_covers (there : presentDir d (nodePath start []) = true) {trail : Trail}
    (covers : Covers c start (Walks.preorder (subdirs c start) 4096 []) .empty trail)
    (contained : Contained d root trail) : Enclosed c root start := by
  have walked : ∀ node, Reached c start node → node ∈ Walks.preorder (subdirs c start) 4096 [] :=
    fun node reached => Walks.mem_preorder.mpr ⟨node, rfl, reached, reached_short there reached⟩
  have visited : trail.visited =
      (Walks.preorder (subdirs c start) 4096 []).map (nodePath start) := covers.visited
  refine ⟨fun node reached => ?_, fun node name reached item => ?_, ?_⟩
  · refine contained.inside (nodePath start node) (List.mem_append_left _ ?_)
    rw [visited]
    exact List.mem_map_of_mem (walked node reached)
  · refine contained.inside (nodePath start (node ++ [name])) (List.mem_append_right _ ?_)
    exact (covers.files _).mpr (.inr ⟨node, walked node reached, List.mem_map_of_mem item⟩)
  · have once := contained.once
    rw [visited, List.map_map] at once
    exact fun x y here there' same =>
      List.inj_on_of_nodup_map once (walked x here) (walked y there') same

theorem encloses_of_safe (sound : d.Sound) (plain : ∀ name ∈ start, PlainName name)
    (checked : validated crates ops d "list directory" path = .ok (nodePath start []))
    (safe : Safe crates ops c root path (.list true)) : Encloses c root start := by
  obtain ⟨result, ⟨enough, ran⟩, trails⟩ := safe
  rcases present_cases sound (validated_ok.mp checked).2 with
    ⟨isFile, notDir⟩ | ⟨notFile, there⟩
  · have same := (ran enough (Nat.le_refl _)).symm.trans (list_file checked isFile enough)
    have contained := trails _ (Option.some.inj same)
    refine ⟨contained.inside (nodePath start []) (by simp), fun isDirectory => ?_⟩
    rw [← nodePath_nil, notDir] at isDirectory
    cases isDirectory
  · obtain ⟨trail, listed, covers⟩ :=
      @list_dir d c start crates ops path sound plain true checked notFile there
    have same := (ran (max enough 4096) (Nat.le_max_left _ _)).symm.trans
      (listed (max enough 4096) (Nat.le_max_right _ _))
    have contained := trails trail (Option.some.inj same)
    exact (enclosed_iff sound plain there).mp (enclosed_of_covers there covers contained)

/-- **Exploration.** Listing, searching and outlining end, stay in the root and go into
no directory twice exactly where the start that the checks let through is in the root
and the links that the walk reports lead inside it, and where neither the start nor
where a link leads is come to on another way. -/
theorem exploration_safe_iff (cleans : Cleans crates.clean) (sound : d.Sound) (spelled : Spelled d)
    (rooted : PatchPaths.RootedAt d ops.pathSecurity root) (c : Catalog d) (path : PathBuf) :
    (∀ call, Safe crates ops c root path call) ↔ Confined crates ops c root path := by
  constructor
  · intro safe start plain passed there
    rw [← nodePath_nil] at passed there
    exact encloses_of_safe sound plain (validated_ok.mpr ⟨passed, there⟩) (safe (.list true))
  · intro confined call
    rcases explore_cases cleans sound spelled rooted c path call with
      ⟨e, failed⟩ | ⟨start, plain, passed, there, result, ran, trails⟩
    · exact ⟨.error e, ⟨0, fun fuel _ => failed fuel⟩, by rintro trail ⟨⟩⟩
    · refine ⟨result, ran, fun trail same => ?_⟩
      obtain ⟨nodes, walked⟩ := trails trail same
      exact walked.contained sound plain (confined start plain passed there)

end

/-! ## Trees with few entries -/

def namesIn (locs : List (Loc Text)) (loc : Loc Text) : List Text :=
  (locs.filterMap fun other => if other.dropLast = loc then other.getLast? else none).dedup

theorem mem_namesIn {locs : List (Loc Text)} {loc : Loc Text} {name : Text} :
    name ∈ namesIn locs loc ↔ loc ++ [name] ∈ locs := by
  rw [namesIn, List.mem_dedup, List.mem_filterMap]
  constructor
  · rintro ⟨other, listed, last⟩
    split at last
    · rename_i above
      rwa [← above, List.dropLast_append_getLast? name last]
    · cases last
  · intro listed
    exact ⟨loc ++ [name], listed, by simp⟩

/-- The catalog of a tree, from the locations of all its entries. -/
def catalogOf (locs : List (Loc Text)) (known : ∀ loc, d.tree loc ≠ none ↔ loc ∈ locs)
    (plain : ∀ loc ∈ locs, ∀ name ∈ loc, PlainName name) : Catalog d where
  names := namesIn locs
  nodup loc := List.nodup_dedup _
  plain loc name member := plain _ (mem_namesIn.mp member) name (by simp)
  complete loc name _ := by rw [mem_namesIn, known]

theorem known_put {t : Files.Tree Text Content} {locs : List (Loc Text)}
    (known : ∀ loc, t loc ≠ none ↔ loc ∈ locs) (loc : Loc Text) (node : Node Text Content) :
    ∀ other, Files.put t loc (some node) other ≠ none ↔ other ∈ loc :: locs := by
  intro other
  rw [Files.put, Function.update_apply, List.mem_cons]
  split
  · rename_i same
    simp [same]
  · rename_i apart
    rw [known]
    simp [apart]

/-- A repository `/w` with a directory `src`, a link `again` to it, and a directory with
a file and a link to the file. -/
def projectDisk : Disk where
  tree := Files.put (Files.put (Files.put (Files.put (Files.put (Files.put (fun _ => none)
    ["w".toList] (some .dir)) ["w".toList, "src".toList] (some .dir))
    ["w".toList, "notes".toList] (some .dir))
    ["w".toList, "notes".toList, "today.md".toList] (some (.file (.utf8 "todo".toList))))
    ["w".toList, "again".toList] (some (.link ⟨false, [.into "src".toList]⟩)))
    ["w".toList, "notes".toList, "latest".toList]
      (some (.link ⟨false, [.into "today.md".toList]⟩))
  cwd := []
  touched := []

def projectCatalog : Catalog projectDisk :=
  catalogOf [["w".toList, "notes".toList, "latest".toList], ["w".toList, "again".toList],
    ["w".toList, "notes".toList, "today.md".toList], ["w".toList, "notes".toList],
    ["w".toList, "src".toList], ["w".toList]]
    (known_put (known_put (known_put (known_put (known_put (known_put (by simp) _ _) _ _) _ _)
      _ _) _ _) _ _) (by decide)

def linkedCatalog : Catalog PatchPaths.linkedRepository :=
  catalogOf [["w".toList, "new".toList], ["w".toList, "out".toList], ["etc".toList], ["w".toList]]
    (known_put (known_put (known_put (known_put (by simp) _ _) _ _) _ _) _ _) (by decide)

def plainCrates : ExplorationCrates := ⟨cleanAbsolute, id, fun pattern => .ok (contains pattern)⟩

def workOps : FileOpsManager := ⟨⟨"/w".toList⟩, ⟨⟨"/w".toList⟩, false⟩, false⟩

theorem projectDisk_sound : projectDisk.Sound := Files.grounded_root _

theorem projectDisk_spelled : Spelled projectDisk := by
  refine ⟨by simp [projectDisk], ?_⟩
  refine named_put (named_put (named_put (named_put (named_put (named_put nofun nofun) nofun)
    nofun) nofun) ?_) ?_
  · rintro target ⟨⟩ name member
    cases List.mem_singleton.mp member
    decide
  · rintro target ⟨⟩ name member
    cases List.mem_singleton.mp member
    decide

theorem projectDisk_rooted : PatchPaths.RootedAt projectDisk workOps.pathSecurity ["w".toList] where
  path := rfl
  plain := by decide
  stands := by
    refine .inl fun above member => ?_
    rcases List.prefix_concat_iff.mp (show above <+: [] ++ ["w".toList] from member) with rfl | top
    · decide
    · rw [List.prefix_nil.mp top]
      rfl

theorem absolute_injective {xs ys : List Text} (plain : ∀ name ∈ xs, PlainName name)
    (plain' : ∀ name ∈ ys, PlainName name) (same : absolute xs = absolute ys) : xs = ys := by
  have spelled := (components_absolute plain).1.symm.trans
    ((congrArg components same).trans (components_absolute plain').1)
  exact List.map_injective_iff.mpr normal_injective (List.cons.inj spelled).2

/-- The notes are enclosed with their link. -/
theorem notes_confined :
    Confined plainCrates workOps projectCatalog ["w".toList] ⟨"notes".toList⟩ := by
  intro start plain passed there
  have accepted : workOps.pathSecurity.validatePatchPath cleanAbsolute projectDisk
      (adjustUserPath workOps ⟨"notes".toList⟩) =
        .ok (absolute ["w".toList, "notes".toList]) := by decide +kernel
  obtain rfl : start = ["w".toList, "notes".toList] :=
    absolute_injective plain (by decide) (Except.ok.inj (passed.symm.trans accepted))
  have flat : ∀ node, Reached projectCatalog ["w".toList, "notes".toList] node → node = [] := by
    intro node reached
    cases node with
    | nil => rfl
    | cons name rest =>
      have bare : subdirs projectCatalog ["w".toList, "notes".toList] [] = [] := by decide +kernel
      have goes := reached.1
      rw [bare] at goes
      cases goes
  refine ⟨by decide +kernel, fun _ => ⟨fun node name reached item _ => ?_, ?_⟩⟩
  · cases flat node reached
    have inside : ∀ name ∈ items projectCatalog ["w".toList, "notes".toList] [],
        ["w".toList] <+: place projectDisk ["w".toList, "notes".toList] ([] ++ [name]) := by
      decide +kernel
    exact inside name item
  · intro x down _ y down' _
    rw [flat x down, flat y down']

/-- Each call on the notes is safe. -/
theorem exploration_safe_notes :
    Safe plainCrates workOps projectCatalog ["w".toList] ⟨"notes".toList⟩ (.list true) ∧
      Safe plainCrates workOps projectCatalog ["w".toList] ⟨"notes".toList⟩
        (.search "todo".toList none) ∧
      Safe plainCrates workOps projectCatalog ["w".toList] ⟨"notes".toList⟩ (.outline none) := by
  have safe := (exploration_safe_iff cleans_cleanAbsolute projectDisk_sound projectDisk_spelled
    projectDisk_rooted projectCatalog ⟨"notes".toList⟩).mpr notes_confined
  exact ⟨safe _, safe _, safe _⟩

/-- **Links are followed.** A recursive listing lists `/etc` through a link, and goes into
the directory `src` again through another. -/
theorem listing_follows_links :
    ¬ Safe plainCrates workOps linkedCatalog ["w".toList] ⟨".".toList⟩ (.list true) ∧
      ¬ Safe plainCrates workOps projectCatalog ["w".toList] ⟨".".toList⟩ (.list true) := by
  refine ⟨fun safe => ?_, fun safe => ?_⟩
  · have checked : validated plainCrates workOps PatchPaths.linkedRepository "list directory"
        ⟨".".toList⟩ = .ok (nodePath ["w".toList] []) := by decide +kernel
    have sound : PatchPaths.linkedRepository.Sound := Files.grounded_root _
    obtain ⟨-, links⟩ := encloses_of_safe sound (by decide) checked safe
    have outside := (links (by decide +kernel)).1 [] "out".toList trivial (by decide +kernel)
      ⟨[], "out".toList, _, rfl, rfl⟩
    exact absurd outside (by decide +kernel)
  · have checked : validated plainCrates workOps projectDisk "list directory"
        ⟨".".toList⟩ = .ok (nodePath ["w".toList] []) := by decide +kernel
    obtain ⟨-, links⟩ := encloses_of_safe projectDisk_sound (by decide) checked safe
    have apart := (links (by decide +kernel)).2 ["again".toList] ⟨by decide +kernel, trivial⟩
      (.inr ⟨[], "again".toList, _, rfl, rfl⟩) ["src".toList] ⟨by decide +kernel, trivial⟩
      (by decide +kernel)
    exact absurd apart (by decide)

end FileExploration

end Devit
