import Devit.FileExploration
import Devit.Library.Reaching
import Devit.Library.Walks

/-! What the walks of listing, searching and outlining go through. A node of a walk is
named by the names below its start; it is gone into exactly if it is included and leads
to a directory. Each walk comes to an end, and goes into no node twice. -/
namespace Devit
open Text Path FileSystem
open Files (Loc Errno Node entry placeAt)

namespace FileExploration

/-- Where a path leads. -/
def placeOf (d : Disk) (p : PathBuf) : Loc Text :=
  match lookup d true p with
  | .ok place => place.loc
  | .error _ => []

/-- The path of a node, for the names of the start. -/
def nodePath (start node : List Text) : PathBuf := absolute (start ++ node)

section
variable {d : Disk} (c : Catalog d) (start : List Text)

/-- The place of a node. -/
def place (d : Disk) (start node : List Text) : Loc Text := placeOf d (nodePath start node)

/-- The names that a walk goes into. -/
def subdirs (node : List Text) : List Text :=
  (c.names (place d start node)).filter fun name =>
    presentDir d (nodePath start (node ++ [name])) &&
      shouldIncludePath (nodePath start (node ++ [name]))

/-- The names that a walk reports. -/
def items (node : List Text) : List Text :=
  (c.names (place d start node)).filter fun name =>
    shouldIncludePath (nodePath start (node ++ [name])) &&
      (metadata d (nodePath start (node ++ [name]))).isOk

/-- The paths of the names that a walk reports. -/
def itemPaths (node : List Text) : List PathBuf :=
  (items c start node).map fun name => nodePath start (node ++ [name])

end

variable {d : Disk} {c : Catalog d} {start node : List Text}

/-! ## Directories of the walk -/

theorem presentDir_found {p : PathBuf} (sound : d.Sound) (filled : p.text ≠ [])
    (there : presentDir d p = true) :
    taken p = true ∧ lookup d true p = .ok (.found (placeOf d p)) ∧
      entry d.tree (placeOf d p) = some .dir := by
  obtain ⟨fits, isDirectory⟩ := Bool.and_eq_true_iff.mp there
  obtain ⟨dir, opens⟩ := (isDir_iff sound filled).mp isDirectory
  obtain ⟨leads, isDir⟩ := (opens_iff sound filled).mp opens
  have same : placeOf d p = dir := by rw [placeOf, leads]; rfl
  rw [same]
  exact ⟨fits, leads, isDir⟩

theorem presentDir_isOk {p : PathBuf} (there : presentDir d p = true) :
    (metadata d p).isOk = true := by
  obtain ⟨fits, isDirectory⟩ := Bool.and_eq_true_iff.mp there
  rw [metadata, if_pos fits]
  unfold isDir at isDirectory
  split at isDirectory
  · rename_i found
    rw [found]
    rfl
  · cases isDirectory

theorem nodePath_text : (nodePath start node).text ≠ [] := absolute_text _

/-- A directory of the walk is listed. -/
theorem readDir_node (sound : d.Sound) (there : presentDir d (nodePath start node) = true) :
    readDir c (nodePath start node) = .ok (c.names (place d start node)) := by
  obtain ⟨fits, leads, isDir⟩ := presentDir_found sound nodePath_text there
  rw [readDir, if_pos fits, leads]
  simp only [Files.Place.loc, isDir]
  rfl

/-- The path of an entry of a node. -/
theorem entry_path {name : Text} (plain : ∀ other ∈ start ++ node, PlainName other)
    (plainName : PlainName name) :
    pathJoin (nodePath start node) ⟨name⟩ = nodePath start (node ++ [name]) := by
  rw [nodePath, pathJoin_absolute plain plainName, List.append_assoc]
  rfl

theorem plain_concat {name : Text} (plain : ∀ other ∈ start ++ node, PlainName other)
    (plainName : PlainName name) : ∀ other ∈ start ++ (node ++ [name]), PlainName other := by
  intro other member
  rw [← List.append_assoc] at member
  rcases List.mem_append.mp member with inside | last
  · exact plain other inside
  · rw [List.mem_singleton.mp last]
    exact plainName

theorem subdirs_nodup (node : List Text) : (subdirs c start node).Nodup :=
  (c.nodup _).filter _

theorem mem_subdirs {name : Text} : name ∈ subdirs c start node ↔
    name ∈ c.names (place d start node) ∧
      presentDir d (nodePath start (node ++ [name])) = true ∧
        shouldIncludePath (nodePath start (node ++ [name])) = true := by
  rw [subdirs, List.mem_filter, Bool.and_eq_true_iff]

theorem mem_items {name : Text} : name ∈ items c start node ↔
    name ∈ c.names (place d start node) ∧
      shouldIncludePath (nodePath start (node ++ [name])) = true ∧
        (metadata d (nodePath start (node ++ [name]))).isOk = true := by
  rw [items, List.mem_filter, Bool.and_eq_true_iff]

theorem subdirs_items {name : Text} (member : name ∈ subdirs c start node) :
    name ∈ items c start node := by
  obtain ⟨listed, there, included⟩ := mem_subdirs.mp member
  exact mem_items.mpr ⟨listed, included, presentDir_isOk there⟩

/-! ## Listing -/

theorem collectEntry_trail {name : Text} (plain : ∀ other ∈ start ++ node, PlainName other)
    (plainName : PlainName name) (s : EntryList) :
    (collectEntry d (nodePath start node) s name).trail =
      if shouldIncludePath (nodePath start (node ++ [name])) &&
          (metadata d (nodePath start (node ++ [name]))).isOk then
        s.trail.report (nodePath start (node ++ [name]))
      else s.trail := by
  unfold collectEntry createFileEntry
  simp only [entry_path plain plainName]
  cases shouldIncludePath (nodePath start (node ++ [name])) with
  | false => rfl
  | true =>
    cases metadata d (nodePath start (node ++ [name])) with
    | error e => rfl
    | ok found => rfl

theorem collectEntry_fold {names : List Text} (plain : ∀ other ∈ start ++ node, PlainName other)
    (plainNames : ∀ name ∈ names, PlainName name) (s : EntryList) :
    (names.foldl (collectEntry d (nodePath start node)) s).trail.visited = s.trail.visited ∧
    (names.foldl (collectEntry d (nodePath start node)) s).trail.files = s.trail.files ++
      (names.filter fun name => shouldIncludePath (nodePath start (node ++ [name])) &&
        (metadata d (nodePath start (node ++ [name]))).isOk).map
          fun name => nodePath start (node ++ [name]) := by
  induction names generalizing s with
  | nil => simp
  | cons name names ih =>
    obtain ⟨visited, files⟩ := ih
      (fun other member => plainNames other (List.mem_cons_of_mem _ member))
      (collectEntry d (nodePath start node) s name)
    have one := @collectEntry_trail d start node name plain (plainNames name List.mem_cons_self) s
    rw [List.foldl_cons, visited, files, one, List.filter_cons]
    split
    · simp
    · exact ⟨rfl, rfl⟩

/-- What a walk through nodes adds to a trail: these nodes, and all entries reported in
them. -/
structure Covers (c : Catalog d) (start : List Text) (nodes : List (List Text))
    (before after : Trail) : Prop where
  visited : after.visited = before.visited ++ nodes.map (nodePath start)
  files : ∀ p, p ∈ after.files ↔ p ∈ before.files ∨ ∃ node ∈ nodes, p ∈ itemPaths c start node

theorem Covers.refl (trail : Trail) : Covers c start [] trail trail := ⟨by simp, by simp⟩

theorem Covers.append {xs ys : List (List Text)} {before mid after : Trail}
    (first : Covers c start xs before mid) (second : Covers c start ys mid after) :
    Covers c start (xs ++ ys) before after := by
  constructor
  · rw [second.visited, first.visited, List.map_append, List.append_assoc]
  · intro p
    rw [second.files, first.files]
    simp only [List.mem_append, or_assoc, or_and_right, exists_or]

/-- The entries of one directory. -/
theorem collectEntriesSingle_spec (sound : d.Sound)
    (plain : ∀ other ∈ start ++ node, PlainName other)
    (there : presentDir d (nodePath start node) = true) (s : EntryList) :
    ∃ s', collectEntriesSingle c (nodePath start node) s = .ok s' ∧
      Covers c start [node] s.trail s'.trail := by
  obtain ⟨visited, files⟩ := @collectEntry_fold d start node _ plain (c.plain (place d start node))
    { s with trail := s.trail.enter (nodePath start node) }
  refine ⟨_, ?_, visited, fun p => ?_⟩
  · rw [collectEntriesSingle, readDir_node sound there]
  · rw [files, List.mem_append]
    simp [itemPaths, items]

/-- The loop over the entries of a directory goes into its subdirectories. -/
theorem collectSubdir_fold {bound : Nat} {into : Nat → PathBuf → EntryList → Explore EntryList}
    (plain : ∀ other ∈ start ++ node, PlainName other)
    (below : ∀ name ∈ subdirs c start node, ∀ s, ∃ s',
      (∀ fuel ≥ bound, into fuel (nodePath start (node ++ [name])) s = pure s') ∧
        Covers c start (Walks.preorder (subdirs c start) bound (node ++ [name])) s.trail s'.trail)
    {names : List Text} (listed : ∀ name ∈ names, name ∈ c.names (place d start node))
    (s : EntryList) :
    ∃ s', (∀ fuel ≥ bound,
        names.foldlM (collectSubdir d (into fuel) (nodePath start node)) s = pure s') ∧
      Covers c start ((names.filter fun name =>
        presentDir d (nodePath start (node ++ [name])) &&
          shouldIncludePath (nodePath start (node ++ [name]))).flatMap fun name =>
            Walks.preorder (subdirs c start) bound (node ++ [name])) s.trail s'.trail := by
  induction names generalizing s with
  | nil => exact ⟨s, fun _ _ => rfl, .refl _⟩
  | cons name names ih =>
    have inDir := listed name List.mem_cons_self
    have rest := ih fun other member => listed other (List.mem_cons_of_mem _ member)
    simp only [List.foldlM_cons, List.filter_cons, collectSubdir,
      entry_path plain (c.plain _ name inDir)]
    split
    · rename_i goes
      obtain ⟨isDirectory, included⟩ := Bool.and_eq_true_iff.mp goes
      obtain ⟨s₁, ran, first⟩ := below name (mem_subdirs.mpr ⟨inDir, isDirectory, included⟩) s
      obtain ⟨s₂, ran₂, second⟩ := rest s₁
      refine ⟨s₂, fun fuel enough => ?_, first.append second⟩
      rw [ran fuel enough]
      exact ran₂ fuel enough
    · exact rest s

/-- **Listing.** The walk from a node that nodes are less than `bound` names below comes
to an end, with any fuel from there on, and goes into each of them in the order of the
walk. -/
theorem collectEntriesRecursive_spec (sound : d.Sound) {bound : Nat}
    (plain : ∀ other ∈ start ++ node, PlainName other)
    (there : presentDir d (nodePath start node) = true)
    (deep : ∀ more, Walks.Descends (subdirs c start) node more → more.length < bound)
    (s : EntryList) :
    ∃ s', (∀ fuel ≥ bound, collectEntriesRecursive c fuel (nodePath start node) s = pure s') ∧
      Covers c start (Walks.preorder (subdirs c start) bound node) s.trail s'.trail := by
  induction bound generalizing node s with
  | zero => exact absurd (deep [] trivial) (Nat.lt_irrefl 0)
  | succ bound ih =>
    obtain ⟨s₁, single, first⟩ := @collectEntriesSingle_spec d c start node sound plain there s
    have below : ∀ name ∈ subdirs c start node, ∀ s, ∃ s',
        (∀ fuel ≥ bound, collectEntriesRecursive c fuel (nodePath start (node ++ [name])) s =
          pure s') ∧
        Covers c start (Walks.preorder (subdirs c start) bound (node ++ [name])) s.trail
          s'.trail := by
      intro name member s
      obtain ⟨inDir, isDirectory, -⟩ := mem_subdirs.mp member
      exact ih (plain_concat plain (c.plain _ name inDir)) isDirectory
        (fun more down => Nat.lt_of_succ_lt_succ (deep (name :: more) ⟨member, down⟩)) s
    obtain ⟨s₂, ran, second⟩ := collectSubdir_fold plain below (fun _ member => member) s₁
    refine ⟨s₂, fun fuel enough => ?_, first.append second⟩
    obtain ⟨less, rfl⟩ := Nat.exists_eq_add_of_le' (Nat.zero_lt_of_lt enough)
    rw [collectEntriesRecursive, single, readDir_node sound there]
    exact ran less (Nat.le_of_succ_le_succ enough)

/-! ## Searching -/

/-- The walk from the start gets to the node. -/
def Reached (c : Catalog d) (start node : List Text) : Prop :=
  Walks.Descends (subdirs c start) [] node

/-- What a walk that may stop early adds to a trail: some of these nodes, in order, and
entries that are reported in nodes it gets to. -/
def Inside (c : Catalog d) (start : List Text) (nodes : List (List Text)) (before after : Trail) :
    Prop :=
  (∃ gone : List (List Text), gone.Sublist nodes ∧
      after.visited = before.visited ++ gone.map (nodePath start)) ∧
    ∀ p ∈ after.files, p ∈ before.files ∨ ∃ node, Reached c start node ∧ p ∈ itemPaths c start node

theorem Inside.refl (nodes : List (List Text)) (trail : Trail) :
    Inside c start nodes trail trail :=
  ⟨⟨[], List.nil_sublist _, by simp⟩, fun _ member => .inl member⟩

theorem Inside.append {xs ys : List (List Text)} {before mid after : Trail}
    (first : Inside c start xs before mid) (second : Inside c start ys mid after) :
    Inside c start (xs ++ ys) before after := by
  obtain ⟨⟨gone, sub, visited⟩, files⟩ := first
  obtain ⟨⟨gone', sub', visited'⟩, files'⟩ := second
  refine ⟨⟨gone ++ gone', sub.append sub', ?_⟩, fun p member => ?_⟩
  · rw [visited', visited, List.map_append, List.append_assoc]
  · rcases files' p member with early | reported
    · exact files p early
    · exact .inr reported

theorem Inside.mono {xs ys : List (List Text)} {before after : Trail}
    (inside : Inside c start xs before after) (sub : xs.Sublist ys) :
    Inside c start ys before after := by
  obtain ⟨⟨gone, goneSub, visited⟩, files⟩ := inside
  exact ⟨⟨gone, goneSub.trans sub, visited⟩, files⟩

/-- Reporting an entry of a node stays inside the walk. -/
theorem inside_report {name : Text} {trail : Trail} (reached : Reached c start node)
    (item : name ∈ items c start node) :
    Inside c start [] trail (trail.report (nodePath start (node ++ [name]))) := by
  refine ⟨⟨[], List.nil_sublist _, by simp⟩, fun p listed => ?_⟩
  rcases List.mem_append.mp listed with early | last
  · exact .inl early
  · rw [List.mem_singleton.mp last]
    exact .inr ⟨node, reached, List.mem_map_of_mem item⟩

theorem searchLines_trail {isMatch : Text → Bool} {contextLines : Nat} {filePath : PathBuf}
    {all rest : List Text} {lineIdx : Nat} {results : SearchResults} :
    (searchLines isMatch contextLines filePath all lineIdx rest results).trail = results.trail := by
  induction rest generalizing lineIdx results with
  | nil => rfl
  | cons line rest ih =>
    rw [searchLines]
    split
    · dsimp only
      split
      · rfl
      · exact ih
    · exact ih

/-- Searching a file reports it or nothing. -/
theorem searchFile_trail {crates : ExplorationCrates} {isMatch : Text → Bool} {contextLines : Nat}
    {filePath : PathBuf} {results : SearchResults} :
    (searchFile crates isMatch contextLines d filePath results).trail = results.trail ∨
      (searchFile crates isMatch contextLines d filePath results).trail =
        results.trail.report filePath := by
  unfold searchFile
  split
  · right
    dsimp only
    split
    · rfl
    · exact searchLines_trail
  · exact .inl rfl

theorem presentFile_isOk {p : PathBuf} (there : presentFile d p = true) :
    (metadata d p).isOk = true := by
  unfold presentFile at there
  split at there
  · rename_i found
    rw [found]
    rfl
  · cases there

section
variable {crates : ExplorationCrates} {isMatch : Text → Bool} {contextLines : Nat}

/-- The nodes that a walk goes through from one name of a node. -/
def through (c : Catalog d) (start node : List Text) (bound : Nat) (name : Text) :
    List (List Text) :=
  if presentDir d (nodePath start (node ++ [name])) &&
      shouldIncludePath (nodePath start (node ++ [name])) then
    Walks.preorder (subdirs c start) bound (node ++ [name])
  else []

theorem flatMap_filter {α β : Type} (keep : α → Bool) (f : α → List β) (xs : List α) :
    (xs.filter keep).flatMap f = xs.flatMap fun x => if keep x then f x else [] := by
  induction xs with
  | nil => rfl
  | cons x xs ih =>
    rw [List.filter_cons, List.flatMap_cons]
    split
    · rw [List.flatMap_cons, ih]
    · rw [ih, List.nil_append]

theorem preorder_through {bound : Nat} : Walks.preorder (subdirs c start) (bound + 1) node =
    node :: (c.names (place d start node)).flatMap (through c start node bound) := by
  rw [Walks.preorder, subdirs, flatMap_filter]
  rfl

/-- One entry of a directory that is searched. -/
theorem searchEntry_spec {bound : Nat}
    {into : Nat → PathBuf → SearchResults → Explore SearchResults} {name : Text}
    (reached : Reached c start node) (inDir : name ∈ c.names (place d start node))
    (included : shouldIncludePath (nodePath start (node ++ [name])) = true)
    (below : name ∈ subdirs c start node → ∀ results, ∃ results',
      (∀ fuel ≥ bound, into fuel (nodePath start (node ++ [name])) results = pure results') ∧
        Inside c start (Walks.preorder (subdirs c start) bound (node ++ [name])) results.trail
          results'.trail) (results : SearchResults) :
    ∃ results', (∀ fuel ≥ bound, searchEntry crates isMatch contextLines d (into fuel)
        (nodePath start (node ++ [name])) results = pure results') ∧
      Inside c start (through c start node bound name) results.trail results'.trail := by
  unfold searchEntry
  split
  · rename_i isFile
    refine ⟨_, fun _ _ => rfl, ?_⟩
    have item : name ∈ items c start node :=
      mem_items.mpr ⟨inDir, included, presentFile_isOk isFile⟩
    rcases @searchFile_trail d crates isMatch contextLines (nodePath start (node ++ [name])) results
      with same | reported
    · rw [same]
      exact .refl _ _
    · rw [reported]
      exact (inside_report reached item).mono (List.nil_sublist _)
  · split
    · rename_i isDirectory
      obtain ⟨results', ran, inside⟩ :=
        below (mem_subdirs.mpr ⟨inDir, isDirectory, included⟩) results
      rw [through, included, Bool.and_true, if_pos isDirectory]
      exact ⟨results', ran, inside⟩
    · exact ⟨results, fun _ _ => rfl, .refl _ _⟩

/-- The loop over the entries of a directory that is searched. -/
theorem searchEntries_spec {bound : Nat}
    {into : Nat → PathBuf → SearchResults → Explore SearchResults}
    (reached : Reached c start node) (plain : ∀ other ∈ start ++ node, PlainName other)
    (below : ∀ name ∈ subdirs c start node, ∀ results, ∃ results',
      (∀ fuel ≥ bound, into fuel (nodePath start (node ++ [name])) results = pure results') ∧
        Inside c start (Walks.preorder (subdirs c start) bound (node ++ [name])) results.trail
          results'.trail)
    {names : List Text} (listed : ∀ name ∈ names, name ∈ c.names (place d start node))
    (results : SearchResults) :
    ∃ results', (∀ fuel ≥ bound, searchEntries crates isMatch contextLines d (into fuel)
        (nodePath start node) names results = pure results') ∧
      Inside c start (names.flatMap (through c start node bound)) results.trail results'.trail := by
  induction names generalizing results with
  | nil => exact ⟨results, fun _ _ => rfl, .refl _ _⟩
  | cons name names ih =>
    have inDir := listed name List.mem_cons_self
    have rest := ih fun other member => listed other (List.mem_cons_of_mem _ member)
    simp only [searchEntries, List.flatMap_cons, entry_path plain (c.plain _ name inDir)]
    split
    · rename_i included
      obtain ⟨results₁, ran, first⟩ := @searchEntry_spec d c start node crates isMatch contextLines
        bound into name reached inDir included (below name) results
      by_cases enough : results₁.matches.length ≥ maxSearchResults
      · refine ⟨results₁, fun fuel fuelled => ?_, first.mono (List.sublist_append_left _ _)⟩
        rw [ran fuel fuelled, pure_bind, if_pos enough]
      · obtain ⟨results₂, ran₂, second⟩ := rest results₁
        refine ⟨results₂, fun fuel fuelled => ?_, first.append second⟩
        rw [ran fuel fuelled, pure_bind, if_neg enough]
        exact ran₂ fuel fuelled
    · obtain ⟨results₂, ran₂, second⟩ := rest results
      exact ⟨results₂, ran₂, second.mono (List.sublist_append_right _ _)⟩

/-- **Searching.** The walk from a node that nodes are less than `bound` names below
comes to an end, with any fuel from there on, and goes into some of them, each once. -/
theorem searchDirectoryRecursive_spec (sound : d.Sound) {bound : Nat}
    (reached : Reached c start node) (plain : ∀ other ∈ start ++ node, PlainName other)
    (there : presentDir d (nodePath start node) = true)
    (deep : ∀ more, Walks.Descends (subdirs c start) node more → more.length < bound)
    (results : SearchResults) :
    ∃ results', (∀ fuel ≥ bound, searchDirectoryRecursive c crates isMatch contextLines fuel
        (nodePath start node) results = pure results') ∧
      Inside c start (Walks.preorder (subdirs c start) bound node) results.trail
        results'.trail := by
  induction bound generalizing node results with
  | zero => exact absurd (deep [] trivial) (Nat.lt_irrefl 0)
  | succ bound ih =>
    have below : ∀ name ∈ subdirs c start node, ∀ results, ∃ results',
        (∀ fuel ≥ bound, searchDirectoryRecursive c crates isMatch contextLines fuel
            (nodePath start (node ++ [name])) results = pure results') ∧
          Inside c start (Walks.preorder (subdirs c start) bound (node ++ [name])) results.trail
            results'.trail := by
      intro name member results
      obtain ⟨inDir, isDirectory, -⟩ := mem_subdirs.mp member
      exact ih (Walks.descends_concat.mpr ⟨reached, member⟩)
        (plain_concat plain (c.plain _ name inDir)) isDirectory
        (fun more down => Nat.lt_of_succ_lt_succ (deep (name :: more) ⟨member, down⟩)) results
    obtain ⟨results', ran, inside⟩ := @searchEntries_spec d c start node crates isMatch contextLines
      bound _ reached plain below _ (fun _ member => member)
      { results with trail := results.trail.enter (nodePath start node) }
    refine ⟨results', fun fuel enough => ?_, ?_⟩
    · obtain ⟨less, rfl⟩ := Nat.exists_eq_add_of_le' (Nat.zero_lt_of_lt enough)
      rw [searchDirectoryRecursive, readDir_node sound there]
      exact ran less (Nat.le_of_succ_le_succ enough)
    · rw [preorder_through]
      have entered : Inside c start [node] results.trail
          (results.trail.enter (nodePath start node)) :=
        ⟨⟨[node], List.Sublist.refl _, rfl⟩, fun _ member => .inl member⟩
      exact entered.append inside

end

/-! ## Outlining -/

/-- The names that an outline goes into, in the order they are shown. -/
def shownDirs (c : Catalog d) (start node : List Text) : List Text :=
  (shownNames d (nodePath start node) (c.names (place d start node))).filter fun name =>
    presentDir d (nodePath start (node ++ [name]))

theorem mem_shownNames {path : PathBuf} {names : List Text} {name : Text} :
    name ∈ shownNames d path names ↔
      name ∈ names ∧ shouldIncludePath (pathJoin path ⟨name⟩) = true := by
  rw [shownNames, (List.mergeSort_perm _ _).mem_iff, List.mem_filter]

/-- An outline goes into the same directories as the other walks. -/
theorem mem_shownDirs (plain : ∀ other ∈ start ++ node, PlainName other) {name : Text} :
    name ∈ shownDirs c start node ↔ name ∈ subdirs c start node := by
  rw [shownDirs, List.mem_filter, mem_shownNames, mem_subdirs]
  constructor
  · rintro ⟨⟨listed, included⟩, isDirectory⟩
    rw [entry_path plain (c.plain _ name listed)] at included
    exact ⟨listed, isDirectory, included⟩
  · rintro ⟨listed, isDirectory, included⟩
    rw [entry_path plain (c.plain _ name listed)]
    exact ⟨⟨listed, included⟩, isDirectory⟩

theorem shownDirs_nodup (node : List Text) : (shownDirs c start node).Nodup :=
  ((List.mergeSort_perm _ _).nodup_iff.mpr ((c.nodup _).filter _)).filter _

theorem metadata_dir_iff {p : PathBuf} : metadata d p = .ok .dir ↔ presentDir d p = true := by
  unfold metadata presentDir isDir
  cases taken p with
  | false => simp
  | true =>
    rw [if_pos rfl, Bool.true_and]
    cases stat d true p with
    | error e => simp
    | ok found => cases found <;> simp

theorem count_trail (t : Totals) (path : PathBuf) (found : Node Text Content) :
    (t.count path found).trail = t.trail.report path := by
  cases found <;> rfl

/-- What an outline of a node adds to a trail. -/
structure Outlined (c : Catalog d) (start node : List Text) (left : Nat) (before after : Trail) :
    Prop where
  visited : after.visited = before.visited ++
    (if presentDir d (nodePath start node) then Walks.preorder (shownDirs c start) left node
      else []).map (nodePath start)
  files : ∀ p ∈ after.files, p ∈ before.files ∨
    (p = nodePath start node ∧ (metadata d p).isOk = true) ∨
      (presentDir d (nodePath start node) = true ∧
        ∃ other, Reached c start other ∧ p ∈ itemPaths c start other)

/-- The children of a directory of the outline. -/
theorem addChild_fold {left : Nat} {build : PathBuf → Totals → DevItResult TreeNode × Totals}
    (plain : ∀ other ∈ start ++ node, PlainName other) (reached : Reached c start node)
    (below : ∀ name ∈ c.names (place d start node),
      shouldIncludePath (nodePath start (node ++ [name])) = true → ∀ t,
        Outlined c start (node ++ [name]) left t.trail
          (build (nodePath start (node ++ [name])) t).2.trail)
    {names : List Text} (listed : ∀ name ∈ names, name ∈ c.names (place d start node) ∧
      shouldIncludePath (nodePath start (node ++ [name])) = true)
    (shown : List TreeNode × Totals) :
    (names.foldl (addChild build (nodePath start node)) shown).2.trail.visited =
        shown.2.trail.visited ++
          ((names.filter fun name => presentDir d (nodePath start (node ++ [name]))).flatMap
            fun name => Walks.preorder (shownDirs c start) left (node ++ [name])).map
              (nodePath start) ∧
      ∀ p ∈ (names.foldl (addChild build (nodePath start node)) shown).2.trail.files,
        p ∈ shown.2.trail.files ∨ ∃ other, Reached c start other ∧ p ∈ itemPaths c start other := by
  induction names generalizing shown with
  | nil => exact ⟨by simp, fun _ member => .inl member⟩
  | cons name names ih =>
    obtain ⟨inDir, included⟩ := listed name List.mem_cons_self
    have rest := ih fun other member => listed other (List.mem_cons_of_mem _ member)
    obtain ⟨visited, files⟩ := rest (addChild build (nodePath start node) shown name)
    have same : (addChild build (nodePath start node) shown name).2 =
        (build (nodePath start (node ++ [name])) shown.2).2 := by
      rw [addChild, entry_path plain (c.plain _ name inDir)]
      cases build (nodePath start (node ++ [name])) shown.2 with
      | mk result t => cases result <;> rfl
    have one := below name inDir included shown.2
    rw [List.foldl_cons, flatMap_filter, List.flatMap_cons]
    refine ⟨?_, fun p member => ?_⟩
    · rw [visited, same, one.visited, flatMap_filter, List.map_append, List.append_assoc]
    · rcases files p member with early | reported
      · rw [same] at early
        rcases one.files p early with earlier | ⟨rfl, looked⟩ | ⟨-, reported⟩
        · exact .inl earlier
        · have item : name ∈ items c start node := mem_items.mpr ⟨inDir, included, looked⟩
          exact .inr ⟨node, reached, List.mem_map_of_mem item⟩
        · exact .inr reported
      · exact .inr reported

/-- A node that has no children to show is reported. -/
theorem outlined_leaf {left : Nat} {t : Totals} {found : Node Text Content}
    (looked : metadata d (nodePath start node) = .ok found)
    (leaf : left = 0 ∨ presentDir d (nodePath start node) = false) :
    Outlined c start node left t.trail (t.count (nodePath start node) found).trail := by
  rw [count_trail]
  constructor
  · rcases leaf with rfl | other
    · simp [Walks.preorder]
    · simp [other]
  · intro p listed
    rcases List.mem_append.mp listed with early | last
    · exact .inl early
    · rw [List.mem_singleton.mp last]
      exact .inr (.inl ⟨rfl, by rw [looked]; rfl⟩)

/-- **Outlining.** The outline of a node goes into the nodes below it on the levels it
shows, each once. -/
theorem buildTreeNode_spec (sound : d.Sound) {left : Nat}
    (plain : ∀ other ∈ start ++ node, PlainName other)
    (reached : presentDir d (nodePath start node) = true → Reached c start node) (t : Totals) :
    Outlined c start node left t.trail (buildTreeNode c left (nodePath start node) t).2.trail := by
  induction left generalizing node t with
  | zero =>
    unfold buildTreeNode
    split
    · rename_i failed
      refine ⟨by simp [Walks.preorder], fun p listed => .inl listed⟩
    · rename_i found looked
      exact outlined_leaf looked (.inl rfl)
  | succ left ih =>
    unfold buildTreeNode
    cases looked : metadata d (nodePath start node) with
    | error e =>
      have elsewhere : presentDir d (nodePath start node) = false := by
        rw [Bool.eq_false_iff, ne_eq, ← metadata_dir_iff, looked]
        rintro ⟨⟩
      exact ⟨by simp [elsewhere], fun p listed => .inl listed⟩
    | ok found =>
      cases isDirectory : presentDir d (nodePath start node) with
      | false =>
        have notDir : found ≠ .dir := by
          rintro rfl
          rw [metadata_dir_iff.mp looked] at isDirectory
          cases isDirectory
        have leaf := @outlined_leaf d c start node (left + 1) t found looked (.inr isDirectory)
        cases found with
        | dir => exact absurd rfl notDir
        | link target => exact leaf
        | file content => exact leaf
      | true =>
        obtain rfl : found = .dir := by
          have dir := metadata_dir_iff.mpr isDirectory
          rw [looked] at dir
          exact Except.ok.inj dir
        rw [readDir_node sound isDirectory]
        dsimp only
        have listed : ∀ name ∈ shownNames d (nodePath start node) (c.names (place d start node)),
            name ∈ c.names (place d start node) ∧
              shouldIncludePath (nodePath start (node ++ [name])) = true := by
          intro name member
          obtain ⟨inDir, included⟩ := mem_shownNames.mp member
          rw [entry_path plain (c.plain _ name inDir)] at included
          exact ⟨inDir, included⟩
        have below : ∀ name ∈ c.names (place d start node),
            shouldIncludePath (nodePath start (node ++ [name])) = true → ∀ t,
              Outlined c start (node ++ [name]) left t.trail
                (buildTreeNode c left (nodePath start (node ++ [name])) t).2.trail := by
          intro name inDir included t
          refine ih (plain_concat plain (c.plain _ name inDir)) (fun goes => ?_) t
          exact Walks.descends_concat.mpr
            ⟨reached isDirectory, mem_subdirs.mpr ⟨inDir, goes, included⟩⟩
        obtain ⟨visited, files⟩ := addChild_fold plain (reached isDirectory) below listed
          ([], { t.count (nodePath start node) .dir with
            trail := (t.count (nodePath start node) .dir).trail.enter (nodePath start node) })
        refine ⟨visited.trans ?_, fun p member => ?_⟩
        · rw [if_pos isDirectory, Walks.preorder, List.map_cons, ← shownDirs]
          simp [count_trail]
        · rcases files p member with early | reported
          · rcases List.mem_append.mp early with earlier | last
            · exact .inl earlier
            · rw [List.mem_singleton.mp last]
              exact .inr (.inl ⟨rfl, presentDir_isOk isDirectory⟩)
          · exact .inr (.inr ⟨isDirectory, reported⟩)

end FileExploration

end Devit
