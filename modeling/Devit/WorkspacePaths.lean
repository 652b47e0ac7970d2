import Devit.SecureWorkspace
import Devit.Library.Reaching
import Devit.Library.Runs

/-! Where the paths of a workspace lead. The current directory is always a real
directory below the sandbox root, named by the names that lead to it; what is
resolved and exists is below the root as well. What does not exist is taken by its
spelling, and a link above it may lead out. -/
namespace Devit
open Text Path FileSystem
open Files (Loc Standing Grounded)

namespace WorkspacePaths
open SecureWorkspace

variable {crates : PathCrates} {d : Disk} {ws ws' : SecureWorkspace} {root : Loc Text}

/-! ## The current directory -/

/-- The workspace is in the directory that the names lead to from the root: by
their spelling, in the tree, and by the list of allowed projects. -/
structure Placed (crates : PathCrates) (d : Disk) (root names : Loc Text) (ws : SecureWorkspace) :
    Prop where
  jail : ws.sandboxRoot = absolute root
  plain : ∀ name ∈ root ++ names, PlainName name
  spelled : names = [] ∧ ws.currentDir = ⟨".".toList⟩ ∨
    names ≠ [] ∧ ws.currentDir = ⟨join ['/'] names⟩ ∧
      components ws.currentDir = names.map .normal
  physical : Opens d ws.currentPath (root ++ names)
  allowed : names = [] ∨ ∀ patterns, ws.allowedPatterns = some patterns →
    crates.globMatches patterns (forwardSlashes (join ['/'] names)) = true

/-- The state after `change_dir`: a call that fails leaves it as it was. -/
def enter (crates : PathCrates) (d : Disk) (ws : SecureWorkspace) (path : PathBuf) :
    Except Text PathBuf × SecureWorkspace :=
  match changeDir crates ws d path with
  | .ok (entered, moved) => (.ok entered, moved)
  | .error message => (.error message, ws)

/-- A new workspace with a list of projects set, perhaps more than once. -/
def Fresh (crates : PathCrates) (d : Disk) (sandbox : PathBuf) (ws : SecureWorkspace) : Prop :=
  ∃ made, ∃ lists : List (List Text), create d sandbox = .ok made ∧
    ws = lists.foldl (fun ws projects => allowing crates ws projects) made

/-- What remains of a canonical path below the root. -/
theorem strip_absolute {loc : Loc Text} {relative : PathBuf}
    (plain : ∀ name ∈ loc, PlainName name) (plainRoot : ∀ name ∈ root, PlainName name)
    (stripped : pathStripPrefix (absolute loc) (absolute root) = some relative) :
    ∃ names, loc = root ++ names ∧ relative = ⟨join ['/'] names⟩ ∧
      components relative = names.map .normal := by
  unfold pathStripPrefix at stripped
  split at stripped
  · rename_i below
    obtain ⟨names, rfl⟩ := (starts_absolute plain plainRoot).mp below
    rw [(components_absolute plain).1, (components_absolute plainRoot).1, List.map_append,
      ← List.cons_append, List.drop_left, Option.some.injEq] at stripped
    have clean : ∀ c ∈ names.map Component.normal, c.Plain := by
      intro c member
      obtain ⟨name, listed, rfl⟩ := List.mem_map.mp member
      exact plain name (List.mem_append_right _ listed)
    have spelled := (@components_ofComponents [] _ clean (by simp)).1
    rw [List.nil_append] at spelled
    refine ⟨names, rfl, ?_, ?_⟩
    · rw [← stripped, ofComponents_names]
    · rw [← stripped, spelled]
  · cases stripped

/-- **Entering.** A directory that is entered is the one its names lead to. -/
theorem changeDir_placed {names : Loc Text} {path entered : PathBuf} (sound : d.Sound)
    (spelled : Spelled d) (placed : Placed crates d root names ws)
    (ran : changeDir crates ws d path = .ok (entered, ws')) :
    ∃ names', Placed crates d root names' ws' := by
  have plainRoot : ∀ name ∈ root, PlainName name :=
    fun name member => placed.plain name (List.mem_append_left _ member)
  have absolute_root : isAbsolute ws.sandboxRoot = true := by
    rw [placed.jail]
    exact (components_absolute plainRoot).2
  have current := currentPath_entered absolute_root ran
  obtain ⟨cleaned, relative, found, there, stripped, rfl⟩ := changeDir_ok ran
  have allowed := changeDir_allows ran stripped
  obtain ⟨loc, rfl, plain, ground⟩ := canonical_dir sound spelled found there
  rw [placed.jail] at stripped
  obtain ⟨names', rfl, rfl, comps⟩ := strip_absolute plain plainRoot stripped
  refine ⟨names', placed.jail, plain, ?_, ?_, ?_⟩
  · rw [comps]
    by_cases top : names' = []
    · exact .inl ⟨top, by simp [top]⟩
    · exact .inr ⟨top, by simp [top], by simpa [top] using comps⟩
  · exact (opens_of_same current (isAbsolute_of_same current) d _).mpr (opens_absolute plain ground)
  · by_cases top : names' = []
    · exact .inl top
    · right
      intro patterns set
      rw [ensureAllowed, show ws.allowedPatterns = some patterns from set, comps] at allowed
      simp only [List.map_eq_nil_iff, top, ↓reduceIte] at allowed
      split at allowed
      · assumption
      · cases allowed

theorem enter_placed {names : Loc Text} {path : PathBuf} (sound : d.Sound) (spelled : Spelled d)
    (placed : Placed crates d root names ws) :
    ∃ names', Placed crates d root names' (enter crates d ws path).2 := by
  unfold enter
  cases ran : changeDir crates ws d path with
  | error message => exact ⟨names, placed⟩
  | ok pair => exact changeDir_placed sound spelled placed ran

/-- A fresh workspace is at its root. -/
theorem fresh_placed {sandbox : PathBuf} (sound : d.Sound) (spelled : Spelled d)
    (fresh : Fresh crates d sandbox ws) : ∃ root, canonicalize d sandbox = .ok (absolute root) ∧
      Grounded d.tree root ∧ Placed crates d root [] ws := by
  obtain ⟨made, lists, created, rfl⟩ := fresh
  obtain ⟨canonical, found, there, rfl⟩ := create_ok created
  obtain ⟨root, rfl, plain, ground⟩ := canonical_dir sound spelled found there
  have kept : ∀ lists : List (List Text), ∀ ws : SecureWorkspace,
      (lists.foldl (fun ws projects => allowing crates ws projects) ws).sandboxRoot = ws.sandboxRoot ∧
      (lists.foldl (fun ws projects => allowing crates ws projects) ws).currentDir = ws.currentDir := by
    intro lists
    induction lists with
    | nil => exact fun ws => ⟨rfl, rfl⟩
    | cons projects lists ih =>
      intro ws
      obtain ⟨sameRoot, sameDir⟩ := ih (allowing crates ws projects)
      obtain ⟨root', dir'⟩ := @allowing_place crates ws projects
      exact ⟨sameRoot.trans root', sameDir.trans dir'⟩
  obtain ⟨sameRoot, sameDir⟩ := kept lists ⟨absolute root, ⟨".".toList⟩, none, []⟩
  refine ⟨root, found, ground, sameRoot, by simpa using plain, .inl ⟨rfl, sameDir⟩, ?_, .inl rfl⟩
  have dot : (components ⟨".".toList⟩).filter (· ≠ .curDir) = [] := by decide
  have relative : isAbsolute ⟨".".toList⟩ = false := by decide
  have at_root : same (pathJoin (absolute root) ⟨".".toList⟩) (absolute root) = true := by
    rw [same, beq_iff_eq, components_pathJoin (absolute_text root) relative, dot, List.append_nil]
  rw [currentPath, sameRoot, sameDir, List.append_nil]
  exact (opens_of_same at_root (isAbsolute_of_same at_root) d _).mpr (opens_absolute plain ground)

theorem enter_failed {path : PathBuf} {message : Text}
    (failed : (enter crates d ws path).1 = .error message) : (enter crates d ws path).2 = ws := by
  unfold enter at failed ⊢
  cases ran : changeDir crates ws d path with
  | error other => rfl
  | ok pair =>
    rw [ran] at failed
    cases failed

/-- **The current directory.** After any calls of `change_dir` a workspace is in a
directory below its root, and a call that fails leaves it where it is. -/
theorem current_directory_placed {sandbox : PathBuf} (sound : d.Sound) (spelled : Spelled d)
    (fresh : Fresh crates d sandbox ws) :
    ∃ root, canonicalize d sandbox = .ok (absolute root) ∧ ∀ paths,
      (∃ names, Placed crates d root names (Runs.final (enter crates d) ws paths)) ∧
      ∀ path message, (enter crates d (Runs.final (enter crates d) ws paths) path).1 =
        .error message → (enter crates d (Runs.final (enter crates d) ws paths) path).2 =
          Runs.final (enter crates d) ws paths := by
  obtain ⟨root, found, -, placed⟩ := fresh_placed sound spelled fresh
  have steps : ∀ (ws : SecureWorkspace) (path : PathBuf), (∃ names, Placed crates d root names ws) →
      ∃ names, Placed crates d root names (enter crates d ws path).2 := by
    rintro ws path ⟨names, at_names⟩
    exact enter_placed sound spelled at_names
  refine ⟨root, found, fun paths => ⟨?_, fun path message failed => enter_failed failed⟩⟩
  exact Runs.invariant steps ⟨[], placed⟩ paths

/-- A sandbox `/s` with a directory `sub` and a link `out` to the directory `/etc`. -/
def linkedSandbox : Disk where
  tree := Files.put (Files.put (Files.put (Files.put (fun _ => none) ["s".toList] (some .dir))
    ["s".toList, "sub".toList] (some .dir)) ["etc".toList] (some .dir))
    ["s".toList, "out".toList] (some (.link ⟨true, [.into "etc".toList]⟩))
  cwd := []
  touched := []

/-- Globs without special characters match themselves. -/
def literalCrates : PathCrates := ⟨cleanAbsolute, fun _ => none, fun globs s => globs.contains s⟩

theorem linkedSandbox_spelled : Spelled linkedSandbox := by
  refine ⟨by simp [linkedSandbox], ?_⟩
  refine named_put (named_put (named_put (named_put nofun nofun) nofun) nofun) ?_
  rintro target ⟨⟩ name member
  cases List.mem_singleton.mp member
  decide

theorem linkedSandbox_sound : linkedSandbox.Sound := Files.grounded_root _

/-- A workspace in `/s` where `sub` may be entered. -/
theorem sub_placed : ∃ root, canonicalize linkedSandbox ⟨"/s".toList⟩ = .ok (absolute root) ∧
    ∃ names, Placed literalCrates linkedSandbox root names
      (Runs.final (enter literalCrates linkedSandbox)
        ⟨⟨"/s".toList⟩, ⟨".".toList⟩, some ["sub".toList], ["sub".toList]⟩
        [⟨"out".toList⟩, ⟨"./sub/../sub".toList⟩, ⟨"..".toList⟩]) := by
  have created : create linkedSandbox ⟨"/s".toList⟩ =
      .ok ⟨⟨"/s".toList⟩, ⟨".".toList⟩, none, []⟩ := by decide +kernel
  obtain ⟨root, found, runs⟩ := current_directory_placed linkedSandbox_sound linkedSandbox_spelled
    ⟨_, [["sub".toList]], created, rfl⟩
  exact ⟨root, found, (runs _).1⟩

/-! ## Resolved paths -/

/-- What calls can make of a workspace in a tree. -/
inductive Reachable (crates : PathCrates) (d : Disk) (sandbox : PathBuf) : SecureWorkspace → Prop where
  | created {ws : SecureWorkspace} : create d sandbox = .ok ws → Reachable crates d sandbox ws
  | allowed {ws : SecureWorkspace} (projects : List Text) :
      Reachable crates d sandbox ws → Reachable crates d sandbox (allowing crates ws projects)
  | entered {ws : SecureWorkspace} (path : PathBuf) :
      Reachable crates d sandbox ws → Reachable crates d sandbox (enter crates d ws path).2

/-- The root of a workspace is a real directory. -/
structure Jailed (d : Disk) (root : Loc Text) (ws : SecureWorkspace) : Prop where
  path : ws.sandboxRoot = absolute root
  plain : ∀ name ∈ root, PlainName name
  ground : Grounded d.tree root

/-- The longest part of the path that exists leads to `mid`, and `rest` is left. -/
def Physical (d : Disk) (q : PathBuf) (mid : Loc Text) (rest : List Text) : Prop :=
  ∃ found : List Text, components q = .rootDir :: (found ++ rest).map .normal ∧
    lookup d true (absolute found) = .ok (.found mid) ∧
    ∀ more, more <+: rest → more ≠ [] → pathExists d (absolute (found ++ more)) = false

/-- What is resolved is physically below the root. -/
def ResolvesInside (crates : PathCrates) (ws : SecureWorkspace) (d : Disk) (root : Loc Text)
    (path : PathBuf) : Prop :=
  ∀ resolved, resolvePath crates ws d path = .ok resolved →
    ∀ mid rest, Physical d resolved mid rest → root <+: mid ++ rest

/-- The path before anything is looked at. -/
def candidate (crates : PathCrates) (ws : SecureWorkspace) (path : PathBuf) : PathBuf :=
  crates.clean (pathJoin ws.currentPath path)

theorem reachable_jailed {sandbox : PathBuf} (sound : d.Sound) (spelled : Spelled d)
    (reachable : Reachable crates d sandbox ws) :
    ∃ root, canonicalize d sandbox = .ok (absolute root) ∧ Jailed d root ws := by
  induction reachable with
  | created made =>
    obtain ⟨canonical, found, there, rfl⟩ := create_ok made
    obtain ⟨root, rfl, plain, ground⟩ := canonical_dir sound spelled found there
    exact ⟨root, found, rfl, plain, ground⟩
  | allowed projects _ ih =>
    obtain ⟨root, found, jailed⟩ := ih
    exact ⟨root, found, (allowing_place projects).1.trans jailed.path, jailed.plain, jailed.ground⟩
  | @entered ws path _ ih =>
    obtain ⟨root, found, jailed⟩ := ih
    refine ⟨root, found, ?_, jailed.plain, jailed.ground⟩
    unfold enter
    cases ran : changeDir crates ws d path with
    | error message => exact jailed.path
    | ok pair =>
      obtain ⟨_, _, -, -, -, moved⟩ := @changeDir_ok crates ws pair.2 d path pair.1 ran
      rw [moved]
      exact jailed.path

/-- Every absolute path without `..` is somewhere. -/
theorem physical_exists {names : List Text} (sound : d.Sound)
    (plain : ∀ name ∈ names, PlainName name) :
    ∃ mid rest, Physical d (absolute names) mid rest := by
  have cut : ∀ rest found : List Text, names = found ++ rest →
      (∀ more, more <+: rest → more ≠ [] → pathExists d (absolute (found ++ more)) = false) →
      ∃ mid rest, Physical d (absolute names) mid rest := by
    intro rest found
    induction found using List.reverseRecOn generalizing rest with
    | nil =>
      intro shape missing
      have top := @lookup_absolute d [] sound (by simp) (.inl (Files.grounded_root d.tree))
      refine ⟨[], rest, [], ?_, top, missing⟩
      rw [(components_absolute plain).1, shape]
    | append_singleton found name ih =>
      intro shape missing
      by_cases there : pathExists d (absolute (found ++ [name])) = true
      · obtain ⟨mid, -, leads, -⟩ := exists_found sound there
        refine ⟨mid, rest, found ++ [name], ?_, leads, missing⟩
        rw [(components_absolute plain).1, shape]
      · refine ih (name :: rest) (by rw [shape]; simp) ?_
        rintro (_ | ⟨first, more⟩) inside filled
        · exact absurd rfl filled
        · obtain ⟨rfl, below⟩ := List.cons_prefix_cons.mp inside
          by_cases last : more = []
          · subst last
            simpa using there
          · have longer := missing more below last
            rwa [List.append_assoc, List.singleton_append] at longer
  exact cut [] names (by simp) fun more inside filled => absurd (List.prefix_nil.mp inside) filled

/-- What exists is where it is found. -/
theorem physical_found {loc mid : Loc Text} {rest : List Text} (sound : d.Sound)
    (plain : ∀ name ∈ loc, PlainName name) (stands : Standing d.tree loc)
    (physical : Physical d (absolute loc) mid rest) : mid = loc ∧ rest = [] := by
  obtain ⟨found, shape, leads, missing⟩ := physical
  rw [(components_absolute plain).1] at shape
  have same : loc = found ++ rest := normal_injective.list_map (List.cons.inj shape).2
  have none_left : rest = [] := by
    by_contra filled
    have nowhere := missing rest List.prefix_rfl filled
    rw [← same, exists_absolute sound plain stands] at nowhere
    cases nowhere
  rw [none_left, List.append_nil] at same
  rw [← same, lookup_absolute sound plain stands] at leads
  cases leads
  exact ⟨rfl, none_left⟩

/-- Names that do not exist do not lead back below the root. -/
theorem physical_inside_iff {names mid : Loc Text} {rest : List Text} (sound : d.Sound)
    (plain : ∀ name ∈ names, PlainName name) (stands : Standing d.tree root)
    (physical : Physical d (absolute names) mid rest) : root <+: mid ++ rest ↔ root <+: mid := by
  refine ⟨fun inside => ?_, fun inside => inside.trans (List.prefix_append _ _)⟩
  obtain ⟨found, shape, leads, missing⟩ := physical
  rw [(components_absolute plain).1] at shape
  have same : names = found ++ rest := normal_injective.list_map (List.cons.inj shape).2
  rcases List.prefix_or_prefix_of_prefix inside (List.prefix_append mid rest) with below | above
  · exact below
  obtain ⟨added, rfl⟩ := above
  cases added with
  | nil => simp
  | cons name added =>
    obtain ⟨more, left⟩ := (List.prefix_append_right_inj mid).mp inside
    have next : [name] <+: rest := ⟨added ++ more, by rw [← left]; rfl⟩
    obtain ⟨ground, child⟩ := @Standing.above _ _ _ _ mid name stands (by simp)
    have opens : Opens d (absolute found) mid :=
      (opens_iff sound (absolute_text found)).mpr ⟨leads, ground.entry⟩
    have plainChild : ∀ other ∈ found ++ [name], PlainName other := by
      intro other member
      refine plain other ?_
      rw [same]
      exact ((List.prefix_append_right_inj found).mpr next).subset member
    have there := exists_of_found (lookup_child sound plainChild opens child) child.there
    rw [missing [name] next (by simp)] at there
    cases there

theorem depth_of_names (names : List Text) (depth : Int) :
    (names.map Component.normal).foldlM depthAfter depth = .ok (depth + names.length) := by
  induction names generalizing depth with
  | nil => simp [pure, Except.pure]
  | cons name names ih =>
    rw [List.map_cons, List.foldlM_cons]
    have step : depthAfter depth (.normal name) = .ok (depth + 1) := rfl
    rw [step]
    refine (ih (depth + 1)).trans ?_
    rw [List.length_cons]
    congr 1
    omega

/-- What a path is resolved to, by whether it exists. -/
theorem resolvePath_ok {path resolved : PathBuf}
    (ran : resolvePath crates ws d path = .ok resolved) :
    isAbsolute path = false ∧ ((pathExists d (candidate crates ws path) = true ∧
        canonicalize d (candidate crates ws path) = .ok resolved ∧
        pathStartsWith resolved ws.sandboxRoot = true) ∨
      (pathExists d (candidate crates ws path) = false ∧ resolved = candidate crates ws path ∧
        pathStartsWith resolved ws.sandboxRoot = true)) := by
  unfold resolvePath at ran
  obtain ⟨cleaned, made, ran⟩ := Except.bind_eq_ok ran
  unfold normalizeCandidate at made
  split at made
  · cases made
  · rename_i relative
    cases made
    refine ⟨by simpa using relative, ?_⟩
    split at ran
    · rename_i there
      left
      cases found : canonicalize d (candidate crates ws path) with
      | error e =>
        rw [candidate] at found
        simp [found] at ran
      | ok canonical =>
        rw [candidate] at found
        simp only [found] at ran
        obtain ⟨_, inside, ran⟩ := Except.bind_eq_ok ran
        cases ran
        unfold ensureWithinSandbox at inside
        split at inside
        · rename_i below
          exact ⟨there, rfl, below⟩
        · cases inside
    · rename_i missing
      right
      obtain ⟨_, inside, ran⟩ := Except.bind_eq_ok ran
      cases ran
      unfold ensureNormalized at inside
      split at inside
      · cases inside
      · rename_i below
        exact ⟨by simpa [candidate] using missing, rfl, by simpa using below⟩

/-- The candidate is spelled with names only. -/
theorem candidate_names (jailed : Jailed d root ws) (cleans : Cleans crates.clean) (path : PathBuf) :
    ∃ names : List Text, (∀ name ∈ names, PlainName name) ∧
      candidate crates ws path = absolute names := by
  have rooted : isAbsolute (pathJoin ws.currentPath path) = true := by
    refine isAbsolute_pathJoin (isAbsolute_pathJoin ?_ ws.currentDir) path
    rw [jailed.path]
    exact (components_absolute jailed.plain).2
  exact ⟨_, collapse_plain fun name member => mem_components_plain member, cleans _ rooted⟩

/-- A candidate that does not exist and is spelled below the root is accepted. -/
theorem resolvePath_missing {path : PathBuf} (jailed : Jailed d root ws)
    (cleans : Cleans crates.clean) (relative : isAbsolute path = false)
    (missing : pathExists d (candidate crates ws path) = false)
    (below : pathStartsWith (candidate crates ws path) ws.sandboxRoot = true) :
    resolvePath crates ws d path = .ok (candidate crates ws path) := by
  obtain ⟨names, plain, spelled⟩ := candidate_names jailed cleans path
  have normal : ensureNormalized ws (candidate crates ws path) = .ok () := by
    rw [ensureNormalized, below, if_neg (by simp)]
    cases stripped : pathStripPrefix (candidate crates ws path) ws.sandboxRoot with
    | none => rfl
    | some rest =>
      rw [spelled, jailed.path] at stripped
      obtain ⟨added, -, -, comps⟩ := strip_absolute plain jailed.plain stripped
      dsimp only
      rw [comps, depth_of_names]
      rfl
  have made : normalizeCandidate crates ws path = .ok (candidate crates ws path) := by
    rw [normalizeCandidate, relative]
    rfl
  unfold resolvePath
  rw [made]
  dsimp only [bind, Except.bind]
  rw [missing, normal]
  rfl

/-- **Resolved paths.** In every state a workspace can be in, a path is resolved to a
place physically below the root exactly if it is refused, exists, or the nearest
directory above it that exists is below the root. -/
theorem resolved_inside_iff {sandbox : PathBuf} (sound : d.Sound) (spelled : Spelled d)
    (cleans : Cleans crates.clean) (reachable : Reachable crates d sandbox ws) :
    ∃ root, canonicalize d sandbox = .ok (absolute root) ∧ ∀ path,
      ResolvesInside crates ws d root path ↔
        (isAbsolute path = false → pathExists d (candidate crates ws path) = false →
          pathStartsWith (candidate crates ws path) ws.sandboxRoot = true →
            ∀ mid rest, Physical d (candidate crates ws path) mid rest → root <+: mid) := by
  obtain ⟨root, found, jailed⟩ := reachable_jailed sound spelled reachable
  refine ⟨root, found, fun path => ⟨fun inside relative missing below mid rest physical => ?_, ?_⟩⟩
  · have accepted := resolvePath_missing jailed cleans relative missing below
    obtain ⟨names, plain, shape⟩ := candidate_names jailed cleans path
    have whole := inside _ accepted mid rest physical
    rw [shape] at physical
    exact (physical_inside_iff sound plain (.inl jailed.ground) physical).mp whole
  · intro inside resolved ran mid rest physical
    obtain ⟨relative, existing | missing⟩ := resolvePath_ok ran
    · obtain ⟨there, canonical, below⟩ := existing
      obtain ⟨loc, named, leads, -, stands⟩ := exists_found sound there
      rw [canonical, Except.ok.injEq] at named
      subst named
      have plain : ∀ name ∈ loc, PlainName name := lookup_plain spelled leads
      obtain ⟨rfl, rfl⟩ := physical_found sound plain stands physical
      rw [jailed.path, starts_absolute plain jailed.plain] at below
      rw [List.append_nil]
      exact below
    · obtain ⟨missing, rfl, below⟩ := missing
      exact (inside relative missing below mid rest physical).trans (List.prefix_append _ _)

/-- What exists in the sandbox is resolved to its place there. -/
theorem sub_resolved : ∃ root, canonicalize linkedSandbox ⟨"/s".toList⟩ = .ok (absolute root) ∧
    ResolvesInside literalCrates ⟨⟨"/s".toList⟩, ⟨".".toList⟩, none, []⟩ linkedSandbox root
      ⟨"sub".toList⟩ := by
  have created : create linkedSandbox ⟨"/s".toList⟩ =
      .ok ⟨⟨"/s".toList⟩, ⟨".".toList⟩, none, []⟩ := by decide +kernel
  obtain ⟨root, found, resolved⟩ := resolved_inside_iff linkedSandbox_sound linkedSandbox_spelled
    (show Cleans literalCrates.clean from cleans_cleanAbsolute) (.created created)
  refine ⟨root, found, (resolved ⟨"sub".toList⟩).mpr fun _ missing => ?_⟩
  have there : pathExists linkedSandbox (candidate literalCrates
      ⟨⟨"/s".toList⟩, ⟨".".toList⟩, none, []⟩ ⟨"sub".toList⟩) = true := by decide +kernel
  rw [there] at missing
  cases missing

/-- A new file behind the link is resolved to its spelling, and is in `/etc`. -/
theorem new_file_behind_link :
    create linkedSandbox ⟨"/s".toList⟩ = .ok ⟨⟨"/s".toList⟩, ⟨".".toList⟩, none, []⟩ ∧
      canonicalize linkedSandbox ⟨"/s".toList⟩ = .ok (absolute ["s".toList]) ∧
      ¬ ResolvesInside literalCrates ⟨⟨"/s".toList⟩, ⟨".".toList⟩, none, []⟩ linkedSandbox
        ["s".toList] ⟨"out/newfile".toList⟩ := by
  refine ⟨by decide +kernel, by decide +kernel, fun inside => ?_⟩
  have resolved : resolvePath literalCrates ⟨⟨"/s".toList⟩, ⟨".".toList⟩, none, []⟩ linkedSandbox
      ⟨"out/newfile".toList⟩ = .ok ⟨"/s/out/newfile".toList⟩ := by decide +kernel
  have physical : Physical linkedSandbox ⟨"/s/out/newfile".toList⟩ ["etc".toList]
      ["newfile".toList] := by
    refine ⟨["s".toList, "out".toList], by decide, by decide +kernel, ?_⟩
    rintro more inside filled
    obtain ⟨rest, shape⟩ := inside
    cases more with
    | nil => exact absurd rfl filled
    | cons name more =>
      obtain ⟨rfl, tail⟩ := List.cons.inj shape
      obtain ⟨rfl, -⟩ := List.append_eq_nil_iff.mp tail
      decide +kernel
  exact absurd (inside _ resolved _ _ physical) (by decide)

end WorkspacePaths

end Devit
