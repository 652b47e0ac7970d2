import Devit.CoreEngine
import Devit.Library.Canonical
import Devit.Library.Runs

/-! Whether the parts of the engine are all at the same directory. Entering a
directory moves the workspace, the snapshots and the path checks; the directory
patches are applied in is the one the engine was started in, and stays it. So the
parts agree as long as every directory entered is that one, and a call that fails
after the workspace moved has then moved nothing. -/
namespace Devit
open Text Path FileSystem
open Files (Loc)

namespace WorkspaceRoots
open CoreEngine SnapshotManager SecureWorkspace

/-- The paths lead to the same directory. -/
def Denote (d : Disk) (p q : PathBuf) : Prop := ∀ dir, Opens d p dir ↔ Opens d q dir

/-- Patches, path checks and snapshots are at the current directory. -/
structure OneRoot (d : Disk) (engine : CoreEngine) : Prop where
  patches : Denote d engine.patchDir engine.workspace.currentPath
  pathSecurity : Denote d engine.pathSecurity.repoRoot engine.workspace.currentPath
  snapshots : Denote d engine.snapshotManager.snapshotDir
    (normalizeSnapshotDir engine.workspace.currentPath)

/-- All of them are where they were. -/
structure Unmoved (d : Disk) (before after : CoreEngine) : Prop where
  patches : Denote d after.patchDir before.patchDir
  pathSecurity : Denote d after.pathSecurity.repoRoot before.pathSecurity.repoRoot
  snapshots : Denote d after.snapshotManager.snapshotDir before.snapshotManager.snapshotDir
  workspace : Denote d after.workspace.currentPath before.workspace.currentPath

/-- A call of `workspace_change_dir`, with what the process finds at that moment. -/
structure ChangeDir where
  path : PathBuf
  env : Environment
  disk : Disk

/-- The directory tree is one that the system can hold. -/
def ChangeDir.Real (call : ChangeDir) : Prop := call.disk.Sound ∧ Spelled call.disk

def step (crates : PathCrates) (engine : CoreEngine) (call : ChangeDir) :
    DevItResult PathBuf × CoreEngine :=
  workspaceChangeDir crates call.env call.disk call.path engine

/-- A call that the workspace accepts enters the directory patches are applied in. -/
def EntersHome (crates : PathCrates) (engine : CoreEngine) (call : ChangeDir) : Prop :=
  call.Real ∧ ∀ entered workspace,
    engine.workspace.changeDir crates call.disk call.path = .ok (entered, workspace) →
    same entered engine.patchDir = true

/-- Every part is at the directory `home`, by the names of the paths. -/
structure AtHome (home : PathBuf) (engine : CoreEngine) : Prop where
  absolute : isAbsolute engine.workspace.sandboxRoot = true
  patches : same engine.patchDir home = true
  pathSecurity : same engine.pathSecurity.repoRoot home = true
  workspace : same engine.workspace.currentPath home = true
  snapshots : same engine.snapshotManager.snapshotDir (normalizeSnapshotDir home) = true

theorem denote_of_same {p q : PathBuf} (equal : same p q = true) (d : Disk) : Denote d p q :=
  opens_of_same equal (isAbsolute_of_same equal) d

theorem same_trans {p q r : PathBuf} (first : same p q = true) (second : same q r = true) :
    same p r = true := by
  simp only [same, beq_iff_eq] at *
  exact first.trans second

theorem same_symm {p q : PathBuf} (equal : same p q = true) : same q p = true := by
  simp only [same, beq_iff_eq] at *
  exact equal.symm

theorem absolute_text_ne {p : PathBuf} (root : isAbsolute p = true) : p.text ≠ [] := by
  intro empty
  rw [isAbsolute, empty] at root
  cases root

/-- Equal paths have the same snapshot directory. -/
theorem normalize_same {p q : PathBuf} (equal : same p q = true) (root : isAbsolute p = true) :
    same (normalizeSnapshotDir p) (normalizeSnapshotDir q) = true := by
  have comps : components p = components q := by simpa [same] using equal
  have root' : isAbsolute q = true := by rw [← isAbsolute_of_same equal, root]
  have joined : ∀ name : PathBuf, isAbsolute name = false →
      components (pathJoin p name) = components (pathJoin q name) := by
    intro name relative
    rw [components_pathJoin (absolute_text_ne root) relative,
      components_pathJoin (absolute_text_ne root') relative, comps]
  have filled : ∀ base : PathBuf, isAbsolute base = true → ∀ name : PathBuf,
      isAbsolute name = false → (pathJoin base name).text ≠ [] := by
    intro base root name relative
    exact absolute_text_ne ((pieces_pathJoin (absolute_text_ne root) relative).2.trans root)
  have names : fileName p = fileName q := by rw [fileName, fileName, comps]
  have devit : isAbsolute ⟨".devit".toList⟩ = false := by decide
  have snapshots : isAbsolute ⟨"snapshots".toList⟩ = false := by decide
  rw [same, beq_iff_eq]
  unfold normalizeSnapshotDir
  rw [names]
  split
  · exact comps
  · split
    · exact joined _ snapshots
    · rw [components_pathJoin (filled p root _ devit) snapshots,
        components_pathJoin (filled q root' _ devit) snapshots, joined _ devit]

theorem AtHome.root {home : PathBuf} {engine : CoreEngine} (at_home : AtHome home engine) :
    isAbsolute home = true := by
  rw [← isAbsolute_of_same at_home.workspace]
  exact isAbsolute_pathJoin at_home.absolute _

theorem AtHome.oneRoot {home : PathBuf} {engine : CoreEngine} (at_home : AtHome home engine)
    (d : Disk) : OneRoot d engine where
  patches := denote_of_same (same_trans at_home.patches (same_symm at_home.workspace)) d
  pathSecurity := denote_of_same (same_trans at_home.pathSecurity (same_symm at_home.workspace)) d
  snapshots := denote_of_same (same_trans at_home.snapshots
    (normalize_same (same_symm at_home.workspace) at_home.root)) d

/-- Two states with all parts at one directory differ in no part. -/
theorem AtHome.unmoved {home : PathBuf} {before after : CoreEngine} (first : AtHome home before)
    (second : AtHome home after) (d : Disk) : Unmoved d before after where
  patches := denote_of_same (same_trans second.patches (same_symm first.patches)) d
  pathSecurity := denote_of_same (same_trans second.pathSecurity (same_symm first.pathSecurity)) d
  snapshots := denote_of_same (same_trans second.snapshots (same_symm first.snapshots)) d
  workspace := denote_of_same (same_trans second.workspace (same_symm first.workspace)) d

/-! ## One call -/

/-- A directory that exists is checked against as it is. -/
theorem pathSecurity_of_dir {d : Disk} {p : PathBuf} {loc : Loc Text} (sound : d.Sound)
    (plain : ∀ name ∈ loc, PlainName name) (ground : Files.Grounded d.tree loc)
    (equal : same p (absolute loc) = true) (filled : p.text ≠ []) (allow : Bool) :
    PathSecurityContext.create d p allow = .ok ⟨absolute loc, allow⟩ := by
  have opens : Opens d p loc :=
    (denote_of_same equal d loc).mpr (opens_absolute plain ground)
  rw [PathSecurityContext.create, canonicalize_opens sound filled opens]

theorem step_atHome {crates : PathCrates} {home : PathBuf} {engine : CoreEngine} {call : ChangeDir}
    (at_home : AtHome home engine) (enters : EntersHome crates engine call) :
    AtHome home (step crates engine call).2 := by
  obtain ⟨⟨sound, spelled⟩, accepted⟩ := enters
  unfold step workspaceChangeDir
  cases ran : engine.workspace.changeDir crates call.disk call.path with
  | error message => exact at_home
  | ok pair =>
    obtain ⟨entered, workspace⟩ := pair
    have equal : same entered home = true := same_trans (accepted entered workspace ran) at_home.patches
    have current := currentPath_entered at_home.absolute ran
    obtain ⟨cleaned, relative, found, there, -, rfl⟩ := changeDir_ok ran
    obtain ⟨loc, rfl, plain, ground⟩ := canonical_dir sound spelled found there
    have moved : AtHome home { engine with
        workspace := { engine.workspace with
          currentDir := if components relative = [] then ⟨".".toList⟩ else relative }
        patchManager := absolute loc
        snapshotManager := engine.snapshotManager.setSnapshotDir (absolute loc) } := by
      refine ⟨at_home.absolute, at_home.patches, at_home.pathSecurity, ?_, ?_⟩
      · exact same_trans current equal
      · exact normalize_same equal (components_absolute plain).2
    dsimp only
    cases engine.fileOps.setRootPath call.env call.disk (absolute loc) with
    | error e => exact moved
    | ok fileOps =>
      dsimp only
      rw [pathSecurity_of_dir sound plain ground (by simp [same]) (absolute_text loc)]
      exact ⟨moved.absolute, moved.patches, equal, moved.workspace, moved.snapshots⟩

/-! ## From the start -/

/-- A new workspace is in a directory, by its canonical path. -/
theorem openWorkspace_dir {crates : PathCrates} {env : Environment} {d : Disk} {config : CoreConfig}
    {workspace : SecureWorkspace} (sound : d.Sound) (spelled : Spelled d)
    (opened : openWorkspace crates env d config = .ok workspace) :
    isAbsolute workspace.sandboxRoot = true ∧ ∃ loc, (∀ name ∈ loc, PlainName name) ∧
      Files.Grounded d.tree loc ∧ same workspace.currentPath (absolute loc) = true := by
  unfold openWorkspace at opened
  obtain ⟨first, made, opened⟩ := Except.bind_eq_ok opened
  obtain ⟨second, allowed, opened⟩ := Except.bind_eq_ok opened
  have at_root : isAbsolute second.sandboxRoot = true ∧ ∃ loc, (∀ name ∈ loc, PlainName name) ∧
      Files.Grounded d.tree loc ∧ same second.currentPath (absolute loc) = true := by
    obtain ⟨root, found, there, rfl⟩ := create_ok made
    obtain ⟨same_root, same_dir⟩ := setAllowedProjects_ok allowed
    obtain ⟨loc, rfl, plain, ground⟩ := canonical_dir sound spelled found there
    have dot : (components ⟨".".toList⟩).filter (· ≠ .curDir) = [] := by decide
    have relative : isAbsolute ⟨".".toList⟩ = false := by decide
    rw [currentPath, same_root, same_dir]
    refine ⟨(components_absolute plain).2, loc, plain, ground, ?_⟩
    rw [same, beq_iff_eq, components_pathJoin (absolute_text loc) relative, dot, List.append_nil]
  cases project : config.defaultProject with
  | none =>
    simp only [project] at opened
    cases opened
    exact at_root
  | some project' =>
    simp only [project] at opened
    cases ran : SecureWorkspace.changeDir crates second d ⟨project'⟩ with
    | error message =>
      simp only [ran] at opened
      cases opened
      exact at_root
    | ok pair =>
      obtain ⟨entered, moved⟩ := pair
      simp only [ran] at opened
      cases opened
      have current := currentPath_entered at_root.1 ran
      obtain ⟨cleaned, relative, found, there, -, rfl⟩ := changeDir_ok ran
      obtain ⟨loc, rfl, plain, ground⟩ := canonical_dir sound spelled found there
      exact ⟨at_root.1, loc, plain, ground, current⟩

theorem create_atHome {crates : PathCrates} {env : Environment} {d : Disk} {config : CoreConfig}
    {engine : CoreEngine} (sound : d.Sound) (spelled : Spelled d)
    (started : CoreEngine.create crates env d config = .ok engine) :
    AtHome engine.patchDir engine := by
  unfold CoreEngine.create at started
  obtain ⟨workspace, opened, started⟩ := Except.bind_eq_ok started
  obtain ⟨pathSecurity, secured, started⟩ := Except.bind_eq_ok started
  obtain ⟨fileOps, -, started⟩ := Except.bind_eq_ok started
  cases started
  have opened : openWorkspace crates env d config = .ok workspace := by
    cases outcome : openWorkspace crates env d config with
    | error message => simp [outcome, Except.mapError] at opened
    | ok other =>
      simp only [outcome, Except.mapError, Except.ok.injEq] at opened
      rw [opened]
  obtain ⟨root, loc, plain, ground, equal⟩ := openWorkspace_dir sound spelled opened
  rw [pathSecurity_of_dir sound plain ground equal (absolute_text_ne (isAbsolute_pathJoin root _))]
    at secured
  cases secured
  have itself : ∀ p : PathBuf, same p p = true := fun p => by simp [same]
  exact ⟨root, itself _, same_symm equal, itself _, itself _⟩

/-! ## Runs -/

/-- **One root.** In a run that starts with a new engine and in which every
directory entered is the one it was started in, all parts are at the current
directory in every state, and a call that fails moves none of them. -/
theorem one_root_along {crates : PathCrates} {env : Environment} {d : Disk} {config : CoreConfig}
    {engine : CoreEngine} (sound : d.Sound) (spelled : Spelled d)
    (started : CoreEngine.create crates env d config = .ok engine) {calls : List ChangeDir}
    (enters : Runs.Along (EntersHome crates) (step crates) engine calls) :
    (∀ done rest, calls = done ++ rest → ∀ tree, OneRoot tree (Runs.final (step crates) engine done)) ∧
    ∀ done call rest e, calls = done ++ call :: rest →
      (step crates (Runs.final (step crates) engine done) call).1 = .error e →
      ∀ tree, Unmoved tree (Runs.final (step crates) engine done)
        (step crates (Runs.final (step crates) engine done) call).2 := by
  have start := create_atHome sound spelled started
  have reached : ∀ done rest, calls = done ++ rest →
      AtHome engine.patchDir (Runs.final (step crates) engine done) := by
    rintro done rest rfl
    refine Runs.invariant_along (fun s call held meets => step_atHome held meets) start ?_
    intro before call after shape
    exact enters before call (after ++ rest) (by rw [shape, List.append_assoc, List.cons_append])
  constructor
  · intro done rest shape tree
    exact (reached done rest shape).oneRoot tree
  · intro done call rest e shape _ tree
    have before := reached done (call :: rest) shape
    exact before.unmoved (step_atHome before (enters done call rest shape)) tree

/-- The lexical normal form of a path. -/
def lexicalClean (p : PathBuf) : PathBuf :=
  let kept := (components p).foldl (fun (kept : List Component) c =>
    match c with
    | .curDir => kept
    | .parentDir =>
      match kept.getLast? with
      | some .rootDir => kept
      | some (.normal _) => kept.dropLast
      | _ => kept ++ [.parentDir]
    | c => kept ++ [c]) []
  if kept = [] then ⟨".".toList⟩ else ofComponents kept

/-- The crates where no project list is set. -/
def plainCrates : PathCrates := ⟨lexicalClean, fun _ => none, fun _ _ => false⟩

/-- A sandbox `/s` with a directory `sub`. -/
def sandboxDisk : Disk where
  tree := Files.put (Files.put (fun _ => none) ["s".toList] (some .dir))
    ["s".toList, "sub".toList] (some .dir)
  cwd := []
  touched := []

def sandboxConfig : CoreConfig := ⟨some ⟨"/s".toList⟩, none, [], .moderate, false, none⟩

def bareEnvironment : Environment := ⟨none, none, fun _ => []⟩

/-- The engine started in the sandbox. -/
def sandboxEngine : CoreEngine where
  config := ⟨some ⟨"/s".toList⟩, none, [], .moderate, false, some ⟨"/s/.".toList⟩⟩
  patchManager := ⟨"/s/.".toList⟩
  snapshotManager := ⟨⟨"/s/./.devit/snapshots".toList⟩, 10⟩
  journal := 0
  pathSecurity := ⟨⟨"/s".toList⟩, true⟩
  fileOps := ⟨⟨"/s/.".toList⟩, ⟨⟨"/s".toList⟩, false⟩, false⟩
  idempotencyCache := .empty
  workspace := ⟨⟨"/s".toList⟩, ⟨".".toList⟩, none, []⟩

theorem sandbox_created :
    CoreEngine.create plainCrates bareEnvironment sandboxDisk sandboxConfig = .ok sandboxEngine := by
  decide +kernel

theorem sandboxDisk_spelled : Spelled sandboxDisk := by
  refine ⟨by simp [sandboxDisk], fun loc target isLink => ?_⟩
  simp only [sandboxDisk, Files.put, Function.update_apply] at isLink
  split at isLink
  · cases isLink
  · split at isLink <;> cases isLink

/-- Entering the directory that is current already. -/
theorem stays_at_root :
    CoreEngine.create plainCrates bareEnvironment sandboxDisk sandboxConfig = .ok sandboxEngine ∧
      ∀ tree, OneRoot tree (Runs.final (step plainCrates) sandboxEngine
        [⟨⟨".".toList⟩, bareEnvironment, sandboxDisk⟩]) := by
  have sound : sandboxDisk.Sound := Files.grounded_root _
  refine ⟨sandbox_created, ?_⟩
  refine (one_root_along sound sandboxDisk_spelled sandbox_created ?_).1 _ [] rfl
  refine Runs.along_concat.mpr ⟨Runs.along_nil _ _, ⟨sound, sandboxDisk_spelled⟩, ?_⟩
  intro entered workspace ran
  have there : sandboxEngine.workspace.changeDir plainCrates sandboxDisk ⟨".".toList⟩ =
      .ok (⟨"/s".toList⟩, sandboxEngine.workspace) := by decide +kernel
  cases there.symm.trans ran
  decide

/-- After entering `sub`, patches are still applied in `/s`. -/
theorem entered_directory_is_not_patched :
    CoreEngine.create plainCrates bareEnvironment sandboxDisk sandboxConfig = .ok sandboxEngine ∧
      ∃ entered, workspaceChangeDir plainCrates bareEnvironment sandboxDisk ⟨"sub".toList⟩
          sandboxEngine = (.ok ⟨"/s/sub".toList⟩, entered) ∧
        Opens sandboxDisk entered.workspace.currentPath ["s".toList, "sub".toList] ∧
        Opens sandboxDisk entered.patchDir ["s".toList] ∧ ¬ OneRoot sandboxDisk entered := by
  have ran : workspaceChangeDir plainCrates bareEnvironment sandboxDisk ⟨"sub".toList⟩
      sandboxEngine = (.ok ⟨"/s/sub".toList⟩, { sandboxEngine with
        patchManager := ⟨"/s/sub".toList⟩
        snapshotManager := ⟨⟨"/s/sub/.devit/snapshots".toList⟩, 10⟩
        pathSecurity := ⟨⟨"/s/sub".toList⟩, true⟩
        fileOps := ⟨⟨"/s/sub".toList⟩, ⟨⟨"/s/sub".toList⟩, false⟩, false⟩
        workspace := ⟨⟨"/s".toList⟩, ⟨"sub".toList⟩, none, []⟩ }) := by decide +kernel
  refine ⟨sandbox_created, _, ran, ⟨by decide +kernel, by decide +kernel⟩,
    ⟨by decide +kernel, by decide +kernel⟩, fun agree => ?_⟩
  have other : Opens sandboxDisk ⟨"/s/sub".toList⟩ ["s".toList] :=
    (agree.patches ["s".toList]).mp ⟨by decide +kernel, by decide +kernel⟩
  exact absurd other.1 (by decide +kernel)

end WorkspaceRoots

end Devit
