import Devit.IdempotencyCache
import Devit.PathSecurity
import Devit.SecureWorkspace

/-! The engine and the subsystems that keep a working directory of their own: how
they are set up, and how they are told that the directory changed. -/
namespace Devit
open Text Path FileSystem

inductive ApprovalLevel where
  | untrusted
  | ask
  | moderate
  | trusted
  | privileged (allowedPaths : List PathBuf)
  deriving DecidableEq, Repr

/-- What the process finds around it: two variables of the environment, and the
names that listing a directory gives. -/
structure Environment where
  home : Option PathBuf
  forceRoot : Option PathBuf
  readDir : PathBuf → List Text

/-! ## File operations -/

structure FileOpsManager where
  rootPath : PathBuf
  pathSecurity : PathSecurityContext
  allowInternalSymlinks : Bool
  deriving DecidableEq, Repr

namespace FileOpsManager

/-- The names that mark the root of a project, the strongest first. -/
def projectIndicators : List String :=
  [".git", "Cargo.toml", "package.json", "pyproject.toml", "setup.py", "requirements.txt",
    "poetry.lock", "Pipfile", "pom.xml", "build.gradle", "build.gradle.kts", "settings.gradle",
    "go.mod", "go.sum", "CMakeLists.txt", "Makefile", "configure.ac", "*.sln", "*.csproj",
    "*.fsproj", "*.vbproj", "Gemfile", "Rakefile", "composer.json", "pubspec.yaml",
    "Package.swift", "build.gradle.kts", "build.sbt", "mix.exs", ".devcontainer",
    "docker-compose.yml", "docker-compose.yaml", "Dockerfile", ".github", ".gitlab-ci.yml",
    ".travis.yml", "Jenkinsfile", "README.md", "README.rst", "README.txt"]

/-- Whether a directory has an entry that an indicator stands for. -/
def indicates (env : Environment) (d : Disk) (ancestor : PathBuf) (indicator : Text) : Bool :=
  if '*' ∈ indicator then
    startsWith ['*'] indicator &&
      (env.readDir ancestor).any fun name => (stripSuffix (indicator.drop 1) name).isSome
  else pathExists d (pathJoin ancestor ⟨indicator⟩)

/-- `Path::ancestors`, with `fuel` at least the number of components. -/
def ancestors : Nat → PathBuf → List PathBuf
  | 0, p => [p]
  | fuel + 1, p => p :: match parent p with
    | none => []
    | some above => ancestors fuel above

def autoDetectProjectRoot (env : Environment) (d : Disk) (startPath : PathBuf) : Option PathBuf :=
  let searchStart :=
    match stat d true startPath with
    | .ok (.file _) => (parent startPath).getD startPath
    | _ => startPath
  (ancestors (components searchStart).length searchStart).find? fun ancestor =>
    projectIndicators.any fun indicator => indicates env d ancestor indicator.toList

def prepareRoot (env : Environment) (d : Disk) (rootPath : PathBuf) (allowInternalSymlinks : Bool) :
    DevItResult (PathBuf × PathSecurityContext) := do
  let finalRoot ← match env.forceRoot with
    | some force =>
      match canonicalize d force with
      | .error e => .error (.io "prepare_root".toList (some force) e)
      | .ok canonical => .ok canonical
    | none => .ok ((autoDetectProjectRoot env d rootPath).getD rootPath)
  let pathSecurity ← PathSecurityContext.create d finalRoot allowInternalSymlinks
  .ok (finalRoot, pathSecurity)

/-- `FileOpsManager::new`. -/
def create (env : Environment) (d : Disk) (rootPath : PathBuf) : DevItResult FileOpsManager := do
  let (finalRoot, pathSecurity) ← prepareRoot env d rootPath false
  .ok ⟨finalRoot, pathSecurity, false⟩

def setRootPath (fileOps : FileOpsManager) (env : Environment) (d : Disk) (rootPath : PathBuf) :
    DevItResult FileOpsManager := do
  let (finalRoot, pathSecurity) ← prepareRoot env d rootPath fileOps.allowInternalSymlinks
  .ok { fileOps with rootPath := finalRoot, pathSecurity := pathSecurity }

end FileOpsManager

/-! ## Snapshots -/

structure SnapshotManager where
  snapshotDir : PathBuf
  maxSnapshots : Nat
  deriving DecidableEq, Repr

namespace SnapshotManager

def normalizeSnapshotDir (path : PathBuf) : PathBuf :=
  if fileName path = some "snapshots".toList then path
  else if fileName path = some ".devit".toList then pathJoin path ⟨"snapshots".toList⟩
  else pathJoin (pathJoin path ⟨".devit".toList⟩) ⟨"snapshots".toList⟩

/-- `SnapshotManager::new`. -/
def create (snapshotDir : PathBuf) (maxSnapshots : Nat) : SnapshotManager :=
  ⟨normalizeSnapshotDir snapshotDir, maxSnapshots⟩

def setSnapshotDir (snapshots : SnapshotManager) (path : PathBuf) : SnapshotManager :=
  { snapshots with snapshotDir := normalizeSnapshotDir path }

end SnapshotManager

/-! ## The engine -/

structure CoreConfig where
  sandboxRoot : Option PathBuf
  defaultProject : Option Text
  allowedProjects : List Text
  defaultApprovalLevel : ApprovalLevel
  autoCommit : Bool
  /-- `runtime.working_directory`. -/
  workingDirectory : Option PathBuf
  deriving DecidableEq, Repr

structure CoreEngine where
  config : CoreConfig
  /-- The working directory of the patch manager. -/
  patchManager : PathBuf
  snapshotManager : SnapshotManager
  /-- The number of entries in the journal. -/
  journal : Nat
  pathSecurity : PathSecurityContext
  fileOps : FileOpsManager
  idempotencyCache : IdempotencyCache
  workspace : SecureWorkspace
  deriving DecidableEq

namespace CoreEngine

def expandTilde (env : Environment) (path : PathBuf) : PathBuf :=
  if path.text = ['~'] then env.home.getD path
  else
    match stripPrefix "~/".toList path.text, env.home with
    | some rest, some home => pathJoin home ⟨rest⟩
    | _, _ => path

/-- `WorkspaceConfig::resolve_root`. -/
def resolveRoot (env : Environment) (d : Disk) (config : CoreConfig) : PathBuf :=
  match config.sandboxRoot with
  | some root => expandTilde env root
  | none => absolute d.cwd

def workspaceError (message : Text) : DevItError := .internal "workspace".toList message

def allowsInternalSymlinks (config : CoreConfig) : Bool :=
  config.defaultApprovalLevel ≠ .untrusted

section
variable (crates : PathCrates) (env : Environment) (d : Disk)

/-- The workspace a new engine works in: a default project that cannot be entered
is only warned about. -/
def openWorkspace (config : CoreConfig) : Except Text SecureWorkspace := do
  let workspace ← SecureWorkspace.create d (resolveRoot env d config)
  let workspace ← SecureWorkspace.setAllowedProjects crates workspace config.allowedProjects
  match config.defaultProject with
  | none => .ok workspace
  | some project =>
    match SecureWorkspace.changeDir crates workspace d ⟨project⟩ with
    | .error _ => .ok workspace
    | .ok (_, entered) => .ok entered

/-- `CoreEngine::new`. -/
def create (config : CoreConfig) : DevItResult CoreEngine := do
  let workspace ← (openWorkspace crates env d config).mapError workspaceError
  let workingDir := workspace.currentPath
  let pathSecurity ← PathSecurityContext.create d workingDir (allowsInternalSymlinks config)
  let fileOps ← FileOpsManager.create env d workingDir
  .ok {
    config := { config with workingDirectory := some workingDir }
    patchManager := workingDir
    snapshotManager := SnapshotManager.create workingDir 10
    journal := 0
    pathSecurity := pathSecurity
    fileOps := fileOps
    idempotencyCache := .empty
    workspace := workspace }

/-- `workspace_change_dir`. The subsystems are told one after the other, and the
first that fails ends the call. -/
def workspaceChangeDir (path : PathBuf) : Action DevItError CoreEngine PathBuf := fun engine =>
  match engine.workspace.changeDir crates d path with
  | .error message => (.error (workspaceError message), engine)
  | .ok (absolutePath, workspace) =>
    let engine := { engine with
      workspace := workspace
      patchManager := absolutePath
      snapshotManager := engine.snapshotManager.setSnapshotDir absolutePath }
    match engine.fileOps.setRootPath env d absolutePath with
    | .error e => (.error (workspaceError e.display), engine)
    | .ok fileOps =>
      let engine := { engine with fileOps := fileOps }
      match PathSecurityContext.create d absolutePath (allowsInternalSymlinks engine.config) with
      | .error e => (.error e, engine)
      | .ok pathSecurity => (.ok absolutePath, { engine with pathSecurity := pathSecurity })

end

/-- The directory `patch_apply` hands to the patcher. -/
def patchDir (engine : CoreEngine) : PathBuf :=
  engine.config.workingDirectory.getD ⟨".".toList⟩

end CoreEngine

end Devit
