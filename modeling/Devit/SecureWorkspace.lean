import Devit.Errors

/-! The workspace a session works in: a directory below the sandbox root that is
changed by relative paths, with an optional list of the projects that may be
entered. Failures are texts, as `anyhow` shows them. -/
namespace Devit
open Text Path FileSystem

/-- What the workspace takes from the crates `path-clean` and `globset`: the
lexical normal form of a path, why a glob does not compile, and whether one of
some globs matches. -/
structure PathCrates where
  clean : PathBuf → PathBuf
  globError : Text → Option Text
  globMatches : List Text → Text → Bool

structure SecureWorkspace where
  sandboxRoot : PathBuf
  /-- Relative to the sandbox root. -/
  currentDir : PathBuf
  allowedPatterns : Option (List Text)
  allowedProjects : List Text
  deriving DecidableEq, Repr

namespace SecureWorkspace

/-- `SecureWorkspace::new`. -/
def create (d : Disk) (sandboxRoot : PathBuf) : Except Text SecureWorkspace :=
  match canonicalize d sandboxRoot with
  | .error _ => .error ("Failed to canonicalize sandbox root: ".toList ++ sandboxRoot.text)
  | .ok root =>
    if isDir d root then .ok ⟨root, ⟨".".toList⟩, none, []⟩
    else .error ("Sandbox root is not a directory: ".toList ++ root.text)

/-- The text with every backslash turned into a slash. -/
def forwardSlashes (s : Text) : Text := s.map fun c => if c = '\\' then '/' else c

/-- The globs of one allowed project: itself and, for all below a directory, the
directory. -/
def projectGlobs (project : Text) : List Text :=
  let normalized := forwardSlashes project
  match stripSuffix "/**".toList normalized with
  | some trimmed => if trimmed = [] then [normalized] else [normalized, trimmed]
  | none => [normalized]

section
variable (crates : PathCrates) (ws : SecureWorkspace) (d : Disk)

/-- `set_allowed_projects`. The raw list is kept also when a glob is refused. -/
def setAllowedProjects (projects : List Text) : Except Text SecureWorkspace :=
  if projects = [] then .ok { ws with allowedProjects := projects, allowedPatterns := none }
  else
    match (projects.flatMap projectGlobs).findSome? crates.globError with
    | some message => .error message
    | none =>
      .ok { ws with
        allowedProjects := projects, allowedPatterns := some (projects.flatMap projectGlobs) }

/-- The current directory as an absolute path. -/
def currentPath : PathBuf := pathJoin ws.sandboxRoot ws.currentDir

def normalizeCandidate (path : PathBuf) : Except Text PathBuf :=
  if isAbsolute path then
    .error "Absolute paths are not allowed in workspace operations".toList
  else .ok (crates.clean (pathJoin ws.currentPath path))

def ensureWithinSandbox (path : PathBuf) : Except Text Unit :=
  if pathStartsWith path ws.sandboxRoot then .ok ()
  else .error "Security violation: attempted to escape sandbox".toList

def relativeFromRoot (path : PathBuf) : Except Text PathBuf :=
  match pathStripPrefix path ws.sandboxRoot with
  | some relative => .ok relative
  | none => .error ("Path ".toList ++ path.text ++ " not within sandbox ".toList ++
      ws.sandboxRoot.text)

def ensureAllowed (relative : PathBuf) : Except Text Unit :=
  match ws.allowedPatterns with
  | none => .ok ()
  | some patterns =>
    if components relative = [] then .ok ()
    else if crates.globMatches patterns (forwardSlashes relative.text) then .ok ()
    else .error ("Working directory '".toList ++ forwardSlashes relative.text ++
      "' is not in the allowed project list".toList)

/-- `change_dir`: the directory entered, and the workspace that is in it. -/
def changeDir (path : PathBuf) : Except Text (PathBuf × SecureWorkspace) := do
  let cleaned ← normalizeCandidate crates ws path
  if pathExists d cleaned = false then
    .error ("Directory does not exist: ".toList ++ cleaned.text)
  else
    match canonicalize d cleaned with
    | .error _ => .error ("Failed to access directory: ".toList ++ cleaned.text)
    | .ok canonical => do
      ensureWithinSandbox ws canonical
      if isDir d canonical = false then
        .error (canonical.text ++ " is not a directory".toList)
      else do
        let relative ← relativeFromRoot ws canonical
        ensureAllowed crates ws relative
        .ok (canonical, { ws with
          currentDir := if components relative = [] then ⟨".".toList⟩ else relative })

/-- One component of a path that is counted down from the root. -/
def depthAfter (depth : Int) : Component → Except Text Int
  | .rootDir => .ok depth
  | .curDir => .ok depth
  | .parentDir =>
    if depth - 1 < 0 then .error "Security violation: path escapes sandbox".toList
    else .ok (depth - 1)
  | .normal _ => .ok (depth + 1)

def ensureNormalized (path : PathBuf) : Except Text Unit :=
  if pathStartsWith path ws.sandboxRoot = false then
    .error "Security violation: path outside sandbox".toList
  else
    match pathStripPrefix path ws.sandboxRoot with
    | none => .ok ()
    | some relative => (components relative).foldlM depthAfter 0 >>= fun _ => .ok ()

/-- `resolve_path`: a path that does not exist is taken as it is spelled. -/
def resolvePath (path : PathBuf) : Except Text PathBuf := do
  let cleaned ← normalizeCandidate crates ws path
  if pathExists d cleaned then
    match canonicalize d cleaned with
    | .error _ => .error ("Failed to canonicalize path: ".toList ++ cleaned.text)
    | .ok canonical => do
      ensureWithinSandbox ws canonical
      .ok canonical
  else do
    ensureNormalized ws cleaned
    .ok cleaned

/-- The workspace after `set_allowed_projects`, also when it fails. -/
def allowing (projects : List Text) : SecureWorkspace :=
  match setAllowedProjects crates ws projects with
  | .ok allowed => allowed
  | .error _ => { ws with allowedProjects := projects }

end

/-! ## What is entered -/

variable {crates : PathCrates} {ws ws' : SecureWorkspace} {d : Disk} {path entered : PathBuf}

/-- A new workspace is in its root, which is a canonical directory. -/
theorem create_ok (made : create d path = .ok ws) :
    ∃ root, canonicalize d path = .ok root ∧ isDir d root = true ∧
      ws = ⟨root, ⟨".".toList⟩, none, []⟩ := by
  unfold create at made
  cases found : canonicalize d path with
  | error e => simp [found] at made
  | ok root =>
    simp only [found] at made
    split at made
    · rename_i there
      cases made
      exact ⟨root, rfl, there, rfl⟩
    · cases made

theorem setAllowedProjects_ok {projects : List Text}
    (ran : setAllowedProjects crates ws projects = .ok ws') :
    ws'.sandboxRoot = ws.sandboxRoot ∧ ws'.currentDir = ws.currentDir := by
  unfold setAllowedProjects at ran
  split at ran
  · cases ran
    exact ⟨rfl, rfl⟩
  · split at ran
    · cases ran
    · cases ran
      exact ⟨rfl, rfl⟩

/-- A directory that is entered is a canonical one below the sandbox root. -/
theorem changeDir_ok (ran : changeDir crates ws d path = .ok (entered, ws')) :
    ∃ cleaned relative, canonicalize d cleaned = .ok entered ∧ isDir d entered = true ∧
      pathStripPrefix entered ws.sandboxRoot = some relative ∧
      ws' = { ws with currentDir := if components relative = [] then ⟨".".toList⟩ else relative } := by
  unfold changeDir at ran
  obtain ⟨cleaned, -, ran⟩ := Except.bind_eq_ok ran
  split at ran
  · cases ran
  · cases found : canonicalize d cleaned with
    | error e => simp [found] at ran
    | ok canonical =>
      simp only [found] at ran
      obtain ⟨_, -, ran⟩ := Except.bind_eq_ok ran
      split at ran
      · cases ran
      · rename_i there
        obtain ⟨relative, stripped, ran⟩ := Except.bind_eq_ok ran
        obtain ⟨_, -, ran⟩ := Except.bind_eq_ok ran
        cases ran
        unfold relativeFromRoot at stripped
        split at stripped
        · rename_i other same
          cases stripped
          exact ⟨cleaned, relative, found, by simpa using there, same, rfl⟩
        · cases stripped

/-- What is entered is allowed. -/
theorem changeDir_allows {relative : PathBuf}
    (ran : changeDir crates ws d path = .ok (entered, ws'))
    (stripped : pathStripPrefix entered ws.sandboxRoot = some relative) :
    ensureAllowed crates ws relative = .ok () := by
  unfold changeDir at ran
  obtain ⟨cleaned, -, ran⟩ := Except.bind_eq_ok ran
  split at ran
  · cases ran
  · cases found : canonicalize d cleaned with
    | error e => simp [found] at ran
    | ok canonical =>
      simp only [found] at ran
      obtain ⟨_, -, ran⟩ := Except.bind_eq_ok ran
      split at ran
      · cases ran
      · obtain ⟨other, spelled, ran⟩ := Except.bind_eq_ok ran
        obtain ⟨_, allowed, ran⟩ := Except.bind_eq_ok ran
        cases ran
        rw [relativeFromRoot, stripped] at spelled
        cases spelled
        exact allowed

theorem allowing_place (projects : List Text) :
    (allowing crates ws projects).sandboxRoot = ws.sandboxRoot ∧
      (allowing crates ws projects).currentDir = ws.currentDir := by
  unfold allowing
  cases ran : setAllowedProjects crates ws projects with
  | error message => exact ⟨rfl, rfl⟩
  | ok allowed => exact setAllowedProjects_ok ran

/-- The current directory is then the one that was entered. -/
theorem currentPath_entered (root : isAbsolute ws.sandboxRoot = true)
    (ran : changeDir crates ws d path = .ok (entered, ws')) :
    same ws'.currentPath entered = true := by
  obtain ⟨cleaned, relative, -, -, stripped, rfl⟩ := changeDir_ok ran
  unfold pathStripPrefix at stripped
  split at stripped
  · rename_i below
    obtain ⟨rest, shape⟩ := List.isPrefixOf_iff_prefix.mp below
    have some : components ws.sandboxRoot ≠ [] := by
      intro none
      have head := (isAbsolute_iff ws.sandboxRoot).mp root
      rw [none] at head
      cases head
    obtain ⟨-, -, plain⟩ := components_start shape.symm some
    have filled : ws.sandboxRoot.text ≠ [] := by
      intro empty
      rw [isAbsolute, empty] at root
      cases root
    obtain ⟨spelled, relative_path⟩ := @components_ofComponents [] _ plain (by simp)
    rw [← shape, List.drop_left, Option.some.injEq] at stripped
    subst stripped
    rw [List.nil_append] at spelled relative_path
    rw [currentPath, same, beq_iff_eq, ← shape]
    dsimp only
    split
    · rename_i none
      rw [spelled] at none
      have dot : (components ⟨".".toList⟩).filter (· ≠ .curDir) = [] := by decide
      rw [components_pathJoin filled (by decide), dot, none]
    · rw [components_pathJoin filled (by simpa using relative_path), spelled]
      congr 1
      refine List.filter_eq_self.mpr fun c member => ?_
      have clean := plain c member
      cases c with
      | curDir => cases clean
      | rootDir => rfl
      | parentDir => rfl
      | normal name => rfl
  · cases stripped

end SecureWorkspace

end Devit
