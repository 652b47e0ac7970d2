import Devit.Errors

/-! Which paths of a patch may be touched at all. A path is checked as text, then
joined to the root and resolved as far as it exists; only looking is done here.
`clean`, the lexical normal form of a path, comes from outside. -/
namespace Devit
open Text Path FileSystem

structure PathSecurityContext where
  repoRoot : PathBuf
  allowInternalSymlinks : Bool
  deriving DecidableEq, Repr

namespace PathSecurityContext

/-- A refusal of a path. -/
def refusal (rule requiredLevel : String) (context : Text) : DevItError :=
  .policyBlock rule.toList requiredLevel.toList "patch".toList context

/-- `PathSecurityContext::new`. -/
def create (d : Disk) (repoRoot : PathBuf) (allowInternalSymlinks : Bool) :
    DevItResult PathSecurityContext :=
  match canonicalize d repoRoot with
  | .error e => .error (.io "canonicalize repository root".toList (some repoRoot) e)
  | .ok root => .ok ⟨root, allowInternalSymlinks⟩

/-- `char::is_control`. -/
def isControl (c : Char) : Bool := c.toNat < 0x20 || (0x7F ≤ c.toNat && c.toNat < 0xA0)

/-- The length of a text in bytes. -/
def byteLength (s : Text) : Nat := (s.map Char.utf8Size).sum

def validateBasicPath (path : PathBuf) : DevItResult Unit :=
  if contains "../".toList path.text || contains "..\\".toList path.text then
    .error (refusal "path_traversal_protection" "any" "Path traversal attempt detected".toList)
  else if Char.ofNat 0 ∈ path.text then
    .error (refusal "path_security_null_byte" "any" "Null byte in path".toList)
  else if path.text.any fun c => isControl c && c != '\t' && c != '\n' then
    .error (refusal "path_security_control_chars" "any" "Control character in path".toList)
  else if byteLength path.text > 4096 then
    .error (refusal "path_security_length_limit" "any" "Path too long".toList)
  else .ok ()

/-- One component of a path that is resolved by hand. -/
def resolveComponent (root resolved : PathBuf) : Component → DevItResult PathBuf
  | .normal name => .ok (pathJoin resolved ⟨name⟩)
  | .parentDir =>
    match parent resolved with
    | none => .error (refusal "path_resolution_escape" "any"
        "Path resolution would escape repository".toList)
    | some above =>
      if pathStartsWith above root then .ok above
      else .error (refusal "path_resolution_escape" "any"
        "Path resolution would escape repository".toList)
  | .curDir => .ok resolved
  | .rootDir => .ok resolved

section
variable (clean : PathBuf → PathBuf) (ctx : PathSecurityContext) (d : Disk)

def manualPathResolution (path : PathBuf) : DevItResult PathBuf :=
  if isAbsolute path then .ok (clean path)
  else (components path).foldlM (resolveComponent ctx.repoRoot) ctx.repoRoot

/-- A path that does not exist is taken from its parent, if that exists. -/
def safeCanonicalize (path : PathBuf) : DevItResult PathBuf :=
  if pathExists d path then
    match canonicalize d path with
    | .error e => .error (.io "canonicalize path".toList (some path) e)
    | .ok canonical => .ok canonical
  else
    match parent path with
    | none => manualPathResolution clean ctx path
    | some above =>
      if pathExists d above then
        match canonicalize d above with
        | .error e => .error (.io "canonicalize parent path".toList (some above) e)
        | .ok canonicalParent =>
          match fileName path with
          | some name => .ok (pathJoin canonicalParent ⟨name⟩)
          | none => manualPathResolution clean ctx path
      else manualPathResolution clean ctx path

def validatePatchPath (path : PathBuf) : DevItResult PathBuf :=
  if same path ⟨"/dev/null".toList⟩ then .ok ⟨"/dev/null".toList⟩
  else do
    validateBasicPath path
    if isAbsolute path then
      .error (refusal "path_security_no_absolute" "any"
        ("Absolute paths not allowed in patches: ".toList ++ path.text))
    else do
      let canonicalPath ← safeCanonicalize clean ctx d (pathJoin ctx.repoRoot path)
      if pathStartsWith canonicalPath ctx.repoRoot then .ok canonicalPath
      else .error (refusal "path_security_repo_boundary" "any"
        ("Path escapes repository: ".toList ++ path.text ++ " -> ".toList ++ canonicalPath.text))

def validateSymlink (symlinkPath target : PathBuf) : DevItResult Unit := do
  let canonicalSymlink ← validatePatchPath clean ctx d symlinkPath
  if isAbsolute target then
    .error (refusal "symlink_security_no_absolute" "any"
      ("Symlink ".toList ++ symlinkPath.text ++ " points to absolute path: ".toList ++ target.text))
  else do
    let symlinkDir := (parent canonicalSymlink).getD ctx.repoRoot
    let canonicalTarget ← safeCanonicalize clean ctx d (pathJoin symlinkDir target)
    if pathStartsWith canonicalTarget ctx.repoRoot = false then
      .error (refusal "symlink_security_repo_boundary" "any"
        ("Symlink ".toList ++ symlinkPath.text ++ " target escapes repository: ".toList ++
          target.text ++ " -> ".toList ++ canonicalTarget.text))
    else if ctx.allowInternalSymlinks = false then
      .error (refusal "symlink_policy_disabled" "trusted"
        "Symlinks not allowed by current policy".toList)
    else .ok ()

/-- The text of a link, up to repeated separators. -/
def linkText (target : Files.Route Text) : PathBuf :=
  ofComponents ((if target.absolute then [.rootDir] else []) ++ target.hops.map fun
    | .here => .curDir
    | .up => .parentDir
    | .into name => .normal name)

/-- The second look at one path, after the patch was applied. -/
def preCommitPath (path : PathBuf) : DevItResult Unit := do
  let canonicalPath ← validatePatchPath clean ctx d path
  if pathExists d canonicalPath then
    match stat d false canonicalPath with
    | .ok (.link target) => validateSymlink clean ctx d canonicalPath (linkText target)
    | _ => .ok ()
  else .ok ()

def preCommitValidation (paths : List PathBuf) : DevItResult Unit :=
  paths.forM (preCommitPath clean ctx d)

end

end PathSecurityContext

end Devit
