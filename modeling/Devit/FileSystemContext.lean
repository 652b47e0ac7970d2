import Devit.JsonRpc
import Devit.Library.SystemPaths
import Devit.PathSecurity
import Devit.WorkspacePaths

/-! Which path strings the file tools accept. A string is checked as text, then
resolved as far as it exists: relative strings from the root, absolute ones by the
directory they end in. What is accepted is said in terms of where strings lead. -/
namespace Devit
open Text Path FileSystem
open Files (Loc Errno)

/-- What the tools are told by their process: the directory for temporary files,
the time put in errors, the texts of I/O errors, the programs that are installed, and
`str::to_lowercase`. -/
structure ToolEnvironment where
  tempDir : PathBuf
  timestamp : Text
  describe : Errno → Text
  installed : String → Bool
  lowercase : Text → Text

section
variable (env : ToolEnvironment)

def policyBlockError (rule requiredLevel currentLevel : String) (context : Text) : McpError :=
  let formatted := "❌ Operation blocked: security violation (".toList ++ context ++ ")".toList
  .rpc (-32601) formatted (some (.ofFields [
    ("code", .string "E_POLICY_BLOCK".toList), ("message", .string formatted),
    ("hint", .string "Increase the approval level or modify the policy".toList),
    ("actionable", .bool true), ("timestamp", .string env.timestamp),
    ("details", .ofFields [("rule", .string rule.toList),
      ("required_level", .string requiredLevel.toList),
      ("current_level", .string currentLevel.toList), ("context", .string context)])]))

def ioError (operation : String) (path : Option PathBuf) (source : Text) : McpError :=
  .rpc (-32603) ("❌ Operation failed: I/O error during ".toList ++ operation.toList)
    (some (.ofFields [
      ("code", .string "E_IO".toList),
      ("message", .string "I/O error during the operation".toList),
      ("hint", .string "Check permissions and available disk space".toList),
      ("actionable", .bool true), ("timestamp", .string env.timestamp),
      ("details", .ofFields [("operation", .string operation.toList),
        ("path", match path with
          | none => .null
          | some path => .string path.text),
        ("source", .string source)])]))

end

structure FileSystemContext where
  rootPath : PathBuf
  allowedPaths : List PathBuf

namespace FileSystemContext

section
variable (env : ToolEnvironment) (d : Disk)

/-- Allowed paths that do not exist are left out. -/
def withAllowedPaths (rootPath : PathBuf) (allowedPaths : List PathBuf) :
    Except McpError FileSystemContext :=
  match realPath d rootPath with
  | .error e =>
    .error (ioError env "canonicalize repository root" (some rootPath) (env.describe e))
  | .ok canonicalRoot =>
    .ok ⟨canonicalRoot, allowedPaths.filterMap fun p => (realPath d p).toOption⟩

variable (ctx : FileSystemContext)

/-- A canonical path in any directory that is allowed. -/
def isPathAllowed (canonical : PathBuf) : Bool :=
  pathStartsWith canonical ctx.rootPath || pathStartsWith canonical env.tempDir ||
    ctx.allowedPaths.any fun allowed => pathStartsWith canonical allowed

/-- The loop up to the first ancestor that exists, with the names it leaves. The
ancestors of a path the system takes are taken as well. -/
def climb (path : PathBuf) : Nat → PathBuf → List Text → Except McpError (PathBuf × List Text)
  | 0, _, _ => .error (stuck path)
  | fuel + 1, cursor, missing =>
    if pathExists d cursor then .ok (cursor, missing)
    else
      match fileName cursor with
      | none => .error (stuck path)
      | some name =>
        match parent cursor with
        | none => .error (stuck path)
        | some above => climb path fuel above (missing ++ [name])
where
  stuck (path : PathBuf) : McpError :=
    policyBlockError env "path_security_repo_boundary" "any" "patch"
      ("Cannot resolve path ancestor: ".toList ++ path.text)

def canonicalizeAncestor (path : PathBuf) : Except McpError PathBuf :=
  if pathExists d path then
    match canonicalize d path with
    | .error e => .error (ioError env "canonicalize parent path" (some path) (env.describe e))
    | .ok canonical => .ok canonical
  else
    match climb env d path ((components path).length + 1) path [] with
    | .error e => .error e
    | .ok (cursor, missing) =>
      match canonicalize d cursor with
      | .error e => .error (ioError env "canonicalize parent path" (some cursor) (env.describe e))
      | .ok canonical =>
        .ok (missing.reverse.foldl (fun canonical name => pathJoin canonical ⟨name⟩) canonical)

/-- One component of a path that is resolved by hand. -/
def manualStep (resolved : PathBuf) : Component → Except McpError PathBuf
  | .normal name => .ok (pathJoin resolved ⟨name⟩)
  | .parentDir =>
    match parent resolved with
    | none => .error escape
    | some above => if pathStartsWith above ctx.rootPath then .ok above else .error escape
  | .curDir => .ok resolved
  | .rootDir => .ok resolved
where
  escape : McpError := policyBlockError env "path_resolution_escape" "any" "patch"
    "Path resolution would escape repository".toList

def manualResolve (target : PathBuf) : Except McpError PathBuf :=
  (components target).foldlM (manualStep env ctx) ctx.rootPath

/-- The refusal of an absolute path. -/
def outsideProject (inputPath : PathBuf) : McpError :=
  policyBlockError env "path_security_repo_boundary" "any" "patch"
    ("Absolute path outside project: ".toList ++ inputPath.text)

/-- An absolute path that does not exist, by the directory above it. -/
def resolveMissing (inputPath above : PathBuf) : Except McpError PathBuf := do
  let canonicalParent ← canonicalizeAncestor env d above
  match fileName inputPath with
  | none => .error (outsideProject env inputPath)
  | some name =>
    if isPathAllowed env ctx canonicalParent then .ok (pathJoin canonicalParent ⟨name⟩)
    else .error (outsideProject env inputPath)

/-- `resolve_path_internal` of an absolute path. -/
def resolveAbsolute (inputPath : PathBuf) : Except McpError PathBuf :=
  if present d inputPath then
    match realPath d inputPath with
    | .error e => .error (ioError env "canonicalize path" (some inputPath) (env.describe e))
    | .ok canonical =>
      if isPathAllowed env ctx canonical then .ok canonical
      else .error (outsideProject env inputPath)
  else
    match parent inputPath with
    | none => .error (outsideProject env inputPath)
    | some above => resolveMissing env d ctx inputPath above

/-- `resolve_path_internal` of a relative path. -/
def resolveRelative (inputPath : PathBuf) : Except McpError PathBuf := do
  let joined := pathJoin ctx.rootPath inputPath
  let canonical ←
    if present d joined then
      match realPath d joined with
      | .error e => .error (ioError env "canonicalize path" (some joined) (env.describe e))
      | .ok canonical => .ok canonical
    else manualResolve env ctx inputPath
  if pathStartsWith canonical ctx.rootPath then .ok canonical
  else .error (policyBlockError env "path_security_repo_boundary" "any" "patch"
    ("Path escapes repository: ".toList ++ inputPath.text ++ " -> ".toList ++ canonical.text))

def resolvePathInternal (rawPath : Text) : Except McpError PathBuf :=
  if contains "../".toList rawPath || contains "..\\".toList rawPath then
    .error (policyBlockError env "path_traversal_protection" "any" "patch"
      "Path traversal attempt detected".toList)
  else if Char.ofNat 0 ∈ rawPath then
    .error (policyBlockError env "path_security_null_byte" "any" "patch"
      "Null byte detected in path".toList)
  else if PathSecurityContext.byteLength rawPath > 4096 then
    .error (policyBlockError env "path_security_length_limit" "any" "patch" "Path too long".toList)
  else if isAbsolute ⟨rawPath⟩ then resolveAbsolute env d ctx ⟨rawPath⟩
  else resolveRelative env d ctx ⟨rawPath⟩

def resolveReadPath (rawPath : Text) : Except McpError PathBuf :=
  resolvePathInternal env d ctx rawPath

def resolveWritePath (rawPath : Text) : Except McpError PathBuf :=
  resolvePathInternal env d ctx rawPath

/-- The context takes the string as inside the sandbox. -/
def Accepts (rawPath : Text) : Prop := ∃ p, resolvePathInternal env d ctx rawPath = .ok p

end

/-! ## Where strings lead -/

/-- The path leads to a place that exists. -/
def Leads (d : Disk) (p : PathBuf) (loc : Loc Text) : Prop :=
  taken p = true ∧ lookup d true p = .ok (.found loc)

/-- The place is in the sandbox, in the directory for temporary files, or in one of
the allowed paths. -/
def AllowedPlace (env : ToolEnvironment) (d : Disk) (sandbox : PathBuf) (allowed : List PathBuf)
    (loc : Loc Text) : Prop :=
  (∃ root, Leads d sandbox root ∧ root <+: loc) ∨
    pathStartsWith (absolute loc) env.tempDir = true ∨
      ∃ path ∈ allowed, ∃ dir, Leads d path dir ∧ dir <+: loc

/-- A string has a traversal marker. -/
def Marked (s : Text) : Prop :=
  contains "../".toList s = true ∨ contains "..\\".toList s = true

/-- An absolute path that exists leads to an allowed place. One that does not ends
in a name, and the nearest directory that exists, with the names below it that are
missing, is an allowed place. -/
def AbsoluteInside (env : ToolEnvironment) (d : Disk) (sandbox : PathBuf) (allowed : List PathBuf)
    (p : PathBuf) : Prop :=
  (pathExists d p = true ∧ ∃ loc, Leads d p loc ∧ AllowedPlace env d sandbox allowed loc) ∨
    (pathExists d p = false ∧ ∃ above name mid rest, parent p = some above ∧
      fileName p = some name ∧ WorkspacePaths.Physical d above mid rest ∧
        AllowedPlace env d sandbox allowed (mid ++ rest))

/-- A relative path that exists leads below the root. One that does not may only end
in `..` behind a name. -/
def RelativeInside (d : Disk) (root : Loc Text) (p : PathBuf) : Prop :=
  (pathExists d (pathJoin (absolute root) p) = true ∧
      ∃ loc, Leads d (pathJoin (absolute root) p) loc ∧ root <+: loc) ∨
    (pathExists d (pathJoin (absolute root) p) = false ∧
      (.parentDir ∈ components p → ∃ name, .normal name ∈ components p))

/-- The string names a place inside the sandbox. -/
def Harmless (env : ToolEnvironment) (d : Disk) (sandbox : PathBuf) (allowed : List PathBuf)
    (root : Loc Text) (s : Text) : Prop :=
  ¬ Marked s ∧ (isAbsolute ⟨s⟩ = true ∧ AbsoluteInside env d sandbox allowed ⟨s⟩ ∨
    isAbsolute ⟨s⟩ = false ∧ RelativeInside d root ⟨s⟩)

variable {env : ToolEnvironment} {d : Disk} {ctx : FileSystemContext} {sandbox : PathBuf}
  {allowed : List PathBuf} {root loc : Loc Text}

/-- What a context was made for. -/
structure MadeFor (d : Disk) (sandbox : PathBuf) (allowed : List PathBuf) (root : Loc Text)
    (ctx : FileSystemContext) : Prop where
  leads : Leads d sandbox root
  path : ctx.rootPath = absolute root
  plain : ∀ name ∈ root, PlainName name
  listed : ∀ p, p ∈ ctx.allowedPaths ↔ ∃ q ∈ allowed, ∃ dir, Leads d q dir ∧ p = absolute dir

theorem realPath_iff {p c : PathBuf} :
    realPath d p = .ok c ↔ ∃ loc, Leads d p loc ∧ c = absolute loc := by
  unfold realPath Leads
  constructor
  · intro ran
    split at ran
    · rename_i fits
      obtain ⟨loc, rfl, leads⟩ := canonicalize_ok ran
      exact ⟨loc, ⟨fits, leads⟩, rfl⟩
    · cases ran
  · rintro ⟨loc, ⟨fits, leads⟩, rfl⟩
    rw [if_pos fits]
    exact canonicalize_found leads

theorem Leads.unique {p : PathBuf} {loc' : Loc Text} (leads : Leads d p loc)
    (leads' : Leads d p loc') : loc = loc' := by
  cases leads.2.symm.trans leads'.2
  rfl

theorem Leads.plain {p : PathBuf} (spelled : Spelled d) (leads : Leads d p loc) :
    ∀ name ∈ loc, PlainName name := lookup_plain spelled leads.2

theorem withAllowedPaths_ok (spelled : Spelled d)
    (made : withAllowedPaths env d sandbox allowed = .ok ctx) :
    ∃ root, MadeFor d sandbox allowed root ctx := by
  unfold withAllowedPaths at made
  cases found : realPath d sandbox with
  | error e => simp [found] at made
  | ok canonical =>
    simp only [found] at made
    cases made
    obtain ⟨root, leads, rfl⟩ := realPath_iff.mp found
    refine ⟨root, leads, rfl, leads.plain spelled, fun p => ?_⟩
    rw [List.mem_filterMap]
    constructor
    · rintro ⟨q, member, kept⟩
      cases there : realPath d q with
      | error e => simp [there, Except.toOption] at kept
      | ok canonical =>
        obtain ⟨dir, leadsTo, rfl⟩ := realPath_iff.mp there
        simp only [there, Except.toOption, Option.some.injEq] at kept
        exact ⟨q, member, dir, leadsTo, kept.symm⟩
    · rintro ⟨q, member, dir, leadsTo, rfl⟩
      refine ⟨q, member, ?_⟩
      rw [realPath_iff.mpr ⟨dir, leadsTo, rfl⟩]
      rfl

theorem isPathAllowed_iff {q : PathBuf} (spelled : Spelled d)
    (made : MadeFor d sandbox allowed root ctx) (plain : ∀ name ∈ loc, PlainName name)
    (same : components q = components (absolute loc)) :
    isPathAllowed env ctx q = true ↔ AllowedPlace env d sandbox allowed loc := by
  have starts : ∀ base, pathStartsWith q base = pathStartsWith (absolute loc) base := by
    intro base
    rw [pathStartsWith, pathStartsWith, same]
  have below : ∀ {dir}, (∀ name ∈ dir, PlainName name) →
      (pathStartsWith (absolute loc) (absolute dir) = true ↔ dir <+: loc) :=
    fun plainDir => starts_absolute plain plainDir
  rw [isPathAllowed, starts, starts, Bool.or_eq_true, Bool.or_eq_true, List.any_eq_true, or_assoc,
    made.path, below made.plain, AllowedPlace]
  refine or_congr ?_ (or_congr Iff.rfl ?_)
  · constructor
    · exact fun inside => ⟨root, made.leads, inside⟩
    · rintro ⟨other, leads, inside⟩
      rwa [made.leads.unique leads]
  · constructor
    · rintro ⟨p, listed, inside⟩
      obtain ⟨path, member, dir, leads, rfl⟩ := (made.listed p).mp listed
      rw [starts, below (leads.plain spelled)] at inside
      exact ⟨path, member, dir, leads, inside⟩
    · rintro ⟨path, member, dir, leads, inside⟩
      refine ⟨absolute dir, (made.listed _).mpr ⟨path, member, dir, leads, rfl⟩, ?_⟩
      rwa [starts, below (leads.plain spelled)]

/-! ## The nearest directory that exists -/

/-- The last name of an absolute path, and the path without it. -/
theorem last_of_absolute {names : List Text} {name : Text}
    (plain : ∀ other ∈ names ++ [name], PlainName other) :
    fileName (absolute (names ++ [name])) = some name ∧
      parent (absolute (names ++ [name])) = some (absolute names) := by
  have shape : components (absolute (names ++ [name])) =
      (.rootDir :: names.map .normal) ++ [.normal name] := by
    rw [(components_absolute plain).1]
    simp
  rw [fileName, parent, shape, List.getLast?_concat, List.dropLast_concat]
  exact ⟨rfl, rfl⟩

/-- The loop goes up to the part that exists. -/
theorem climb_found {path : PathBuf} {found : List Text}
    (there : pathExists d (absolute found) = true) (rest : List Text)
    (plain : ∀ name ∈ found ++ rest, PlainName name)
    (missing : ∀ more, more <+: rest → more ≠ [] → pathExists d (absolute (found ++ more)) = false)
    {fuel : Nat} (enough : rest.length < fuel) (left : List Text) :
    climb env d path fuel (absolute (found ++ rest)) left =
      .ok (absolute found, left ++ rest.reverse) := by
  induction rest using List.reverseRecOn generalizing fuel left with
  | nil =>
    obtain ⟨fuel, rfl⟩ : ∃ n, fuel = n + 1 := ⟨fuel - 1, by simp at enough; omega⟩
    rw [climb, List.append_nil, if_pos there]
    simp
  | append_singleton rest name ih =>
    obtain ⟨fuel, rfl⟩ : ∃ n, fuel = n + 1 := ⟨fuel - 1, by omega⟩
    have nowhere := missing (rest ++ [name]) List.prefix_rfl (by simp)
    rw [← List.append_assoc] at plain
    obtain ⟨last, higher⟩ := last_of_absolute plain
    have onward := ih (fun other member => plain other (List.mem_append_left _ member))
      (fun more inside => missing more (inside.trans (List.prefix_append _ _)))
      (by rw [List.length_append] at enough; simp at enough; omega) (left ++ [name])
    rw [climb, if_neg (by simp [nowhere]), ← List.append_assoc, last, higher]
    dsimp only
    rw [onward]
    simp

/-- Names pushed on a path. -/
theorem components_pushed {q : PathBuf} {names rest : List Text}
    (plain : ∀ name ∈ names ++ rest, PlainName name)
    (same : components q = components (absolute names)) :
    components (rest.foldl (fun canonical name => pathJoin canonical ⟨name⟩) q) =
      components (absolute (names ++ rest)) := by
  induction rest generalizing q names with
  | nil => simpa using same
  | cons name rest ih =>
    have parts : names ++ name :: rest = (names ++ [name]) ++ rest := by simp
    rw [parts] at plain ⊢
    have plainName : PlainName name := plain name (by simp)
    have plainNames : ∀ other ∈ names, PlainName other :=
      fun other member => plain other (by simp [member])
    have filled : q.text ≠ [] := by
      rw [(components_absolute plainNames).1] at same
      rcases List.eq_nil_or_concat names with rfl | ⟨init, last, rfl⟩
      · exact text_ne_nil (show components q = [] ++ [.rootDir] from same)
      · refine @text_ne_nil q (.rootDir :: init.map .normal) (.normal last) ?_
        rw [same]
        simp
    refine ih plain ?_
    obtain ⟨single, relative⟩ := components_name plainName
    rw [components_pathJoin filled relative, same, single,
      ← components_join_name plainNames plainName,
      components_pathJoin (absolute_text names) relative, single]

theorem physical_plain {names rest : List Text} {mid : Loc Text} (spelled : Spelled d)
    (plain : ∀ name ∈ names, PlainName name)
    (physical : WorkspacePaths.Physical d (absolute names) mid rest) :
    ∀ name ∈ mid ++ rest, PlainName name := by
  obtain ⟨found, shape, leads, -⟩ := physical
  rw [(components_absolute plain).1] at shape
  have same : names = found ++ rest := normal_injective.list_map (List.cons.inj shape).2
  intro name member
  rcases List.mem_append.mp member with inside | left
  · exact lookup_plain spelled leads name inside
  · exact plain name (by rw [same]; exact List.mem_append_right _ left)

/-- The path that an ancestor is resolved to. -/
theorem canonicalizeAncestor_physical {names rest : List Text} {mid : Loc Text} (sound : d.Sound)
    (spelled : Spelled d) (plain : ∀ name ∈ names, PlainName name)
    (physical : WorkspacePaths.Physical d (absolute names) mid rest) :
    ∃ q, canonicalizeAncestor env d (absolute names) = .ok q ∧
      components q = components (absolute (mid ++ rest)) := by
  have plainMid := physical_plain spelled plain physical
  obtain ⟨found, shape, leads, missing⟩ := physical
  rw [(components_absolute plain).1] at shape
  have same : names = found ++ rest := normal_injective.list_map (List.cons.inj shape).2
  have there : pathExists d (absolute found) = true := exists_of_leads sound leads
  unfold canonicalizeAncestor
  by_cases whole : pathExists d (absolute names) = true
  · have none_left : rest = [] := by
      by_contra filled
      rw [same, missing rest List.prefix_rfl filled] at whole
      cases whole
    subst none_left
    rw [List.append_nil] at same
    rw [if_pos whole, same, canonicalize_found leads]
    exact ⟨absolute mid, rfl, by rw [List.append_nil]⟩
  · have climbed := @climb_found env d (absolute names) found there rest (same ▸ plain) missing
      ((components (absolute names)).length + 1)
      (by rw [(components_absolute plain).1, same]; simp; omega) []
    rw [if_neg whole]
    rw [← same, List.nil_append] at climbed
    simp only [climbed, canonicalize_found leads]
    exact ⟨_, rfl, by rw [List.reverse_reverse]; exact components_pushed plainMid rfl⟩

/-! ## Resolving by hand -/

theorem manualResolve_skips (comps : List Component) (resolved : PathBuf) :
    comps.foldlM (manualStep env ctx) resolved =
      (comps.filter (· ≠ .curDir)).foldlM (manualStep env ctx) resolved := by
  induction comps generalizing resolved with
  | nil => rfl
  | cons c comps ih =>
    by_cases dot : c = .curDir
    · subst dot
      exact ih resolved
    · rw [List.filter_cons_of_pos (by simpa using dot), List.foldlM_cons, List.foldlM_cons]
      exact congrArg _ (funext ih)

theorem manualStep_names (names : List Text) (resolved : PathBuf) :
    (names.map Component.normal).foldlM (manualStep env ctx) resolved =
      .ok (names.foldl (fun resolved name => pathJoin resolved ⟨name⟩) resolved) := by
  induction names generalizing resolved with
  | nil => rfl
  | cons name names ih => exact ih _

/-- A `..` takes away a name below the root, and nothing else. -/
theorem manualStep_up {q : PathBuf} {named : List Text} (rooted : ctx.rootPath = absolute root)
    (plain : ∀ name ∈ root ++ named, PlainName name)
    (same : components q = components (absolute (root ++ named))) :
    (∃ p, manualStep env ctx q .parentDir = .ok p) ↔ named ≠ [] := by
  have plainRoot : ∀ name ∈ root, PlainName name :=
    fun name member => plain name (List.mem_append_left _ member)
  have higher : parent q = parent (absolute (root ++ named)) := by rw [parent, parent, same]
  rw [manualStep, higher]
  rcases List.eq_nil_or_concat named with rfl | ⟨init, last, rfl⟩
  · rw [List.append_nil]
    refine iff_of_false ?_ (by simp)
    rintro ⟨p, ran⟩
    rcases List.eq_nil_or_concat root with rfl | ⟨init, last, rfl⟩
    · cases ran
    · rw [List.concat_eq_append] at plainRoot rooted ran
      have plainInit : ∀ name ∈ init, PlainName name :=
        fun name member => plainRoot name (List.mem_append_left _ member)
      have apart : ¬ pathStartsWith (absolute init) ctx.rootPath = true := by
        rw [rooted, starts_absolute plainInit plainRoot]
        intro inside
        have longer := inside.length_le
        simp at longer
      rw [(last_of_absolute plainRoot).2] at ran
      simp only [apart, Bool.false_eq_true, ↓reduceIte] at ran
      cases ran
  · rw [List.concat_eq_append] at plain ⊢
    rw [← List.append_assoc] at plain
    have plainInit : ∀ name ∈ root ++ init, PlainName name :=
      fun name member => plain name (List.mem_append_left _ member)
    refine iff_of_true ⟨absolute (root ++ init), ?_⟩ (by simp)
    have below : pathStartsWith (absolute (root ++ init)) ctx.rootPath = true := by
      rw [rooted, starts_absolute plainInit plainRoot]
      exact List.prefix_append _ _
    rw [← List.append_assoc, (last_of_absolute plain).2]
    exact if_pos below

/-- A path resolved by hand starts with the root. -/
theorem manualStep_starts {q p : PathBuf} {c : Component}
    (starts : ∀ name, c = .normal name → pathStartsWith (pathJoin q ⟨name⟩) ctx.rootPath = true)
    (kept : pathStartsWith q ctx.rootPath = true) (ran : manualStep env ctx q c = .ok p) :
    pathStartsWith p ctx.rootPath = true := by
  cases c with
  | rootDir => cases ran; exact kept
  | curDir => cases ran; exact kept
  | normal name => cases ran; exact starts name rfl
  | parentDir =>
    rw [manualStep] at ran
    split at ran
    · cases ran
    · split at ran
      · cases ran
        assumption
      · cases ran

/-- **Relative strings that do not exist.** -/
theorem manualResolve_iff {s : Text} (rooted : ctx.rootPath = absolute root)
    (plainRoot : ∀ name ∈ root, PlainName name) (relative : isAbsolute ⟨s⟩ = false)
    (clean : contains "../".toList s = false) :
    (∃ p, manualResolve env ctx ⟨s⟩ = .ok p ∧ pathStartsWith p ctx.rootPath = true) ↔
      (.parentDir ∈ components ⟨s⟩ → ∃ name, .normal name ∈ components ⟨s⟩) := by
  obtain ⟨named, plainNamed, spelled⟩ := names_then_up relative clean
  have plain : ∀ name ∈ root ++ named, PlainName name := by
    intro name member
    exact (List.mem_append.mp member).elim (plainRoot name) (plainNamed name)
  have mem_iff : ∀ c, c ≠ .curDir →
      (c ∈ components ⟨s⟩ ↔ c ∈ (components ⟨s⟩).filter (· ≠ .curDir)) := by
    intro c other
    simp [List.mem_filter, other]
  let pushed := named.foldl (fun resolved name => pathJoin resolved ⟨name⟩) ctx.rootPath
  have pushed_eq : components pushed = components (absolute (root ++ named)) :=
    components_pushed plain (by rw [rooted])
  have pushed_starts : pathStartsWith pushed ctx.rootPath = true := by
    rw [pathStartsWith, pushed_eq, rooted]
    exact (starts_absolute plain plainRoot).mpr (List.prefix_append _ _)
  rw [manualResolve, manualResolve_skips, mem_iff _ (by simp)]
  simp only [fun name => mem_iff (.normal name) (by simp)]
  rcases spelled with names | up
  · rw [names, manualStep_names]
    refine iff_of_true ⟨pushed, rfl, pushed_starts⟩ ?_
    simp
  · have last := @manualStep_up env ctx root pushed named rooted plain pushed_eq
    rw [up, List.foldlM_append, manualStep_names]
    have only : ∀ q, [Component.parentDir].foldlM (manualStep env ctx) q =
        manualStep env ctx q .parentDir := by
      intro q
      simp
    have reduces : (∃ p, manualStep env ctx pushed .parentDir = .ok p ∧
        pathStartsWith p ctx.rootPath = true) ↔ named ≠ [] := by
      rw [← last]
      constructor
      · rintro ⟨p, ran, -⟩
        exact ⟨p, ran⟩
      · rintro ⟨p, ran⟩
        exact ⟨p, ran, manualStep_starts (by rintro name ⟨⟩) pushed_starts ran⟩
    refine (Iff.trans ?_ reduces).trans ?_
    · exact exists_congr fun p => and_congr_left' (by rw [← only]; rfl)
    · cases named <;> simp

/-! ## What is accepted -/

/-- A joined path ends in the string. -/
theorem text_pathJoin (base : PathBuf) (s : Text) :
    ∃ front, (pathJoin base ⟨s⟩).text = front ++ s := by
  unfold pathJoin
  split
  · exact ⟨[], rfl⟩
  · split
    · exact ⟨base.text, rfl⟩
    · exact ⟨base.text ++ ['/'], by simp⟩

/-- An absolute path that does not exist is judged by the directory it is in. -/
theorem resolveMissing_iff {p : PathBuf} {init : List Text} (sound : d.Sound)
    (spelled : Spelled d) (made : MadeFor d sandbox allowed root ctx)
    (plain : ∀ other ∈ init, PlainName other) :
    (∃ q, resolveMissing env d ctx p (absolute init) = .ok q) ↔
      ∃ name mid rest, fileName p = some name ∧
        WorkspacePaths.Physical d (absolute init) mid rest ∧
          AllowedPlace env d sandbox allowed (mid ++ rest) := by
  have judged : ∀ mid rest, WorkspacePaths.Physical d (absolute init) mid rest →
      ∃ q, canonicalizeAncestor env d (absolute init) = .ok q ∧
        (isPathAllowed env ctx q = true ↔ AllowedPlace env d sandbox allowed (mid ++ rest)) := by
    intro mid rest physical
    obtain ⟨q, resolved, same⟩ := canonicalizeAncestor_physical sound spelled plain physical
    exact ⟨q, resolved, isPathAllowed_iff spelled made (physical_plain spelled plain physical) same⟩
  unfold resolveMissing
  constructor
  · rintro ⟨q, ran⟩
    obtain ⟨mid, rest, physical⟩ := WorkspacePaths.physical_exists sound plain
    obtain ⟨canonicalParent, resolved, inside⟩ := judged mid rest physical
    obtain ⟨other, same, ran⟩ := Except.bind_eq_ok ran
    rw [resolved] at same
    cases same
    cases last : fileName p with
    | none => simp [last] at ran
    | some name =>
      simp only [last] at ran
      split at ran
      · rename_i yes
        exact ⟨name, mid, rest, rfl, physical, inside.mp yes⟩
      · cases ran
  · rintro ⟨name, mid, rest, last, physical, place⟩
    obtain ⟨canonicalParent, resolved, inside⟩ := judged mid rest physical
    refine ⟨pathJoin canonicalParent ⟨name⟩, ?_⟩
    rw [resolved, last]
    exact if_pos (inside.mpr place)

/-- Above an absolute path without `../` there are only names. -/
theorem parent_names {p above : PathBuf} (rooted : isAbsolute p = true)
    (clean : contains "../".toList p.text = false) (higher : parent p = some above) :
    ∃ init : List Text, (∀ other ∈ init, PlainName other) ∧ above = absolute init := by
  obtain ⟨named, plain, names | up⟩ := rooted_then_up rooted clean
  · rcases List.eq_nil_or_concat named with rfl | ⟨init, name, rfl⟩
    · rw [parent, names] at higher
      cases higher
    · rw [List.concat_eq_append] at names plain
      have same := names.trans (components_absolute plain).1.symm
      rw [parent, same, ← parent, (last_of_absolute plain).2] at higher
      exact ⟨init, fun other member => plain other (by simp [member]),
        (Option.some.inj higher).symm⟩
  · rw [parent, up, List.getLast?_concat, List.dropLast_concat] at higher
    exact ⟨named, plain, (Option.some.inj higher).symm⟩

theorem resolvePathInternal_clean {s : Text} (clean : ¬ Marked s) (noNul : Char.ofNat 0 ∉ s)
    (short : PathSecurityContext.byteLength s ≤ 4096) :
    resolvePathInternal env d ctx s =
      if isAbsolute ⟨s⟩ then resolveAbsolute env d ctx ⟨s⟩ else resolveRelative env d ctx ⟨s⟩ := by
  rw [Marked, ← Bool.or_eq_true] at clean
  rw [resolvePathInternal, if_neg clean, if_neg noNul, if_neg (Nat.not_lt.mpr short)]

end FileSystemContext

end Devit
