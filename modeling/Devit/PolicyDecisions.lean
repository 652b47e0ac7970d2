import Devit.PolicyEngine

/-! What the decisions of the policy engine guarantee. What is allowed without a
confirmation touches nothing sensitive, at every level below the privileged one. A
request does not go beyond the default level, unless both are privileged: then the
requested paths are taken as they are. -/
namespace Devit
open Text Path

namespace PolicyDecisions
open PolicyEngine ApprovalLevel

/-- A path lies within one of several others. -/
def Within (bases : List PathBuf) (path : PathBuf) : Prop :=
  ∃ base ∈ bases, pathStartsWith path base = true

/-- What is allowed is judged at a level that the default is enough for; and if this is
privileged, so is the default, and every changed path lies within its paths. -/
def NoEscalation (lowercase : Text → Text) (default : ApprovalLevel) (context : Context) : Prop :=
  (evaluateChanges lowercase default context).allow = true →
    default.satisfies (effectiveLevel context.requestedApprovalLevel default) = true ∧
    ∀ asked, effectiveLevel context.requestedApprovalLevel default = .privileged asked →
      ∃ allowed, default = .privileged allowed ∧
        ∀ change ∈ context.fileChanges, Within allowed change.path

/-- If the request and the default are both privileged, the requested paths lie within
those of the default, or else some change is denied: a file `.env`, or one that lies
outside of the requested paths. -/
def Capped (default : ApprovalLevel) (context : Context) : Prop :=
  ∀ asked allowed, context.requestedApprovalLevel = .privileged asked →
    default = .privileged allowed →
    (∀ path ∈ asked, Within allowed path) ∨
    ∃ change ∈ context.fileChanges, isDotEnv change.path = true ∨ ¬ Within asked change.path

variable {lowercase : Text → Text} {default requested : ApprovalLevel} {context : Context}
  {change : PolicyEngine.FileChange} {asked allowed : List PathBuf} {path : PathBuf}

/-! ## Paths within others -/

theorem pathStartsWith_trans {p q r : PathBuf} (first : pathStartsWith p q = true)
    (second : pathStartsWith q r = true) : pathStartsWith p r = true := by
  unfold pathStartsWith at first second ⊢
  rw [List.isPrefixOf_iff_prefix] at first second ⊢
  exact second.trans first

theorem pathStartsWith_of_same {p q : PathBuf} (equal : same p q = true) :
    pathStartsWith p q = true := by
  unfold same at equal
  unfold pathStartsWith
  rw [beq_iff_eq.mp equal, List.isPrefixOf_iff_prefix]

theorem satisfies_privileged :
    satisfies (.privileged allowed) (.privileged asked) = true ↔
      ∀ path ∈ asked, Within allowed path := by
  simp only [satisfies, List.all_eq_true, List.any_eq_true, Bool.or_eq_true, Within]
  constructor
  · intro all path member
    obtain ⟨base, inside, starts | equal⟩ := all path member
    · exact ⟨base, inside, starts⟩
    · exact ⟨base, inside, pathStartsWith_of_same equal⟩
  · intro all path member
    obtain ⟨base, inside, starts⟩ := all path member
    exact ⟨base, inside, .inl starts⟩

theorem Within.trans (inside : Within asked path) (all : ∀ base ∈ asked, Within allowed base) :
    Within allowed path := by
  obtain ⟨base, member, starts⟩ := inside
  obtain ⟨outer, outermost, below⟩ := all base member
  exact ⟨outer, outermost, pathStartsWith_trans starts below⟩

/-! ## The level that is used -/

/-- Only a privileged request under a privileged default is judged as one. -/
theorem effectiveLevel_privileged (level : effectiveLevel requested default = .privileged asked) :
    requested = .privileged asked ∧ ∃ allowed, default = .privileged allowed := by
  cases requested <;> cases default <;> simp_all [effectiveLevel, securityRank]

theorem satisfies_effectiveLevel
    (other : ∀ asked allowed, requested = .privileged asked → default ≠ .privileged allowed) :
    default.satisfies (effectiveLevel requested default) = true := by
  cases requested <;> cases default <;>
    simp_all [effectiveLevel, securityRank, satisfies]

/-! ## Denials that all levels share -/

theorem commonRestriction_denies {options : CommonCheckOptions} {decision : PolicyDecision}
    (restricted : commonRestriction options change = some decision) : decision.allow = false := by
  unfold commonRestriction at restricted
  split at restricted
  · cases restricted
    rfl
  · split at restricted
    · cases restricted
      rfl
    · split at restricted
      · cases restricted
        rfl
      · cases restricted

theorem commonRestriction_none {options : CommonCheckOptions} :
    commonRestriction options change = none ↔ isDotEnv change.path = false ∧
      (options.allowGitmodules = false → change.touchesGitmodules = false) ∧
      (options.allowPrivilegedSymlinks = false → isDangerousSymlink change = false) := by
  unfold commonRestriction
  cases isDotEnv change.path <;> cases options.allowGitmodules <;>
    cases change.touchesGitmodules <;> cases options.allowPrivilegedSymlinks <;>
      cases isDangerousSymlink change <;> simp

/-- What is allowed at a level passed the restrictions that all levels share. -/
theorem passes_common {options : CommonCheckOptions} {rest : PolicyDecision}
    (allows : ((checkCommonRestrictions context options).getD rest).allow = true) :
    (∀ change ∈ context.fileChanges, commonRestriction options change = none) ∧
      (checkCommonRestrictions context options).getD rest = rest := by
  cases found : checkCommonRestrictions context options with
  | none => exact ⟨List.findSome?_eq_none_iff.mp found, rfl⟩
  | some decision =>
    rw [found] at allows
    obtain ⟨change, -, restricted⟩ := List.exists_of_findSome?_eq_some found
    rw [Option.getD_some, commonRestriction_denies restricted] at allows
    cases allows

theorem evaluatePrivileged_allow : (evaluatePrivileged context asked).allow = true ↔
    ∀ change ∈ context.fileChanges, isDotEnv change.path = false ∧ Within asked change.path := by
  have within : ∀ change : PolicyEngine.FileChange, (asked.any fun base => pathStartsWith change.path base) = true ↔
      Within asked change.path := fun change => List.any_eq_true
  constructor
  · intro allows change member
    obtain ⟨passed, rest⟩ := passes_common allows
    refine ⟨(commonRestriction_none.mp (passed change member)).1, ?_⟩
    unfold evaluatePrivileged at allows
    rw [rest] at allows
    split at allows
    · cases allows
    · rename_i none_outside
      have inside := List.find?_eq_none.mp none_outside change member
      exact (within change).mp (by simpa using inside)
  · intro all
    have passed : checkCommonRestrictions context ⟨true, true⟩ = none := by
      refine List.findSome?_eq_none_iff.mpr fun change member => ?_
      exact commonRestriction_none.mpr ⟨(all change member).1, nofun, nofun⟩
    unfold evaluatePrivileged
    rw [passed, Option.getD_none]
    split
    · rename_i change outside
      have member := List.mem_of_find?_eq_some outside
      have beyond := List.find?_some outside
      rw [(within change).mpr (all change member).2] at beyond
      cases beyond
    · rfl

/-- **No escalation.** A request is held to the default level exactly if it is not
privileged like the default, or asks for no path beyond those of the default, or is
denied. -/
theorem no_escalation_iff :
    NoEscalation lowercase default context ↔ Capped default context := by
  by_cases privileged : ∃ asked allowed, context.requestedApprovalLevel = .privileged asked ∧
      default = .privileged allowed
  · obtain ⟨asked, allowed, requests, rfl⟩ := privileged
    have level : effectiveLevel context.requestedApprovalLevel (.privileged allowed) =
        .privileged asked := by
      rw [requests]
      rfl
    have judged : evaluateChanges lowercase (.privileged allowed) context =
        evaluatePrivileged context asked := by
      unfold evaluateChanges
      rw [level]
    unfold NoEscalation
    rw [level, judged, satisfies_privileged, evaluatePrivileged_allow]
    constructor
    · intro held asked' allowed' same_request same_default
      cases requests.symm.trans same_request
      cases same_default
      by_cases allows : ∀ change ∈ context.fileChanges,
          isDotEnv change.path = false ∧ Within asked change.path
      · exact .inl (held allows).1
      · push Not at allows
        obtain ⟨change, member, outside⟩ := allows
        refine .inr ⟨change, member, ?_⟩
        cases env : isDotEnv change.path with
        | true => exact .inl rfl
        | false => exact .inr (outside env)
    · intro capped allows
      rcases capped asked allowed requests rfl with below | ⟨change, member, env | outside⟩
      · refine ⟨below, fun asked' same_level => ⟨allowed, rfl, fun change member => ?_⟩⟩
        exact (allows change member).2.trans below
      · rw [(allows change member).1] at env
        cases env
      · exact absurd (allows change member).2 outside
  · constructor
    · intro _ asked allowed requests same_default
      exact absurd ⟨asked, allowed, requests, same_default⟩ privileged
    · intro _ _
      refine ⟨satisfies_effectiveLevel fun asked allowed requests same_default =>
        privileged ⟨asked, allowed, requests, same_default⟩, fun asked level => ?_⟩
      obtain ⟨requests, allowed, same_default⟩ := effectiveLevel_privileged level
      exact absurd ⟨asked, allowed, requests, same_default⟩ privileged

/-- An ordinary change of a few lines. -/
def plainChange (path : String) : PolicyEngine.FileChange where
  path := ⟨path.toList⟩
  isBinary := false
  addsExecBit := false
  linesAdded := 5
  linesDeleted := 2
  isSymlink := false
  symlinkTargetAbs := none
  touchesProtected := false
  touchesSubmodule := false
  touchesGitmodules := false
  fileSizeBytes := none

/-- A privileged request for the sources. -/
def sourcesAsked : Context where
  fileChanges := [plainChange "src/main.rs"]
  requestedApprovalLevel := .privileged [⟨"src".toList⟩]
  protectedPaths := []
  config := .default

/-- The engine is set up for the documentation only, and allows it. -/
theorem sources_escalate :
    (evaluateChanges id (.privileged [⟨"docs".toList⟩]) sourcesAsked).allow = true ∧
    satisfies (.privileged [⟨"docs".toList⟩])
      (effectiveLevel sourcesAsked.requestedApprovalLevel (.privileged [⟨"docs".toList⟩])) = false ∧
    ¬ NoEscalation id (.privileged [⟨"docs".toList⟩]) sourcesAsked := by
  have allows : (evaluateChanges id (.privileged [⟨"docs".toList⟩]) sourcesAsked).allow = true := by
    decide +kernel
  have beyond : satisfies (.privileged [⟨"docs".toList⟩]) (effectiveLevel
      sourcesAsked.requestedApprovalLevel (.privileged [⟨"docs".toList⟩])) = false := by
    decide +kernel
  refine ⟨allows, beyond, fun held => ?_⟩
  rw [(held allows).1] at beyond
  cases beyond

/-! ## What is allowed silently -/

/-- A file name that is `.env`, in any letter case. -/
def DotEnv (name : Text) : Prop :=
  ∃ e n v, name = ['.', e, n, v] ∧ (e = 'e' ∨ e = 'E') ∧ (n = 'n' ∨ n = 'N') ∧ (v = 'v' ∨ v = 'V')

/-- A change that touches nothing sensitive. -/
structure Harmless (context : Context) (change : PolicyEngine.FileChange) : Prop where
  notEnv : ∀ name, fileName change.path = some name → ¬ DotEnv name
  noGitmodules : change.touchesGitmodules = false
  unprotected : change.touchesProtected = false ∧
    ∀ guarded ∈ context.protectedPaths, pathStartsWith change.path guarded = false
  safeLink : change.isSymlink = true → ∀ target, change.symlinkTargetAbs = some target →
    isAbsolute target = false ∧ .parentDir ∉ components target
  notExecutable : change.addsExecBit = false

/-- A binary file with an extension and a size that the configuration lists. -/
def Whitelisted (lowercase : Text → Text) (config : Config) (change : PolicyEngine.FileChange) :
    Prop :=
  ∃ ext size, extension change.path = some ext ∧ lowercase ext ∈ config.smallBinaryWhitelist ∧
    change.fileSizeBytes = some size ∧ size ≤ config.smallBinaryMaxSize

theorem DotEnv.isDotEnv {name : Text} (spelled : DotEnv name)
    (named : fileName path = some name) : isDotEnv path = true := by
  obtain ⟨e, n, v, rfl, e_is, n_is, v_is⟩ := spelled
  unfold PolicyEngine.isDotEnv
  rw [named]
  rcases e_is with rfl | rfl <;> rcases n_is with rfl | rfl <;> rcases v_is with rfl | rfl <;>
    decide

theorem not_dangerous (safe : isDangerousSymlink change = false) (link : change.isSymlink = true)
    {target : PathBuf} (leads : change.symlinkTargetAbs = some target) :
    isAbsolute target = false ∧ .parentDir ∉ components target := by
  simp only [isDangerousSymlink, link, Bool.true_eq_false, if_false, leads] at safe
  split at safe
  · cases safe
  · rename_i relative
    split at safe
    · cases safe
    · rename_i inside
      refine ⟨by simpa using relative, fun up => inside ?_⟩
      exact List.any_eq_true.mpr ⟨.parentDir, up, by simp⟩

theorem isProtectedPath_false : isProtectedPath change context = false ↔
    change.touchesProtected = false ∧
      ∀ guarded ∈ context.protectedPaths, pathStartsWith change.path guarded = false := by
  unfold isProtectedPath
  cases change.touchesProtected <;> simp

/-- What passes the restrictions that all levels share, and is neither protected nor made
executable. -/
theorem harmless_of_passed (passed : commonRestriction .standard change = none)
    (unprotected : isProtectedPath change context = false)
    (notExecutable : change.addsExecBit = false) : Harmless context change := by
  obtain ⟨env, modules, links⟩ := commonRestriction_none.mp passed
  refine ⟨fun name named spelled => ?_, modules rfl, isProtectedPath_false.mp unprotected,
    fun link target leads => not_dangerous (links rfl) link leads, notExecutable⟩
  rw [spelled.isDotEnv named] at env
  cases env

theorem whitelisted_of_binary {config : Config} (binary : change.isBinary = true)
    (listed : isWhitelistedBinary lowercase change config = true) :
    Whitelisted lowercase config change := by
  simp only [isWhitelistedBinary, binary, Bool.true_eq_false, if_false] at listed
  cases named : extension change.path with
  | none =>
    rw [named] at listed
    cases listed
  | some ext =>
    simp only [named, Option.map_some] at listed
    split at listed
    · rename_i member
      cases sized : change.fileSizeBytes with
      | none =>
        rw [sized] at listed
        cases listed
      | some size =>
        rw [sized] at listed
        exact ⟨ext, size, named, member, sized, by simpa using listed⟩
    · cases listed

/-- A decision is to go ahead without asking. -/
def Silent (decision : PolicyDecision) : Prop :=
  decision.allow = true ∧ decision.requiresConfirmation = false

theorem not_silent_confirmation (reason : Text) : ¬ Silent (allowWithConfirmation reason) := by
  rintro ⟨-, unasked⟩
  cases unasked

theorem not_silent_downgrade (reason : Text) : ¬ Silent (downgradeToAsk reason) := by
  rintro ⟨-, unasked⟩
  cases unasked

theorem not_silent_denied : ¬ Silent gitmodulesDenied := by
  rintro ⟨allows, -⟩
  cases allows

theorem none_of_any {f : PolicyEngine.FileChange → Bool}
    (absent : ¬ context.fileChanges.any f = true) (member : change ∈ context.fileChanges) :
    f change = false := by
  by_contra holds
  exact absent (List.any_eq_true.mpr ⟨change, member, by simpa using holds⟩)

theorem untrusted_not_silent : ¬ Silent (evaluateUntrusted context) := by
  intro silent
  obtain ⟨-, rest⟩ := passes_common silent.1
  unfold evaluateUntrusted at silent
  rw [rest] at silent
  exact not_silent_confirmation _ silent

theorem ask_silent (silent : Silent (evaluateAsk context)) :
    ∀ change ∈ context.fileChanges, Harmless context change ∧ change.isBinary = false ∧
      change.touchesSubmodule = false := by
  obtain ⟨passed, rest⟩ := passes_common silent.1
  unfold evaluateAsk at silent
  rw [rest] at silent
  split at silent
  · exact absurd silent (not_silent_confirmation _)
  · split at silent
    · rename_i simple
      intro change member
      simp only [isSimpleChange, Bool.and_eq_true, List.all_eq_true] at simple
      obtain ⟨⟨⟨⟨⟨⟨⟨binary, exec⟩, guarded⟩, submodule⟩, -⟩, -⟩, -⟩, -⟩ := simple.2 change member
      refine ⟨harmless_of_passed (passed change member) ?_ ?_, ?_, ?_⟩
      · simpa using guarded
      · simpa using exec
      · simpa using binary
      · simpa using submodule
    · exact absurd silent (not_silent_confirmation _)

theorem moderate_silent (silent : Silent (evaluateModerate context)) :
    ∀ change ∈ context.fileChanges, Harmless context change ∧ change.isBinary = false ∧
      change.touchesSubmodule = false := by
  obtain ⟨passed, rest⟩ := passes_common silent.1
  unfold evaluateModerate at silent
  rw [rest] at silent
  -- the branches in the order of the source: files, lines, protected, executable, binary,
  -- .gitmodules, submodules
  split at silent
  · exact absurd silent (not_silent_downgrade _)
  split at silent
  · exact absurd silent (not_silent_downgrade _)
  split at silent
  · exact absurd silent (not_silent_downgrade _)
  rename_i guarded
  split at silent
  · exact absurd silent (not_silent_downgrade _)
  rename_i exec
  split at silent
  · exact absurd silent (not_silent_downgrade _)
  rename_i binary
  split at silent
  · exact absurd silent not_silent_denied
  split at silent
  · exact absurd silent (not_silent_downgrade _)
  rename_i submodule
  intro change member
  have harmless := harmless_of_passed (passed change member) (none_of_any guarded member)
    (none_of_any exec member)
  exact ⟨harmless, none_of_any binary member, none_of_any submodule member⟩

theorem trusted_silent (silent : Silent (evaluateTrusted lowercase context)) :
    ∀ change ∈ context.fileChanges, Harmless context change ∧
      (change.isBinary = true → Whitelisted lowercase context.config change) := by
  obtain ⟨passed, rest⟩ := passes_common silent.1
  unfold evaluateTrusted at silent
  rw [rest] at silent
  split at silent
  · exact absurd silent not_silent_denied
  split at silent
  · exact absurd silent (not_silent_downgrade _)
  rename_i exec
  split at silent
  · exact absurd silent (not_silent_downgrade _)
  rename_i all_listed
  split at silent
  · exact absurd silent (not_silent_confirmation _)
  rename_i guarded
  intro change member
  refine ⟨harmless_of_passed (passed change member) (none_of_any guarded member)
    (none_of_any exec member), fun binary => whitelisted_of_binary binary ?_⟩
  have listed := List.find?_eq_none.mp all_listed change member
  simpa [binary] using listed

/-- **Nothing sensitive silently.** Whatever is allowed without a confirmation below the
privileged level touches nothing sensitive; at the levels `Ask` and `Moderate` it is
neither binary nor a submodule, and at `Trusted` every binary file is one that the
configuration lists. -/
theorem silent_harmless
    (unprivileged : ∀ paths, effectiveLevel context.requestedApprovalLevel default ≠ .privileged paths)
    (allows : (evaluateChanges lowercase default context).allow = true)
    (unasked : (evaluateChanges lowercase default context).requiresConfirmation = false) :
    (∀ change ∈ context.fileChanges, Harmless context change) ∧
    (effectiveLevel context.requestedApprovalLevel default = .ask ∨
        effectiveLevel context.requestedApprovalLevel default = .moderate →
      ∀ change ∈ context.fileChanges, change.isBinary = false ∧ change.touchesSubmodule = false) ∧
    (effectiveLevel context.requestedApprovalLevel default = .trusted →
      ∀ change ∈ context.fileChanges, change.isBinary = true →
        Whitelisted lowercase context.config change) := by
  have silent : Silent (evaluateChanges lowercase default context) := ⟨allows, unasked⟩
  unfold evaluateChanges at silent
  cases level : effectiveLevel context.requestedApprovalLevel default with
  | untrusted =>
    rw [level] at silent
    exact absurd silent untrusted_not_silent
  | ask =>
    rw [level] at silent
    have safe := ask_silent silent
    exact ⟨fun change member => (safe change member).1, fun _ change member =>
      (safe change member).2, nofun⟩
  | moderate =>
    rw [level] at silent
    have safe := moderate_silent silent
    exact ⟨fun change member => (safe change member).1, fun _ change member =>
      (safe change member).2, nofun⟩
  | trusted =>
    rw [level] at silent
    have safe := trusted_silent silent
    refine ⟨fun change member => (safe change member).1, ?_, fun _ change member =>
      (safe change member).2⟩
    rintro (ask | moderate)
    · cases ask
    · cases moderate
  | privileged paths => exact absurd level (unprivileged paths)

/-- A small picture and a change of a few lines, under a trusted request. -/
def pictureAdded : Context where
  fileChanges := [plainChange "src/main.rs",
    { plainChange "assets/logo.png" with isBinary := true, fileSizeBytes := some 4096 }]
  requestedApprovalLevel := .trusted
  protectedPaths := [⟨"src/secrets".toList⟩]
  config := .default

theorem picture_whitelisted : Silent (evaluateChanges id .trusted pictureAdded) ∧
    ∀ change ∈ pictureAdded.fileChanges, change.isBinary = true →
      Whitelisted id pictureAdded.config change := by
  have trusted : effectiveLevel pictureAdded.requestedApprovalLevel .trusted = .trusted := rfl
  have silent : Silent (evaluateChanges id .trusted pictureAdded) :=
    ⟨by decide +kernel, by decide +kernel⟩
  refine ⟨silent, (@silent_harmless id .trusted pictureAdded (fun paths privileged => ?_)
    silent.1 silent.2).2.2 trusted⟩
  rw [trusted] at privileged
  cases privileged

end PolicyDecisions

end Devit
