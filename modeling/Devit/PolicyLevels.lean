import Devit.PolicyOrder

/-! The levels below `Privileged` in order. They share their denials, so what one level
adds is only a question to the user; with the default limits a level that asks nothing is
followed by levels that ask nothing. -/
namespace Devit
open Text Path

namespace PolicyLevels
open PolicyEngine PolicyDecisions PolicyOrder ApprovalLevel Joins

/-- The same request at another level. -/
def requesting (context : Context) (level : ApprovalLevel) : Context :=
  { context with requestedApprovalLevel := level }

/-- What was allowed stays allowed, and what needed no confirmation needs none. -/
structure AtLeastAsPermissive (loose strict : PolicyDecision) : Prop where
  allowed : strict.allow = true → loose.allow = true
  unconfirmed : strict.requiresConfirmation = false → loose.requiresConfirmation = false

variable {lowercase : Text → Text} {default low high level : ApprovalLevel} {context : Context}

/-- A level adds nothing to the restrictions that all levels share. -/
def Quiet (lowercase : Text → Text) (context : Context) (level : ApprovalLevel) : Prop :=
  restSeverity lowercase context level = ⊥

/-! ## Each level -/

/-- Below `Privileged` only the shared restrictions deny. -/
theorem restSeverity_le (unprivileged : ∀ paths, level ≠ .privileged paths) :
    restSeverity lowercase context level ≤ .downgraded := by
  have due : ∀ holds, ∀ bound ≤ Severity.downgraded, dueIf holds bound ≤ .downgraded :=
    fun holds bound below => (dueIf_le holds bound).trans below
  unfold restSeverity
  cases level with
  | untrusted =>
    have asks : Severity.confirmed ≤ Severity.downgraded := by decide
    exact sup_le (sup_le (join_le_iff.mpr fun _ _ => bot_le) asks) bot_le
  | ask =>
    refine sup_le (sup_le (join_le_iff.mpr fun change _ => ?_) ?_) bot_le
    · exact due _ _ (by decide)
    · exact due _ _ (by decide)
  | moderate =>
    refine sup_le (sup_le (join_le_iff.mpr fun change _ => ?_) ?_) ?_
    · exact sup_le (sup_le (sup_le (due _ _ le_rfl) (due _ _ le_rfl)) (due _ _ le_rfl))
        (due _ _ le_rfl)
    · exact due _ _ le_rfl
    · exact due _ _ le_rfl
  | trusted =>
    refine sup_le (sup_le (join_le_iff.mpr fun change _ => ?_) bot_le) bot_le
    exact sup_le (sup_le (due _ _ le_rfl) (due _ _ le_rfl)) (due _ _ (by decide))
  | privileged paths => exact absurd rfl (unprivileged paths)

theorem not_quiet_untrusted : ¬ Quiet lowercase context .untrusted := by
  intro quiet
  have asks : Severity.confirmed ≤ restSeverity lowercase context .untrusted :=
    le_sup_right.trans le_sup_left
  rw [quiet] at asks
  exact absurd asks (by decide)

theorem quiet_ask_iff : Quiet lowercase context .ask ↔
    context.fileChanges.length ≤ 2 ∧
      ∀ change ∈ context.fileChanges, simple context change = true := by
  unfold Quiet restSeverity countSeverity linesSeverity ownSeverity
  rw [join_dueIf, sup_eq_bot_iff, sup_eq_bot_iff, dueIf_eq_bot_iff (by decide),
    dueIf_eq_bot_iff (by decide), List.any_eq_false, decide_eq_false_iff_not, not_lt]
  constructor
  · rintro ⟨⟨all, few⟩, -⟩
    exact ⟨few, fun change member => by simpa using all change member⟩
  · rintro ⟨few, all⟩
    exact ⟨⟨fun change member => by simp [all change member], few⟩, rfl⟩

theorem quiet_moderate_iff : Quiet lowercase context .moderate ↔
    context.fileChanges.length ≤ context.config.maxFilesModerate.toNat ∧
    totalLinesChanged context ≤ context.config.maxLinesModerate ∧
    ∀ change ∈ context.fileChanges, isProtectedPath change context = false ∧
      change.addsExecBit = false ∧ change.isBinary = false ∧ change.touchesSubmodule = false := by
  unfold Quiet restSeverity countSeverity linesSeverity ownSeverity
  simp only [join_sup, join_dueIf, sup_eq_bot_iff, dueIf_eq_bot_iff (b := Severity.downgraded)
    (by decide), List.any_eq_false, decide_eq_false_iff_not, Nat.not_lt, UInt64.not_lt,
    Bool.not_eq_true]
  constructor
  · rintro ⟨⟨⟨⟨⟨guarded, exec⟩, binary⟩, submodule⟩, files⟩, lines⟩
    exact ⟨files, lines, fun change member => ⟨guarded change member, exec change member,
      binary change member, submodule change member⟩⟩
  · rintro ⟨files, lines, all⟩
    exact ⟨⟨⟨⟨⟨fun change member => (all change member).1,
      fun change member => (all change member).2.1⟩,
      fun change member => (all change member).2.2.1⟩,
      fun change member => (all change member).2.2.2⟩, files⟩, lines⟩

theorem quiet_trusted_of (passed : ∀ change ∈ context.fileChanges,
    isProtectedPath change context = false ∧ change.addsExecBit = false ∧
      change.isBinary = false) : Quiet lowercase context .trusted := by
  refine bot_unique (sup_le (sup_le (join_le_iff.mpr fun change member => ?_) le_rfl) le_rfl)
  obtain ⟨guarded, exec, binary⟩ := passed change member
  unfold ownSeverity
  rw [guarded, exec, binary]
  exact le_rfl

/-! ## From level to level -/

/-- A simple change has at most twenty lines and passes the checks of `Moderate`. -/
theorem passes_of_simple {change : PolicyEngine.FileChange} (plain : simple context change = true) :
    change.linesAdded + change.linesDeleted ≤ 20 ∧ isProtectedPath change context = false ∧
      change.addsExecBit = false ∧ change.isBinary = false ∧ change.touchesSubmodule = false := by
  simp only [simple, isSimpleChange, withChanges, List.all_cons, List.all_nil, Bool.and_true,
    Bool.and_eq_true, Bool.not_eq_true', decide_eq_true_eq] at plain
  obtain ⟨-, ⟨⟨⟨⟨⟨⟨binary, exec⟩, guarded⟩, submodule⟩, -⟩, -⟩, -⟩, lines⟩ := plain
  exact ⟨lines, guarded, exec, binary, submodule⟩

/-- Two simple changes have at most forty lines. -/
theorem totalLinesChanged_simple (few : context.fileChanges.length ≤ 2)
    (short : ∀ change ∈ context.fileChanges, change.linesAdded + change.linesDeleted ≤ 20) :
    totalLinesChanged context ≤ 40 := by
  unfold totalLinesChanged
  generalize context.fileChanges = changes at few short
  cases changes with
  | nil => decide
  | cons first rest =>
    have lines := short first List.mem_cons_self
    cases rest with
    | nil =>
      simp only [List.foldl_cons, List.foldl_nil, UInt64.le_iff_toNat_le, UInt64.toNat_add]
        at lines ⊢
      simp only [UInt64.reduceToNat] at lines ⊢
      omega
    | cons second rest =>
      have others := short second (List.mem_cons_of_mem _ List.mem_cons_self)
      have last : rest = [] := by
        simp only [List.length_cons] at few
        exact List.length_eq_zero_iff.mp (by omega)
      subst last
      simp only [List.foldl_cons, List.foldl_nil, UInt64.le_iff_toNat_le, UInt64.toNat_add]
        at lines others ⊢
      simp only [UInt64.reduceToNat] at lines others ⊢
      omega

theorem quiet_moderate_of_ask (defaults : context.config = .default)
    (quiet : Quiet lowercase context .ask) : Quiet lowercase context .moderate := by
  obtain ⟨few, all⟩ := quiet_ask_iff.mp quiet
  refine quiet_moderate_iff.mpr ⟨?_, ?_, fun change member =>
    (passes_of_simple (all change member)).2⟩
  · have limit : context.config.maxFilesModerate.toNat = 10 := by
      rw [defaults]
      rfl
    omega
  · have limit : (40 : UInt64) ≤ context.config.maxLinesModerate := by
      rw [defaults]
      decide
    exact UInt64.le_trans (totalLinesChanged_simple few fun change member =>
      (passes_of_simple (all change member)).1) limit

theorem quiet_trusted_of_moderate (quiet : Quiet lowercase context .moderate) :
    Quiet lowercase context .trusted := by
  obtain ⟨-, -, all⟩ := quiet_moderate_iff.mp quiet
  refine quiet_trusted_of fun change member => ?_
  obtain ⟨guarded, exec, binary, -⟩ := all change member
  exact ⟨guarded, exec, binary⟩

theorem unprivileged_of_le (ordered : low.securityRank ≤ high.securityRank)
    (unprivileged : ∀ paths, high ≠ .privileged paths) : ∀ paths, low ≠ .privileged paths := by
  rintro paths rfl
  cases high with
  | privileged others => exact unprivileged others rfl
  | _ => exact absurd ordered (Nat.not_le.mpr (by change _ < 4; decide))

/-- A quiet level is followed by quiet levels. -/
theorem Quiet.mono (quiet : Quiet lowercase context low) (defaults : context.config = .default)
    (ordered : low.securityRank ≤ high.securityRank)
    (unprivileged : ∀ paths, high ≠ .privileged paths) : Quiet lowercase context high := by
  cases low with
  | untrusted => exact absurd quiet not_quiet_untrusted
  | ask =>
    have moderate := quiet_moderate_of_ask defaults quiet
    cases high with
    | untrusted => exact absurd ordered (by decide)
    | ask => exact quiet
    | moderate => exact moderate
    | trusted => exact quiet_trusted_of_moderate moderate
    | privileged paths => exact absurd rfl (unprivileged paths)
  | moderate =>
    cases high with
    | untrusted => exact absurd ordered (by decide)
    | ask => exact absurd ordered (by decide)
    | moderate => exact quiet
    | trusted => exact quiet_trusted_of_moderate quiet
    | privileged paths => exact absurd rfl (unprivileged paths)
  | trusted =>
    cases high with
    | trusted => exact quiet
    | privileged paths => exact absurd rfl (unprivileged paths)
    | _ => exact absurd ordered (by decide)
  | privileged paths => exact absurd rfl (unprivileged_of_le ordered unprivileged paths)

/-! ## Verdicts -/

/-- Two decisions that share their denials differ in what they ask. -/
theorem permissive_of_shared {loose strict : PolicyDecision} {denied : Bool}
    {less more : Severity} (strict_reads : verdict strict = (dueIf denied .denied ⊔ more).toVerdict)
    (loose_reads : verdict loose = (dueIf denied .denied ⊔ less).toVerdict)
    (more_asks : more ≤ .downgraded) (less_asks : less ≤ .downgraded)
    (quieter : more = ⊥ → less = ⊥) : AtLeastAsPermissive loose strict := by
  have allows : ∀ decision, PolicyDecision.allow decision = (verdict decision).allow := fun _ => rfl
  have confirms : ∀ decision, PolicyDecision.requiresConfirmation decision =
      (verdict decision).requiresConfirmation := fun _ => rfl
  refine ⟨?_, ?_⟩
  · rw [allows, allows, strict_reads, loose_reads]
    cases denied with
    | true => cases more <;> exact fun allowed => absurd allowed (by decide)
    | false =>
      intro _
      cases less with
      | denied => exact absurd less_asks (by decide)
      | _ => rfl
  · rw [confirms, confirms, strict_reads, loose_reads]
    cases denied with
    | true =>
      intro _
      cases less <;> rfl
    | false =>
      cases more with
      | allowed =>
        rw [quieter rfl]
        exact id
      | denied => exact absurd more_asks (by decide)
      | _ => exact fun unasked => absurd unasked (by decide)

/-- A request for a level that the default reaches is judged at that level. -/
theorem effectiveLevel_reached (unprivileged : ∀ paths, level ≠ .privileged paths)
    (reached : level.securityRank ≤ default.securityRank) :
    effectiveLevel level default = level := by
  unfold effectiveLevel
  split
  · rfl
  · exact if_neg (Nat.not_lt.mpr reached)

theorem verdict_requesting (unprivileged : ∀ paths, level ≠ .privileged paths)
    (reached : level.securityRank ≤ default.securityRank) :
    verdict (evaluateChanges lowercase default (requesting context level)) =
      (dueIf (context.fileChanges.any fun change =>
          (commonRestriction .standard change).isSome) .denied ⊔
        restSeverity lowercase context level).toVerdict := by
  have options : optionsOf level = .standard := by
    cases level with
    | privileged paths => exact absurd rfl (unprivileged paths)
    | _ => rfl
  have judged := @evaluateChanges_verdict lowercase default (requesting context level)
  rw [show effectiveLevel (requesting context level).requestedApprovalLevel default = level from
    effectiveLevel_reached unprivileged reached, severity_eq, options] at judged
  unfold commonSeverity at judged
  rw [join_dueIf] at judged
  exact judged

/-- **The levels are ordered.** With the default configuration, of two levels below
`Privileged` that the default level reaches the higher one allows whatever the lower one
allows, and asks nothing where the lower one asks nothing. -/
theorem levels_monotone (defaults : context.config = .default)
    (ordered : low.securityRank ≤ high.securityRank)
    (unprivileged : ∀ paths, high ≠ .privileged paths)
    (reached : high.securityRank ≤ default.securityRank) :
    AtLeastAsPermissive (evaluateChanges lowercase default (requesting context high))
      (evaluateChanges lowercase default (requesting context low)) := by
  have below := unprivileged_of_le ordered unprivileged
  have strict_reads :=
    @verdict_requesting lowercase default low context below (ordered.trans reached)
  have loose_reads := @verdict_requesting lowercase default high context unprivileged reached
  have quieter : restSeverity lowercase context low = ⊥ →
      restSeverity lowercase context high = ⊥ :=
    fun quiet => Quiet.mono quiet defaults ordered unprivileged
  exact permissive_of_shared strict_reads loose_reads (restSeverity_le below)
    (restSeverity_le unprivileged) quieter

/-- Two short changes, as anybody asks for them. -/
def shortChanges : Context where
  fileChanges := [plainChange "src/main.rs", plainChange "README.md"]
  requestedApprovalLevel := .ask
  protectedPaths := [⟨"src/secrets".toList⟩]
  config := .default

theorem short_changes_trusted :
    AtLeastAsPermissive (evaluateChanges id .trusted (requesting shortChanges .trusted))
      (evaluateChanges id .trusted (requesting shortChanges .ask)) ∧
    (evaluateChanges id .trusted (requesting shortChanges .ask)).requiresConfirmation = false := by
  refine ⟨levels_monotone rfl (by decide) ?_ (by decide), by decide +kernel⟩
  rintro paths ⟨⟩

end PolicyLevels

end Devit
