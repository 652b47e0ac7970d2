import Devit.Library.Glob
import Devit.Library.Path

/-! The allowlist of the programs that may be run. An entry with a star is taken for what stands
in front of the stars at its end, and any other star in it for itself. -/
namespace Devit
open Text Path

/-- The errors of the sandbox: the system's, and its own with their texts. -/
inductive SandboxError (E : Type) where
  | permissionDenied (message : Text)
  | invalidInput (message : Text)
  | system (err : E)

namespace DevitExec
open Glob

/-- An entry of the list takes the path. -/
def takes (binaryStr pattern : Text) : Bool :=
  if '*' ∈ pattern then startsWith (stem '*' pattern) binaryStr
  else binaryStr == pattern

def validateBinary {E : Type} (binaryAllowlist : List Text) (binaryPath : PathBuf) :
    Except (SandboxError E) Unit :=
  if binaryAllowlist.any (takes binaryPath.text) then .ok ()
  else .error (.permissionDenied ("Binary not in allowlist: ".toList ++ binaryPath.text))

/-- A list of globs: some entry matches the whole path. -/
def Allowed (binaryAllowlist : List Text) (path : Text) : Prop :=
  ∃ pattern ∈ binaryAllowlist, Globs '*' pattern path

/-- A star stands in front of another character. -/
def Inner (pattern : Text) : Prop := '*' ∈ stem '*' pattern

/-- Entries with a star inside match the path, and it begins with none of them as it is spelled. -/
def Missed (binaryAllowlist : List Text) (path : Text) : Prop :=
  (∃ pattern ∈ binaryAllowlist, Inner pattern ∧ Globs '*' pattern path) ∧
    ∀ pattern ∈ binaryAllowlist, Inner pattern → ¬ stem '*' pattern <+: path

/-- The path goes on behind an entry with a star inside, as it is spelled, and no such entry
matches it. -/
def Overshot (binaryAllowlist : List Text) (path : Text) : Prop :=
  (∃ pattern ∈ binaryAllowlist, Inner pattern ∧ stem '*' pattern = pattern ∧ pattern <+: path ∧
      pattern ≠ path) ∧
    ∀ pattern ∈ binaryAllowlist, Inner pattern → ¬ Globs '*' pattern path

variable {binaryAllowlist : List Text} {path : PathBuf}

/-- Stars at the end are read as a glob reads them, and so is an entry without a star. -/
theorem takes_plain {pattern : Text} (plain : ¬ Inner pattern) (path : Text) :
    takes path pattern = true ↔ Globs '*' pattern path := by
  unfold takes
  by_cases wild : '*' ∈ pattern
  · rw [if_pos wild, globs_stem_iff wild plain, startsWith_iff]
    exact ⟨fun ⟨rest, shape⟩ => ⟨rest, shape.symm⟩, fun ⟨rest, shape⟩ => ⟨rest, shape.symm⟩⟩
  · rw [if_neg wild, literal_iff wild,
      beq_iff_eq]

theorem takes_inner {pattern : Text} (inner : Inner pattern) (path : Text) :
    takes path pattern = true ↔ stem '*' pattern <+: path := by
  have wild : '*' ∈ pattern := by
    obtain ⟨wilds, shape, -⟩ := stem_append (w := '*') pattern
    rw [shape]
    exact List.mem_append_left _ inner
  rw [takes, if_pos wild, startsWith_iff]
  exact ⟨fun ⟨rest, shape⟩ => ⟨rest, shape.symm⟩, fun ⟨rest, shape⟩ => ⟨rest, shape.symm⟩⟩

theorem validateBinary_iff {E : Type} :
    validateBinary (E := E) binaryAllowlist path = .ok () ↔
      ∃ pattern ∈ binaryAllowlist, takes path.text pattern = true := by
  rw [validateBinary, ← List.any_eq_true]
  split
  · exact iff_of_true rfl ‹_›
  · exact iff_of_false (fun bad => nomatch bad) ‹_›

/-- **Globs.** The list is read as globs exactly if an entry without a star inside matches, or
those with one neither miss the path nor overshoot. -/
theorem validateBinary_globs_iff {E : Type} (binaryAllowlist : List Text) (path : PathBuf) :
    (validateBinary (E := E) binaryAllowlist path = .ok () ↔ Allowed binaryAllowlist path.text) ↔
      (∃ pattern ∈ binaryAllowlist, ¬ Inner pattern ∧ Globs '*' pattern path.text) ∨
        (¬ Missed binaryAllowlist path.text ∧ ¬ Overshot binaryAllowlist path.text) := by
  rw [validateBinary_iff]
  by_cases plain : ∃ pattern ∈ binaryAllowlist, ¬ Inner pattern ∧ Globs '*' pattern path.text
  · obtain ⟨pattern, member, outer, globs⟩ := plain
    refine iff_of_true (iff_of_true ⟨pattern, member, (takes_plain outer _).mpr globs⟩
      ⟨pattern, member, globs⟩) (.inl ⟨pattern, member, outer, globs⟩)
  · rw [or_iff_right plain]
    have accepted : (∃ pattern ∈ binaryAllowlist, takes path.text pattern = true) ↔
        ∃ pattern ∈ binaryAllowlist, Inner pattern ∧ stem '*' pattern <+: path.text := by
      refine exists_congr fun pattern => and_congr_right fun member => ?_
      by_cases inner : Inner pattern
      · rw [takes_inner inner, and_iff_right inner]
      · rw [takes_plain inner]
        exact iff_of_false (fun globs => plain ⟨pattern, member, inner, globs⟩)
          fun both => inner both.1
    have allowed : Allowed binaryAllowlist path.text ↔
        ∃ pattern ∈ binaryAllowlist, Inner pattern ∧ Globs '*' pattern path.text := by
      refine exists_congr fun pattern => and_congr_right fun member => ?_
      by_cases inner : Inner pattern
      · rw [and_iff_right inner]
      · exact iff_of_false (fun globs => plain ⟨pattern, member, inner, globs⟩)
          fun both => inner both.1
    rw [accepted, allowed]
    constructor
    · refine fun same => ⟨fun missed => ?_, fun overshot => ?_⟩
      · obtain ⟨pattern, member, inner, begins⟩ := same.mpr missed.1
        exact missed.2 pattern member inner begins
      · obtain ⟨⟨pattern, member, inner, whole, begins, -⟩, none_matches⟩ := overshot
        obtain ⟨other, member', inner', globs⟩ :=
          same.mp ⟨pattern, member, inner, whole.symm ▸ begins⟩
        exact none_matches other member' inner' globs
    · rintro ⟨met, short⟩
      constructor
      · rintro ⟨pattern, member, inner, begins⟩
        by_contra none_matches
        have unmatched : ∀ other ∈ binaryAllowlist, Inner other → ¬ Globs '*' other path.text :=
          fun other member' inner' globs => none_matches ⟨other, member', inner', globs⟩
        have whole : stem '*' pattern = pattern := by
          by_contra open_end
          exact unmatched pattern member inner (globs_of_stem open_end begins)
        refine short ⟨⟨pattern, member, inner, whole, whole ▸ begins, ?_⟩, unmatched⟩
        intro same
        exact unmatched pattern member inner (same ▸ .self _)
      · intro matches_inner
        by_contra none_begins
        exact met ⟨matches_inner, fun pattern member inner begins =>
          none_begins ⟨pattern, member, inner, begins⟩⟩

/-- A star inside: the program that is meant is refused. -/
theorem inner_star_misread :
    ¬ (validateBinary (E := Empty) ["/opt/*/bin/gcc".toList] ⟨"/opt/cross/bin/gcc".toList⟩ =
          .ok () ↔
        Allowed ["/opt/*/bin/gcc".toList] "/opt/cross/bin/gcc".toList) := by
  intro same
  have globs : Globs '*' "/opt/*/bin/gcc".toList "/opt/cross/bin/gcc".toList :=
    (Globs.self "/opt/".toList).append ((Globs.self "/bin/gcc".toList).any "cross".toList)
  have accepted := same.mpr ⟨_, List.mem_singleton_self _, globs⟩
  obtain ⟨pattern, member, taken⟩ := validateBinary_iff.mp accepted
  cases List.mem_singleton.mp member
  exact absurd taken (by decide +kernel)

end DevitExec

end Devit
