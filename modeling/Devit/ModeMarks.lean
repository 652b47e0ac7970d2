import Devit.PatchClassify
import Devit.SectionSplits

/-! The marks that the policy is given for executable files, symbolic links and submodules.
A section is marked by its lines `old mode` and `new mode` only. The mode of a new file is
on a line that is not read, and no section is ever marked as a link or a submodule. -/
namespace Devit
open Text

namespace ModeMarks
open PatchParser PatchClassify DiffSections SectionSplits

/-- The sections of a diff: at its git headers, or else at its pairs of file headers. -/
def sectionsOf (diffContent : Text) : List (List Text) :=
  if sections startsGitFile (lines diffContent) = [] then
    sections startsPlainFile (lines diffContent)
  else sections startsGitFile (lines diffContent)

/-- The mode on the last of the lines that begin so. -/
def modeOn (starts : List Text) (header : List Text) : Option Nat :=
  header.foldl (fun mode line =>
    match starts.findSome? fun start => stripPrefix start line with
    | some value => readMode value
    | none => mode) none

def oldMode (s : List Text) : Option Nat := modeOn ["old mode ".toList] (headerLines s)

/-- The mode of the new side, whether the file is new or has changed. -/
def newMode (s : List Text) : Option Nat :=
  modeOn ["new mode ".toList, "new file mode ".toList] (headerLines s)

/-- What the lines `new mode` alone say. -/
def changedMode (s : List Text) : Option Nat := modeOn ["new mode ".toList] (headerLines s)

def executable (mode : Option Nat) : Bool := mode.any fun mode => mode &&& execMask ≠ 0

/-- The new side can be executed and the old side could not. -/
def gainsExec (old new : Option Nat) : Bool := executable new && !executable old

/-- The marks of a section are what its mode lines say. -/
structure Marked (s : List Text) (change : FileChange) : Prop where
  exec : change.addsExecBit = gainsExec (oldMode s) (newMode s)
  symlink : change.isSymlink = decide (newMode s = some 0o120000)
  submodule : change.isSubmodule = decide (newMode s = some 0o160000)

/-- The section is no link and no submodule, and the lines `new file mode` do not decide
whether it becomes executable. -/
structure Ordinary (s : List Text) : Prop where
  link : newMode s ≠ some 0o120000
  submodule : newMode s ≠ some 0o160000
  exec : gainsExec (oldMode s) (newMode s) = gainsExec (oldMode s) (changedMode s)

variable {s : List Text} {file : FilePatch} {files : List FilePatch} {parts : List (List Text)}

/-! ## One section -/

theorem modeAddsExec_eq (old new : Option Nat) : modeAddsExec old new = gainsExec old new := by
  cases new with
  | none => cases old <;> rfl
  | some new =>
    cases old with
    | none => simp [modeAddsExec, gainsExec, executable]
    | some old => simp [modeAddsExec, gainsExec, executable]

theorem headerStep_oldMode (h : Header) (line : Text) : (headerStep h line).oldMode =
    match ["old mode ".toList].findSome? fun start => stripPrefix start line with
    | some value => readMode value
    | none => h.oldMode := by
  rw [List.findSome?_cons, List.findSome?_nil, headerStep]
  cases stripPrefix "old mode ".toList line with
  | some value => rfl
  | none =>
    cases stripPrefix "new mode ".toList line with
    | some value => rfl
    | none =>
      dsimp only
      split_ifs <;> rfl

theorem headerStep_newMode (h : Header) (line : Text) : (headerStep h line).newMode =
    match ["new mode ".toList].findSome? fun start => stripPrefix start line with
    | some value => readMode value
    | none => h.newMode := by
  rw [List.findSome?_cons, List.findSome?_nil, headerStep]
  cases old : stripPrefix "old mode ".toList line with
  | some value =>
    have none : stripPrefix "new mode ".toList line = none := by
      rw [stripPrefix_eq_some old]
      rfl
    rw [none]
  | none =>
    cases stripPrefix "new mode ".toList line with
    | some value => rfl
    | none =>
      dsimp only
      split_ifs <;> rfl

/-- The header loop keeps the last mode of each side. -/
theorem readFront_modes (header : List Text) (h : Header) :
    (readFront h header).oldMode = header.foldl (fun mode line =>
      match ["old mode ".toList].findSome? fun start => stripPrefix start line with
      | some value => readMode value
      | none => mode) h.oldMode ∧
    (readFront h header).newMode = header.foldl (fun mode line =>
      match ["new mode ".toList].findSome? fun start => stripPrefix start line with
      | some value => readMode value
      | none => mode) h.newMode := by
  induction header generalizing h with
  | nil => exact ⟨rfl, rfl⟩
  | cons line header ih =>
    obtain ⟨old, new⟩ := ih (headerStep h line)
    rw [headerStep_oldMode] at old
    rw [headerStep_newMode] at new
    exact ⟨old, new⟩

/-- A file that was read from a section is marked as the section says exactly if the section
is ordinary. -/
theorem marked_iff (reads : ReadsModes s file) : Marked s (classifyFile file) ↔ Ordinary s := by
  obtain ⟨old, new, exec⟩ := reads
  obtain ⟨old_is, new_is⟩ := readFront_modes (headerLines s) .empty
  have exec_is : file.addsExecBit = gainsExec (oldMode s) (changedMode s) := by
    rw [exec, modeAddsExec_eq, old, new, old_is, new_is]
    rfl
  constructor
  · rintro ⟨exec_marked, link, submodule⟩
    refine ⟨of_decide_eq_false link.symm, of_decide_eq_false submodule.symm, ?_⟩
    rw [← exec_marked, ← exec_is]
    rfl
  · rintro ⟨link, submodule, same⟩
    refine ⟨?_, (decide_eq_false link).symm, (decide_eq_false submodule).symm⟩
    rw [same, ← exec_is]
    rfl

/-! ## All sections -/

theorem Scanned.length_le (scanned : Scanned parts files) : files.length ≤ parts.length := by
  induction scanned with
  | done => exact Nat.le_refl _
  | own _ _ _ ih => exact Nat.succ_le_succ ih
  | merged _ behind _ ih =>
    have shorter := behind.length_le
    simp only [List.length_cons]
    omega

theorem Scanned.nil_iff (scanned : Scanned parts files) : files = [] ↔ parts = [] := by
  cases scanned with
  | done => exact iff_of_true rfl rfl
  | own _ _ _ => exact iff_of_false (List.cons_ne_nil _ _) (List.cons_ne_nil _ _)
  | merged _ _ _ => exact iff_of_false (List.cons_ne_nil _ _) (List.cons_ne_nil _ _)

/-- The files are marked section by section exactly if no section is read together with the
next one and every section is ordinary. -/
theorem marked_all_iff (scanned : Scanned parts files) :
    List.Forall₂ Marked parts (files.map classifyFile) ↔
      (∀ s ∈ parts.dropLast, Closed s) ∧ ∀ s ∈ parts, Ordinary s := by
  induction scanned with
  | done => exact iff_of_true .nil ⟨List.forall_mem_nil _, List.forall_mem_nil _⟩
  | @own s later file files kept reads rest ih =>
    rw [List.map_cons, List.forall₂_cons, marked_iff reads, ih, List.forall_mem_cons]
    rcases List.eq_nil_or_concat later with rfl | ⟨front, last, rfl⟩
    · simp
    · have closed : Closed s := by
        refine kept.resolve_right fun none => ?_
        simp at none
      have more : (s :: front.concat last).dropLast = s :: (front.concat last).dropLast :=
        List.dropLast_cons_of_ne_nil (by simp)
      rw [more, List.forall_mem_cons]
      exact ⟨fun ⟨own, all, ordinary⟩ => ⟨⟨closed, all⟩, own, ordinary⟩,
        fun ⟨⟨_, all⟩, own, ordinary⟩ => ⟨own, all, ordinary⟩⟩
  | @merged s next later left file files open_end behind rest ih =>
    refine iff_of_false (fun marked => ?_) fun ⟨closed, _⟩ => open_end ?_
    · have sizes := marked.length_eq
      have fewer := Scanned.length_le rest
      have shorter := behind.length_le
      simp only [List.length_cons, List.length_map] at sizes
      omega
    · exact closed s (List.mem_cons_self ..)

/-- **Marks.** The sections of a diff that is classified are marked as their mode lines say
exactly if every section but the last has a hunk or a notice about binary files, none is a
symbolic link or a submodule, and the lines `new file mode` never decide whether a section
becomes executable. -/
theorem marks_iff {diffContent : Text} {changes : List FileChange}
    (classified : classifyChanges diffContent = .ok changes) :
    List.Forall₂ Marked (sectionsOf diffContent) changes ↔
      (∀ s ∈ (sectionsOf diffContent).dropLast, Closed s) ∧
        ∀ s ∈ sectionsOf diffContent, Ordinary s := by
  obtain ⟨patch, read, made⟩ := Except.bind_eq_ok classified
  cases made
  obtain ⟨files, git, read⟩ := Except.bind_eq_ok read
  have by_git := scanned marker_git (Nat.le_refl _) git
  by_cases none : files = []
  · rw [if_pos none] at read
    obtain ⟨files, plain, read⟩ := Except.bind_eq_ok read
    cases read
    have by_plain := scanned marker_plain (Nat.le_refl _) plain
    have sections_are : sectionsOf diffContent = sections startsPlainFile (lines diffContent) :=
      if_pos ((Scanned.nil_iff by_git).mp none)
    rw [sections_are]
    exact marked_all_iff by_plain
  · rw [if_neg none] at read
    cases read
    have sections_are : sectionsOf diffContent = sections startsGitFile (lines diffContent) :=
      if_neg (mt (Scanned.nil_iff by_git).mpr none)
    rw [sections_are]
    exact marked_all_iff by_git

/-- A script is made executable. -/
def scriptChange : Text :=
  unlines ["diff --git a/run.sh b/run.sh".toList, "old mode 100644".toList,
    "new mode 100755".toList, "--- a/run.sh".toList, "+++ b/run.sh".toList,
    "@@ -1 +1 @@".toList, "-a".toList, "+b".toList]

theorem script_marked : ∃ change, classifyChanges scriptChange = .ok [change] ∧
    List.Forall₂ Marked (sectionsOf scriptChange) [change] := by
  obtain ⟨change, classified⟩ : ∃ change, classifyChanges scriptChange = .ok [change] := ⟨_, rfl⟩
  refine ⟨change, classified, (marks_iff classified).mpr ⟨?_, ?_⟩⟩
  · have alone : (sectionsOf scriptChange).dropLast = [] := by decide +kernel
    rw [alone]
    exact List.forall_mem_nil _
  · have modes : ∀ s ∈ sectionsOf scriptChange, newMode s ≠ some 0o120000 ∧
        newMode s ≠ some 0o160000 ∧ gainsExec (oldMode s) (newMode s) =
          gainsExec (oldMode s) (changedMode s) := by decide +kernel
    exact fun s member => ⟨(modes s member).1, (modes s member).2.1, (modes s member).2.2⟩

/-- A new file with a mode. -/
def newFile (mode : String) : Text :=
  unlines ["diff --git a/x b/x".toList, "new file mode ".toList ++ mode.toList,
    "--- /dev/null".toList, "+++ b/x".toList, "@@ -0,0 +1 @@".toList, "+/etc/passwd".toList]

/-- The new file is read, and comes unmarked. -/
def ComesUnmarked (mode : String) : Prop :=
  ∃ change, classifyChanges (newFile mode) = .ok [change] ∧
    change.isSymlink = false ∧ change.isSubmodule = false ∧ change.addsExecBit = false ∧
    ¬ List.Forall₂ Marked (sectionsOf (newFile mode)) [change]

/-- The mode on the line that makes a file new is not read: a link, a submodule and an
executable file come unmarked. -/
theorem new_files_unmarked :
    ComesUnmarked "120000" ∧ ComesUnmarked "160000" ∧ ComesUnmarked "100755" := by
  have refuted {mode : String} {change : FileChange}
      (plain : change.isSymlink = false ∧ change.isSubmodule = false ∧ change.addsExecBit = false)
      (tells : ∀ s ∈ sectionsOf (newFile mode), newMode s = some 0o120000 ∨
        newMode s = some 0o160000 ∨ gainsExec (oldMode s) (newMode s) = true) :
      ¬ List.Forall₂ Marked (sectionsOf (newFile mode)) [change] := by
    intro marked
    obtain ⟨s, others, own, -, parts⟩ := List.forall₂_cons_right_iff.mp marked
    rcases tells s (by rw [parts]; exact List.mem_cons_self ..) with link | submodule | exec
    · have mark := own.symlink
      rw [link, plain.1] at mark
      cases mark
    · have mark := own.submodule
      rw [submodule, plain.2.1] at mark
      cases mark
    · have mark := own.exec
      rw [exec, plain.2.2] at mark
      cases mark
  refine ⟨?_, ?_, ?_⟩
  · exact ⟨_, rfl, rfl, rfl, rfl, refuted ⟨rfl, rfl, rfl⟩ (by decide +kernel)⟩
  · exact ⟨_, rfl, rfl, rfl, rfl, refuted ⟨rfl, rfl, rfl⟩ (by decide +kernel)⟩
  · exact ⟨_, rfl, rfl, rfl, rfl, refuted ⟨rfl, rfl, rfl⟩ (by decide +kernel)⟩

end ModeMarks

end Devit
