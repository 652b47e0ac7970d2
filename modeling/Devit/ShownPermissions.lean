import Devit.DiffSections
import Devit.Library.Parallel
import Devit.PatchPreviews

/-! The changes of mode in a preview are found by a scan of their own, which takes the second
name on a `diff --git` line for its fourth word. -/
namespace Devit
open Text Path

/-- A mode in print. -/
structure PrintedMode where
  text : Text
  value : Nat
  reads : parseUnsigned 8 (2 ^ 32 - 1) text = some value
  filled : text ≠ []
  clean : ∀ c ∈ text, isWhitespace c = false

/-- A section that may change the mode of a file. -/
structure ModeSection where
  names : Text
  path : Text
  modes : Option (PrintedMode × PrintedMode)
  others : List Text
  content : SectionContent

/-- A line that the scan for modes passes over. -/
structure Skipped (line : Text) : Prop where
  file : startsWith "diff --git".toList line = false
  old : startsWith "old mode".toList line = false
  new : startsWith "new mode".toList line = false

/-- A file that changes its mode keeps its name, and no other line of the header is taken for
one about modes. -/
structure ModeSection.Written (s : ModeSection) : Prop where
  names : s.modes.isSome = true → s.names = "a/".toList ++ s.path ++ " b/".toList ++ s.path
  others : ∀ line ∈ s.others, Skipped line

namespace ModeSection
open DiffSections PatchPreviews

def modeLines : Option (PrintedMode × PrintedMode) → List Text
  | none => []
  | some (old, new) => ["old mode ".toList ++ old.text, "new mode ".toList ++ new.text]

def toGit (s : ModeSection) : GitSection := ⟨s.names, modeLines s.modes ++ s.others, s.content⟩

/-- The path that is shown for it. -/
def shownPath (s : ModeSection) : PathBuf :=
  let word := ((splitWhitespace s.names)[1]?).getD []
  ⟨(stripPrefix "b/".toList word).getD word⟩

def shownChange (s : ModeSection) : Option PermissionChange :=
  match s.modes with
  | none => none
  | some (old, new) =>
    if old.value ≠ new.value then some (permissionChange s.shownPath old.value new.value) else none

end ModeSection

namespace ShownPermissions
open PatchPreviews DiffSections UnifiedDiff ModeSection

variable {patchContent : Text}

theorem skipped_of_head {c : Char} (other : c ≠ 'd' ∧ c ≠ 'o' ∧ c ≠ 'n') (rest : Text) :
    Skipped (c :: rest) :=
  ⟨startsWith_head_ne other.1.symm, startsWith_head_ne other.2.1.symm,
    startsWith_head_ne other.2.2.symm⟩

theorem scanLine_skipped {line : Text} (skipped : Skipped line) (scan : Scan) :
    scanLine scan line = scan := by
  rw [scanLine, extractDiffPath, skipped.file, parseModeLine, skipped.old, parseModeLine,
    skipped.new]
  rfl

theorem foldl_skipped {ls : List Text} (skipped : ∀ line ∈ ls, Skipped line) (scan : Scan) :
    ls.foldl scanLine scan = scan := by
  induction ls with
  | nil => rfl
  | cons line ls ih =>
    rw [List.foldl_cons, scanLine_skipped (skipped line List.mem_cons_self)]
    exact ih fun other member => skipped other (List.mem_cons_of_mem _ member)

theorem skipped_printBody {body : List (PatchLine × Bool)} :
    ∀ line ∈ printBody body, Skipped line := by
  intro line member
  obtain ⟨⟨content, marked⟩, -, own⟩ := List.mem_flatMap.mp member
  rcases List.mem_cons.mp own with rfl | marker
  · cases content <;> exact skipped_of_head (by decide) _
  · cases marked with
    | false => cases marker
    | true =>
      cases List.mem_singleton.mp marker
      exact skipped_of_head (by decide) _

/-- Nothing behind the header of a section is taken for a line about modes. -/
theorem skipped_content {content : SectionContent} :
    ∀ line ∈ printContent content, Skipped line := by
  intro line member
  cases content with
  | nothing => cases member
  | binary names =>
    cases List.mem_singleton.mp member
    exact skipped_of_head (by decide) _
  | hunks oldName newName hs =>
    rcases List.mem_cons.mp member with rfl | member
    · exact skipped_of_head (by decide) _
    rcases List.mem_cons.mp member with rfl | member
    · exact skipped_of_head (by decide) _
    obtain ⟨h, -, own⟩ := List.mem_flatMap.mp member
    rcases List.mem_cons.mp own with rfl | body
    · exact skipped_of_head (by decide) _
    · exact skipped_printBody line body

theorem words_append (s rest : Text) :
    splitWhitespace (s ++ ' ' :: rest) = splitWhitespace s ++ splitWhitespace rest := by
  rw [splitWhitespace, splitOn_append (by decide), List.filter_append]
  rfl

theorem words_ne_nil {c : Char} (visible : isWhitespace c = false) (s : Text) :
    splitWhitespace (c :: s) ≠ [] := by
  have head : ∃ word rest, splitOn isWhitespace (c :: s) = (c :: word) :: rest := by
    obtain ⟨word, rest, shape⟩ := List.exists_cons_of_ne_nil (splitOn_ne_nil isWhitespace s)
    refine ⟨word, rest, ?_⟩
    rw [splitOn, visible, shape]
    rfl
  obtain ⟨word, rest, shape⟩ := head
  rw [splitWhitespace, shape, List.filter_cons_of_pos (by simp)]
  exact List.cons_ne_nil _ _

theorem words_whole {word : Text} (filled : word ≠ [])
    (clean : ∀ c ∈ word, isWhitespace c = false) : splitWhitespace word = [word] := by
  rw [splitWhitespace, splitOn_whole clean]
  exact List.filter_cons_of_pos (decide_eq_true filled)

/-- The names of a file that stays where it is have a second word, which holds no space. -/
theorem second_word (path : Text) : ∃ word,
    (splitWhitespace ("a/".toList ++ path ++ " b/".toList ++ path))[1]? = some word ∧
      (∀ c ∈ word, isWhitespace c = false) ∧
      ((∀ c ∈ path, isWhitespace c = false) → word = "b/".toList ++ path) := by
  have shape : "a/".toList ++ path ++ " b/".toList ++ path =
      ('a' :: '/' :: path) ++ ' ' :: ('b' :: '/' :: path) := by simp
  have first := @words_ne_nil 'a' (by decide) ('/' :: path)
  have second := @words_ne_nil 'b' (by decide) ('/' :: path)
  rw [shape, words_append]
  have two : 1 < (splitWhitespace ('a' :: '/' :: path) ++
      splitWhitespace ('b' :: '/' :: path)).length := by
    have one := List.length_pos_iff.mpr first
    have other := List.length_pos_iff.mpr second
    rw [List.length_append]
    omega
  refine ⟨_, List.getElem?_eq_getElem two, ?_, ?_⟩
  · rcases List.mem_append.mp (List.getElem_mem two) with member | member
    all_goals exact splitOn_clean (List.mem_filter.mp member).1
  · intro clean
    have whole (side : Char) (visible : isWhitespace side = false) :
        splitWhitespace (side :: '/' :: path) = [side :: '/' :: path] := by
      apply words_whole (List.cons_ne_nil _ _)
      intro c member
      rcases List.mem_cons.mp member with rfl | member
      · exact visible
      rcases List.mem_cons.mp member with rfl | member
      · decide
      · exact clean c member
    simp only [whole 'a' (by decide), whole 'b' (by decide)]
    rfl

theorem words_header (names : Text) : splitWhitespace ("diff --git ".toList ++ names) =
    "diff".toList :: "--git".toList :: splitWhitespace names := by
  have shape : "diff --git ".toList ++ names =
      "diff".toList ++ ' ' :: ("--git".toList ++ ' ' :: names) := by simp
  rw [shape, words_append, words_append]
  rfl

theorem extractDiffPath_header (names : Text) : extractDiffPath ("diff --git ".toList ++ names) =
    (splitWhitespace names)[1]?.map fun bPath => ⟨(stripPrefix "b/".toList bPath).getD bPath⟩ := by
  have starts : startsWith "diff --git".toList ("diff --git ".toList ++ names) = true := by
    have shape : "diff --git ".toList ++ names = "diff --git".toList ++ ' ' :: names := by simp
    rw [shape]
    exact startsWith_append _ _
  rw [extractDiffPath, if_pos starts, words_header]
  rfl

theorem clean_of_all {text : Text} (all : (text.all fun c => !isWhitespace c) = true) :
    ∀ c ∈ text, isWhitespace c = false := by
  simpa using all

/-- A line about a mode, read as what it says. -/
theorem parseModeLine_printed (side : Text) (filled : side ≠ [])
    (clean : ∀ c ∈ side, isWhitespace c = false) (mode : PrintedMode) :
    parseModeLine (side ++ " mode".toList) (side ++ " mode ".toList ++ mode.text) =
      some mode.value := by
  have shape : side ++ " mode ".toList ++ mode.text =
      side ++ ' ' :: ("mode".toList ++ ' ' :: mode.text) := by simp
  have starts : startsWith (side ++ " mode".toList)
      (side ++ " mode ".toList ++ mode.text) = true := by
    have front : side ++ " mode ".toList ++ mode.text =
        side ++ " mode".toList ++ (' ' :: mode.text) := by simp
    rw [front]
    exact startsWith_append _ _
  rw [parseModeLine, if_pos starts, shape, words_append, words_append, words_whole filled clean,
    words_whole mode.filled mode.clean]
  exact mode.reads

theorem scanLine_old (mode : PrintedMode) (scan : Scan) :
    scanLine scan ("old mode ".toList ++ mode.text) = { scan with oldMode := some mode.value } := by
  have read : parseModeLine "old mode".toList ("old mode ".toList ++ mode.text) =
      some mode.value := parseModeLine_printed "old".toList (by decide) (clean_of_all rfl) mode
  have other : startsWith "diff --git".toList ("old mode ".toList ++ mode.text) = false := rfl
  rw [scanLine, extractDiffPath, other, if_neg Bool.false_ne_true]
  dsimp only
  rw [read]

theorem scanLine_new (mode : PrintedMode) {scan : Scan} {path : PathBuf} {previous : Nat}
    (here : scan.currentPath = some path) (was : scan.oldMode = some previous) :
    (scanLine scan ("new mode ".toList ++ mode.text)).changes = scan.changes ++
      if previous ≠ mode.value then [permissionChange path previous mode.value] else [] := by
  have read := parseModeLine_printed "new".toList (by decide) (clean_of_all rfl) mode
  have file : startsWith "diff --git".toList ("new mode ".toList ++ mode.text) = false := rfl
  have old : startsWith "old mode".toList ("new mode ".toList ++ mode.text) = false := rfl
  rw [scanLine, extractDiffPath, file, if_neg Bool.false_ne_true]
  dsimp only
  rw [show parseModeLine "old mode".toList ("new mode ".toList ++ mode.text) = none from
    if_neg (by rw [old]; exact Bool.false_ne_true)]
  dsimp only
  rw [show parseModeLine "new mode".toList ("new mode ".toList ++ mode.text) = some mode.value from
    read]
  dsimp only
  rw [here, was]

/-- What the scan of one section adds. -/
theorem scan_section {s : ModeSection} (written : s.Written) (scan : Scan) :
    ((printSection s.toGit).foldl scanLine scan).changes =
      scan.changes ++ s.shownChange.toList := by
  have behind (scan : Scan) : (s.others ++ printContent s.content).foldl scanLine scan = scan :=
    foldl_skipped (fun line member => (List.mem_append.mp member).elim
      (fun own => written.others line own) fun own => skipped_content line own) scan
  rw [printSection, toGit, List.append_assoc, List.foldl_cons, List.foldl_append, behind,
    shownChange]
  cases found : s.modes with
  | none =>
    rw [modeLines, List.foldl_nil, scanLine, extractDiffPath_header]
    cases (splitWhitespace s.names)[1]? with
    | some word => exact (List.append_nil _).symm
    | none => exact (List.append_nil _).symm
  | some both =>
    obtain ⟨old, new⟩ := both
    obtain ⟨word, second, -⟩ := second_word s.path
    rw [← written.names (by rw [found]; rfl)] at second
    have header : scanLine scan ("diff --git ".toList ++ s.names) =
        { scan with currentPath := some s.shownPath, oldMode := none } := by
      rw [scanLine, extractDiffPath_header, shownPath, second]
      rfl
    rw [modeLines, List.foldl_cons, List.foldl_cons, List.foldl_nil, header, scanLine_old,
      scanLine_new new rfl rfl]
    dsimp only
    split <;> rfl

end ShownPermissions

end Devit
