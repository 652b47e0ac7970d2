import Devit.DiffRoundTrip

/-! The project's own writer of unified diffs, and what the patcher makes of its diffs. The
operations come from a library; the writer puts an empty line between the hunks, numbers them
from the least index of any operation that has one, and marks a line without a newline. The
reader stops at an empty line, and takes the mark for the new file's whichever line it is
behind. -/
namespace Devit
open Text

namespace DiffWriter
open HunkSplicing UnifiedDiff AtomicPatcher PatchParser PatchCorrectness DiffSections DiffRoundTrip

inductive ChangeTag where
  | equal
  | delete
  | insert
  deriving DecidableEq

structure Change where
  tag : ChangeTag
  value : Text
  missingNewline : Bool

inductive DiffOp where
  | equal (oldIndex newIndex len : Nat)
  | delete (oldIndex oldLen newIndex : Nat)
  | insert (oldIndex newIndex newLen : Nat)
  | replace (oldIndex oldLen newIndex newLen : Nat)
  deriving DecidableEq

/-- What is used of a diff of two texts: its operations in groups, and what they change. -/
structure TextDiff where
  groupedOps : List (List DiffOp)
  iterChanges : DiffOp → List Change

/-! ## The writer -/

/-- The lines of one side that some operations are about. -/
structure Range where
  start : Nat
  stop : Nat
  deriving DecidableEq

def Range.widen (r : Range) (index len : Nat) : Range :=
  ⟨min r.start index, max r.stop (index + len)⟩

/-- The ranges of the two sides after one more operation. -/
def widen (r : Range × Range) : DiffOp → Range × Range
  | .equal oldIndex newIndex len => (r.1.widen oldIndex len, r.2.widen newIndex len)
  | .delete oldIndex oldLen _ => (r.1.widen oldIndex oldLen, r.2)
  | .insert _ newIndex newLen => (r.1, r.2.widen newIndex newLen)
  | .replace oldIndex oldLen newIndex newLen =>
    (r.1.widen oldIndex oldLen, r.2.widen newIndex newLen)

/-- Start and length of one side, unless the arithmetic fails. -/
def Range.number (r : Range) : Option (Nat × Nat) :=
  if r.start + 1 ≤ usizeMax ∧ r.start ≤ r.stop then some (r.start + 1, r.stop - r.start) else none

def calcHunkRange (ops : List DiffOp) : Option ((Nat × Nat) × (Nat × Nat)) := do
  let r := ops.foldl widen (⟨usizeMax, 0⟩, ⟨usizeMax, 0⟩)
  let old ← r.1.number
  let new ← r.2.number
  some (old, new)

def signOf : ChangeTag → Char
  | .equal => ' '
  | .delete => '-'
  | .insert => '+'

def changeText (change : Change) : Text :=
  signOf change.tag :: (change.value ++
    if change.missingNewline then "\n\\ No newline at end of file\n".toList else [])

def rangeText (r : Nat × Nat) : Text := printNat r.1 ++ ',' :: printNat r.2

def groupText (diff : TextDiff) (group : List DiffOp) : Option Text :=
  (calcHunkRange group).map fun (old, new) =>
    "@@ -".toList ++ rangeText old ++ " +".toList ++ rangeText new ++ " @@\n".toList ++
      (group.flatMap diff.iterChanges).flatMap changeText

def groupsText (diff : TextDiff) : Nat → List (List DiffOp) → Option Text
  | _, [] => some []
  | idx, group :: groups => do
    let text ← groupText diff group
    let later ← groupsText diff (idx + 1) groups
    some ((if idx > 0 then ['\n'] else []) ++ text ++ later)

/-- The diff of two texts, unless the arithmetic fails. -/
def unifiedDiff (fromLines : Text → Text → TextDiff) (original modified filePath : Text) :
    Option Text :=
  let diff := fromLines original modified
  (groupsText diff 0 diff.groupedOps).map fun text =>
    "--- a/".toList ++ filePath ++ '\n' :: ("+++ b/".toList ++ filePath ++ '\n' :: text)

/-- The diff applied to the text of a file, as a file that exists is patched. -/
def applyDiff (diffContent original : Text) : DevItResult Text := do
  let parsed ← fromDiff diffContent
  match parsed.files with
  | [] => .ok original
  | file :: _ =>
    buildNewContent file.hunks (lines original)
      (if file.noTrailingNewline then false else original.getLast? = some '\n')

/-! ## What is known of the operations -/

/-- The lines that are compared, with their ends: a carriage return alone is one. -/
def splitLineEnds : Text → List Text
  | [] => []
  | c :: cs =>
    if c = '\n' ∨ (c = '\r' ∧ cs.head? ≠ some '\n') then [c] :: splitLineEnds cs
    else
      match splitLineEnds cs with
      | [] => [[c]]
      | piece :: pieces => (c :: piece) :: pieces

/-- The change of one line, whose newline is missing if it does not end with one. -/
def changeOf (tag : ChangeTag) (value : Text) : Change :=
  ⟨tag, value, decide (value.getLast? ≠ some '\n' ∧ value.getLast? ≠ some '\r')⟩

/-- The operations from some indices on turn some old lines into new ones. -/
inductive Ops (diff : TextDiff) : Nat → Nat → List DiffOp → List Text → List Text → Prop where
  | done {i j : Nat} : Ops diff i j [] [] []
  | equal {i j : Nat} {ops : List DiffOp} {old new : List Text} (same : List Text)
      (filled : same ≠ [])
      (changes : diff.iterChanges (.equal i j same.length) = same.map (changeOf .equal))
      (rest : Ops diff (i + same.length) (j + same.length) ops old new) :
      Ops diff i j (.equal i j same.length :: ops) (same ++ old) (same ++ new)
  | delete {i j : Nat} {ops : List DiffOp} {old new : List Text} (gone : List Text)
      (filled : gone ≠ [])
      (changes : diff.iterChanges (.delete i gone.length j) = gone.map (changeOf .delete))
      (rest : Ops diff (i + gone.length) j ops old new) :
      Ops diff i j (.delete i gone.length j :: ops) (gone ++ old) new
  | insert {i j : Nat} {ops : List DiffOp} {old new : List Text} (added : List Text)
      (filled : added ≠ [])
      (changes : diff.iterChanges (.insert i j added.length) = added.map (changeOf .insert))
      (rest : Ops diff i (j + added.length) ops old new) :
      Ops diff i j (.insert i j added.length :: ops) old (added ++ new)
  | replace {i j : Nat} {ops : List DiffOp} {old new : List Text} (gone added : List Text)
      (filled : gone ≠ [] ∧ added ≠ [])
      (changes : diff.iterChanges (.replace i gone.length j added.length) =
        gone.map (changeOf .delete) ++ added.map (changeOf .insert))
      (rest : Ops diff (i + gone.length) (j + added.length) ops old new) :
      Ops diff i j (.replace i gone.length j added.length :: ops) (gone ++ old) (added ++ new)

/-- The groups from some indices on turn old lines into new ones. Lines between groups are the
same, and behind a group that is not the last one there is something to change. -/
inductive Groups (diff : TextDiff) : Nat → Nat → List (List DiffOp) → List Text → List Text → Prop
    where
  | done {i j : Nat} (same : List Text) : Groups diff i j [] same same
  | group {i j : Nat} {group : List DiffOp} {groups : List (List DiffOp)}
      {old new oldRest newRest : List Text} (keep : List Text) (filled : group ≠ [])
      (ops : Ops diff (i + keep.length) (j + keep.length) group old new)
      (onward : groups ≠ [] → oldRest ≠ newRest)
      (rest : Groups diff (i + keep.length + old.length) (j + keep.length + new.length) groups
        oldRest newRest) :
      Groups diff i j (group :: groups) (keep ++ (old ++ oldRest)) (keep ++ (new ++ newRest))

/-! ## When the patcher understands the diff -/

/-- The operation is about lines of the old text. -/
def DiffOp.hasOld : DiffOp → Bool
  | .insert _ _ _ => false
  | _ => true

def DiffOp.hasNew : DiffOp → Bool
  | .delete _ _ _ => false
  | _ => true

/-- The group has lines of both texts. -/
def TwoSided (group : List DiffOp) : Prop :=
  group.any (·.hasOld) = true ∧ group.any (·.hasNew) = true

def patchLine (change : Change) : PatchLine :=
  match change.tag with
  | .equal => .context (chopLine change.value)
  | .delete => .remove (chopLine change.value)
  | .insert => .add (chopLine change.value)

/-- The lines of a group as they are read, with the marks behind them. -/
def bodyOf (diff : TextDiff) (group : List DiffOp) : List (PatchLine × Bool) :=
  (group.flatMap diff.iterChanges).map fun change => (patchLine change, change.missingNewline)

/-- The hunk of a group. -/
def hunkOf (diff : TextDiff) (group : List DiffOp) : DiffHunk where
  oldStart := (calcHunkRange group).elim 0 (·.1.1)
  newStart := (calcHunkRange group).elim 0 (·.2.1)
  body := bodyOf diff group
  shortOld := false
  shortNew := false
  heading := []

/-- There are no carriage returns, and one group at most, with lines on both sides; no lines of
it look like a file header; a final newline is not new, and the new text is not an empty line. -/
structure Understood (diff : TextDiff) (original modified : Text) : Prop where
  noReturns : '\r' ∉ original ∧ '\r' ∉ modified
  one : diff.groupedOps.length ≤ 1
  sides : ∀ group ∈ diff.groupedOps, TwoSided group
  honest : ∀ group ∈ diff.groupedOps, ¬ FakesFileHeader (bodyOf diff group)
  ending : modified.getLast? = some '\n' → original.getLast? = some '\n'
  some_text : modified ≠ ['\n']

/-! ## The numbers of a group -/

/-- The range after some more lines from an index on, if there are any. -/
def Range.cover (r : Range) (index len : Nat) : Range := if len = 0 then r else r.widen index len

theorem Range.cover_nonempty (r : Range) (index : Nat) {lines : List Text} (filled : lines ≠ []) :
    r.widen index lines.length = r.cover index lines.length := by
  rw [Range.cover, if_neg (by simpa using filled)]

theorem Range.cover_cover (r : Range) (index : Nat) (first later : List Text) :
    (r.cover index first.length).cover (index + first.length) later.length =
      r.cover index (first ++ later).length := by
  unfold Range.cover
  by_cases noFirst : first = []
  · simp [noFirst]
  · by_cases noLater : later = []
    · simp [noLater]
    · have some_first : first.length ≠ 0 := by simpa using noFirst
      have some_later : later.length ≠ 0 := by simpa using noLater
      rw [List.length_append, if_neg some_later, if_neg some_first, if_neg (by omega),
        Range.widen, Range.widen, Range.widen, Range.mk.injEq]
      dsimp only
      omega

variable {diff : TextDiff}

theorem Ops.ranges {i j : Nat} {ops : List DiffOp} {old new : List Text}
    (turns : Ops diff i j ops old new) (r : Range × Range) :
    ops.foldl widen r = (r.1.cover i old.length, r.2.cover j new.length) := by
  induction turns generalizing r with
  | done => rfl
  | equal same filled changes rest ih =>
    rw [List.foldl_cons, widen, ih, Range.cover_nonempty _ _ filled,
      Range.cover_nonempty _ _ filled, Range.cover_cover, Range.cover_cover]
  | delete gone filled changes rest ih =>
    rw [List.foldl_cons, widen, ih, Range.cover_nonempty _ _ filled, Range.cover_cover]
  | insert added filled changes rest ih =>
    rw [List.foldl_cons, widen, ih, Range.cover_nonempty _ _ filled, Range.cover_cover]
  | replace gone added filled changes rest ih =>
    rw [List.foldl_cons, widen, ih, Range.cover_nonempty _ _ filled.1,
      Range.cover_nonempty _ _ filled.2, Range.cover_cover, Range.cover_cover]

theorem number_cover {index len : Nat} (fits : index + len < usizeMax) :
    (Range.cover ⟨usizeMax, 0⟩ index len).number =
      if len = 0 then none else some (index + 1, len) := by
  rw [Range.cover]
  split
  · rfl
  · have least : min usizeMax index = index := by omega
    have most : max 0 (index + len) = index + len := by omega
    rw [Range.number, Range.widen, least, most]
    simp only
    rw [if_pos (by omega), Nat.add_sub_cancel_left]

/-- The range of a group is that of its lines, and there is none where a side has no lines. -/
theorem Ops.calcHunkRange {i j : Nat} {ops : List DiffOp} {old new : List Text}
    (turns : Ops diff i j ops old new) (oldFits : i + old.length < usizeMax)
    (newFits : j + new.length < usizeMax) :
    calcHunkRange ops =
      if old = [] ∨ new = [] then none
      else some ((i + 1, old.length), (j + 1, new.length)) := by
  rw [DiffWriter.calcHunkRange, turns.ranges]
  simp only [number_cover oldFits, number_cover newFits, List.length_eq_zero_iff]
  by_cases noOld : old = []
  · simp [noOld]
  · by_cases noNew : new = [] <;> simp [noOld, noNew]

theorem Ops.sides {i j : Nat} {ops : List DiffOp} {old new : List Text}
    (turns : Ops diff i j ops old new) :
    (ops.any (·.hasOld) = true ↔ old ≠ []) ∧ (ops.any (·.hasNew) = true ↔ new ≠ []) := by
  induction turns with
  | done => simp
  | equal same filled changes rest ih => simp [DiffOp.hasOld, DiffOp.hasNew, filled]
  | delete gone filled changes rest ih => exact ⟨by simp [DiffOp.hasOld, filled], ih.2⟩
  | insert added filled changes rest ih => exact ⟨ih.1, by simp [DiffOp.hasNew, filled]⟩
  | replace gone added filled changes rest ih =>
    simp [DiffOp.hasOld, DiffOp.hasNew, filled.1, filled.2]

/-! ## The text of a group -/

/-- A line of a text without carriage returns: it ends in its newline, or the text with it. -/
inductive Piece : Text → Prop where
  | ended {line : Text} (clean : '\n' ∉ line) (noCr : '\r' ∉ line) : Piece (line ++ ['\n'])
  | bare {line : Text} (clean : '\n' ∉ line) (noCr : '\r' ∉ line) (filled : line ≠ []) : Piece line

/-- The lines are the patcher's where there are no carriage returns. -/
theorem splitLineEnds_eq {text : Text} (noCr : '\r' ∉ text) :
    splitLineEnds text = splitInclusive text := by
  induction text with
  | nil => rfl
  | cons c cs ih =>
    obtain ⟨other, later⟩ := List.ne_and_not_mem_of_not_mem_cons noCr
    have newline : (c = '\n' ∨ (c = '\r' ∧ cs.head? ≠ some '\n')) ↔ c = '\n' := by
      simp [Ne.symm other]
    rw [splitLineEnds, splitInclusive, ih later]
    simp only [newline]
    split
    · rename_i same
      rw [same]
    · rfl

theorem piece_of_text {text : Text} (noCr : '\r' ∉ text) :
    ∀ value ∈ splitInclusive text, Piece value := by
  obtain ⟨ls, last, rfl, clean, free⟩ := exists_unlines text
  rw [splitInclusive_unlines_append clean]
  rw [List.mem_append, not_or] at noCr
  intro value member
  rcases List.mem_append.mp member with printed | rest
  · obtain ⟨line, inside, rfl⟩ := List.mem_map.mp printed
    refine .ended (clean line inside) fun cr => noCr.1 ?_
    exact List.mem_flatMap.mpr ⟨line, inside, List.mem_append_left _ cr⟩
  · by_cases none : last = []
    · rw [none] at rest
      cases rest
    · rw [splitInclusive_whole free none] at rest
      obtain rfl := List.mem_singleton.mp rest
      exact .bare free noCr.2 none

theorem chopLine_ended {line : Text} (noCr : '\r' ∉ line) : chopLine (line ++ ['\n']) = line := by
  rw [chopLine, stripLast_append]
  exact chopCr_eq_self.mpr fun last => noCr (List.mem_of_getLast? last)

theorem chopLine_bare {line : Text} (clean : '\n' ∉ line) : chopLine line = line := by
  rw [chopLine, stripLast, if_neg fun last => clean (List.mem_of_getLast? last)]

theorem Piece.chop {value : Text} (piece : Piece value) :
    '\n' ∉ chopLine value ∧ '\r' ∉ chopLine value := by
  cases piece with
  | ended clean noCr =>
    rw [chopLine_ended noCr]
    exact ⟨clean, noCr⟩
  | bare clean noCr _ =>
    rw [chopLine_bare clean]
    exact ⟨clean, noCr⟩

theorem missingNewline_ended (tag : ChangeTag) (line : Text) :
    (changeOf tag (line ++ ['\n'])).missingNewline = false := by
  simp [changeOf]

theorem missingNewline_bare {line : Text} (clean : '\n' ∉ line) (noCr : '\r' ∉ line)
    (tag : ChangeTag) : (changeOf tag line).missingNewline = true := by
  refine decide_eq_true ⟨?_, ?_⟩
  · exact fun last => clean (List.mem_of_getLast? last)
  · exact fun last => noCr (List.mem_of_getLast? last)

theorem printLine_patchLine (tag : ChangeTag) (value : Text) :
    printLine (patchLine (changeOf tag value)) = signOf tag :: chopLine value := by
  cases tag <;> rfl

/-- A change is written as its line, with the mark behind a line without a newline. -/
theorem changeText_piece {value : Text} (piece : Piece value) (tag : ChangeTag) :
    changeText (changeOf tag value) =
      unlines (printBody
        [(patchLine (changeOf tag value), (changeOf tag value).missingNewline)]) := by
  cases piece with
  | @ended line clean noCr =>
    rw [changeText, printBody_cons, missingNewline_ended, printLine_patchLine, chopLine_ended noCr]
    simp [changeOf, unlines, printBody]
  | bare clean noCr _ =>
    have marker : "\n\\ No newline at end of file\n".toList =
        '\n' :: (missingNewline ++ ['\n']) := by
      decide +kernel
    rw [changeText, printBody_cons, missingNewline_bare clean noCr, printLine_patchLine,
      chopLine_bare clean, if_pos rfl, if_pos rfl, marker]
    generalize missingNewline = mark
    simp [changeOf, unlines, printBody]

theorem changesText_piece {changes : List Change}
    (pieces : ∀ change ∈ changes, ∃ tag value, change = changeOf tag value ∧ Piece value) :
    changes.flatMap changeText =
      unlines (printBody
        (changes.map fun change => (patchLine change, change.missingNewline))) := by
  induction changes with
  | nil => rfl
  | cons change changes ih =>
    obtain ⟨⟨tag, value, rfl, piece⟩, later⟩ := List.forall_mem_cons.mp pieces
    rw [List.flatMap_cons, ih later, changeText_piece piece, List.map_cons, unlines, unlines,
      unlines, ← List.flatMap_append, printBody_cons, printBody_cons]
    simp [printBody]

/-! ## The hunk of a group -/

theorem sides_changes (tag : ChangeTag) (values : List Text) :
    oldSide ((values.map (changeOf tag)).map patchLine) =
        (if tag = .insert then [] else values.map chopLine) ∧
      newSide ((values.map (changeOf tag)).map patchLine) =
        if tag = .delete then [] else values.map chopLine := by
  induction values with
  | nil => cases tag <;> exact ⟨rfl, rfl⟩
  | cons value values ih =>
    cases tag <;> simpa [patchLine, changeOf, oldSide, newSide, PatchLine.isOld, PatchLine.isNew,
      PatchLine.text] using ih

theorem hunkOf_lines (diff : TextDiff) (group : List DiffOp) :
    (hunkOf diff group).lines = (group.flatMap diff.iterChanges).map patchLine := by
  rw [DiffHunk.lines, hunkOf, bodyOf, List.map_map]
  rfl

theorem Ops.hunk_sides {i j : Nat} {ops : List DiffOp} {old new : List Text}
    (turns : Ops diff i j ops old new) :
    oldSide (hunkOf diff ops).lines = old.map chopLine ∧
      newSide (hunkOf diff ops).lines = new.map chopLine := by
  simp only [hunkOf_lines]
  induction turns with
  | done => exact ⟨rfl, rfl⟩
  | equal same filled changes rest ih =>
    obtain ⟨olds, news⟩ := sides_changes .equal same
    rw [List.flatMap_cons, changes, List.map_append, oldSide_append, newSide_append, olds, news,
      ih.1, ih.2, List.map_append, List.map_append]
    exact ⟨rfl, rfl⟩
  | delete gone filled changes rest ih =>
    obtain ⟨olds, news⟩ := sides_changes .delete gone
    rw [List.flatMap_cons, changes, List.map_append, oldSide_append, newSide_append, olds, news,
      ih.1, ih.2, List.map_append]
    exact ⟨rfl, rfl⟩
  | insert added filled changes rest ih =>
    obtain ⟨olds, news⟩ := sides_changes .insert added
    rw [List.flatMap_cons, changes, List.map_append, oldSide_append, newSide_append, olds, news,
      ih.1, ih.2, List.map_append]
    exact ⟨rfl, rfl⟩
  | replace gone added filled changes rest ih =>
    obtain ⟨olds, news⟩ := sides_changes .delete gone
    obtain ⟨olds', news'⟩ := sides_changes .insert added
    rw [List.flatMap_cons, changes, List.map_append, List.map_append, oldSide_append,
      newSide_append, oldSide_append, newSide_append, olds, news, olds', news', ih.1, ih.2,
      List.map_append, List.map_append]
    exact ⟨by simp, rfl⟩

theorem mem_changes {tag : ChangeTag} {values : List Text} {change : Change} :
    change ∈ values.map (changeOf tag) ↔ ∃ value ∈ values, change = changeOf tag value := by
  simp only [List.mem_map, eq_comm]

/-- The changes of some operations are those of their lines. -/
theorem Ops.change_mem {i j : Nat} {ops : List DiffOp} {old new : List Text}
    (turns : Ops diff i j ops old new) :
    ∀ change ∈ ops.flatMap diff.iterChanges,
      ∃ tag value, change = changeOf tag value ∧ (value ∈ old ∨ value ∈ new) := by
  induction turns with
  | done => exact nofun
  | equal same filled changes rest ih =>
    intro change member
    rw [List.flatMap_cons, changes, List.mem_append, mem_changes] at member
    rcases member with ⟨value, inside, rfl⟩ | later
    · exact ⟨.equal, value, rfl, .inl (List.mem_append_left _ inside)⟩
    · obtain ⟨tag, value, shape, inside⟩ := ih change later
      exact ⟨tag, value, shape, inside.imp (List.mem_append_right _) (List.mem_append_right _)⟩
  | delete gone filled changes rest ih =>
    intro change member
    rw [List.flatMap_cons, changes, List.mem_append, mem_changes] at member
    rcases member with ⟨value, inside, rfl⟩ | later
    · exact ⟨.delete, value, rfl, .inl (List.mem_append_left _ inside)⟩
    · obtain ⟨tag, value, shape, inside⟩ := ih change later
      exact ⟨tag, value, shape, inside.imp_left (List.mem_append_right _)⟩
  | insert added filled changes rest ih =>
    intro change member
    rw [List.flatMap_cons, changes, List.mem_append, mem_changes] at member
    rcases member with ⟨value, inside, rfl⟩ | later
    · exact ⟨.insert, value, rfl, .inr (List.mem_append_left _ inside)⟩
    · obtain ⟨tag, value, shape, inside⟩ := ih change later
      exact ⟨tag, value, shape, inside.imp_right (List.mem_append_right _)⟩
  | replace gone added filled changes rest ih =>
    intro change member
    rw [List.flatMap_cons, changes, List.mem_append, List.mem_append, mem_changes,
      mem_changes] at member
    rcases member with (⟨value, inside, rfl⟩ | ⟨value, inside, rfl⟩) | later
    · exact ⟨.delete, value, rfl, .inl (List.mem_append_left _ inside)⟩
    · exact ⟨.insert, value, rfl, .inr (List.mem_append_left _ inside)⟩
    · obtain ⟨tag, value, shape, inside⟩ := ih change later
      exact ⟨tag, value, shape, inside.imp (List.mem_append_right _) (List.mem_append_right _)⟩

theorem Ops.new_mem {i j : Nat} {ops : List DiffOp} {old new : List Text}
    (turns : Ops diff i j ops old new) :
    ∀ value ∈ new, ∃ tag, changeOf tag value ∈ ops.flatMap diff.iterChanges := by
  induction turns with
  | done => exact nofun
  | equal same filled changes rest ih =>
    intro value member
    rw [List.flatMap_cons, changes]
    rcases List.mem_append.mp member with inside | later
    · exact ⟨.equal, List.mem_append_left _ (List.mem_map_of_mem inside)⟩
    · exact (ih value later).imp fun _ => List.mem_append_right _
  | delete gone filled changes rest ih =>
    intro value member
    rw [List.flatMap_cons]
    exact (ih value member).imp fun _ => List.mem_append_right _
  | insert added filled changes rest ih =>
    intro value member
    rw [List.flatMap_cons, changes]
    rcases List.mem_append.mp member with inside | later
    · exact ⟨.insert, List.mem_append_left _ (List.mem_map_of_mem inside)⟩
    · exact (ih value later).imp fun _ => List.mem_append_right _
  | replace gone added filled changes rest ih =>
    intro value member
    rw [List.flatMap_cons, changes]
    rcases List.mem_append.mp member with inside | later
    · exact ⟨.insert, List.mem_append_left _ (List.mem_append_right _ (List.mem_map_of_mem inside))⟩
    · exact (ih value later).imp fun _ => List.mem_append_right _

/-- A group has a mark where one of its lines has no newline. -/
theorem Ops.marked {i j : Nat} {ops : List DiffOp} {old new : List Text}
    (turns : Ops diff i j ops old new) (marks : (hunkOf diff ops).body.any Prod.snd = true) :
    ∃ value, (value ∈ old ∨ value ∈ new) ∧ value.getLast? ≠ some '\n' := by
  obtain ⟨entry, member, mark⟩ := List.any_eq_true.mp marks
  obtain ⟨change, inside, rfl⟩ := List.mem_map.mp member
  obtain ⟨tag, value, rfl, side⟩ := turns.change_mem change inside
  exact ⟨value, side, (of_decide_eq_true mark).1⟩

theorem Ops.marks {i j : Nat} {ops : List DiffOp} {old new : List Text}
    (turns : Ops diff i j ops old new) {value : Text} (member : value ∈ new)
    (piece : Piece value) (bare : value.getLast? ≠ some '\n') :
    (hunkOf diff ops).body.any Prod.snd = true := by
  obtain ⟨tag, inside⟩ := turns.new_mem value member
  refine List.any_eq_true.mpr ⟨_, List.mem_map.mpr ⟨_, inside, rfl⟩, ?_⟩
  cases piece with
  | ended => exact absurd List.getLast?_concat bare
  | bare clean noCr _ => exact missingNewline_bare clean noCr tag

theorem Ops.hunk_numbers {i j : Nat} {ops : List DiffOp} {old new : List Text}
    (turns : Ops diff i j ops old new) (oldFits : i + old.length < usizeMax)
    (newFits : j + new.length < usizeMax) (sides : TwoSided ops) :
    (hunkOf diff ops).oldStart = i + 1 ∧ (hunkOf diff ops).newStart = j + 1 := by
  have some_old := turns.sides.1.mp sides.1
  have some_new := turns.sides.2.mp sides.2
  rw [hunkOf, turns.calcHunkRange oldFits newFits, if_neg (not_or.mpr ⟨some_old, some_new⟩)]
  exact ⟨rfl, rfl⟩

/-- A group is written as its hunk, where it has two sides, and not at all otherwise. -/
theorem Ops.groupText {i j : Nat} {ops : List DiffOp} {old new : List Text}
    (turns : Ops diff i j ops old new) (oldFits : i + old.length < usizeMax)
    (newFits : j + new.length < usizeMax)
    (pieces : ∀ value, value ∈ old ∨ value ∈ new → Piece value)
    {text : Text} :
    groupText diff ops = some text ↔
      TwoSided ops ∧ text = unlines (printHunk (hunkOf diff ops)) := by
  have numbers := turns.calcHunkRange oldFits newFits
  by_cases sides : TwoSided ops
  · have some_old := turns.sides.1.mp sides.1
    have some_new := turns.sides.2.mp sides.2
    obtain ⟨oldStart, newStart⟩ := turns.hunk_numbers oldFits newFits sides
    obtain ⟨olds, news⟩ := turns.hunk_sides
    have body := changesText_piece fun change member => by
      obtain ⟨tag, value, shape, inside⟩ := turns.change_mem change member
      exact ⟨tag, value, shape, pieces value inside⟩
    have header : printHeader (hunkOf diff ops) ++ ['\n'] =
        "@@ -".toList ++ rangeText (i + 1, old.length) ++ " +".toList ++
          rangeText (j + 1, new.length) ++ " @@\n".toList := by
      rw [printHeader, oldStart, newStart, olds, news, List.length_map, List.length_map]
      simp [printRange, rangeText, hunkOf]
    rw [if_neg (not_or.mpr ⟨some_old, some_new⟩)] at numbers
    have shape : printHeader (hunkOf diff ops) ++ ['\n'] ++ unlines (printBody (bodyOf diff ops)) =
        unlines (printHunk (hunkOf diff ops)) := rfl
    rw [DiffWriter.groupText, numbers, Option.map_some, body, and_iff_right sides, ← shape, header,
      Option.some.injEq]
    exact eq_comm
  · have missing : old = [] ∨ new = [] := by
      by_contra both
      obtain ⟨some_old, some_new⟩ := not_or.mp both
      exact sides ⟨turns.sides.1.mpr some_old, turns.sides.2.mpr some_new⟩
    rw [if_pos missing] at numbers
    rw [DiffWriter.groupText, numbers, Option.map_none]
    exact ⟨by rintro ⟨⟩, fun both => absurd both.1 sides⟩

/-- The lines of all groups, with an empty line before each but the first. -/
def hunkLines (diff : TextDiff) : Nat → List (List DiffOp) → List Text
  | _, [] => []
  | idx, group :: groups =>
    (if idx > 0 then [[]] else []) ++ (printHunk (hunkOf diff group) ++
      hunkLines diff (idx + 1) groups)

theorem Groups.text {i j : Nat} {groups : List (List DiffOp)} {old new : List Text}
    (turns : Groups diff i j groups old new) (oldFits : i + old.length < usizeMax)
    (newFits : j + new.length < usizeMax)
    (pieces : ∀ value, value ∈ old ∨ value ∈ new → Piece value)
    (idx : Nat) {text : Text} :
    groupsText diff idx groups = some text ↔
      (∀ group ∈ groups, TwoSided group) ∧ text = unlines (hunkLines diff idx groups) := by
  induction turns generalizing idx text with
  | done same => simp [groupsText, hunkLines, unlines, eq_comm]
  | @group i j group groups old new oldRest newRest keep filled ops onward rest ih =>
    simp only [List.length_append] at oldFits newFits
    have first := fun text => @Ops.groupText diff _ _ group old new ops (by omega) (by omega)
      (fun value side => pieces value (side.imp (by simp +contextual) (by simp +contextual))) text
    have later := fun text => @ih (by omega) (by omega)
      (fun value side => pieces value (side.imp (by simp +contextual) (by simp +contextual)))
      (idx + 1) text
    have shape : (if idx > 0 then ['\n'] else []) ++ unlines (printHunk (hunkOf diff group)) ++
        unlines (hunkLines diff (idx + 1) groups) =
          unlines (hunkLines diff idx (group :: groups)) := by
      rw [hunkLines]
      split <;> simp [unlines]
    rw [List.forall_mem_cons]
    constructor
    · intro made
      obtain ⟨one, firstMade, made⟩ := Option.bind_eq_some_iff.mp made
      obtain ⟨others, laterMade, made⟩ := Option.bind_eq_some_iff.mp made
      obtain ⟨sides, rfl⟩ := (first one).mp firstMade
      obtain ⟨allSides, rfl⟩ := (later others).mp laterMade
      exact ⟨⟨sides, allSides⟩, (Option.some.inj made).symm.trans shape⟩
    · rintro ⟨⟨sides, allSides⟩, rfl⟩
      rw [groupsText, (first _).mpr ⟨sides, rfl⟩, (later _).mpr ⟨allSides, rfl⟩]
      exact congrArg some shape

theorem Groups.ops_mem {i j : Nat} {groups : List (List DiffOp)} {old new : List Text}
    (turns : Groups diff i j groups old new) {group : List DiffOp} (member : group ∈ groups) :
    ∃ i' j' gone added, Ops diff i' j' group gone added ∧ gone ⊆ old ∧ added ⊆ new := by
  induction turns with
  | done => cases member
  | @group i j first groups old new oldRest newRest keep filled ops onward rest ih =>
    rcases List.mem_cons.mp member with rfl | later
    · exact ⟨_, _, old, new, ops, by simp, by simp⟩
    · obtain ⟨i', j', gone, added, inside, olds, news⟩ := ih later
      refine ⟨i', j', gone, added, inside, fun value own => ?_, fun value own => ?_⟩
      · exact List.mem_append_right _ (List.mem_append_right _ (olds own))
      · exact List.mem_append_right _ (List.mem_append_right _ (news own))

theorem mem_hunkLines {idx : Nat} {groups : List (List DiffOp)} {line : Text}
    (member : line ∈ hunkLines diff idx groups) :
    line = [] ∨ ∃ group ∈ groups, line ∈ printHunk (hunkOf diff group) := by
  induction groups generalizing idx with
  | nil => cases member
  | cons group groups ih =>
    rw [hunkLines, List.mem_append, List.mem_append] at member
    rcases member with blank | own | later
    · split at blank
      · exact .inl (List.mem_singleton.mp blank)
      · cases blank
    · exact .inr ⟨group, List.mem_cons_self, own⟩
    · refine (ih later).imp_right ?_
      rintro ⟨other, listed, inside⟩
      exact ⟨other, List.mem_cons_of_mem _ listed, inside⟩

theorem Ops.hunk_clean {i j : Nat} {ops : List DiffOp} {old new : List Text}
    (turns : Ops diff i j ops old new) (pieces : ∀ value, value ∈ old ∨ value ∈ new → Piece value)
    {c : Char} (control : c = '\n' ∨ c = '\r') :
    ∀ line ∈ printHunk (hunkOf diff ops), c ∉ line := by
  refine printHunk_one_line control List.not_mem_nil fun line member => ?_
  rw [hunkOf_lines] at member
  obtain ⟨change, inside, rfl⟩ := List.mem_map.mp member
  obtain ⟨tag, value, rfl, side⟩ := turns.change_mem change inside
  have clean : c ∉ chopLine value := by
    obtain ⟨noNewline, noCr⟩ := (pieces value side).chop
    rcases control with rfl | rfl
    · exact noNewline
    · exact noCr
  cases tag <;> exact clean

end DiffWriter
end Devit
