import Devit.Library.Action
import Devit.Library.Lru
import Devit.Library.Path
import Devit.Library.Search
import Devit.Library.Table

/-! Merge conflicts: the hunks that are shown of a file, the file that a plan makes of it, and the
backups. Both readings go through the lines and look for the markers of a conflict; what a plan
chooses may have markers in it itself. -/
namespace Devit
open Text Path

structure ConflictHunk where
  startLine : Nat
  endLine : Nat
  ours : Text
  theirs : Text
  deriving DecidableEq, Repr

structure ResolutionItem where
  hunkIndex : Nat
  resolution : Text
  deriving DecidableEq, Repr

inductive MergeError where
  | read (path : Text)
  | unbalancedMarkers
  | parseError
  deriving DecidableEq, Repr

namespace MergeAssist

def opening : Text := "<<<<<<<".toList

def middle : Text := "=======".toList

def closing : Text := ">>>>>>>".toList

/-! ## Reading -/

/-- The loop that looks for the line between the sides of a conflict and for its last line. -/
def findMarkers : Nat → Option Nat → List Text → Option Nat × Option Nat
  | _, sep, [] => (sep, none)
  | j, sep, line :: rest =>
    let sep := if sep.isNone && startsWith middle line then some j else sep
    if startsWith closing line then (sep, some j) else findMarkers (j + 1) sep rest

/-- The conflict whose sides begin at a line. -/
def conflictAt (lines : List Text) (start : Nat) : Option ConflictHunk :=
  match findMarkers start none (lines.drop start) with
  | (some sep, some last) =>
    if sep < last then
      some ⟨start, last, join ['\n'] ((lines.take sep).drop start),
        join ['\n'] ((lines.take last).drop (sep + 1))⟩
    else none
  | _ => none

/-- The loop of `explain`, from a line on. -/
def explainFrom (lines : List Text) : Nat → Nat → Except MergeError (List ConflictHunk)
  | 0, _ => .ok []
  | fuel + 1, i =>
    match lines[i]? with
    | none => .ok []
    | some line =>
      if startsWith opening line then
        match conflictAt lines (i + 1) with
        | none => .error .unbalancedMarkers
        | some hunk => do
          let hunks ← explainFrom lines fuel (hunk.endLine + 1)
          .ok (hunk :: hunks)
      else explainFrom lines fuel (i + 1)

/-- The hunks of one text. -/
def explainText (s : Text) : Except MergeError (List ConflictHunk) :=
  explainFrom (lines s) (lines s).length 0

/-- `explain`, of the paths it is given: files without conflicts are left out. -/
def explain (files : Table Text) : List Text → Except MergeError (List (Text × List ConflictHunk))
  | [] => .ok []
  | path :: paths => do
    let s ← match files.lookup path with
      | none => .error (.read path)
      | some s => .ok s
    let hunks ← explainText s
    let out ← explain files paths
    .ok (if hunks = [] then out else (path, hunks) :: out)

/-- `propose_auto`, for one file. -/
def proposeAuto (hunks : List ConflictHunk) : List ResolutionItem :=
  hunks.mapIdx fun i hunk =>
    ⟨i, if trim hunk.ours = trim hunk.theirs then "ours".toList else "keep_both".toList⟩

/-! ## Applying a plan -/

/-- A part behind what is written already. -/
def pushPart (out part : Text) : Text := (if out = [] then out else out ++ ['\n']) ++ part

/-- What a plan chooses for a conflict. -/
def choiceFor (items : List ResolutionItem) (hunkIdx : Nat) : Text :=
  ((items.find? (·.hunkIndex == hunkIdx)).map (·.resolution)).getD "keep_both".toList

/-- What is written for a conflict. -/
def resolved (choice ours theirs : Text) : Text :=
  if choice = "ours".toList then ours
  else if choice = "theirs".toList then theirs
  else ours ++ "\n// --- theirs ---\n".toList ++ theirs

/-- The loop of `apply_plan` over the lines of a file. -/
def applyFrom (items : List ResolutionItem) (lines : List Text) :
    Nat → Nat → Nat → Text → Except MergeError Text
  | 0, _, _, out => .ok out
  | fuel + 1, i, hunkIdx, out =>
    match lines[i]? with
    | none => .ok out
    | some line =>
      if startsWith opening line then
        match conflictAt lines (i + 1) with
        | none => .error .parseError
        | some hunk =>
          applyFrom items lines fuel (hunk.endLine + 1) (hunkIdx + 1)
            (pushPart out (resolved (choiceFor items hunkIdx) hunk.ours hunk.theirs))
      else applyFrom items lines fuel (i + 1) hunkIdx (pushPart out line)

def applyText (items : List ResolutionItem) (s : Text) : Except MergeError Text :=
  applyFrom items (lines s) (lines s).length 0 0 []

def backupDir : Text := ".devit/merge_backups/".toList

/-- Where the text of a file is kept: under its name alone. -/
def backupPath (path : Text) : Text := backupDir ++ (fileName ⟨path⟩).getD []

/-- One file of a plan. -/
def applyFile (_ : Unit) (entry : Text × List ResolutionItem) :
    Action MergeError (Table Text) Unit := fun files =>
  match files.lookup entry.1 with
  | none => (.error (.read entry.1), files)
  | some s =>
    match applyText entry.2 s with
    | .error e => (.error e, files)
    | .ok out => (.ok (), (files.insert (backupPath entry.1) s).insert entry.1 out)

/-- `apply_plan`; the order is that of the map. -/
def applyPlan (plan : List (Text × List ResolutionItem)) : Action MergeError (Table Text) Unit :=
  Action.forEach applyFile () plan

/-! ## The pieces of a file -/

/-- A line outside conflicts, or the sides of a conflict. -/
inductive Piece where
  | line (text : Text)
  | conflict (ours theirs : List Text)

/-- The lines are these pieces: a conflict ends with the first closing line behind its opening
line, and a separator line comes before it. Nested opening lines mean nothing. -/
inductive Reads : List Text → List Piece → Prop where
  | nil : Reads [] []
  | line {text : Text} {rest : List Text} {pieces : List Piece}
      (plain : startsWith opening text = false) (behind : Reads rest pieces) :
      Reads (text :: rest) (.line text :: pieces)
  | conflict {first sep last : Text} {ours theirs rest : List Text} {pieces : List Piece}
      (opens : startsWith opening first = true)
      (oursPlain : ∀ line ∈ ours, startsWith middle line = false ∧ startsWith closing line = false)
      (separates : startsWith middle sep = true)
      (theirsPlain : ∀ line ∈ theirs, startsWith closing line = false)
      (closes : startsWith closing last = true) (behind : Reads rest pieces) :
      Reads (first :: (ours ++ sep :: (theirs ++ last :: rest))) (.conflict ours theirs :: pieces)

/-- The hunks of pieces, from a line on. -/
def hunksOf : Nat → List Piece → List ConflictHunk
  | _, [] => []
  | i, .line _ :: pieces => hunksOf (i + 1) pieces
  | i, .conflict ours theirs :: pieces =>
    ⟨i + 1, i + 2 + ours.length + theirs.length, join ['\n'] ours, join ['\n'] theirs⟩ ::
      hunksOf (i + 3 + ours.length + theirs.length) pieces

/-- What a plan makes of pieces, from a conflict on. -/
def partsOf (items : List ResolutionItem) : Nat → List Piece → List Text
  | _, [] => []
  | hunkIdx, .line text :: pieces => text :: partsOf items hunkIdx pieces
  | hunkIdx, .conflict ours theirs :: pieces =>
    resolved (choiceFor items hunkIdx) (join ['\n'] ours) (join ['\n'] theirs) ::
      partsOf items (hunkIdx + 1) pieces

/-- A line of the text opens a conflict. -/
def marked (s : Text) : Bool := (lines s).any (startsWith opening)

/-! ## The markers of a conflict -/

theorem closing_not_middle {line : Text} (closes : startsWith closing line = true) :
    startsWith middle line = false := by
  obtain ⟨rest, rfl⟩ := startsWith_iff.mp closes
  exact startsWith_head_ne (by decide)

/-- Behind the separator line, up to the first closing line. -/
theorem findMarkers_theirs {j a : Nat} {theirs rest : List Text} {last : Text}
    (theirsPlain : ∀ line ∈ theirs, startsWith closing line = false)
    (closes : startsWith closing last = true) :
    findMarkers j (some a) (theirs ++ last :: rest) = (some a, some (j + theirs.length)) := by
  induction theirs generalizing j with
  | nil => simp [findMarkers, closes]
  | cons line theirs ih =>
    obtain ⟨own, others⟩ := List.forall_mem_cons.mp theirsPlain
    simp only [List.cons_append, findMarkers, Option.isNone_some, Bool.false_and,
      Bool.false_eq_true, if_false, own, ih others, List.length_cons]
    rw [Nat.add_right_comm, Nat.add_assoc]

theorem findMarkers_conflict {j : Nat} {ours theirs rest : List Text} {sep last : Text}
    (oursPlain : ∀ line ∈ ours, startsWith middle line = false ∧ startsWith closing line = false)
    (separates : startsWith middle sep = true)
    (theirsPlain : ∀ line ∈ theirs, startsWith closing line = false)
    (closes : startsWith closing last = true) :
    findMarkers j none (ours ++ sep :: (theirs ++ last :: rest)) =
      (some (j + ours.length), some (j + ours.length + 1 + theirs.length)) := by
  induction ours generalizing j with
  | nil =>
    have open_still : startsWith closing sep = false := by
      rw [Bool.eq_false_iff]
      intro closes
      rw [closing_not_middle closes] at separates
      cases separates
    simp only [List.nil_append, findMarkers, Option.isNone_none, Bool.true_and, separates,
      if_true, open_still, Bool.false_eq_true, if_false, List.length_nil, Nat.add_zero]
    exact findMarkers_theirs theirsPlain closes
  | cons line ours ih =>
    obtain ⟨⟨plain, opens⟩, others⟩ := List.forall_mem_cons.mp oursPlain
    simp only [List.cons_append, findMarkers, Option.isNone_none, Bool.true_and, plain,
      Bool.false_eq_true, if_false, opens, ih others, List.length_cons]
    rw [show j + 1 + ours.length = j + (ours.length + 1) by omega]

theorem findMarkers_some {j a sep last : Nat} {lines : List Text}
    (found : findMarkers j (some a) lines = (some sep, some last)) :
    sep = a ∧ ∃ theirs end_line rest, lines = theirs ++ end_line :: rest ∧
      (∀ line ∈ theirs, startsWith closing line = false) ∧ startsWith closing end_line = true := by
  induction lines generalizing j with
  | nil => cases found
  | cons line lines ih =>
    simp only [findMarkers, Option.isNone_some, Bool.false_and, Bool.false_eq_true,
      if_false] at found
    split at found
    · rename_i closes
      cases found
      exact ⟨rfl, [], line, lines, rfl, by simp, closes⟩
    · rename_i continues
      obtain ⟨same, theirs, end_line, rest, shape, plain, closes⟩ := ih found
      refine ⟨same, line :: theirs, end_line, rest, by rw [shape, List.cons_append], ?_, closes⟩
      exact List.forall_mem_cons.mpr ⟨by simpa using continues, plain⟩

theorem findMarkers_none {j sep last : Nat} {lines : List Text}
    (found : findMarkers j none lines = (some sep, some last)) (before : sep < last) :
    ∃ ours sep_line theirs end_line rest,
      lines = ours ++ sep_line :: (theirs ++ end_line :: rest) ∧
      (∀ line ∈ ours, startsWith middle line = false ∧ startsWith closing line = false) ∧
      startsWith middle sep_line = true ∧
      (∀ line ∈ theirs, startsWith closing line = false) ∧ startsWith closing end_line = true := by
  induction lines generalizing j with
  | nil => cases found
  | cons line lines ih =>
    simp only [findMarkers, Option.isNone_none, Bool.true_and] at found
    cases separates : startsWith middle line with
    | true =>
      rw [separates, if_pos rfl] at found
      split at found
      · cases found
        exact absurd before (Nat.lt_irrefl _)
      · obtain ⟨-, theirs, end_line, rest, shape, plain, closes⟩ := findMarkers_some found
        exact ⟨[], line, theirs, end_line, rest, by rw [shape, List.nil_append], by simp,
          separates, plain, closes⟩
    | false =>
      rw [separates, if_neg Bool.false_ne_true] at found
      split at found
      · cases found
      · rename_i continues
        obtain ⟨ours, sep_line, theirs, end_line, rest, shape, oursPlain, sep_marks, plain,
          closes⟩ := ih found
        refine ⟨line :: ours, sep_line, theirs, end_line, rest, by rw [shape, List.cons_append], ?_,
          sep_marks, plain, closes⟩
        exact List.forall_mem_cons.mpr ⟨⟨separates, by simpa using continues⟩, oursPlain⟩

/-! ## One loop at a time -/

/-- The lines of a conflict, from its opening line on. -/
theorem conflictAt_front {front ours theirs rest : List Text} {first sep last : Text}
    (oursPlain : ∀ line ∈ ours, startsWith middle line = false ∧ startsWith closing line = false)
    (separates : startsWith middle sep = true)
    (theirsPlain : ∀ line ∈ theirs, startsWith closing line = false)
    (closes : startsWith closing last = true) :
    conflictAt (front ++ first :: (ours ++ sep :: (theirs ++ last :: rest))) (front.length + 1) =
      some ⟨front.length + 1, front.length + 2 + ours.length + theirs.length, join ['\n'] ours,
        join ['\n'] theirs⟩ := by
  have behind : (front ++ first :: (ours ++ sep :: (theirs ++ last :: rest))).drop
      (front.length + 1) = ours ++ sep :: (theirs ++ last :: rest) := by
    rw [List.append_cons, List.drop_left' (by rw [List.length_append, List.length_singleton])]
  have upTo : ∀ n, ((front ++ first :: (ours ++ sep :: (theirs ++ last :: rest))).take
      (front.length + 1 + n)).drop (front.length + 1) =
        (ours ++ sep :: (theirs ++ last :: rest)).take n := by
    intro n
    rw [List.drop_take, behind, Nat.add_sub_cancel_left]
  have ends : front.length + 1 + ours.length + 1 + theirs.length =
      front.length + 1 + (ours.length + 1 + theirs.length) := by omega
  have theirs_lines : ((front ++ first :: (ours ++ sep :: (theirs ++ last :: rest))).take
      (front.length + 1 + (ours.length + 1 + theirs.length))).drop
        (front.length + 1 + ours.length + 1) = theirs := by
    rw [show front.length + 1 + ours.length + 1 = front.length + 1 + (ours.length + 1) by omega,
      ← List.drop_drop, upTo, List.drop_take, List.append_cons,
      List.drop_left' (by rw [List.length_append, List.length_singleton]),
      show ours.length + 1 + theirs.length - (ours.length + 1) = theirs.length by omega,
      List.take_left]
  have found := @findMarkers_conflict (front.length + 1) _ _ rest _ _ oursPlain separates
    theirsPlain closes
  unfold conflictAt
  rw [behind, found]
  dsimp only
  rw [if_pos (by omega), upTo, List.take_left, ends, theirs_lines,
    show front.length + 1 + (ours.length + 1 + theirs.length) =
      front.length + 2 + ours.length + theirs.length by omega]

/-- A conflict that is found has its lines. -/
theorem conflictAt_some {front back : List Text} {first : Text} {hunk : ConflictHunk}
    (found : conflictAt (front ++ first :: back) (front.length + 1) = some hunk) :
    ∃ ours sep theirs last rest, back = ours ++ sep :: (theirs ++ last :: rest) ∧
      (∀ line ∈ ours, startsWith middle line = false ∧ startsWith closing line = false) ∧
      startsWith middle sep = true ∧
      (∀ line ∈ theirs, startsWith closing line = false) ∧ startsWith closing last = true := by
  have behind : (front ++ first :: back).drop (front.length + 1) = back := by
    rw [List.append_cons, List.drop_left' (by rw [List.length_append, List.length_singleton])]
  unfold conflictAt at found
  rw [behind] at found
  split at found
  · rename_i sep last marks
    by_cases before : sep < last
    · exact findMarkers_none marks before
    · rw [if_neg before] at found
      cases found
  · cases found

/-- The lines behind a conflict. -/
theorem behind_conflict (front ours theirs rest : List Text) (first sep last : Text) :
    front ++ first :: (ours ++ sep :: (theirs ++ last :: rest)) =
        (front ++ first :: (ours ++ sep :: (theirs ++ [last]))) ++ rest ∧
      (front ++ first :: (ours ++ sep :: (theirs ++ [last]))).length =
        front.length + 3 + ours.length + theirs.length := by
  constructor
  · simp only [List.append_assoc, List.cons_append, List.nil_append]
  · simp only [List.length_append, List.length_cons, List.length_nil]
    omega

/-- The hunks of lines that are pieces. -/
theorem explainFrom_reads {front back : List Text} {pieces : List Piece} {fuel : Nat}
    (reads : Reads back pieces) (enough : back.length ≤ fuel) :
    explainFrom (front ++ back) fuel front.length = .ok (hunksOf front.length pieces) := by
  induction reads generalizing front fuel with
  | nil =>
    cases fuel with
    | zero => rfl
    | succ fuel => rw [List.append_nil, explainFrom, List.getElem?_eq_none (Nat.le_refl _)]; rfl
  | @line text rest pieces plain _ ih =>
    obtain ⟨fuel, rfl⟩ := Nat.exists_eq_add_one.mpr (Nat.lt_of_lt_of_le (Nat.succ_pos _) enough)
    have next := @ih (front ++ [text]) fuel (Nat.le_of_succ_le_succ enough)
    rw [← List.append_cons, List.length_append, List.length_singleton] at next
    rw [explainFrom, List.getElem?_append_right (Nat.le_refl _), Nat.sub_self]
    dsimp only [List.getElem?_cons_zero]
    rw [if_neg (by rw [plain]; exact Bool.false_ne_true), next, hunksOf]
  | @conflict first sep last ours theirs rest pieces opens oursPlain separates theirsPlain closes _
      ih =>
    obtain ⟨fuel, rfl⟩ := Nat.exists_eq_add_one.mpr (Nat.lt_of_lt_of_le (Nat.succ_pos _) enough)
    obtain ⟨shape, size⟩ := behind_conflict front ours theirs rest first sep last
    have short : rest.length ≤ fuel := by
      simp only [List.length_append, List.length_cons] at enough
      omega
    have next := @ih (front ++ first :: (ours ++ sep :: (theirs ++ [last]))) fuel short
    rw [← shape, size] at next
    rw [explainFrom, List.getElem?_append_right (Nat.le_refl _), Nat.sub_self]
    dsimp only [List.getElem?_cons_zero]
    rw [if_pos opens, conflictAt_front oursPlain separates theirsPlain closes]
    dsimp only
    rw [show front.length + 2 + ours.length + theirs.length + 1 =
      front.length + 3 + ours.length + theirs.length by omega, next, hunksOf]
    rfl

/-- What a plan makes of lines that are pieces. -/
theorem applyFrom_reads {items : List ResolutionItem} {front back : List Text}
    {pieces : List Piece} {fuel hunkIdx : Nat} {out : Text} (reads : Reads back pieces)
    (enough : back.length ≤ fuel) :
    applyFrom items (front ++ back) fuel front.length hunkIdx out =
      .ok ((partsOf items hunkIdx pieces).foldl pushPart out) := by
  induction reads generalizing front fuel hunkIdx out with
  | nil =>
    cases fuel with
    | zero => rfl
    | succ fuel => rw [List.append_nil, applyFrom, List.getElem?_eq_none (Nat.le_refl _)]; rfl
  | @line text rest pieces plain _ ih =>
    obtain ⟨fuel, rfl⟩ := Nat.exists_eq_add_one.mpr (Nat.lt_of_lt_of_le (Nat.succ_pos _) enough)
    have next := @ih (front ++ [text]) fuel hunkIdx (pushPart out text)
      (Nat.le_of_succ_le_succ enough)
    rw [← List.append_cons, List.length_append, List.length_singleton] at next
    rw [applyFrom, List.getElem?_append_right (Nat.le_refl _), Nat.sub_self]
    dsimp only [List.getElem?_cons_zero]
    rw [if_neg (by rw [plain]; exact Bool.false_ne_true), next, partsOf, List.foldl_cons]
  | @conflict first sep last ours theirs rest pieces opens oursPlain separates theirsPlain closes _
      ih =>
    obtain ⟨fuel, rfl⟩ := Nat.exists_eq_add_one.mpr (Nat.lt_of_lt_of_le (Nat.succ_pos _) enough)
    obtain ⟨shape, size⟩ := behind_conflict front ours theirs rest first sep last
    have short : rest.length ≤ fuel := by
      simp only [List.length_append, List.length_cons] at enough
      omega
    have next := @ih (front ++ first :: (ours ++ sep :: (theirs ++ [last]))) fuel (hunkIdx + 1)
      (pushPart out (resolved (choiceFor items hunkIdx) (join ['\n'] ours) (join ['\n'] theirs)))
      short
    rw [← shape, size] at next
    rw [applyFrom, List.getElem?_append_right (Nat.le_refl _), Nat.sub_self]
    dsimp only [List.getElem?_cons_zero]
    rw [if_pos opens, conflictAt_front oursPlain separates theirsPlain closes]
    dsimp only
    rw [show front.length + 2 + ours.length + theirs.length + 1 =
      front.length + 3 + ours.length + theirs.length by omega, next, partsOf, List.foldl_cons]

/-- The first loop gets to the end of lines that are pieces only, and names one fault. -/
theorem explainFrom_cases {front back : List Text} {fuel : Nat} (enough : back.length ≤ fuel) :
    (∃ pieces, Reads back pieces) ∨
      explainFrom (front ++ back) fuel front.length = .error .unbalancedMarkers := by
  induction fuel generalizing front back with
  | zero =>
    apply Or.inl
    rw [List.eq_nil_of_length_eq_zero (Nat.le_zero.mp enough)]
    exact ⟨[], .nil⟩
  | succ fuel ih =>
    cases back with
    | nil => exact .inl ⟨[], .nil⟩
    | cons first back =>
      rw [explainFrom, List.getElem?_append_right (Nat.le_refl _), Nat.sub_self]
      dsimp only [List.getElem?_cons_zero]
      cases opens : startsWith opening first with
      | false =>
        rw [if_neg Bool.false_ne_true]
        have next := @ih (front ++ [first]) back (Nat.le_of_succ_le_succ enough)
        rw [← List.append_cons, List.length_append, List.length_singleton] at next
        exact next.imp_left fun ⟨pieces, reads⟩ => ⟨_, .line opens reads⟩
      | true =>
        rw [if_pos rfl]
        cases found : conflictAt (front ++ first :: back) (front.length + 1) with
        | none => exact .inr rfl
        | some hunk =>
          obtain ⟨ours, sep, theirs, last, rest, rfl, oursPlain, separates, theirsPlain, closes⟩ :=
            conflictAt_some found
          rw [conflictAt_front oursPlain separates theirsPlain closes] at found
          cases found
          obtain ⟨shape, size⟩ := behind_conflict front ours theirs rest first sep last
          have short : rest.length ≤ fuel := by
            simp only [List.length_append, List.length_cons] at enough
            omega
          have next := @ih (front ++ first :: (ours ++ sep :: (theirs ++ [last]))) rest short
          rw [← shape, size] at next
          rcases next with ⟨pieces, reads⟩ | failed
          · exact .inl ⟨_, .conflict opens oursPlain separates theirsPlain closes reads⟩
          · apply Or.inr
            dsimp only
            rw [show front.length + 2 + ours.length + theirs.length + 1 =
              front.length + 3 + ours.length + theirs.length by omega, failed]
            rfl

/-- The second loop stops where the first does. -/
theorem applyFrom_cases {items : List ResolutionItem} {front back : List Text}
    {fuel hunkIdx : Nat} {out : Text} (enough : back.length ≤ fuel) :
    (∃ pieces, Reads back pieces) ∨
      applyFrom items (front ++ back) fuel front.length hunkIdx out = .error .parseError := by
  induction fuel generalizing front back hunkIdx out with
  | zero =>
    apply Or.inl
    rw [List.eq_nil_of_length_eq_zero (Nat.le_zero.mp enough)]
    exact ⟨[], .nil⟩
  | succ fuel ih =>
    cases back with
    | nil => exact .inl ⟨[], .nil⟩
    | cons first back =>
      rw [applyFrom, List.getElem?_append_right (Nat.le_refl _), Nat.sub_self]
      dsimp only [List.getElem?_cons_zero]
      cases opens : startsWith opening first with
      | false =>
        rw [if_neg Bool.false_ne_true]
        have next := @ih (front ++ [first]) back hunkIdx (pushPart out first)
          (Nat.le_of_succ_le_succ enough)
        rw [← List.append_cons, List.length_append, List.length_singleton] at next
        exact next.imp_left fun ⟨pieces, reads⟩ => ⟨_, .line opens reads⟩
      | true =>
        rw [if_pos rfl]
        cases found : conflictAt (front ++ first :: back) (front.length + 1) with
        | none => exact .inr rfl
        | some hunk =>
          obtain ⟨ours, sep, theirs, last, rest, rfl, oursPlain, separates, theirsPlain, closes⟩ :=
            conflictAt_some found
          rw [conflictAt_front oursPlain separates theirsPlain closes] at found
          cases found
          obtain ⟨shape, size⟩ := behind_conflict front ours theirs rest first sep last
          have short : rest.length ≤ fuel := by
            simp only [List.length_append, List.length_cons] at enough
            omega
          have next := @ih (front ++ first :: (ours ++ sep :: (theirs ++ [last]))) rest
            (hunkIdx + 1) (pushPart out (resolved (choiceFor items hunkIdx) (join ['\n'] ours)
              (join ['\n'] theirs))) short
          rw [← shape, size] at next
          rcases next with ⟨pieces, reads⟩ | failed
          · exact .inl ⟨_, .conflict opens oursPlain separates theirsPlain closes reads⟩
          · apply Or.inr
            dsimp only
            rw [show front.length + 2 + ours.length + theirs.length + 1 =
              front.length + 3 + ours.length + theirs.length by omega, failed]

/-! ## Whole files -/

/-- Parts behind a text that is not empty. -/
theorem foldl_pushPart {out : Text} (filled : out ≠ []) (parts : List Text) :
    parts.foldl pushPart out = join ['\n'] (out :: parts) := by
  induction parts generalizing out with
  | nil => rfl
  | cons part parts ih =>
    have pushed : pushPart out part = out ++ ['\n'] ++ part := by rw [pushPart, if_neg filled]
    rw [List.foldl_cons, pushed, ih (by simp [filled]), join_cons (List.cons_ne_nil _ _)]
    cases parts with
    | nil => simp [join]
    | cons next parts =>
      rw [join_cons (List.cons_ne_nil _ _), join_cons (List.cons_ne_nil _ _)]
      simp

/-- Empty parts in front of all others leave nothing. -/
theorem foldl_pushPart_nil (parts : List Text) :
    parts.foldl pushPart [] = join ['\n'] (parts.dropWhile (· = [])) := by
  induction parts with
  | nil => rfl
  | cons part parts ih =>
    rw [List.foldl_cons]
    by_cases filled : part = []
    · rw [filled, List.dropWhile_cons_of_pos (by simp), ← ih]
      rfl
    · rw [List.dropWhile_cons_of_neg (by simpa using filled),
        show pushPart [] part = part from rfl, foldl_pushPart filled]

theorem explainText_reads {s : Text} {pieces : List Piece} (reads : Reads (lines s) pieces) :
    explainText s = .ok (hunksOf 0 pieces) :=
  @explainFrom_reads [] _ _ _ reads (Nat.le_refl _)

theorem applyText_reads {items : List ResolutionItem} {s : Text} {pieces : List Piece}
    (reads : Reads (lines s) pieces) :
    applyText items s =
      .ok (join ['\n'] ((partsOf items 0 pieces).dropWhile (· = []))) := by
  rw [← foldl_pushPart_nil]
  exact @applyFrom_reads items [] _ _ _ 0 [] reads (Nat.le_refl _)

theorem explainText_cases (s : Text) :
    (∃ pieces, Reads (lines s) pieces) ∨ explainText s = .error .unbalancedMarkers :=
  @explainFrom_cases [] _ _ (Nat.le_refl _)

theorem applyText_cases (items : List ResolutionItem) (s : Text) :
    (∃ pieces, Reads (lines s) pieces) ∨ applyText items s = .error .parseError :=
  @applyFrom_cases items [] _ _ 0 [] (Nat.le_refl _)

/-! ## Marked texts -/

theorem startsWith_chopCr (line : Text) :
    startsWith opening (chopCr line) = startsWith opening line := by
  obtain ⟨rest, shape, rfl | rfl⟩ := chopCr_rest line
  · rw [List.append_nil] at shape
    rw [← shape]
  · conv_rhs => rw [shape]
    by_cases empty : chopCr line = []
    · rw [empty]
      rfl
    · refine (startsWith_stops empty fun c first => ?_).symm
      cases first
      decide

theorem splitOn_unlines {ls : List Text} {last : Text} (clean : ∀ line ∈ ls, '\n' ∉ line)
    (free : '\n' ∉ last) : splitOn (· == '\n') (unlines ls ++ last) = ls ++ [last] := by
  have whole : ∀ {line : Text}, '\n' ∉ line → splitOn (· == '\n') line = [line] := by
    intro line clean
    refine splitOn_whole fun c inside => ?_
    rw [beq_eq_false_iff_ne]
    rintro rfl
    exact clean inside
  induction ls with
  | nil => exact whole free
  | cons line ls ih =>
    obtain ⟨own, others⟩ := List.forall_mem_cons.mp clean
    rw [unlines, List.flatMap_cons, List.append_assoc, List.append_assoc, List.singleton_append,
      splitOn_append rfl, whole own]
    exact congrArg (line :: ·) (ih others)

/-- The lines may as well be cut at the newlines alone. -/
theorem marked_iff {s : Text} :
    marked s = true ↔ ∃ line ∈ splitOn (· == '\n') s, startsWith opening line = true := by
  obtain ⟨ls, last, rfl, clean, free⟩ := exists_unlines s
  have last_line : (lines last).any (startsWith opening) = startsWith opening last := by
    by_cases empty : last = []
    · rw [empty]
      rfl
    · rw [lines_last free empty, List.any_cons, List.any_nil, Bool.or_false]
  have same : startsWith opening ∘ chopCr = startsWith opening := funext startsWith_chopCr
  rw [marked, lines_unlines_append clean, List.any_append, last_line, List.any_map, same,
    splitOn_unlines clean free]
  simp [or_and_right, exists_or]

theorem marked_line {line : Text} (clean : '\n' ∉ line) :
    marked line = startsWith opening line := by
  have whole := @splitOn_unlines [] _ (by simp) clean
  rw [show unlines [] ++ line = line from rfl] at whole
  rw [Bool.eq_iff_iff, marked_iff, whole]
  simp

theorem marked_append (a b : Text) : marked (a ++ '\n' :: b) = (marked a || marked b) := by
  rw [Bool.eq_iff_iff, Bool.or_eq_true, marked_iff, marked_iff, marked_iff, splitOn_append rfl]
  simp [or_and_right, exists_or]

theorem marked_join (parts : List Text) :
    marked (join ['\n'] parts) = true ↔ ∃ part ∈ parts, marked part = true := by
  induction parts with
  | nil => simp [join, marked, lines, splitInclusive]
  | cons part parts ih =>
    cases parts with
    | nil => simp [join]
    | cons next parts =>
      rw [join_cons (List.cons_ne_nil _ _), List.append_assoc, List.singleton_append,
        marked_append, Bool.or_eq_true, ih]
      exact (List.exists_mem_cons_iff (marked · = true) part _).symm

/-- The parts in front that are left out have no markers. -/
theorem marked_dropWhile (parts : List Text) :
    marked (join ['\n'] (parts.dropWhile (· = []))) = true ↔
      ∃ part ∈ parts, marked part = true := by
  induction parts with
  | nil => simp [join, marked, lines, splitInclusive]
  | cons part parts ih =>
    by_cases empty : part = []
    · rw [List.dropWhile_cons_of_pos (by simpa using empty), ih, empty]
      exact ((List.exists_mem_cons_iff (marked · = true) _ _).trans
        (or_iff_right (by decide))).symm
    · rw [List.dropWhile_cons_of_neg (by simpa using empty), marked_join]

/-- What is written for a conflict is marked where a side that is kept is. -/
theorem marked_resolved (choice ours theirs : Text) :
    marked (resolved choice ours theirs) = true ↔
      (choice ≠ "theirs".toList ∧ marked ours = true) ∨
        (choice ≠ "ours".toList ∧ marked theirs = true) := by
  have apart : ¬ "ours".toList = "theirs".toList := by decide
  unfold resolved
  by_cases first : choice = "ours".toList
  · rw [if_pos first, first]
    simp only [ne_eq, apart, not_false_eq_true, true_and, not_true_eq_false, false_and, or_false]
  · rw [if_neg first]
    by_cases second : choice = "theirs".toList
    · rw [if_pos second]
      simp only [second, ne_eq, not_true_eq_false, false_and, false_or, Ne.symm apart,
        not_false_eq_true, true_and]
    · rw [if_neg second, show "\n// --- theirs ---\n".toList =
        '\n' :: "// --- theirs ---".toList ++ ['\n'] from by decide, List.append_assoc,
        List.append_assoc, List.cons_append, marked_append, List.singleton_append, marked_append,
        show marked "// --- theirs ---".toList = false from by decide +kernel, Bool.false_or,
        Bool.or_eq_true]
      exact or_congr (and_iff_right second).symm (and_iff_right first).symm

/-! ## Conflicts that stay -/

/-- Lines without markers are read as they are. -/
theorem reads_lines {ls : List Text} (plain : ∀ line ∈ ls, startsWith opening line = false) :
    Reads ls (ls.map .line) := by
  induction ls with
  | nil => exact .nil
  | cons line ls ih =>
    obtain ⟨own, others⟩ := List.forall_mem_cons.mp plain
    exact .line own (ih others)

theorem hunksOf_eq_nil {ls : List Text} {pieces : List Piece} {i : Nat} (reads : Reads ls pieces) :
    hunksOf i pieces = [] ↔ ∀ line ∈ ls, startsWith opening line = false := by
  induction reads generalizing i with
  | nil => simp [hunksOf]
  | line plain _ ih => rw [hunksOf, ih, List.forall_mem_cons, and_iff_right plain]
  | conflict opens =>
    refine iff_of_false (List.cons_ne_nil _ _) fun plain => ?_
    rw [plain _ List.mem_cons_self] at opens
    cases opens

theorem marked_eq_false {s : Text} :
    marked s = false ↔ ∀ line ∈ lines s, startsWith opening line = false := by
  rw [marked, List.any_eq_false]
  exact forall₂_congr fun _ _ => by rw [Bool.not_eq_true]

/-- No conflict is shown of a text, and none is broken, where no line opens one. -/
theorem explainText_nil {s : Text} : explainText s = .ok [] ↔ marked s = false := by
  rw [marked_eq_false]
  constructor
  · intro shown
    rcases explainText_cases s with ⟨pieces, reads⟩ | failed
    · rw [explainText_reads reads] at shown
      exact (hunksOf_eq_nil reads).mp (Except.ok.inj shown)
    · rw [failed] at shown
      cases shown
  · intro plain
    have reads := reads_lines plain
    rw [explainText_reads reads, (hunksOf_eq_nil reads).mpr plain]

/-- The marked parts come from marked conflicts. -/
theorem marked_partsOf {items : List ResolutionItem} {ls : List Text} {pieces : List Piece}
    {i hunkIdx : Nat} (reads : Reads ls pieces) (clean : ∀ line ∈ ls, '\n' ∉ line) :
    (∃ part ∈ partsOf items hunkIdx pieces, marked part = true) ↔
      ∃ j hunk, (hunksOf i pieces)[j]? = some hunk ∧
        marked (resolved (choiceFor items (hunkIdx + j)) hunk.ours hunk.theirs) = true := by
  induction reads generalizing i hunkIdx with
  | nil => simp [partsOf, hunksOf]
  | line plain _ ih =>
    obtain ⟨own, others⟩ := List.forall_mem_cons.mp clean
    have unmarked := marked_line own
    rw [plain] at unmarked
    rw [partsOf, hunksOf, List.exists_mem_cons_iff (marked · = true), unmarked]
    exact (or_iff_right Bool.false_ne_true).trans (ih others)
  | @conflict first sep last ours theirs rest pieces _ _ _ _ _ _ ih =>
    have later : ∀ line ∈ rest, '\n' ∉ line := fun line inside => clean line (by simp [inside])
    rw [partsOf, hunksOf, List.exists_mem_cons_iff (marked · = true), ih later]
    constructor
    · rintro (here | ⟨j, hunk, found, there⟩)
      · exact ⟨0, _, rfl, here⟩
      · refine ⟨j + 1, hunk, found, ?_⟩
        rwa [Nat.add_right_comm, Nat.add_assoc] at there
    · rintro ⟨j, hunk, found, here⟩
      cases j with
      | zero =>
        cases found
        exact .inl here
      | succ j =>
        refine .inr ⟨j, hunk, found, ?_⟩
        rwa [Nat.add_right_comm, Nat.add_assoc]

theorem applied_marked {items : List ResolutionItem} {s out : Text} {hunks : List ConflictHunk}
    (shown : explainText s = .ok hunks) (applied : applyText items s = .ok out) :
    marked out = true ↔ ∃ j hunk, hunks[j]? = some hunk ∧
      marked (resolved (choiceFor items j) hunk.ours hunk.theirs) = true := by
  rcases explainText_cases s with ⟨pieces, reads⟩ | failed
  · rw [explainText_reads reads] at shown
    rw [applyText_reads reads] at applied
    cases shown
    cases applied
    have parts := @marked_partsOf items _ _ 0 0 reads fun line => not_mem_lines
    simp only [Nat.zero_add] at parts
    rw [marked_dropWhile, parts]
  · rw [failed] at shown
    cases shown

/-- What is proposed for a hunk is found under its number. -/
theorem choiceFor_proposeAuto {hunks : List ConflictHunk} {j : Nat} {hunk : ConflictHunk}
    (found : hunks[j]? = some hunk) :
    choiceFor (proposeAuto hunks) j =
      if trim hunk.ours = trim hunk.theirs then "ours".toList else "keep_both".toList := by
  obtain ⟨within, rfl⟩ := List.getElem?_eq_some_iff.mp found
  have first : (proposeAuto hunks).find? (·.hunkIndex == j) =
      some ⟨j, if trim hunks[j].ours = trim hunks[j].theirs then "ours".toList
        else "keep_both".toList⟩ := by
    apply List.find?_eq_some_iff_getElem.mpr
    refine ⟨by simp, j, by rw [proposeAuto, List.length_mapIdx]; exact within, ?_, ?_⟩
    · exact List.getElem_mapIdx ..
    · intro i before
      simp only [proposeAuto, List.getElem_mapIdx]
      simpa using Nat.ne_of_lt before
  rw [choiceFor, first]
  rfl

/-! ## Plans -/

/-- The plan names each file once, as a map does, and no backup. -/
structure Apart (plan : List (Text × List ResolutionItem)) : Prop where
  once : (plan.map Prod.fst).Nodup
  noBackup : ∀ entry ∈ plan, ∀ other ∈ plan, backupPath entry.1 ≠ other.1

theorem Apart.perm {plan order : List (Text × List ResolutionItem)} (apart : Apart plan)
    (reordered : order.Perm plan) : Apart order where
  once := (reordered.map _).nodup_iff.mpr apart.once
  noBackup entry member other := fun named =>
    apart.noBackup entry (reordered.mem_iff.mp member) other (reordered.mem_iff.mp named)

variable {plan : List (Text × List ResolutionItem)} {files files' : Table Text}

theorem applyFile_ok {entry : Text × List ResolutionItem}
    (applied : applyFile () entry files = (.ok (), files')) :
    ∃ s out, files.lookup entry.1 = some s ∧ applyText entry.2 s = .ok out ∧
      files' = (files.insert (backupPath entry.1) s).insert entry.1 out := by
  unfold applyFile at applied
  cases found : files.lookup entry.1 with
  | none =>
    rw [found] at applied
    cases applied
  | some s =>
    rw [found] at applied
    dsimp only at applied
    cases read : applyText entry.2 s with
    | error e =>
      rw [read] at applied
      cases applied
    | ok out =>
      rw [read] at applied
      cases applied
      exact ⟨s, out, rfl, read, rfl⟩

/-- A plan writes its files and their backups, also when it fails. -/
theorem applyPlan_frame {path : Text} (unnamed : ∀ entry ∈ plan, entry.1 ≠ path)
    (noBackup : ∀ entry ∈ plan, backupPath entry.1 ≠ path) (files : Table Text) :
    (applyPlan plan files).2.lookup path = files.lookup path := by
  refine Action.keeps_forEach (I := fun now => now.lookup path = files.lookup path) ?_ () files rfl
  rintro ⟨⟩ entry member now same
  unfold applyFile
  split
  · exact same
  · split
    · exact same
    · rw [Table.lookup_insert_if, if_neg (unnamed entry member).symm, Table.lookup_insert_if,
        if_neg (noBackup entry member).symm, same]

/-- A file of a plan that succeeded, between the others. -/
theorem applyPlan_split {before after : List (Text × List ResolutionItem)}
    {entry : Text × List ResolutionItem} (apart : Apart (before ++ entry :: after))
    (applied : applyPlan (before ++ entry :: after) files = (.ok (), files')) :
    ∃ s out, files.lookup entry.1 = some s ∧ applyText entry.2 s = .ok out ∧
      files'.lookup entry.1 = some out ∧
      ((∀ later ∈ after, backupPath later.1 ≠ backupPath entry.1) →
        files'.lookup (backupPath entry.1) = some s) := by
  have once := apart.once
  rw [List.map_append, List.map_cons, List.nodup_append, List.nodup_cons] at once
  obtain ⟨-, ⟨not_after, -⟩, disjoint⟩ := once
  have here : entry ∈ before ++ entry :: after := by simp
  have in_front : ∀ {other}, other ∈ before → other ∈ before ++ entry :: after := by
    exact List.mem_append_left _
  have behind : ∀ {other}, other ∈ after → other ∈ before ++ entry :: after := by
    exact fun member => List.mem_append_right _ (List.mem_cons_of_mem _ member)
  unfold applyPlan at applied
  rw [Action.forEach_append] at applied
  obtain ⟨⟨⟩, mid, first, rest⟩ := Action.bind_eq_ok applied
  rw [Action.forEach_cons] at rest
  obtain ⟨⟨⟩, next, single, later⟩ := Action.bind_eq_ok rest
  obtain ⟨s, out, found, read, rfl⟩ := applyFile_ok single
  have untouched : mid.lookup entry.1 = files.lookup entry.1 := by
    have frame := @applyPlan_frame before entry.1
      (fun other member same => disjoint _ (List.mem_map_of_mem member) _ List.mem_cons_self same)
      (fun other member => apart.noBackup other (in_front member) entry here) files
    unfold applyPlan at frame
    rwa [first] at frame
  have kept : files'.lookup entry.1 = some out := by
    have frame := @applyPlan_frame after entry.1
      (fun other member same => not_after (same ▸ List.mem_map_of_mem member))
      (fun other member => apart.noBackup other (behind member) entry here)
      ((mid.insert (backupPath entry.1) s).insert entry.1 out)
    unfold applyPlan at frame
    rwa [later, Table.lookup_insert_if, if_pos rfl] at frame
  refine ⟨s, out, untouched.symm.trans found, read, kept, fun last => ?_⟩
  have frame := @applyPlan_frame after (backupPath entry.1)
    (fun other member same => apart.noBackup entry here other (behind member) same.symm) last
    ((mid.insert (backupPath entry.1) s).insert entry.1 out)
  unfold applyPlan at frame
  rwa [later, Table.lookup_insert_if, if_neg (apart.noBackup entry here entry here),
    Table.lookup_insert_if, if_pos rfl] at frame

/-- A plan whose files can all be read and cut goes through. -/
theorem applyPlan_ok (apart : Apart plan)
    (readable : ∀ entry ∈ plan, ∃ s out, files.lookup entry.1 = some s ∧
      applyText entry.2 s = .ok out) :
    ∃ files', applyPlan plan files = (.ok (), files') := by
  induction plan generalizing files with
  | nil => exact ⟨files, rfl⟩
  | cons entry plan ih =>
    obtain ⟨s, out, found, read⟩ := readable entry List.mem_cons_self
    have once := apart.once
    rw [List.map_cons, List.nodup_cons] at once
    have done : applyFile () entry files =
        (.ok (), (files.insert (backupPath entry.1) s).insert entry.1 out) := by
      unfold applyFile
      rw [found]
      dsimp only
      rw [read]
    have rest : Apart plan := ⟨once.2, fun a first b second =>
      apart.noBackup a (List.mem_cons_of_mem _ first) b (List.mem_cons_of_mem _ second)⟩
    obtain ⟨files', later⟩ := @ih ((files.insert (backupPath entry.1) s).insert entry.1 out) rest
      (by
        intro other member
        obtain ⟨t, result, there, cut⟩ := readable other (List.mem_cons_of_mem _ member)
        refine ⟨t, result, ?_, cut⟩
        have distinct : other.1 ≠ entry.1 := fun same =>
          once.1 (same ▸ List.mem_map_of_mem member)
        rw [Table.lookup_insert_if, if_neg distinct, Table.lookup_insert_if, if_neg
          (apart.noBackup entry List.mem_cons_self other (List.mem_cons_of_mem _ member)).symm,
          there])
    refine ⟨files', ?_⟩
    unfold applyPlan at later ⊢
    rw [Action.forEach_cons, Action.bind_of_ok done]
    exact later

/-- The file can be read, and all its conflicts are whole. -/
def Explained (files : Table Text) (path : Text) : Prop :=
  ∃ s hunks, files.lookup path = some s ∧ explainText s = .ok hunks

theorem applyText_isOk {items : List ResolutionItem} {s : Text} :
    (∃ out, applyText items s = .ok out) ↔ ∃ hunks, explainText s = .ok hunks := by
  constructor
  · rintro ⟨out, applied⟩
    rcases applyText_cases items s with ⟨pieces, reads⟩ | failed
    · exact ⟨_, explainText_reads reads⟩
    · rw [failed] at applied
      cases applied
  · rintro ⟨hunks, shown⟩
    rcases explainText_cases s with ⟨pieces, reads⟩ | failed
    · exact ⟨_, applyText_reads reads⟩
    · rw [failed] at shown
      cases shown

theorem explained_iff {entry : Text × List ResolutionItem} :
    Explained files entry.1 ↔
      ∃ s out, files.lookup entry.1 = some s ∧ applyText entry.2 s = .ok out := by
  constructor
  · rintro ⟨s, hunks, found, shown⟩
    obtain ⟨out, applied⟩ := applyText_isOk.mpr ⟨hunks, shown⟩
    exact ⟨s, out, found, applied⟩
  · rintro ⟨s, out, found, applied⟩
    obtain ⟨hunks, shown⟩ := applyText_isOk.mp ⟨out, applied⟩
    exact ⟨s, hunks, found, shown⟩

/-- **A conflict is left** in a file of a plan that went through exactly where a side that is kept
has an opening line in it. -/
theorem still_shown_iff (apart : Apart plan) (applied : applyPlan plan files = (.ok (), files'))
    {entry : Text × List ResolutionItem} (member : entry ∈ plan) {s : Text}
    {hunks : List ConflictHunk} (found : files.lookup entry.1 = some s)
    (shown : explainText s = .ok hunks) :
    explain files' [entry.1] ≠ .ok [] ↔ ∃ j hunk, hunks[j]? = some hunk ∧
      ((choiceFor entry.2 j ≠ "theirs".toList ∧ marked hunk.ours = true) ∨
        (choiceFor entry.2 j ≠ "ours".toList ∧ marked hunk.theirs = true)) := by
  obtain ⟨before, after, rfl⟩ := List.append_of_mem member
  obtain ⟨t, out, there, cut, kept, -⟩ := applyPlan_split apart applied
  cases found.symm.trans there
  simp only [← marked_resolved]
  rw [← applied_marked shown cut, ← Bool.not_eq_false, ← explainText_nil, explain, kept]
  apply not_congr
  dsimp only [explain, bind, Except.bind]
  cases explainText out with
  | error e => simp
  | ok left =>
    by_cases none : left = []
    · simp [none]
    · simp [none]

def nested : Text := "<<<<<<<\n<<<<<<<\nx\n=======\ny\n>>>>>>>".toList

def nestedFiles : Table Text := AList.insert "f".toList nested ∅

/-- A conflict inside the first side of another is still there behind a plan. -/
theorem nested_still_shown :
    explain (applyPlan [("f".toList, [])] nestedFiles).2 ["f".toList] ≠ .ok [] := by
  have apart : Apart [("f".toList, [])] := ⟨by decide, by decide +kernel⟩
  have found : nestedFiles.lookup "f".toList = some nested := by decide +kernel
  have shown : explainText nested = .ok [⟨1, 5, "<<<<<<<\nx".toList, ['y']⟩] := by decide +kernel
  have applied : applyPlan [("f".toList, [])] nestedFiles =
      (.ok (), (applyPlan [("f".toList, [])] nestedFiles).2) := by
    obtain ⟨files', goes⟩ := applyPlan_ok apart fun entry member =>
      explained_iff.mp (by cases List.mem_singleton.mp member; exact ⟨_, _, found, shown⟩)
    rw [goes]
  exact (still_shown_iff apart applied List.mem_cons_self found shown).mpr
    ⟨0, _, rfl, .inl ⟨by decide, by decide +kernel⟩⟩

end MergeAssist

end Devit
