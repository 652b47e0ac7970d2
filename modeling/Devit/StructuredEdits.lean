import Devit.Library.Search
import Devit.Library.Splices

/-! Edits that a model proposes as JSON: how the operations become hunks for review, and how
the accepted hunks are made in the file, the last one first. What the operations mean is said
apart from that, on lines that keep their endings. -/
namespace Devit
open Text

namespace DiffApplier

inductive EditOperation where
  | replace (startLine endLine : Nat) (content : Text)
  | insertAfter (afterLine : Nat) (content : Text)
  | delete (startLine endLine : Nat)
  | replaceFile (content : Text)
  deriving DecidableEq

structure StructuredEdit where
  file : Text
  edits : List EditOperation

inductive HunkStatus where
  | pending
  | accepted
  | rejected
  | applied
  deriving DecidableEq

structure EditHunk where
  id : Text
  filePath : Text
  startLine : Nat
  endLine : Nat
  original : Text
  replacement : Text
  description : Text
  status : HunkStatus
  deriving DecidableEq

inductive ContextError where
  | diff (message : Text)
  deriving DecidableEq

/-! ## From operations to hunks -/

def description : EditOperation → Text
  | .replace startLine endLine _ =>
    "Replace lines ".toList ++ printNat startLine ++ '-' :: printNat endLine
  | .insertAfter afterLine _ => "Insert after line ".toList ++ printNat afterLine
  | .delete startLine endLine =>
    "Delete lines ".toList ++ printNat startLine ++ '-' :: printNat endLine
  | .replaceFile _ => "Replace entire file".toList

def hunkOf (file : Text) (operation : EditOperation) (idx : Nat) : EditHunk :=
  let hunk (startLine endLine : Nat) (replacement : Text) : EditHunk :=
    { id := file ++ '-' :: printNat idx
      filePath := file
      startLine := startLine
      endLine := endLine
      original := []
      replacement := replacement
      description := description operation
      status := .pending }
  match operation with
  | .replace startLine endLine content => hunk startLine endLine content
  | .insertAfter afterLine content => hunk afterLine afterLine content
  | .delete startLine endLine => hunk startLine endLine []
  | .replaceFile content => hunk 1 usizeMax content

/-- The hunks of a JSON text, which `fromStr` reads. -/
def parseEdit (fromStr : Text → Except Text StructuredEdit) (jsonStr : Text) :
    Except ContextError (List EditHunk) :=
  match fromStr jsonStr with
  | .error e => .error (.diff ("Failed to parse edit JSON: ".toList ++ e))
  | .ok edit => .ok (edit.edits.zipIdx.map fun (operation, idx) => hunkOf edit.file operation idx)

/-- One hunk with the lines that it names. A range that ends before it begins is a panic. -/
def fillOriginal (fileContent : Text) (hunk : EditHunk) : Option EditHunk :=
  let fileLines := lines fileContent
  if hunk.endLine = usizeMax then
    some { hunk with original := fileContent, endLine := fileLines.length }
  else
    let startIdx := hunk.startLine - 1
    let endIdx := min hunk.endLine fileLines.length
    if startIdx < fileLines.length then
      if startIdx ≤ endIdx then
        some { hunk with
          original := join ['\n'] ((fileLines.drop startIdx).take (endIdx - startIdx)) }
      else none
    else some hunk

def fillOriginalContent (hunks : List EditHunk) (fileContent : Text) : Option (List EditHunk) :=
  hunks.mapM (fillOriginal fileContent)

/-! ## From hunks to the file -/

def insertLines (index : Nat) (fileLines : List Text) : List Text → List Text
  | [] => fileLines
  | line :: newLines => insertLines (index + 1) (fileLines.insertIdx index line) newLines

/-- One hunk in the lines of the file. What kind of operation it was is guessed. -/
def applyHunk (fileLines : List Text) (hunk : EditHunk) : Option (List Text) :=
  let startIdx := hunk.startLine - 1
  let endIdx := min hunk.endLine fileLines.length
  if hunk.replacement = [] then
    if startIdx < fileLines.length then
      if startIdx ≤ endIdx then some (fileLines.take startIdx ++ fileLines.drop endIdx) else none
    else some fileLines
  else if hunk.original = [] ∧ hunk.startLine = hunk.endLine then
    some (insertLines (min hunk.startLine fileLines.length) fileLines (lines hunk.replacement))
  else if startIdx < fileLines.length then
    if startIdx ≤ endIdx then
      some (fileLines.take startIdx ++ (lines hunk.replacement ++ fileLines.drop endIdx))
    else none
  else some fileLines

/-- The order of the sort: by start line, the last first. -/
def Below (a b : EditHunk) : Prop := b.startLine ≤ a.startLine

instance : DecidableRel Below := fun a b => inferInstanceAs (Decidable (b.startLine ≤ a.startLine))

instance : Std.Total Below := ⟨fun a b => Nat.le_total b.startLine a.startLine⟩

instance : IsTrans EditHunk Below := ⟨fun _ _ _ first second => Nat.le_trans second first⟩

/-- The file with the accepted hunks, or a panic. -/
def applyHunks (originalContent : Text) (hunks : List EditHunk) : Option Text :=
  let accepted := hunks.filter (·.status = .accepted)
  if accepted = [] then some originalContent
  else ((accepted.insertionSort Below).foldlM applyHunk (lines originalContent)).map (join ['\n'])

/-- An edit that is read, filled in, accepted as a whole and applied. -/
def acceptAll (fromStr : Text → Except Text StructuredEdit) (jsonStr fileContent : Text) :
    Except ContextError (Option Text) :=
  match parseEdit fromStr jsonStr with
  | .error e => .error e
  | .ok hunks => .ok <|
    (fillOriginalContent hunks fileContent).bind fun filled =>
      applyHunks fileContent (filled.map fun hunk => { hunk with status := .accepted })

/-! ## What the operations mean -/

/-- A line with what ends it. -/
structure Line where
  body : Text
  ending : Text
  deriving DecidableEq

def Line.write (line : Line) : Text := line.body ++ line.ending

/-- The line with an ending, if it has none. -/
def Line.ended (line : Line) : Line :=
  if line.ending = [] then { line with ending := ['\n'] } else line

def lineOf (piece : Text) : Line := ⟨chopLine piece, piece.drop (chopLine piece).length⟩

def linesOf (text : Text) : List Line := (splitInclusive text).map lineOf

/-- The lines written with the last one not ended. -/
def unended (text : List Line) : Text :=
  match text.getLast? with
  | none => []
  | some last => text.dropLast.flatMap Line.write ++ last.body

/-- New lines for a file, whose final newline is kept. -/
def finish (file : Text) (text : List Line) : Text :=
  if file.getLast? = some '\n' then text.flatMap Line.write else unended text

/-- The lines that an operation puts in, and the gaps between which it does. -/
def EditOperation.edit : EditOperation → Splices.Edit Line
  | .replace startLine endLine content => ⟨startLine - 1, endLine, (linesOf content).map Line.ended⟩
  | .insertAfter afterLine content => ⟨afterLine, afterLine, (linesOf content).map Line.ended⟩
  | .delete startLine endLine => ⟨startLine - 1, endLine, []⟩
  | .replaceFile content => ⟨0, usizeMax, (linesOf content).map Line.ended⟩

/-- The file with the operations performed at its original line numbers. -/
def performed (file : Text) : List EditOperation → Text
  | [.replaceFile content] =>
    if file.getLast? = some '\n' then ((linesOf content).map Line.ended).flatMap Line.write
    else content
  | operations =>
    finish file (Splices.perform (operations.map EditOperation.edit) 0
      ((linesOf file).map Line.ended))

/-- An operation names lines that a file of some length has. -/
def EditOperation.Named (count : Nat) : EditOperation → Prop
  | .replace startLine endLine _ => 1 ≤ startLine ∧ startLine ≤ endLine ∧ endLine ≤ count
  | .insertAfter afterLine _ => afterLine ≤ count
  | .delete startLine endLine => 1 ≤ startLine ∧ startLine ≤ endLine ∧ endLine ≤ count
  | .replaceFile _ => False

def Disjoint (a b : EditOperation) : Prop := a.edit.hi ≤ b.edit.lo ∨ b.edit.hi ≤ a.edit.lo

/-- Operations on disjoint ranges of a file of some length, or one for the whole file. -/
def WellNamed (count : Nat) (operations : List EditOperation) : Prop :=
  (∃ content, operations = [.replaceFile content]) ∨
    (∀ operation ∈ operations, operation.Named count) ∧ operations.Pairwise Disjoint

/-- Every line ends in a mere newline, if it is ended. -/
def Unix (text : Text) : Prop := ∀ line ∈ linesOf text, line.ending = [] ∨ line.ending = ['\n']

/-- Lines with newlines between them, and none at the end. -/
def Plain (text : Text) : Prop := Unix text ∧ text.getLast? ≠ some '\n'

/-- The operation is guessed as what it was: a replaced line is not empty, and a line that
something is inserted after is. -/
def EditOperation.Guessed (fileLines : List Text) : EditOperation → Prop
  | .replace startLine endLine content =>
    Unix content ∧ (content = [] ∨ startLine ≠ endLine ∨ fileLines[startLine - 1]? ≠ some [])
  | .insertAfter afterLine content =>
    Unix content ∧ (afterLine = 0 ∨ fileLines[afterLine - 1]? = some [] ∧ content ≠ [])
  | .delete _ _ => True
  | .replaceFile _ => True

/-- Two operations of one start line are made in a good order: the first one listed inserts,
and the other one replaces. -/
def InTurn : EditOperation → EditOperation → Prop
  | .insertAfter line content, .insertAfter line' content' =>
    line = line' → content = [] ∨ content' = []
  | .replace line _ _, .insertAfter line' _ => line ≠ line'
  | .delete line _, .insertAfter line' _ => line ≠ line'
  | _, _ => True

/-- When the hunks do what the operations say. -/
def Meant (file : Text) (operations : List EditOperation) : Prop :=
  match operations with
  | [] => True
  | [.replaceFile content] => content = [] ∨ file ≠ [] ∧ file.getLast? ≠ some '\n' ∧ Plain content
  | operations =>
    Plain file ∧ (∀ operation ∈ operations, operation.Guessed (lines file)) ∧
      operations.Pairwise InTurn

/-! ## Lines with their endings -/

theorem linesOf_unlines {ls : List Text} (clean : ∀ line ∈ ls, '\n' ∉ line) (rest : Text) :
    linesOf (unlines ls ++ rest) =
      ls.map (fun line => lineOf (line ++ ['\n'])) ++ linesOf rest := by
  rw [linesOf, splitInclusive_unlines_append clean, List.map_append, List.map_map]
  rfl

/-- A line that is ended is written as it was read. -/
theorem lineOf_newline (line : Text) :
    (lineOf (line ++ ['\n'])).ending ≠ [] ∧ (lineOf (line ++ ['\n'])).write = line ++ ['\n'] := by
  obtain ⟨rest, shape, -⟩ := chopCr_rest line
  have body : chopLine (line ++ ['\n']) = chopCr line := by rw [chopLine, stripLast_append]
  have ending : (line ++ ['\n']).drop (chopCr line).length = rest ++ ['\n'] := by
    conv_lhs => rw [shape, List.append_assoc, List.drop_append_of_le_length (by
      rw [← shape]), List.drop_eq_nil_of_le (by rw [← shape])]
    rfl
  rw [lineOf, body, ending]
  refine ⟨by simp, ?_⟩
  conv_rhs => rw [shape]
  exact (List.append_assoc _ _ _).symm

theorem linesOf_last {last : Text} (clean : '\n' ∉ last) (some_char : last ≠ []) :
    linesOf last = [⟨last, []⟩] := by
  have whole : chopLine last = last := by
    have other : last.getLast? ≠ some '\n' := fun ended => clean (List.mem_of_getLast? ended)
    rw [chopLine, stripLast, if_neg other]
  rw [linesOf, splitInclusive_whole clean some_char, List.map_singleton, lineOf, whole,
    List.drop_length]

/-- Without operations a file stays as it is. -/
theorem finish_linesOf (text : Text) : finish text ((linesOf text).map Line.ended) = text := by
  obtain ⟨ls, last, rfl, clean, free⟩ := exists_unlines text
  have kept : (ls.map fun line => lineOf (line ++ ['\n'])).map Line.ended =
      ls.map fun line => lineOf (line ++ ['\n']) := by
    rw [List.map_map]
    exact List.map_congr_left fun line _ => if_neg (lineOf_newline line).1
  have written : (ls.map fun line => lineOf (line ++ ['\n'])).flatMap Line.write = unlines ls := by
    rw [List.flatMap_map, unlines]
    exact List.flatMap_congr fun line _ => (lineOf_newline line).2
  rw [linesOf_unlines clean, List.map_append, kept, finish]
  by_cases whole : last = []
  · subst whole
    rw [List.append_nil, show (linesOf []).map Line.ended = [] from rfl, List.append_nil, written]
    rcases List.eq_nil_or_concat' ls with rfl | ⟨front, line, rfl⟩
    · rfl
    · exact if_pos (by simp [unlines])
  · have other : (unlines ls ++ last).getLast? ≠ some '\n' := by
      rw [List.getLast?_append_of_ne_nil _ whole]
      exact fun ended => free (List.mem_of_getLast? ended)
    have unfinished : (linesOf last).map Line.ended = [⟨last, ['\n']⟩] := by
      rw [linesOf_last free whole]
      rfl
    rw [if_neg other, unfinished, unended, List.getLast?_concat, List.dropLast_concat]
    exact congrArg (· ++ last) written

/-! ## Lines ended by newlines -/

def newlineEnded (body : Text) : Line := ⟨body, ['\n']⟩

theorem body_ended (line : Line) : line.ended.body = line.body := by
  rw [Line.ended]
  split <;> rfl

theorem bodies_ended (text : Text) :
    ((linesOf text).map Line.ended).map Line.body = lines text := by
  rw [List.map_map, linesOf, List.map_map, lines]
  exact List.map_congr_left fun piece _ => body_ended (lineOf piece)

theorem Unix.ended {text : Text} (mere : Unix text) :
    (linesOf text).map Line.ended = (lines text).map newlineEnded := by
  rw [← bodies_ended, List.map_map, List.map_map]
  refine List.map_congr_left fun line member => ?_
  show line.ended = newlineEnded line.ended.body
  rw [body_ended, Line.ended, newlineEnded]
  rcases mere line member with bare | newline
  · rw [if_pos bare]
  · rw [if_neg (by rw [newline]; exact nofun), ← newline]

theorem join_concat (front : List Text) (last : Text) :
    join ['\n'] (front ++ [last]) = unlines front ++ last := by
  cases front with
  | nil => rfl
  | cons line front =>
    rw [join_append (List.cons_ne_nil _ _) (List.cons_ne_nil _ _),
      join_newline_append (List.cons_ne_nil _ _)]
    rfl

theorem unended_newlineEnded (ls : List Text) :
    unended (ls.map newlineEnded) = join ['\n'] ls := by
  rcases List.eq_nil_or_concat' ls with rfl | ⟨front, last, rfl⟩
  · rfl
  · rw [join_concat, List.map_append, List.map_singleton, unended, List.getLast?_concat,
      List.dropLast_concat, List.flatMap_map]
    rfl

/-- A plain text is its lines with newlines between them. -/
theorem Plain.join_lines {text : Text} (plain : Plain text) : join ['\n'] (lines text) = text := by
  have same := finish_linesOf text
  rwa [finish, if_neg plain.2, plain.1.ended, unended_newlineEnded] at same

/-! ## One hunk -/

theorem insertIdx_between (before rest : List Text) (line : Text) :
    (before ++ rest).insertIdx before.length line = before ++ line :: rest := by
  induction before with
  | nil => rfl
  | cons first before ih =>
    rw [List.cons_append, List.length_cons, List.insertIdx_succ_cons, ih]
    rfl

/-- Lines inserted one by one come in their order. -/
theorem insertLines_between (before rest newLines : List Text) :
    insertLines before.length (before ++ rest) newLines = before ++ (newLines ++ rest) := by
  induction newLines generalizing before with
  | nil => rfl
  | cons line newLines ih =>
    have later := ih (before ++ [line])
    rw [List.length_append, List.append_assoc, List.append_assoc] at later
    rw [insertLines, insertIdx_between]
    exact later

theorem insertLines_eq {index : Nat} {fileLines : List Text} (inside : index ≤ fileLines.length)
    (newLines : List Text) :
    insertLines index fileLines newLines = Splices.splice fileLines ⟨index, index, newLines⟩ := by
  have between := insertLines_between (fileLines.take index) (fileLines.drop index) newLines
  rwa [List.take_append_drop, List.length_take_of_le inside] at between

/-- The edit of an operation on lines without their endings. -/
def EditOperation.lineEdit (operation : EditOperation) : Splices.Edit Text :=
  operation.edit.map Line.body

/-- The text of the lines that a hunk names. -/
def namedText (fileLines : List Text) (hunk : EditHunk) : Text :=
  join ['\n'] ((fileLines.drop (hunk.startLine - 1)).take
    (min hunk.endLine fileLines.length - (hunk.startLine - 1)))

/-- The hunk of an operation when it is applied. -/
def acceptedHunk (file fileContent : Text) (operation : EditOperation) (idx : Nat) : EditHunk :=
  let hunk := hunkOf file operation idx
  { hunk with original := namedText (lines fileContent) hunk, status := .accepted }

theorem fillOriginal_range {fileContent : Text} {hunk : EditHunk} (empty : hunk.original = [])
    (ranged : hunk.endLine ≠ usizeMax)
    (ordered : hunk.startLine - 1 ≤ min hunk.endLine (lines fileContent).length) :
    fillOriginal fileContent hunk =
      some { hunk with original := namedText (lines fileContent) hunk } := by
  rw [fillOriginal, if_neg ranged]
  dsimp only
  split
  · rfl
  · rename_i behind
    rw [namedText, List.drop_eq_nil_of_le (Nat.le_of_not_lt behind), List.take_nil]
    exact congrArg some (by cases hunk; cases empty; rfl)

theorem fillOriginal_named {fileContent : Text} (bounded : (lines fileContent).length < usizeMax)
    {operation : EditOperation} (named : operation.Named (lines fileContent).length)
    (file : Text) (idx : Nat) :
    fillOriginal fileContent (hunkOf file operation idx) =
      some { hunkOf file operation idx with
        original := namedText (lines fileContent) (hunkOf file operation idx) } := by
  cases operation with
  | replace startLine endLine content =>
    obtain ⟨least, ordered, inside⟩ := named
    refine fillOriginal_range rfl (Nat.ne_of_lt (Nat.lt_of_le_of_lt inside bounded)) ?_
    show startLine - 1 ≤ min endLine _
    omega
  | insertAfter afterLine content =>
    refine fillOriginal_range rfl (Nat.ne_of_lt (Nat.lt_of_le_of_lt named bounded)) ?_
    have inside : afterLine ≤ (lines fileContent).length := named
    show afterLine - 1 ≤ min afterLine _
    omega
  | delete startLine endLine =>
    obtain ⟨least, ordered, inside⟩ := named
    refine fillOriginal_range rfl (Nat.ne_of_lt (Nat.lt_of_le_of_lt inside bounded)) ?_
    show startLine - 1 ≤ min endLine _
    omega
  | replaceFile content => exact named.elim

/-- The named text is empty only where one empty line is named. -/
theorem namedText_eq_nil {fileLines : List Text} {hunk : EditHunk} (least : 1 ≤ hunk.startLine)
    (ordered : hunk.startLine ≤ hunk.endLine) (inside : hunk.endLine ≤ fileLines.length) :
    namedText fileLines hunk = [] ↔
      hunk.startLine = hunk.endLine ∧ fileLines[hunk.startLine - 1]? = some [] := by
  obtain ⟨count, range⟩ : ∃ count, hunk.endLine - (hunk.startLine - 1) = count + 1 :=
    ⟨hunk.endLine - hunk.startLine, by omega⟩
  have present : hunk.startLine - 1 < fileLines.length := by omega
  rw [namedText, Nat.min_eq_left inside, range, List.drop_eq_getElem_cons present,
    List.take_succ_cons, join_newline_eq_nil, List.getElem?_eq_getElem present]
  constructor
  · rintro (none | one)
    · cases none
    · obtain ⟨first, later⟩ := List.cons_eq_cons.mp one
      have size := congrArg List.length later
      rw [List.length_take_of_le (by rw [List.length_drop]; omega), List.length_nil] at size
      exact ⟨by omega, by rw [first]⟩
  · rintro ⟨single, blank⟩
    obtain rfl : count = 0 := by omega
    rw [Option.some.inj blank]
    exact .inr rfl

/-- A hunk for a range does what its operation says, unless it is taken for an insertion. -/
theorem applyHunk_replaces {fileLines : List Text} {hunk : EditHunk} (least : 1 ≤ hunk.startLine)
    (ordered : hunk.startLine ≤ hunk.endLine) (inside : hunk.endLine ≤ fileLines.length)
    (guessed : hunk.replacement = [] ∨ ¬ (hunk.original = [] ∧ hunk.startLine = hunk.endLine)) :
    applyHunk fileLines hunk =
      some (Splices.splice fileLines
        ⟨hunk.startLine - 1, hunk.endLine, lines hunk.replacement⟩) := by
  have present : hunk.startLine - 1 < fileLines.length := by omega
  have range : hunk.startLine - 1 ≤ hunk.endLine := by omega
  rw [applyHunk, Nat.min_eq_left inside]
  by_cases empty : hunk.replacement = []
  · rw [if_pos empty, if_pos present, if_pos range, empty]
    rfl
  · rw [if_neg empty, if_neg (guessed.resolve_left empty), if_pos present, if_pos range]
    rfl

/-- A hunk for an insertion does what its operation says, if it is taken for one or does
nothing at the very beginning. -/
theorem applyHunk_inserts {fileLines : List Text} {hunk : EditHunk}
    (single : hunk.startLine = hunk.endLine) (inside : hunk.startLine ≤ fileLines.length)
    (guessed : hunk.original = [] ∧ hunk.replacement ≠ [] ∨
      hunk.original = [] ∧ hunk.startLine = 0) :
    applyHunk fileLines hunk =
      some (Splices.splice fileLines
        ⟨hunk.startLine, hunk.startLine, lines hunk.replacement⟩) := by
  have bare : hunk.original = [] := guessed.elim And.left And.left
  rw [applyHunk, ← single, Nat.min_eq_left inside]
  by_cases empty : hunk.replacement = []
  · have first : hunk.startLine = 0 := by
      rcases guessed with guess | guess
      · exact absurd empty guess.2
      · exact guess.2
    rw [if_pos empty, first, empty]
    split <;> rfl
  · rw [if_neg empty, if_pos ⟨bare, rfl⟩, insertLines_eq inside]

theorem applyHunk_named {fileContent : Text} {operation : EditOperation}
    (named : operation.Named (lines fileContent).length)
    (guessed : operation.Guessed (lines fileContent)) (file : Text) (idx : Nat)
    {fileLines : List Text} (inside : operation.lineEdit.hi ≤ fileLines.length) :
    applyHunk fileLines (acceptedHunk file fileContent operation idx) =
      some (Splices.splice fileLines operation.lineEdit) := by
  cases operation with
  | replace startLine endLine content =>
    obtain ⟨least, ordered, bounded⟩ := named
    obtain ⟨-, guess⟩ := guessed
    have replaced := @applyHunk_replaces fileLines
      (acceptedHunk file fileContent (.replace startLine endLine content) idx) least ordered inside
      (by
        rw [or_iff_not_imp_left]
        rintro some_text ⟨bare, single⟩
        have blank := (@namedText_eq_nil (lines fileContent)
          (hunkOf file (.replace startLine endLine content) idx) least ordered bounded).mp bare
        rcases guess with none | wide | filled
        · exact some_text none
        · exact wide single
        · exact filled blank.2)
    rw [replaced]
    exact congrArg (fun new => some (Splices.splice fileLines ⟨startLine - 1, endLine, new⟩))
      (bodies_ended content).symm
  | insertAfter afterLine content =>
    obtain ⟨-, guess⟩ := guessed
    have bounded : afterLine ≤ (lines fileContent).length := named
    have inserted := @applyHunk_inserts fileLines
      (acceptedHunk file fileContent (.insertAfter afterLine content) idx) rfl inside
      (by
        rcases guess with rfl | ⟨blank, some_text⟩
        · exact .inr ⟨by simp [acceptedHunk, hunkOf, namedText, join], rfl⟩
        · rcases Nat.eq_zero_or_pos afterLine with rfl | least
          · exact .inr ⟨by simp [acceptedHunk, hunkOf, namedText, join], rfl⟩
          · exact .inl ⟨(@namedText_eq_nil (lines fileContent)
              (hunkOf file (.insertAfter afterLine content) idx) least (Nat.le_refl _)
              bounded).mpr ⟨rfl, blank⟩, some_text⟩)
    rw [inserted]
    exact congrArg (fun new => some (Splices.splice fileLines ⟨afterLine, afterLine, new⟩))
      (bodies_ended content).symm
  | delete startLine endLine =>
    obtain ⟨least, ordered, bounded⟩ := named
    exact @applyHunk_replaces fileLines
      (acceptedHunk file fileContent (.delete startLine endLine) idx) least ordered inside (.inl rfl)
  | replaceFile content => exact named.elim

/-! ## All hunks -/

/-- What is made first lies behind. -/
theorem made_in_order {count : Nat} {a b : EditOperation} (named : a.Named count)
    (named' : b.Named count) (disjoint : Disjoint a b) (turn : InTurn a b) (file fileContent : Text)
    (i j : Nat) :
    (Below (acceptedHunk file fileContent a i) (acceptedHunk file fileContent b j) →
        b.lineEdit.hi ≤ a.lineEdit.lo) ∧
      (¬ Below (acceptedHunk file fileContent a i) (acceptedHunk file fileContent b j) →
        a.lineEdit.hi ≤ b.lineEdit.lo) := by
  cases a <;> cases b <;>
    simp only [EditOperation.Named, Disjoint, InTurn, EditOperation.edit, EditOperation.lineEdit,
      Splices.Edit.map, Below, acceptedHunk, hunkOf] at named named' disjoint turn ⊢ <;>
    omega

theorem made_alone {count : Nat} {a b : EditOperation} (named : a.Named count)
    (named' : b.Named count) (disjoint : Disjoint a b) (turn : InTurn a b) :
    Splices.Alone a.lineEdit b.lineEdit := by
  intro together kind
  cases a <;> cases b <;>
    simp only [EditOperation.Named, Disjoint, InTurn, EditOperation.edit, EditOperation.lineEdit,
      Splices.Edit.map, iff_true, true_iff] at named named' disjoint turn together kind ⊢
  case insertAfter.insertAfter line content line' content' =>
    rcases turn together with rfl | rfl
    · exact .inl rfl
    · exact .inr rfl
  all_goals omega

theorem named_range {count : Nat} {operation : EditOperation} (named : operation.Named count) :
    operation.lineEdit.lo ≤ operation.lineEdit.hi ∧ operation.lineEdit.hi ≤ count := by
  cases operation <;>
    simp only [EditOperation.Named, EditOperation.edit, EditOperation.lineEdit,
      Splices.Edit.map] at named ⊢ <;>
    omega

/-- The hunks of an edit are made in the lines of the file as its operations say. -/
theorem applyHunks_lines {fileContent : Text} {operations : List EditOperation}
    (named : ∀ operation ∈ operations, operation.Named (lines fileContent).length)
    (disjoint : operations.Pairwise Disjoint) (turns : operations.Pairwise InTurn)
    (guessed : ∀ operation ∈ operations, operation.Guessed (lines fileContent))
    (some_operation : operations ≠ []) (file : Text) :
    applyHunks fileContent (operations.zipIdx.map fun p =>
        acceptedHunk file fileContent p.1 p.2) =
      some (join ['\n'] (Splices.perform (operations.map EditOperation.lineEdit) 0
        (lines fileContent))) := by
  let hunk (p : EditOperation × Nat) := acceptedHunk file fileContent p.1 p.2
  let edit (p : EditOperation × Nat) := p.1.lineEdit
  let below (p q : EditOperation × Nat) : Prop := Below (hunk p) (hunk q)
  have total : Std.Total below := ⟨fun p q => Nat.le_total (hunk q).startLine (hunk p).startLine⟩
  have trans : IsTrans _ below := ⟨fun _ _ _ first second => Nat.le_trans second first⟩
  have decidable : DecidableRel below := fun p q => inferInstanceAs (Decidable (Below _ _))
  let sorted := operations.zipIdx.insertionSort below
  have own (p) (member : p ∈ sorted) : p.1 ∈ operations :=
    List.fst_mem_of_mem_zipIdx ((List.mem_insertionSort below).mp member)
  have together := List.Pairwise.and_mem.mp (disjoint.and turns)
  have pairs : (operations.zipIdx.map Prod.fst).Pairwise fun a b =>
      a ∈ operations ∧ b ∈ operations ∧ Disjoint a b ∧ InTurn a b := by
    rwa [List.zipIdx_map_fst]
  have bottom_up : sorted.Pairwise fun p q => (edit q).hi ≤ (edit p).lo :=
    Splices.pairwise_sorted <| (List.pairwise_map.mp pairs).imp fun ⟨member, member', apart, turn⟩ =>
      made_in_order (named _ member) (named _ member') apart turn file fileContent _ _
  have made := @Splices.foldlM_splice Text (EditOperation × Nat) edit
    (fun fileLines p => applyHunk fileLines (hunk p)) sorted (lines fileContent)
    (fun p member fileLines inside => applyHunk_named (named _ (own p member))
      (guessed _ (own p member)) file p.2 inside)
    bottom_up (fun p member => named_range (named _ (own p member)))
  have reversed : (sorted.map edit).reverse.Perm (operations.map EditOperation.lineEdit) := by
    have same := ((List.perm_insertionSort below operations.zipIdx).map Prod.fst).map
      EditOperation.lineEdit
    rw [List.zipIdx_map_fst, List.map_map] at same
    exact (List.reverse_perm _).trans same
  have alone : (operations.map EditOperation.lineEdit).Pairwise Splices.Alone :=
    List.pairwise_map.mpr <| together.imp fun ⟨member, member', apart, turn⟩ =>
      made_alone (named _ member) (named _ member') apart turn
  have accepted : (operations.zipIdx.map hunk).filter (·.status = .accepted) =
      operations.zipIdx.map hunk := by
    refine List.filter_eq_self.mpr fun h member => ?_
    obtain ⟨p, -, rfl⟩ := List.mem_map.mp member
    rfl
  have some_hunk : operations.zipIdx.map hunk ≠ [] := by simpa using some_operation
  have sorts : (operations.zipIdx.map hunk).insertionSort Below = sorted.map hunk :=
    (List.map_insertionSort below Below hunk _ fun p _ q _ => Iff.rfl).symm
  have last_first := @Splices.foldl_splice Text (sorted.map edit) (lines fileContent)
    (List.pairwise_map.mpr bottom_up)
    (List.forall_mem_map.mpr fun p member => named_range (named _ (own p member)))
  rw [applyHunks, accepted, if_neg some_hunk, sorts, List.foldlM_map, made, last_first,
    Splices.perform_perm reversed.symm alone]
  rfl

theorem performed_ranges {count : Nat} {operations : List EditOperation}
    (named : ∀ operation ∈ operations, operation.Named count) (file : Text) :
    performed file operations =
      finish file (Splices.perform (operations.map EditOperation.edit) 0
        ((linesOf file).map Line.ended)) := by
  rw [performed]
  rintro content rfl
  exact named _ List.mem_cons_self

theorem Meant.ranges {count : Nat} {file : Text} {operations : List EditOperation}
    (named : ∀ operation ∈ operations, operation.Named count) (some_operation : operations ≠ [])
    (meant : Meant file operations) :
    Plain file ∧ (∀ operation ∈ operations, operation.Guessed (lines file)) ∧
      operations.Pairwise InTurn := by
  rwa [Meant] at meant
  · exact some_operation
  · rintro content rfl
    exact named _ List.mem_cons_self

/-- Contents with mere newlines are put in as their lines. -/
theorem edit_eq {count : Nat} {fileLines : List Text} {operation : EditOperation}
    (named : operation.Named count) (guessed : operation.Guessed fileLines) :
    operation.edit = operation.lineEdit.map newlineEnded := by
  cases operation with
  | replace startLine endLine content =>
    exact congrArg (Splices.Edit.mk _ _) (guessed.1.ended.trans
      (congrArg (List.map newlineEnded) (bodies_ended content).symm))
  | insertAfter afterLine content =>
    exact congrArg (Splices.Edit.mk _ _) (guessed.1.ended.trans
      (congrArg (List.map newlineEnded) (bodies_ended content).symm))
  | delete startLine endLine => rfl
  | replaceFile content => exact named.elim

/-- Performed on a plain file, the operations change its lines. -/
theorem performed_plain {count : Nat} {file : Text} {operations : List EditOperation}
    (named : ∀ operation ∈ operations, operation.Named count) (plain : Plain file)
    (guessed : ∀ operation ∈ operations, operation.Guessed (lines file)) :
    performed file operations =
      join ['\n'] (Splices.perform (operations.map EditOperation.lineEdit) 0 (lines file)) := by
  have edits : operations.map EditOperation.edit =
      (operations.map EditOperation.lineEdit).map (Splices.Edit.map newlineEnded) := by
    rw [List.map_map]
    exact List.map_congr_left fun operation member =>
      edit_eq (named operation member) (guessed operation member)
  rw [performed_ranges named, finish, if_neg plain.2, plain.1.ended, edits, Splices.perform_map,
    unended_newlineEnded]

theorem lines_pos {text : Text} (some_char : text ≠ []) : 0 < (lines text).length := by
  refine List.length_pos_iff.mpr fun none => some_char ?_
  have bare : linesOf text = [] := by
    rw [linesOf, List.map_eq_nil_iff.mp none]
    rfl
  have same := finish_linesOf text
  rw [bare] at same
  rw [← same, finish]
  split <;> rfl

/-- The hunk for a whole file puts the new lines in the place of all others. -/
theorem applyHunk_whole {fileContent content : Text}
    (meant : Meant fileContent [.replaceFile content]) (file : Text) :
    applyHunk (lines fileContent)
        { hunkOf file (.replaceFile content) 0 with
          original := fileContent, endLine := (lines fileContent).length, status := .accepted } =
      some (lines content) := by
  simp only [applyHunk, hunkOf, Nat.min_self, Nat.sub_self, List.take_zero, List.drop_length,
    Nat.zero_le, if_true, List.nil_append, List.append_nil]
  by_cases empty : content = []
  · subst empty
    rw [if_pos rfl]
    split
    · rfl
    · rename_i none
      rw [List.eq_nil_of_length_eq_zero (Nat.eq_zero_of_not_pos none)]
      rfl
  · obtain ⟨some_char, -⟩ := meant.resolve_left empty
    rw [if_neg empty, if_neg (fun bare => some_char bare.1), if_pos (lines_pos some_char)]

/-- A file that is replaced as a whole. -/
theorem acceptAll_replaceFile {fileContent content : Text}
    (meant : Meant fileContent [.replaceFile content]) (file : Text) :
    ((fillOriginalContent [hunkOf file (.replaceFile content) 0] fileContent).bind fun filled =>
        applyHunks fileContent (filled.map fun hunk => { hunk with status := .accepted })) =
      some (performed fileContent [.replaceFile content]) := by
  have written : join ['\n'] (lines content) = performed fileContent [.replaceFile content] := by
    rw [performed]
    rcases meant with rfl | ⟨-, unended, plain⟩
    · split <;> rfl
    · rw [if_neg unended, plain.join_lines]
  have single (hunk : EditHunk) :
      [hunk].foldlM applyHunk (lines fileContent) = applyHunk (lines fileContent) hunk :=
    bind_pure _
  rw [← written, ← Option.map_some, ← applyHunk_whole meant file, ← single]
  rfl

/-- **Structured edits mean what they say** of a file without carriage returns and without a
final newline, where an operation can be told from its hunk and those of one start line are
listed in a good order. -/
theorem acceptAll_performed {fromStr : Text → Except Text StructuredEdit}
    {jsonStr fileContent : Text} {edit : StructuredEdit} (wellFormed : fromStr jsonStr = .ok edit)
    (held : fileContent.length < 2 ^ 63)
    (wellNamed : WellNamed (lines fileContent).length edit.edits)
    (meant : Meant fileContent edit.edits) :
    acceptAll fromStr jsonStr fileContent = .ok (some (performed fileContent edit.edits)) := by
  have bounded : (lines fileContent).length < usizeMax := by
    have least := length_lines_le fileContent
    rw [usizeMax]
    omega
  rw [acceptAll, parseEdit, wellFormed]
  dsimp only
  refine congrArg Except.ok ?_
  rcases wellNamed with ⟨content, whole⟩ | ⟨named, disjoint⟩
  · rw [whole] at meant ⊢
    exact acceptAll_replaceFile meant edit.file
  · have filled := @mapM_each Option _ _ _ _ (fillOriginal fileContent)
      (fun hunk => { hunk with original := namedText (lines fileContent) hunk })
      (edit.edits.zipIdx.map fun (operation, idx) => hunkOf edit.file operation idx)
      (List.forall_mem_map.mpr fun p member =>
        fillOriginal_named bounded (named _ (List.fst_mem_of_mem_zipIdx member)) edit.file p.2)
    rw [fillOriginalContent, filled, Option.pure_def, Option.bind_some, List.map_map, List.map_map]
    by_cases none : edit.edits = []
    · have unchanged := @performed_ranges (lines fileContent).length edit.edits named fileContent
      rw [none, List.map_nil, Splices.perform_nil, finish_linesOf] at unchanged
      rw [none, unchanged]
      rfl
    · obtain ⟨plain, guessed, turns⟩ := meant.ranges named none
      rw [performed_plain named plain guessed]
      exact applyHunks_lines named disjoint turns guessed none edit.file

/-- A reader of one JSON text. -/
def readsAs (jsonStr : Text) (edit : StructuredEdit) (s : Text) : Except Text StructuredEdit :=
  if s = jsonStr then .ok edit else .error "expected value at line 1 column 1".toList

def mixedJson : Text :=
  "\x7b\"file\":\"a.rs\",\"edits\":[\x7b\"op\":\"replace\",\"start_line\":3,".toList ++
  "\"end_line\":4,\"content\":\"5\\n6\"\x7d,\x7b\"op\":\"insert_after\",".toList ++
  "\"after_line\":2,\"content\":\"x\"\x7d,\x7b\"op\":\"delete\",".toList ++
  "\"start_line\":1,\"end_line\":1\x7d]\x7d".toList

def mixedEdit : StructuredEdit :=
  ⟨"a.rs".toList, [.replace 3 4 "5\n6".toList, .insertAfter 2 ['x'], .delete 1 1]⟩

/-- A replacement, an insertion after an empty line and a deletion. -/
theorem mixedEdit_performed :
    acceptAll (readsAs mixedJson mixedEdit) mixedJson "1\n\n3\n4".toList =
      .ok (some "\nx\n5\n6".toList) := by
  have wellNamed : WellNamed (lines "1\n\n3\n4".toList).length mixedEdit.edits := by
    refine .inr ⟨?_, ?_⟩
    · simp only [mixedEdit, List.forall_mem_cons, EditOperation.Named,
        List.not_mem_nil, false_imp_iff, implies_true, and_true]
      decide +kernel
    · simp only [mixedEdit, List.pairwise_cons, List.forall_mem_cons, Disjoint,
        EditOperation.edit, List.Pairwise.nil, List.not_mem_nil, false_imp_iff, implies_true, and_true]
      decide +kernel
  have meant : Meant "1\n\n3\n4".toList mixedEdit.edits := by
    simp only [mixedEdit, Meant, Plain, Unix, List.pairwise_cons, List.forall_mem_cons,
      EditOperation.Guessed, InTurn, List.Pairwise.nil, List.not_mem_nil, false_imp_iff,
      implies_true, and_true]
    decide +kernel
  have same : performed "1\n\n3\n4".toList mixedEdit.edits = "\nx\n5\n6".toList := by
    decide +kernel
  rw [← same]
  exact acceptAll_performed (if_pos rfl) (by decide +kernel) wellNamed meant

def insertionJson : Text :=
  "\x7b\"file\":\"a.rs\",\"edits\":[\x7b\"op\":\"insert_after\",".toList ++
  "\"after_line\":1,\"content\":\"x\"\x7d]\x7d".toList

/-- What is to be inserted after a line that is not empty replaces it, and the final newline
of the file is lost. -/
theorem named_line_lost :
    WellNamed (lines "1\n2\n".toList).length [.insertAfter 1 ['x']] ∧
      acceptAll (readsAs insertionJson ⟨"a.rs".toList, [.insertAfter 1 ['x']]⟩) insertionJson
        "1\n2\n".toList = .ok (some "x\n2".toList) ∧
      performed "1\n2\n".toList [.insertAfter 1 ['x']] = "1\nx\n2\n".toList := by
  refine ⟨.inr ⟨?_, List.pairwise_singleton _ _⟩, ?_, ?_⟩
  · rintro operation member
    cases List.mem_singleton.mp member
    show 1 ≤ _
    decide +kernel
  · decide +kernel
  · decide +kernel

end DiffApplier
end Devit
