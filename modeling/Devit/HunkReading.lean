import Devit.UnifiedDiff

/-! How the parser reads printed hunks. It does not count their lines: a hunk is read up
to what ends it, or to the first two of its lines that look like the header of another
file, and what is behind such lines in the same section is passed over. -/
namespace Devit
open Text

namespace PatchCorrectness
open HunkSplicing UnifiedDiff PatchParser

/-! ## Where the parser stops -/

/-- A removed line and the added line right after it that print as `--- ` and
`+++ ` lines. -/
def FakesFileHeader (body : List (PatchLine × Bool)) : Prop :=
  ∃ before old new marked after,
    body = before ++ (.remove old, false) :: (.add new, marked) :: after ∧
      startsWith "-- ".toList old = true ∧ startsWith "++ ".toList new = true

/-- The lines after a printed hunk: none, or the header of the next one. -/
def HunkEnd (rest : List Text) : Prop := ∀ line, rest.head? = some line → ∃ text, line = '@' :: '@' :: text

theorem printHunks_hunkEnd (hs : List DiffHunk) : HunkEnd (printHunks hs) := by
  intro line first
  cases hs with
  | nil => cases first
  | cons h hs =>
    simp only [printHunks, List.flatMap_cons, printHunk, List.cons_append, List.head?_cons,
      Option.some.injEq] at first
    subst first
    exact ⟨_, rfl⟩

/-- What ends a printed hunk: the loop over its lines stops there, and the last of them
does not look like a file header together with what follows. -/
structure Ended (rest : List Text) : Prop where
  stops : collectHunkLines rest = ([], false, rest)
  unlike : ∀ line, rest.head? = some line → startsWith "+++ ".toList line = false

theorem HunkEnd.ended {rest : List Text} (hunkEnd : HunkEnd rest) : Ended rest := by
  constructor
  · cases rest with
    | nil => rfl
    | cons line rest =>
      obtain ⟨text, rfl⟩ := hunkEnd line rfl
      rw [collectHunkLines]
      have mark : startsWith "@@".toList ('@' :: '@' :: text) = true :=
        startsWith_append "@@".toList text
      simp only [mark, Bool.true_or, ↓reduceIte]
  · intro line first
    obtain ⟨text, rfl⟩ := hunkEnd line first
    exact startsWith_head_ne (by decide)

/-- The hunks after a printed one end it, and so does what ends the last of them. -/
theorem printHunks_ended (hs : List DiffHunk) {rest : List Text} (ended : Ended rest) :
    Ended (printHunks hs ++ rest) := by
  cases hs with
  | nil => exact ended
  | cons h hs =>
    apply HunkEnd.ended
    intro line first
    exact printHunks_hunkEnd (h :: hs) line first

private theorem printLine_no_header (line : PatchLine) :
    (startsWith "@@".toList (printLine line) || startsWith "diff --git".toList (printLine line)) =
      false := by
  have hunk : startsWith "@@".toList (printLine line) = false := by
    cases line <;> exact startsWith_head_ne (by decide)
  have file : startsWith "diff --git".toList (printLine line) = false := by
    cases line <;> exact startsWith_head_ne (by decide)
  rw [hunk, file, Bool.or_self]

/-- What the loop makes of one line that does not end the hunk. -/
private theorem collect_line {line : PatchLine} {rest : List Text}
    (plain : startsPlainFile (printLine line) rest = false) :
    collectHunkLines (printLine line :: rest) =
      (line :: (collectHunkLines rest).1, (collectHunkLines rest).2) := by
  rw [collectHunkLines]
  simp only [printLine_no_header, plain, Bool.false_eq_true, ↓reduceIte]
  cases line <;> rfl

private theorem collect_boundary {line : PatchLine} {rest : List Text}
    (starts : startsPlainFile (printLine line) rest = true) :
    collectHunkLines (printLine line :: rest) = ([], false, printLine line :: rest) := by
  rw [collectHunkLines]
  simp only [printLine_no_header, starts, Bool.false_eq_true, ↓reduceIte]

private theorem collect_marker (rest : List Text) :
    collectHunkLines (missingNewline :: rest) =
      ((collectHunkLines rest).1, true, (collectHunkLines rest).2.2) := by
  rw [collectHunkLines]
  have hunk : startsWith "@@".toList missingNewline = false := by decide
  have file : startsWith "diff --git".toList missingNewline = false := by decide
  have plain : startsPlainFile missingNewline rest = false := by
    unfold startsPlainFile
    rw [show startsWith "--- ".toList missingNewline = false by decide, Bool.false_and]
  simp only [hunk, file, plain, Bool.or_self, Bool.false_eq_true, ↓reduceIte]
  rfl

theorem printBody_cons (line : PatchLine) (marked : Bool) (body : List (PatchLine × Bool)) :
    printBody ((line, marked) :: body) =
      printLine line :: (if marked then [missingNewline] else []) ++ printBody body := rfl

/-- A hunk whose first two lines look like a file header. -/
def FakesAtOnce (body : List (PatchLine × Bool)) : Prop :=
  ∃ old new marked after, body = (.remove old, false) :: (.add new, marked) :: after ∧
    startsWith "-- ".toList old = true ∧ startsWith "++ ".toList new = true

theorem FakesAtOnce.fakes {body : List (PatchLine × Bool)} (fakes : FakesAtOnce body) :
    FakesFileHeader body := by
  obtain ⟨old, new, marked, after, shape, minus, plus⟩ := fakes
  exact ⟨[], old, new, marked, after, shape, minus, plus⟩

/-- A printed line starts a file only as a removed line before an added one. -/
private theorem startsPlainFile_print {line : PatchLine} {marked : Bool}
    {body : List (PatchLine × Bool)} {rest : List Text} (ended : Ended rest) :
    startsPlainFile (printLine line)
      ((if marked then [missingNewline] else []) ++ printBody body ++ rest) = true ↔
      FakesAtOnce ((line, marked) :: body) := by
  constructor
  · intro starts
    obtain ⟨minus, plus⟩ := Bool.and_eq_true_iff.mp starts
    cases line with
    | context text =>
      exact absurd minus (ne_of_eq_of_ne (startsWith_head_ne (by decide)) (by decide))
    | add text =>
      exact absurd minus (ne_of_eq_of_ne (startsWith_head_ne (by decide)) (by decide))
    | remove old =>
      simp only [printLine] at minus
      have dashes : startsWith "-- ".toList old = true := by
        simpa [startsWith_cons] using minus
      cases marked with
      | true => exact absurd plus (show ¬ startsWith "+++ ".toList missingNewline = true by decide)
      | false =>
        cases body with
        | nil =>
          cases rest with
          | nil => exact absurd plus (by simp [printBody])
          | cons first rest =>
            exact absurd plus (ne_of_eq_of_ne (ended.unlike first rfl) (by decide))
        | cons entry after =>
          obtain ⟨next, nextMarked⟩ := entry
          simp only [Bool.false_eq_true, ↓reduceIte, List.nil_append, printBody_cons,
            List.cons_append] at plus
          cases next with
          | context text =>
            exact absurd plus (ne_of_eq_of_ne (startsWith_head_ne (by decide)) (by decide))
          | remove text =>
            exact absurd plus (ne_of_eq_of_ne (startsWith_head_ne (by decide)) (by decide))
          | add new =>
            refine ⟨old, new, nextMarked, after, rfl, dashes, ?_⟩
            simpa [printLine, startsWith_cons] using plus
  · rintro ⟨old, new, next, after, shape, minus, plus⟩
    obtain ⟨head, rfl⟩ := List.cons.inj shape
    obtain ⟨rfl, rfl⟩ := Prod.mk.inj head
    have dashes : startsWith "--- ".toList ('-' :: old) = true := by
      simpa [startsWith_cons] using minus
    have pluses : startsWith "+++ ".toList ('+' :: new) = true := by
      simpa [startsWith_cons] using plus
    simp only [Bool.false_eq_true, ↓reduceIte, List.nil_append, printBody_cons,
      List.cons_append, startsPlainFile, printLine, dashes, pluses, Bool.and_self]

/-- A line of a printed body with its marker is read on its own. -/
private theorem collect_entry {line : PatchLine} {marked : Bool} {body : List (PatchLine × Bool)}
    {rest : List Text} (ended : Ended rest) (other : ¬ FakesAtOnce ((line, marked) :: body)) :
    collectHunkLines (printBody ((line, marked) :: body) ++ rest) =
      (line :: (collectHunkLines (printBody body ++ rest)).1,
        marked || (collectHunkLines (printBody body ++ rest)).2.1,
        (collectHunkLines (printBody body ++ rest)).2.2) := by
  have inner : startsPlainFile (printLine line)
      ((if marked then [missingNewline] else []) ++ printBody body ++ rest) = false :=
    Bool.eq_false_iff.mpr fun starts => other ((startsPlainFile_print ended).mp starts)
  rw [printBody_cons, List.cons_append, List.cons_append, collect_line inner]
  cases marked with
  | true => simp only [↓reduceIte, List.cons_append, List.nil_append, collect_marker, Bool.true_or]
  | false => rfl

theorem fakes_cons {entry : PatchLine × Bool} {body : List (PatchLine × Bool)} :
    FakesFileHeader (entry :: body) ↔ FakesAtOnce (entry :: body) ∨ FakesFileHeader body := by
  constructor
  · rintro ⟨before, old, new, marked, after, shape, minus, plus⟩
    cases before with
    | nil => exact .inl ⟨old, new, marked, after, shape, minus, plus⟩
    | cons first before =>
      obtain ⟨-, rfl⟩ := List.cons.inj shape
      exact .inr ⟨before, old, new, marked, after, rfl, minus, plus⟩
  · rintro (fakes | ⟨before, old, new, marked, after, rfl, minus, plus⟩)
    · exact fakes.fakes
    · exact ⟨entry :: before, old, new, marked, after, rfl, minus, plus⟩

/-- A printed hunk is read to its end, or up to the first two of its lines that
look like a file header. -/
theorem collectHunkLines_printBody (body : List (PatchLine × Bool)) :
    (¬ FakesFileHeader body ∧ ∀ rest, Ended rest → collectHunkLines (printBody body ++ rest) =
      (body.map Prod.fst, body.any Prod.snd, rest)) ∨
    ∃ before old new marked after seen,
      body = before ++ (.remove old, false) :: (.add new, marked) :: after ∧
      startsWith "-- ".toList old = true ∧ startsWith "++ ".toList new = true ∧
      (FakesAtOnce body → before = []) ∧
      ∀ rest, Ended rest → collectHunkLines (printBody body ++ rest) = (before.map Prod.fst, seen,
        printBody ((.remove old, false) :: (.add new, marked) :: after) ++ rest) := by
  induction body with
  | nil =>
    refine .inl ⟨?_, fun rest ended => ended.stops⟩
    rintro ⟨before, old, new, marked, after, shape, -, -⟩
    simp at shape
  | cons entry body ih =>
    obtain ⟨line, marked⟩ := entry
    by_cases boundary : FakesAtOnce ((line, marked) :: body)
    · obtain ⟨old, new, next, after, shape, minus, plus⟩ := boundary
      refine .inr ⟨[], old, new, next, after, false, shape, minus, plus, fun _ => rfl, ?_⟩
      intro rest ended
      have starts := (@startsPlainFile_print line marked body rest ended).mpr
        ⟨old, new, next, after, shape, minus, plus⟩
      rw [← shape, printBody_cons, List.cons_append, List.cons_append]
      exact collect_boundary starts
    · rcases ih with ⟨honest, read⟩ |
        ⟨before, old, new, next, after, seen, rfl, minus, plus, -, read⟩
      · refine .inl ⟨?_, fun rest ended => ?_⟩
        · rw [fakes_cons, not_or]
          exact ⟨boundary, honest⟩
        · rw [collect_entry ended boundary, read rest ended]
          rfl
      · refine .inr ⟨(line, marked) :: before, old, new, next, after, marked || seen, rfl, minus,
          plus, fun fakes => absurd fakes boundary, fun rest ended => ?_⟩
        rw [collect_entry ended boundary, read rest ended]
        rfl

/-- A hunk as the parser keeps it, with the lines it got to. -/
def readHunk (h : DiffHunk) (ls : List PatchLine) (marked : Bool) : PatchHunk :=
  ⟨h.oldStart, ls.countP (·.isOld), h.newStart, ls.countP (·.isNew), ls, marked⟩

/-- The hunks the parser can read from a printed list: all of them, or those up
to the first one cut short, with what is left of that one. -/
inductive Reading : List DiffHunk → List PatchHunk → Prop where
  | done : Reading [] []
  | whole {h : DiffHunk} {hs : List DiffHunk} {hunks : List PatchHunk}
      (honest : ¬ FakesFileHeader h.body) (rest : Reading hs hunks) :
      Reading (h :: hs) (readHunk h h.lines (h.body.any Prod.snd) :: hunks)
  | cut {h : DiffHunk} {hs : List DiffHunk} {before after : List (PatchLine × Bool)}
      {old new : Text} {marked seen : Bool}
      (shape : h.body = before ++ (.remove old, false) :: (.add new, marked) :: after)
      (minus : startsWith "-- ".toList old = true) (plus : startsWith "++ ".toList new = true) :
      Reading (h :: hs) [readHunk h (before.map Prod.fst) seen]

private theorem parseHunks_round (total fuel : Nat) {h : DiffHunk} (fits : Fits h)
    (ls : List Text) : ∃ number, parseHunks total (fuel + 1) (printHeader h :: ls) =
      match collectHunkLines ls with
      | (hunkLines, marked, after) =>
        if hunkLines = [] then
          .error (.invalidDiff ("Empty hunk at line ".toList ++ printNat number) (some number))
        else (do
          let (hunks, last) ← parseHunks total fuel after
          .ok (readHunk h hunkLines marked :: hunks, last)) := by
  obtain ⟨number, read⟩ := parseHunk_header total fits ls
  have header : startsWith "@@".toList (printHeader h) = true := by
    rw [printHeader, List.append_assoc]
    exact startsWith_append _ _
  refine ⟨number, ?_⟩
  rw [parseHunks, if_pos header, read]
  generalize collectHunkLines ls = collected
  obtain ⟨hunkLines, marked, after⟩ := collected
  dsimp only
  split <;> rfl

/-- What follows is no hunk. -/
def NoHunk (rest : List Text) : Prop :=
  ∀ line, rest.head? = some line → startsWith "@@".toList line = false

theorem parseHunks_none (total fuel : Nat) {rest : List Text} (none_left : NoHunk rest) :
    parseHunks total fuel rest = .ok ([], rest) := by
  cases fuel with
  | zero => rfl
  | succ fuel =>
    cases rest with
    | nil => rfl
    | cons line rest =>
      rw [parseHunks, none_left line rfl]
      rfl

/-- Nothing is read after a hunk that was cut short. -/
private theorem parseHunks_after_cut (total fuel : Nat) (old : Text)
    (body : List (PatchLine × Bool)) (rest : List Text) :
    parseHunks total fuel (printBody ((.remove old, false) :: body) ++ rest) =
      .ok ([], printBody ((.remove old, false) :: body) ++ rest) := by
  apply parseHunks_none
  intro line first
  rw [printBody_cons, List.cons_append, List.cons_append, List.head?_cons] at first
  cases first
  exact startsWith_head_ne (by decide)

/-- Of the hunks that look like they hold a file header, the first begins with it: the
parser finds it empty. -/
inductive Refused : List DiffHunk → Prop where
  | here {h : DiffHunk} {hs : List DiffHunk} (fakes : FakesAtOnce h.body) : Refused (h :: hs)
  | later {h : DiffHunk} {hs : List DiffHunk} (honest : ¬ FakesFileHeader h.body)
      (refused : Refused hs) : Refused (h :: hs)

/-- What the parser reads from printed hunks is the same whatever ends them: a reading,
with nothing but lines of the hunks left, or an error. -/
inductive Parse (hs : List DiffHunk) : Prop where
  | reads (hunks : List PatchHunk) (left : List Text) (kept : ¬ Refused hs)
      (reading : Reading hs hunks) (inside : left ⊆ printHunks hs)
      (whole : (∀ h ∈ hs, ¬ FakesFileHeader h.body) → left = [])
      (parsed : ∀ total fuel rest, Ended rest → NoHunk rest → (printHunks hs).length ≤ fuel →
        parseHunks total fuel (printHunks hs ++ rest) = .ok (hunks, left ++ rest)) : Parse hs
  | refuses (refused : Refused hs)
      (failed : ∀ total fuel rest, Ended rest → NoHunk rest → (printHunks hs).length ≤ fuel →
        ∃ e, parseHunks total fuel (printHunks hs ++ rest) = .error e) : Parse hs

theorem printHunks_cons (h : DiffHunk) (hs : List DiffHunk) :
    printHunks (h :: hs) = printHeader h :: (printBody h.body ++ printHunks hs) := rfl

/-- **Reading.** Printed hunks are parsed, in one of the two ways. -/
theorem parse_printHunks {hs : List DiffHunk} (good : ∀ h ∈ hs, Fits h ∧ h.body ≠ []) :
    Parse hs := by
  induction hs with
  | nil =>
    refine .reads [] [] ?_ .done (List.Subset.refl _) (fun _ => rfl) ?_
    · rintro ⟨⟩
    · intro total fuel rest _ none_left _
      exact parseHunks_none total fuel none_left
  | cons h hs ih =>
    obtain ⟨fits, filled⟩ := good h List.mem_cons_self
    have some_line : h.body.map Prod.fst ≠ [] := by simpa using filled
    rcases collectHunkLines_printBody h.body with ⟨honest, collected⟩ |
      ⟨before, old, new, marked, after, seen, body, minus, plus, at_once, collected⟩
    · -- the hunk is read whole, and the others as they are alone
      have round (total fuel : Nat) (rest : List Text) (ended : Ended rest) :
          parseHunks total (fuel + 1) (printHunks (h :: hs) ++ rest) = (do
            let (hunks, last) ← parseHunks total fuel (printHunks hs ++ rest)
            .ok (readHunk h h.lines (h.body.any Prod.snd) :: hunks, last)) := by
        obtain ⟨number, first⟩ := parseHunks_round total fuel fits
          (printBody h.body ++ (printHunks hs ++ rest))
        rw [printHunks_cons, List.cons_append, List.append_assoc, first,
          collected _ (printHunks_ended hs ended)]
        dsimp only
        rw [if_neg some_line]
        rfl
      cases ih fun h member => good h (List.mem_cons_of_mem _ member) with
      | reads hunks left kept reading inside whole parsed =>
        refine .reads (readHunk h h.lines (h.body.any Prod.snd) :: hunks) left ?_
          (.whole honest reading) ?_ ?_ ?_
        · rintro (fakes | ⟨-, refused⟩)
          · exact honest fakes.fakes
          · exact kept refused
        · intro line member
          rw [printHunks_cons]
          exact List.mem_cons_of_mem _ (List.mem_append_right _ (inside member))
        · exact fun all => whole fun g member => all g (List.mem_cons_of_mem _ member)
        · intro total fuel rest ended none_left enough
          rw [printHunks_cons, List.length_cons, List.length_append] at enough
          obtain ⟨fuel, rfl⟩ : ∃ n, fuel = n + 1 := ⟨fuel - 1, by omega⟩
          rw [round total fuel rest ended, parsed total fuel rest ended none_left (by omega)]
          rfl
      | refuses refused failed =>
        refine .refuses (.later honest refused) ?_
        intro total fuel rest ended none_left enough
        rw [printHunks_cons, List.length_cons, List.length_append] at enough
        obtain ⟨fuel, rfl⟩ : ∃ n, fuel = n + 1 := ⟨fuel - 1, by omega⟩
        obtain ⟨e, error⟩ := failed total fuel rest ended none_left (by omega)
        exact ⟨e, by rw [round total fuel rest ended, error]; rfl⟩
    · -- the hunk is cut short, which ends the section, or nothing of it is read
      have round (total fuel : Nat) (rest : List Text) (ended : Ended rest) :
          ∃ number, parseHunks total (fuel + 1) (printHunks (h :: hs) ++ rest) =
            if before.map Prod.fst = [] then
              .error (.invalidDiff ("Empty hunk at line ".toList ++ printNat number) (some number))
            else .ok ([readHunk h (before.map Prod.fst) seen],
              printBody ((.remove old, false) :: (.add new, marked) :: after) ++
                (printHunks hs ++ rest)) := by
        obtain ⟨number, first⟩ := parseHunks_round total fuel fits
          (printBody h.body ++ (printHunks hs ++ rest))
        refine ⟨number, ?_⟩
        rw [printHunks_cons, List.cons_append, List.append_assoc, first,
          collected _ (printHunks_ended hs ended)]
        dsimp only
        rw [parseHunks_after_cut]
        rfl
      have fakes : FakesFileHeader h.body := ⟨before, old, new, marked, after, body, minus, plus⟩
      by_cases empty : before = []
      · refine .refuses (.here ⟨old, new, marked, after, by rw [body, empty]; rfl, minus, plus⟩) ?_
        intro total fuel rest ended _ enough
        rw [printHunks_cons, List.length_cons] at enough
        obtain ⟨fuel, rfl⟩ : ∃ n, fuel = n + 1 := ⟨fuel - 1, by omega⟩
        obtain ⟨number, first⟩ := round total fuel rest ended
        exact ⟨_, by rw [first, if_pos (by rw [empty]; rfl)]⟩
      · refine .reads [readHunk h (before.map Prod.fst) seen]
          (printBody ((.remove old, false) :: (.add new, marked) :: after) ++ printHunks hs) ?_
          (.cut body minus plus) ?_ ?_ ?_
        · rintro (fakes | ⟨honest, -⟩)
          · exact empty (at_once fakes)
          · exact honest fakes
        · intro line member
          rw [printHunks_cons]
          refine List.mem_cons_of_mem _ ?_
          rcases List.mem_append.mp member with own | other
          · refine List.mem_append_left _ ?_
            rw [body, printBody, List.flatMap_append]
            exact List.mem_append_right _ own
          · exact List.mem_append_right _ other
        · exact fun all => absurd fakes (all h List.mem_cons_self)
        · intro total fuel rest ended _ enough
          rw [printHunks_cons, List.length_cons] at enough
          obtain ⟨fuel, rfl⟩ : ∃ n, fuel = n + 1 := ⟨fuel - 1, by omega⟩
          obtain ⟨number, first⟩ := round total fuel rest ended
          rw [first, if_neg (by simpa using empty), List.append_assoc]

/-- A reading of hunks that fake no header is all of them. -/
theorem Reading.of_honest {hs : List DiffHunk} {hunks : List PatchHunk} (reading : Reading hs hunks)
    (honest : ∀ h ∈ hs, ¬ FakesFileHeader h.body) :
    hunks = hs.map fun h => readHunk h h.lines (h.body.any Prod.snd) := by
  induction reading with
  | done => rfl
  | whole _ _ ih =>
    rw [ih fun h member => honest h (List.mem_cons_of_mem _ member)]
    rfl
  | cut shape minus plus =>
    exact absurd ⟨_, _, _, _, _, shape, minus, plus⟩ (honest _ List.mem_cons_self)

theorem Reading.filled {hs : List DiffHunk} {hunks : List PatchHunk} (reading : Reading hs hunks)
    (filled : hs ≠ []) : hunks ≠ [] := by
  cases reading with
  | done => exact absurd rfl filled
  | whole _ _ => exact List.cons_ne_nil _ _
  | cut _ _ _ => exact List.cons_ne_nil _ _

/-- A hunk that was cut short has fewer lines. -/
theorem Reading.honest_of_sizes {hs : List DiffHunk} {hunks : List PatchHunk} (reading : Reading hs hunks)
    (sizes : hunks.map (·.lines.length) = hs.map (·.body.length)) :
    ∀ h ∈ hs, ¬ FakesFileHeader h.body := by
  induction reading with
  | done => rintro h ⟨⟩
  | whole honest _ ih =>
    intro g member
    rcases List.mem_cons.mp member with rfl | later
    · exact honest
    · exact ih (List.cons.inj sizes).2 g later
  | cut shape _ _ =>
    have short := (List.cons.inj sizes).1
    dsimp only at short
    rw [shape] at short
    simp only [readHunk, List.length_map, List.length_append, List.length_cons] at short
    exact absurd short (by omega)

theorem ended_nil : Ended [] := by
  refine ⟨rfl, ?_⟩
  rintro line ⟨⟩

theorem noHunk_nil : NoHunk [] := by
  rintro line ⟨⟩

/-- Whatever the parser reads from printed hunks is a reading of them. -/
theorem reading_of_parse {total fuel : Nat} {hs : List DiffHunk} {hunks : List PatchHunk}
    {rest : List Text} (good : ∀ h ∈ hs, Fits h ∧ h.body ≠ [])
    (enough : (printHunks hs).length ≤ fuel)
    (read : parseHunks total fuel (printHunks hs) = .ok (hunks, rest)) : Reading hs hunks := by
  cases parse_printHunks good with
  | reads found left _ reading _ _ parsed =>
    have same := parsed total fuel [] ended_nil noHunk_nil enough
    rw [List.append_nil, read] at same
    cases same
    exact reading
  | refuses _ failed =>
    obtain ⟨e, error⟩ := failed total fuel [] ended_nil noHunk_nil enough
    rw [List.append_nil, read] at error
    cases error

theorem Refused.fakes {hs : List DiffHunk} (refused : Refused hs) :
    ∃ h ∈ hs, FakesFileHeader h.body := by
  induction refused with
  | here fakes => exact ⟨_, List.mem_cons_self, fakes.fakes⟩
  | later _ _ ih =>
    obtain ⟨h, member, fakes⟩ := ih
    exact ⟨h, List.mem_cons_of_mem _ member, fakes⟩

/-- Hunks without lines that fake a header are read whole. -/
theorem parse_whole {total fuel : Nat} {hs : List DiffHunk} {rest : List Text}
    (good : ∀ h ∈ hs, Fits h ∧ h.body ≠ []) (ended : Ended rest) (none_left : NoHunk rest)
    (enough : (printHunks hs).length ≤ fuel) (honest : ∀ h ∈ hs, ¬ FakesFileHeader h.body) :
    parseHunks total fuel (printHunks hs ++ rest) =
      .ok (hs.map fun h => readHunk h h.lines (h.body.any Prod.snd), rest) := by
  cases parse_printHunks good with
  | reads hunks left _ reading _ whole parsed =>
    rw [parsed total fuel rest ended none_left enough, reading.of_honest honest, whole honest,
      List.nil_append]
  | refuses refused _ =>
    obtain ⟨h, member, fakes⟩ := refused.fakes
    exact absurd fakes (honest h member)

end PatchCorrectness

end Devit
