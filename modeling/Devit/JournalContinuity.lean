import Devit.Journal

/-! Which histories of a journal file are verified: those in which one session at most
leaves anything in the file, and in it nothing is left behind an attempt that failed.
A session that was opened on a file with entries counts from the start again, and an
attempt that fails leaves the count, the code before or the file itself behind. -/
namespace Devit
open Text

namespace JournalContinuity
open Journal

/-! ## Texts that no line completes -/

/-- A text that opens a bracket and does not close it as its last one. -/
def Hopeless (text : Text) : Prop :=
  ∃ rest, text = '{' :: rest ∧ Json.read (.plain 0) rest ≠ some .behind

variable {entry entry' : JEntry} {text piece : Text}

theorem deepen_ne_behind (more : Nat) (place : Json.Place) : place.deepen more ≠ .behind := by
  cases place <;> exact nofun

/-- Within brackets, a line or the beginning of one does not close them all. -/
theorem read_piece {place : Json.Place} (inside : place ≠ .behind) (part : piece <+: line entry) :
    Json.read place piece ≠ some .behind := by
  have quoted (depth : Nat) (part : piece <+: line entry) :
      Json.read (.quoted depth) piece ≠ some .behind := by
    obtain ⟨more, start⟩ := line_start entry
    rw [start] at part
    simp only [List.prefix_cons_iff] at part
    rcases part with rfl | ⟨_, rfl, rfl | ⟨_, rfl, rfl | ⟨_, rfl, rfl | ⟨_, rfl, rfl | ⟨_, rfl, -⟩⟩⟩⟩⟩ <;>
      exact nofun
  cases place with
  | behind => exact absurd rfl inside
  | quoted depth => exact quoted depth part
  | escaped depth =>
    cases piece with
    | nil => exact nofun
    | cons c piece =>
      obtain ⟨inner, shape, -⟩ := line_read entry
      have first : c = '{' := by
        rw [shape] at part
        exact (List.cons_prefix_cons.mp part).1
      subst first
      exact quoted depth part
  | plain depth =>
    cases piece with
    | nil => exact nofun
    | cons c piece =>
      obtain ⟨inner, shape, closed⟩ := line_read entry
      obtain ⟨back, whole⟩ := part
      rw [shape, List.cons_append] at whole
      obtain ⟨rfl, rest⟩ := List.cons.inj whole
      rw [← rest, Json.read_append] at closed
      cases found : Json.read (.plain 0) piece with
      | none =>
        rw [found] at closed
        cases closed
      | some place =>
        have deeper := Json.read_deepen depth found
        simp only [Json.Place.deepen, Nat.zero_add] at deeper
        intro behind
        rw [Json.read, show Json.next (.plain depth) '{' = some (.plain (depth + 1)) from rfl,
          Option.bind_some, deeper] at behind
        exact deepen_ne_behind depth place (Option.some.inj behind)

theorem Hopeless.append (hopeless : Hopeless text) (part : piece <+: line entry) :
    Hopeless (text ++ piece) := by
  obtain ⟨rest, rfl, unclosed⟩ := hopeless
  refine ⟨rest ++ piece, rfl, ?_⟩
  rw [Json.read_append]
  cases found : Json.read (.plain 0) rest with
  | none => exact nofun
  | some place =>
    rw [found] at unclosed
    exact read_piece (fun behind => unclosed (by rw [behind])) part

/-- A line that was cut off. -/
theorem hopeless_torn (entry : JEntry) (n : Nat) : Hopeless ((line entry).dropLast.take (n + 1)) := by
  obtain ⟨inner, shape, closed⟩ := line_read entry
  refine ⟨inner.take n, ?_, ?_⟩
  · rw [shape, ← List.cons_append, List.dropLast_concat, List.take_succ_cons]
  · rw [← List.take_append_drop n inner, List.append_assoc] at closed
    exact Json.read_proper (by decide) closed

/-- A line with something behind it. -/
theorem hopeless_joined (part : piece <+: line entry') (some_char : piece ≠ []) :
    Hopeless (line entry ++ piece) := by
  obtain ⟨inner, shape, closed⟩ := line_read entry
  refine ⟨inner ++ ['}'] ++ piece, by rw [shape, List.cons_append], ?_⟩
  obtain ⟨c, rest, rfl⟩ := List.exists_cons_of_ne_nil some_char
  obtain ⟨inner', shape', -⟩ := line_read entry'
  rw [shape'] at part
  rw [Json.read_append, closed, Option.bind_some, (List.cons_prefix_cons.mp part).1]
  exact nofun

theorem Hopeless.not_bracketed (hopeless : Hopeless text) : ¬ Json.Bracketed text := by
  obtain ⟨rest, rfl, unclosed⟩ := hopeless
  rintro ⟨front, c, rest', shape, spaces, -, closed⟩
  cases front with
  | nil =>
    rw [(List.cons.inj shape).2] at unclosed
    exact unclosed closed
  | cons d front =>
    have space := spaces d List.mem_cons_self
    rw [← (List.cons.inj shape).1] at space
    exact absurd space (by decide)

/-! ## Verification -/

section
variable (crates : JournalCrates) (key : List UInt8)

/-- What verification goes on with behind a text: the code before the next entry, and
its number. -/
def pass (known : Text × Nat) (text : Text) : Option (Text × Nat) :=
  if trim text = [] then some known
  else (crates.fromStr text).bind fun entry =>
    if entry.seq = known.2 ∧ entry.prev = known.1 ∧
        entry.hash = code crates key (signedText known.1 entry) then
      some (entry.hash, known.2 + 1)
    else none

def passes (texts : List Text) : Option (Text × Nat) := texts.foldlM (pass crates key) ([], 1)

end

section
variable {crates : JournalCrates} {key : List UInt8}

theorem verifyLines_iff {prev : Text} {expected : Nat} {texts : List Text} :
    verifyLines crates key prev expected texts = .ok true ↔
      (texts.foldlM (pass crates key) (prev, expected)).isSome = true := by
  induction texts generalizing prev expected with
  | nil => simp [verifyLines]
  | cons text texts ih =>
    rw [verifyLines, List.foldlM_cons]
    by_cases blank : trim text = []
    · simp [pass, blank, ih]
    · cases found : crates.fromStr text with
      | none => simp [pass, blank, found]
      | some entry =>
        by_cases number : entry.seq = expected
        · by_cases link : entry.prev = prev
          · by_cases hash : entry.hash = code crates key (signedText prev entry)
            · simpa [pass, blank, found, number, link, ← hash] using ih
            · simp [pass, blank, found, number, link, hash]
          · simp [pass, blank, found, number, link]
        · simp [pass, blank, found, number]

theorem passes_concat (texts : List Text) (text : Text) :
    passes crates key (texts ++ [text]) = (passes crates key texts).bind (pass crates key · text) := by
  rw [passes, List.foldlM_append]
  simp only [passes, List.foldlM_cons, List.foldlM_nil, Option.bind_eq_bind]
  cases List.foldlM (pass crates key) ([], 1) texts with
  | none => rfl
  | some known => simp

theorem passes_append_none {texts : List Text} (more : List Text)
    (fails : passes crates key texts = none) : passes crates key (texts ++ more) = none := by
  rw [passes] at fails
  rw [passes, List.foldlM_append, fails]
  rfl

theorem lined_line (entry : JEntry) : Lined (line entry) := ⟨line_printable entry, _, rfl⟩

theorem verifyFile_iff {file : Text} : verifyFile crates key file = .ok true ↔
    (passes crates key (lines file)).isSome = true := verifyLines_iff

/-! ## One entry -/

/-- The code before the next entry and its number, as verification knows them: those of
the start, or of the last entry. -/
theorem passes_link {texts : List Text} {known : Text × Nat}
    (found : passes crates key texts = some known) : known = ([], 1) ∨
      ∃ prev entry, known = (code crates key (signedText prev entry), entry.seq + 1) ∧
        Chained crates key prev entry.seq := by
  induction texts using List.reverseRecOn generalizing known with
  | nil =>
    cases found
    exact .inl rfl
  | append_singleton texts text ih =>
    rw [passes_concat] at found
    obtain ⟨before, prior, found⟩ := Option.bind_eq_some_iff.mp found
    rw [pass] at found
    split at found
    · cases found
      exact ih prior
    · obtain ⟨entry, -, checked⟩ := Option.bind_eq_some_iff.mp found
      split at checked
      · rename_i checks
        obtain ⟨number, -, hash⟩ := checks
        refine .inr ⟨before.1, entry, ?_, ?_⟩
        · rw [← Option.some.inj checked, hash, number]
        · rcases ih prior with rfl | ⟨prev, last, rfl, -⟩
          · exact .inl ⟨rfl, number⟩
          · exact .inr ⟨_, rfl⟩
      · cases checked

/-- A new code is not the code before it. -/
theorem hash_ne_prev (codes : Codes crates key) {texts : List Text} {prev : Text}
    (found : passes crates key texts = some (prev, entry.seq)) :
    code crates key (signedText prev entry) ≠ prev := by
  intro same
  rcases passes_link found with start | ⟨before, last, link, chained⟩
  · rw [(Prod.mk.inj start).1] at same
    exact codes.ne_nil _ same
  · obtain ⟨rfl, number⟩ := Prod.mk.inj link
    have binds := chained_same codes (.inr ⟨_, rfl⟩) chained (codes.injective same)
    have numbers := binds.2.1
    omega

theorem pass_line (reads : Reads crates) (known : Text × Nat) (entry : JEntry) :
    pass crates key known (line entry) =
      if entry.seq = known.2 ∧ entry.prev = known.1 ∧ entry.hash =
          code crates key (signedText known.1
            { entry with metadata := crates.reread entry.metadata }) then
        some (entry.hash, known.2 + 1)
      else none := by
  have notBlank : trim (line entry) ≠ [] := trim_bracket _
  rw [pass, if_neg notBlank, reads.line]
  rfl

/-- The entry that comes next is verified when its metadata are read as they were
written. -/
theorem pass_next (reads : Reads crates) {attempt : Attempt}
    (kept : crates.reread attempt.metadata = attempt.metadata) (journal : Journal) :
    pass crates key (journal.lastHash, journal.seq + 1) (line (entryOf crates key attempt journal)) =
      some ((entryOf crates key attempt journal).hash, journal.seq + 2) := by
  rw [pass_line reads, if_pos]
  refine ⟨rfl, rfl, ?_⟩
  simp only [entryOf, kept]
  rfl

theorem pass_changed (codes : Codes crates key) (reads : Reads crates) {attempt : Attempt}
    (changed : crates.reread attempt.metadata ≠ attempt.metadata) (journal : Journal) :
    pass crates key (journal.lastHash, journal.seq + 1) (line (entryOf crates key attempt journal)) =
      none := by
  rw [pass_line reads, if_neg]
  rintro ⟨-, -, hash⟩
  have texts := codes.injective hash
  exact changed (Json.render_injective (List.append_cancel_left texts)).symm

/-- Any other entry is not. -/
theorem pass_apart (reads : Reads crates) {known : Text × Nat} {journal : Journal}
    (apart : journal.lastHash ≠ known.1 ∨ known.2 < journal.seq + 1) (attempt : Attempt) :
    pass crates key known (line (entryOf crates key attempt journal)) = none := by
  rw [pass_line reads, if_neg]
  rintro ⟨number, link, -⟩
  have number : journal.seq + 1 = known.2 := number
  rcases apart with other | beyond
  · exact other link
  · omega

theorem pass_hopeless (reads : Reads crates) (hopeless : Hopeless text) (known : Text × Nat) :
    pass crates key known text = none := by
  obtain ⟨rest, shape, -⟩ := id hopeless
  have notBlank : trim text ≠ [] := by
    rw [shape]
    exact trim_bracket rest
  have unread : crates.fromStr text = none :=
    Option.eq_none_iff_forall_ne_some.mpr fun entry found =>
      hopeless.not_bracketed (reads.bracketed text entry found)
  rw [pass, if_neg notBlank, unread]
  rfl

/-! ## What a file is worth -/

/-- The file is verified, and so is the entry that the journal appends next. -/
def InStep (crates : JournalCrates) (key : List UInt8) (journal : Journal) (file : Text) : Prop :=
  ∃ texts, file = unlines texts ∧ (∀ t ∈ texts, Lined t) ∧
    passes crates key texts = some (journal.lastHash, journal.seq + 1)

/-- The file is verified, but no more once the journal has added anything to it: the
journal is out of step, or the last line has no newline. -/
inductive Shut (crates : JournalCrates) (key : List UInt8) (journal : Journal) (file : Text) : Prop
  | apart (texts : List Text) (known : Text × Nat) (shape : file = unlines texts)
      (lined : ∀ t ∈ texts, Lined t) (verified : passes crates key texts = some known)
      (differ : journal.lastHash ≠ known.1 ∨ known.2 < journal.seq + 1)
  | unended (texts : List Text) (entry : JEntry) (shape : file = unlines texts ++ line entry)
      (lined : ∀ t ∈ texts, Lined t)
      (verified : (passes crates key (texts ++ [line entry])).isSome = true)

/-- The file is not verified, whatever is added to it. -/
inductive Lost (crates : JournalCrates) (key : List UInt8) (file : Text) : Prop
  | failed (texts : List Text) (rest : Text) (shape : file = unlines texts ++ rest)
      (lined : ∀ t ∈ texts, Lined t) (fails : passes crates key texts = none)
  | unended (texts : List Text) (tail : Text) (shape : file = unlines texts ++ tail)
      (lined : ∀ t ∈ texts, Lined t) (linedTail : Lined tail)
      (fails : passes crates key (texts ++ [tail]) = none)
      (spoils : ∀ piece entry, piece <+: line entry → piece ≠ [] → Hopeless (tail ++ piece))

variable {journal : Journal} {file : Text} {texts : List Text} {attempt : Attempt}

theorem lines_unended {tail : Text} (lined : ∀ t ∈ texts, Lined t) (linedTail : Lined tail) :
    lines (unlines texts ++ tail) = texts ++ [tail] := by
  rw [lines_file lined, lines_last linedTail.one_line linedTail.ne_nil]

theorem InStep.verified (inStep : InStep crates key journal file) :
    verifyFile crates key file = .ok true := by
  obtain ⟨texts, rfl, lined, found⟩ := inStep
  rw [verifyFile_iff, lines_whole lined, found]
  rfl

theorem Shut.verified (shut : Shut crates key journal file) :
    verifyFile crates key file = .ok true := by
  rw [verifyFile_iff]
  cases shut with
  | apart texts known shape lined verified differ =>
    rw [shape, lines_whole lined, verified]
    rfl
  | unended texts entry shape lined verified => rwa [shape, lines_unended lined (lined_line entry)]

theorem Lost.not_verified (lost : Lost crates key file) : verifyFile crates key file ≠ .ok true := by
  rw [Ne, verifyFile_iff, Bool.not_eq_true, Option.isSome_eq_false_iff, Option.isNone_iff_eq_none]
  cases lost with
  | failed texts rest shape lined fails =>
    rw [shape, lines_file lined]
    exact passes_append_none _ fails
  | unended texts tail shape lined linedTail fails spoils => rwa [shape, lines_unended lined linedTail]

/-! ## One attempt -/

theorem unlines_concat (texts : List Text) (text : Text) :
    unlines (texts ++ [text]) = unlines texts ++ (text ++ ['\n']) := by
  simp [unlines]

theorem lined_concat (lined : ∀ t ∈ texts, Lined t) (last : Lined text) :
    ∀ t ∈ texts ++ [text], Lined t := by
  intro t member
  rcases List.mem_append.mp member with before | here
  · exact lined t before
  · rw [List.mem_singleton.mp here]
    exact last

theorem lined_append (lined : Lined text) (part : piece <+: line entry) : Lined (text ++ piece) := by
  obtain ⟨printable, rest, rfl⟩ := lined
  refine ⟨fun c member => ?_, rest ++ piece, rfl⟩
  rcases List.mem_append.mp member with before | here
  · exact printable c before
  · exact line_printable entry c (part.subset here)

theorem torn_part (entry : JEntry) (n : Nat) : (line entry).dropLast.take (n + 1) <+: line entry :=
  (List.take_prefix _ _).trans (List.dropLast_prefix _)

theorem lined_torn (entry : JEntry) (n : Nat) : Lined ((line entry).dropLast.take (n + 1)) := by
  obtain ⟨rest, shape, -⟩ := hopeless_torn entry n
  exact ⟨fun c member => line_printable entry c ((torn_part entry n).subset member), rest, shape⟩

/-- What is left in the file, if anything is: a beginning of the line, or all of it with
its newline. -/
theorem left_cases {outcome : Outcome} (leaves : outcome ≠ .lost) (entry : JEntry) :
    ∃ piece, piece <+: line entry ∧ piece ≠ [] ∧
      (outcome.left (line entry) = piece ∨ outcome.left (line entry) = piece ++ ['\n']) := by
  have some_char := (lined_line entry).ne_nil
  cases outcome with
  | written => exact ⟨line entry, List.prefix_rfl, some_char, .inr rfl⟩
  | lost => exact absurd rfl leaves
  | torn n => exact ⟨_, torn_part entry n, (lined_torn entry n).ne_nil, .inl rfl⟩
  | unsynced newline =>
    cases newline with
    | false => exact ⟨line entry, List.prefix_rfl, some_char, .inl rfl⟩
    | true => exact ⟨line entry, List.prefix_rfl, some_char, .inr rfl⟩

theorem passes_hopeless (reads : Reads crates) (hopeless : Hopeless text) :
    passes crates key (texts ++ [text]) = none := by
  rw [passes_concat]
  exact Option.bind_eq_none_iff.mpr fun known _ => pass_hopeless reads hopeless known

/-- A last line without a newline is lost with what is added to it. -/
theorem lost_joined (reads : Reads crates) {tail : Text} {outcome : Outcome}
    (lined : ∀ t ∈ texts, Lined t) (linedTail : Lined tail)
    (spoils : ∀ piece entry, piece <+: line entry → piece ≠ [] → Hopeless (tail ++ piece))
    (leaves : outcome ≠ .lost) (entry : JEntry) :
    Lost crates key (unlines texts ++ tail ++ outcome.left (line entry)) := by
  obtain ⟨piece, part, some_char, left⟩ := left_cases leaves entry
  have hopeless := spoils piece entry part some_char
  rcases left with left | left
  · exact .unended texts (tail ++ piece) (by rw [left, List.append_assoc]) lined
      (lined_append linedTail part) (passes_hopeless reads hopeless)
      fun piece' entry' part' _ => hopeless.append part'
  · refine .failed (texts ++ [tail ++ piece]) [] ?_ (lined_concat lined (lined_append linedTail part))
      (passes_hopeless reads hopeless)
    rw [left, unlines_concat]
    simp only [List.append_assoc, List.append_nil]

theorem lost_torn (reads : Reads crates) (lined : ∀ t ∈ texts, Lined t) (entry : JEntry) (n : Nat) :
    Lost crates key (unlines texts ++ (Outcome.torn n).left (line entry)) :=
  .unended texts _ rfl lined (lined_torn entry n) (passes_hopeless reads (hopeless_torn entry n))
    fun _ _ part _ => (hopeless_torn entry n).append part

/-- A line that is not verified is lost with the file. -/
theorem lost_entry (reads : Reads crates) {outcome : Outcome} (lined : ∀ t ∈ texts, Lined t)
    (fails : passes crates key (texts ++ [line entry]) = none) (leaves : outcome ≠ .lost) :
    Lost crates key (unlines texts ++ outcome.left (line entry)) := by
  have whole : Lost crates key (unlines texts ++ (line entry ++ ['\n'])) :=
    .failed (texts ++ [line entry]) [] (by rw [unlines_concat, List.append_nil])
      (lined_concat lined (lined_line entry)) fails
  cases outcome with
  | written => exact whole
  | lost => exact absurd rfl leaves
  | torn n => exact lost_torn reads lined entry n
  | unsynced newline =>
    cases newline with
    | false =>
      exact .unended texts (line entry) rfl lined (lined_line entry) fails
        fun piece entry' part some_char => hopeless_joined part some_char
    | true => exact whole

theorem Lost.append_left (reads : Reads crates) (lost : Lost crates key file) (outcome : Outcome)
    (entry : JEntry) : Lost crates key (file ++ outcome.left (line entry)) := by
  by_cases leaves : outcome = .lost
  · subst leaves
    rwa [Outcome.left, List.append_nil]
  · cases lost with
    | failed texts rest shape lined fails =>
      exact .failed texts (rest ++ outcome.left (line entry)) (by rw [shape, List.append_assoc])
        lined fails
    | unended texts tail shape lined linedTail fails spoils =>
      rw [shape]
      exact lost_joined reads lined linedTail spoils leaves entry

/-- What a journal that is out of step adds is not verified. -/
theorem Shut.append_left (reads : Reads crates) (shut : Shut crates key journal file)
    (leaves : attempt.outcome ≠ .lost) : Lost crates key
      (file ++ attempt.outcome.left (line (entryOf crates key attempt journal))) := by
  cases shut with
  | apart texts known shape lined verified differ =>
    rw [shape]
    refine lost_entry reads lined ?_ leaves
    rw [passes_concat, verified]
    exact pass_apart reads differ attempt
  | unended texts entry shape lined verified =>
    rw [shape]
    exact lost_joined reads lined (lined_line entry)
      (fun piece entry' part some_char => hopeless_joined part some_char) leaves _

/-- Nothing written: the journal counts on, the file does not. -/
theorem Shut.lost (shut : Shut crates key journal file) :
    Shut crates key { journal with seq := journal.seq + 1 } file := by
  cases shut with
  | apart texts known shape lined verified differ =>
    refine .apart texts known shape lined verified (differ.imp_right fun beyond => ?_)
    exact Nat.lt_succ_of_lt beyond
  | unended texts entry shape lined verified => exact .unended texts entry shape lined verified

theorem InStep.lost (inStep : InStep crates key journal file) :
    Shut crates key { journal with seq := journal.seq + 1 } file := by
  obtain ⟨texts, shape, lined, verified⟩ := inStep
  exact .apart texts _ shape lined verified (.inr (Nat.lt_succ_self _))

theorem InStep.written (reads : Reads crates) (inStep : InStep crates key journal file)
    (kept : crates.reread attempt.metadata = attempt.metadata) :
    InStep crates key ⟨journal.seq + 1, (entryOf crates key attempt journal).hash⟩
      (file ++ (line (entryOf crates key attempt journal) ++ ['\n'])) := by
  obtain ⟨texts, rfl, lined, verified⟩ := inStep
  refine ⟨_, (unlines_concat texts _).symm, lined_concat lined (lined_line _), ?_⟩
  rw [passes_concat, verified]
  exact pass_next reads kept journal

/-- The line is there, but the journal does not go on from it. -/
theorem InStep.unsynced (codes : Codes crates key) (reads : Reads crates)
    (inStep : InStep crates key journal file)
    (kept : crates.reread attempt.metadata = attempt.metadata) (newline : Bool) :
    Shut crates key { journal with seq := journal.seq + 1 }
      (file ++ (Outcome.unsynced newline).left (line (entryOf crates key attempt journal))) := by
  obtain ⟨texts, rfl, lined, verified⟩ := inStep
  have next : passes crates key (texts ++ [line (entryOf crates key attempt journal)]) =
      some ((entryOf crates key attempt journal).hash, journal.seq + 2) := by
    rw [passes_concat, verified]
    exact pass_next reads kept journal
  cases newline with
  | false =>
    refine .unended texts _ rfl lined ?_
    rw [next]
    rfl
  | true =>
    refine .apart _ _ (unlines_concat texts _).symm (lined_concat lined (lined_line _)) next (.inl ?_)
    exact (@hash_ne_prev (entryOf crates key attempt journal) crates key codes texts _ verified).symm

/-- A cut line, or one whose metadata are read as something else. -/
theorem InStep.spoilt (codes : Codes crates key) (reads : Reads crates)
    (inStep : InStep crates key journal file) (leaves : attempt.outcome ≠ .lost)
    (spoilt : (∃ n, attempt.outcome = .torn n) ∨ crates.reread attempt.metadata ≠ attempt.metadata) :
    Lost crates key
      (file ++ attempt.outcome.left (line (entryOf crates key attempt journal))) := by
  obtain ⟨texts, rfl, lined, verified⟩ := inStep
  rcases spoilt with ⟨n, torn⟩ | changed
  · rw [torn]
    exact lost_torn reads lined _ n
  · refine lost_entry reads lined ?_ leaves
    rw [passes_concat, verified]
    exact pass_changed codes reads changed journal

/-! ## Histories -/

/-- An attempt that leaves something in the file goes on from what the file holds:
earlier sessions left nothing, every earlier attempt of its own succeeded, it leaves its
whole line, and the metadata are read as they were written. -/
structure Fits (crates : JournalCrates) (before : List (List Attempt)) (earlier : List Attempt)
    (attempt : Attempt) : Prop where
  first : ∀ attempts ∈ before, ∀ other ∈ attempts, other.outcome = .lost
  unbroken : ∀ other ∈ earlier, other.outcome = .written
  whole : attempt.outcome = .written ∨ ∃ newline, attempt.outcome = .unsynced newline
  kept : crates.reread attempt.metadata = attempt.metadata

/-- Every attempt of a session that leaves something fits. -/
def Steady (crates : JournalCrates) (before : List (List Attempt)) (attempts : List Attempt) : Prop :=
  ∀ earlier attempt, earlier ++ [attempt] <+: attempts → attempt.outcome ≠ .lost →
    Fits crates before earlier attempt

/-- Every attempt of every session that leaves something fits. -/
def Continuous (crates : JournalCrates) (sessions : List (List Attempt)) : Prop :=
  ∀ before attempts, before ++ [attempts] <+: sessions → Steady crates before attempts

/-- No session has left anything. -/
def Idle (before : List (List Attempt)) : Prop :=
  ∀ attempts ∈ before, ∀ other ∈ attempts, other.outcome = .lost

variable {before : List (List Attempt)} {attempts : List Attempt}

theorem steady_nil : Steady crates before [] := by
  intro earlier attempt within
  have none_there := List.prefix_nil.mp within
  exact absurd none_there (List.append_ne_nil_of_right_ne_nil _ (List.cons_ne_nil _ _))

theorem continuous_nil : Continuous crates [] := by
  intro before attempts within
  have none_there := List.prefix_nil.mp within
  exact absurd none_there (List.append_ne_nil_of_right_ne_nil _ (List.cons_ne_nil _ _))

theorem steady_concat : Steady crates before (attempts ++ [attempt]) ↔
    Steady crates before attempts ∧
      (attempt.outcome ≠ .lost → Fits crates before attempts attempt) := by
  constructor
  · intro steady
    exact ⟨fun earlier other within leaves =>
        steady earlier other (within.trans (List.prefix_append _ _)) leaves,
      steady attempts attempt List.prefix_rfl⟩
  · rintro ⟨steady, last⟩ earlier other within leaves
    rcases List.prefix_concat_iff.mp within with same | within
    · obtain ⟨rfl, rfl⟩ := List.append_singleton_inj.mp same
      exact last leaves
    · exact steady earlier other within leaves

theorem continuous_concat : Continuous crates (before ++ [attempts]) ↔
    Continuous crates before ∧ Steady crates before attempts := by
  constructor
  · intro continuous
    exact ⟨fun earlier session within =>
        continuous earlier session (within.trans (List.prefix_append _ _)),
      continuous before attempts List.prefix_rfl⟩
  · rintro ⟨continuous, last⟩ earlier session within
    rcases List.prefix_concat_iff.mp within with same | within
    · obtain ⟨rfl, rfl⟩ := List.append_singleton_inj.mp same
      exact last
    · exact continuous earlier session within

/-- How a journal stands to its file within a session. -/
structure Standing (crates : JournalCrates) (key : List UInt8) (before : List (List Attempt))
    (attempts : List Attempt) (journal : Journal) (file : Text) : Prop where
  inStep : Steady crates before attempts → Idle before →
    (∀ other ∈ attempts, other.outcome = .written) → InStep crates key journal file
  shut : Steady crates before attempts →
    ¬ (Idle before ∧ ∀ other ∈ attempts, other.outcome = .written) → Shut crates key journal file
  lost : ¬ Steady crates before attempts → Lost crates key file

theorem append_snd (attempt : Attempt) (journal : Journal) (file : Text) :
    (append crates key attempt journal file).2 =
      (⟨journal.seq + 1, if attempt.outcome = .written then
          (entryOf crates key attempt journal).hash else journal.lastHash⟩,
        file ++ attempt.outcome.left (line (entryOf crates key attempt journal))) := by
  unfold append
  cases attempt.outcome <;> rfl

/-- What does not fit, where all before it did, is cut or read as something else. -/
theorem spoilt_of_unfit (idle : Idle before)
    (unbroken : ∀ other ∈ attempts, other.outcome = .written) (leaves : attempt.outcome ≠ .lost)
    (unfit : ¬ Fits crates before attempts attempt) :
    (∃ n, attempt.outcome = .torn n) ∨ crates.reread attempt.metadata ≠ attempt.metadata := by
  by_cases kept : crates.reread attempt.metadata = attempt.metadata
  · refine .inl ?_
    have whole : ¬ (attempt.outcome = .written ∨ ∃ newline, attempt.outcome = .unsynced newline) :=
      fun whole => unfit ⟨idle, unbroken, whole, kept⟩
    cases outcome : attempt.outcome with
    | written => exact absurd (.inl outcome) whole
    | lost => exact absurd outcome leaves
    | torn n => exact ⟨n, rfl⟩
    | unsynced newline => exact absurd (.inr ⟨newline, outcome⟩) whole
  · exact .inr kept

/-- **One attempt.** -/
theorem Standing.append (codes : Codes crates key) (reads : Reads crates)
    (standing : Standing crates key before attempts journal file) (attempt : Attempt) :
    Standing crates key before (attempts ++ [attempt]) (append crates key attempt journal file).2.1
      (append crates key attempt journal file).2.2 := by
  rw [append_snd]
  refine ⟨fun steady idle written => ?_, fun steady other => ?_, fun unsteady => ?_⟩
  · obtain ⟨steady, fits⟩ := steady_concat.mp steady
    obtain ⟨unbroken, last⟩ := List.forall_mem_append.mp written
    have here : attempt.outcome = .written := last attempt (List.mem_singleton.mpr rfl)
    have kept := (fits (by rw [here]; exact nofun)).kept
    rw [here, if_pos rfl]
    exact (standing.inStep steady idle unbroken).written reads kept
  · obtain ⟨steady, fits⟩ := steady_concat.mp steady
    by_cases nothing : attempt.outcome = .lost
    · rw [nothing, if_neg nofun, Outcome.left, List.append_nil]
      by_cases sound : Idle before ∧ ∀ other ∈ attempts, other.outcome = .written
      · exact (standing.inStep steady sound.1 sound.2).lost
      · exact (standing.shut steady sound).lost
    · have fit := fits nothing
      rcases fit.whole with here | ⟨newline, here⟩
      · refine absurd ⟨fit.first, List.forall_mem_append.mpr ⟨fit.unbroken, ?_⟩⟩ other
        intro last member
        rw [List.mem_singleton.mp member, here]
      · rw [here, if_neg nofun]
        exact (standing.inStep steady fit.first fit.unbroken).unsynced codes reads fit.kept newline
  · by_cases steady : Steady crates before attempts
    · have unfit : ¬ (attempt.outcome ≠ .lost → Fits crates before attempts attempt) :=
        fun fits => unsteady (steady_concat.mpr ⟨steady, fits⟩)
      obtain ⟨leaves, unfit⟩ := Classical.not_imp.mp unfit
      by_cases sound : Idle before ∧ ∀ other ∈ attempts, other.outcome = .written
      · exact (standing.inStep steady sound.1 sound.2).spoilt codes reads leaves
          (spoilt_of_unfit sound.1 sound.2 leaves unfit)
      · exact (standing.shut steady sound).append_left reads leaves
    · exact (standing.lost steady).append_left reads _ _

theorem session_concat (attempts : List Attempt) (attempt : Attempt) (file : Text) :
    session crates key (attempts ++ [attempt]) file =
      (Journal.append crates key attempt (session crates key attempts file).1
        (session crates key attempts file).2).2 := by
  simp only [session, List.foldl_append, List.foldl_cons, List.foldl_nil]

/-- **One session.** -/
theorem session_standing (codes : Codes crates key) (reads : Reads crates)
    (start : Standing crates key before [] opened file) (attempts : List Attempt) :
    Standing crates key before attempts (session crates key attempts file).1
      (session crates key attempts file).2 := by
  induction attempts using List.reverseRecOn with
  | nil => exact start
  | append_singleton attempts attempt ih =>
    rw [session_concat]
    exact ih.append codes reads attempt

/-- A session only adds to the file, and something if an attempt leaves something. -/
theorem session_extends (attempts : List Attempt) (file : Text) :
    ((∀ other ∈ attempts, other.outcome = .lost) → (session crates key attempts file).2 = file) ∧
    (file ≠ [] ∨ ¬ (∀ other ∈ attempts, other.outcome = .lost) →
      (session crates key attempts file).2 ≠ []) := by
  induction attempts using List.reverseRecOn with
  | nil => exact ⟨fun _ => rfl, fun some_char => some_char.resolve_right fun all => all nofun⟩
  | append_singleton attempts attempt ih =>
    rw [session_concat, append_snd]
    simp only [List.forall_mem_append, List.forall_mem_singleton]
    constructor
    · rintro ⟨before, here⟩
      rw [here, ih.1 before, Outcome.left, List.append_nil]
    · intro leaves
      by_cases here : attempt.outcome = .lost
      · rw [here, Outcome.left, List.append_nil]
        refine ih.2 (leaves.imp_right fun some_left all => some_left ⟨all, here⟩)
      · obtain ⟨piece, -, some_char, left⟩ := left_cases here _
        refine List.append_ne_nil_of_right_ne_nil _ ?_
        rcases left with left | left <;> rw [left]
        · exact some_char
        · exact List.append_ne_nil_of_left_ne_nil some_char _

/-- The next entry's number is that of its line. -/
theorem passes_number {known : Text × Nat} (lined : ∀ t ∈ texts, Lined t)
    (found : passes crates key texts = some known) : known.2 = texts.length + 1 := by
  induction texts using List.reverseRecOn generalizing known with
  | nil =>
    cases found
    rfl
  | append_singleton texts text ih =>
    obtain ⟨before, last⟩ := List.forall_mem_append.mp lined
    rw [passes_concat] at found
    obtain ⟨prior, verified, found⟩ := Option.bind_eq_some_iff.mp found
    rw [pass, if_neg (last text (List.mem_singleton.mpr rfl)).not_blank] at found
    obtain ⟨entry, -, checked⟩ := Option.bind_eq_some_iff.mp found
    split at checked
    · rw [← Option.some.inj checked, ih before verified, List.length_append]
      rfl
    · cases checked

/-- A journal that is opened on a file that holds something is out of step. -/
theorem opened_shut (codes : Codes crates key) (some_char : file ≠ [])
    (sound : InStep crates key journal file ∨ Shut crates key journal file) :
    Shut crates key opened file := by
  have apart (texts : List Text) (known : Text × Nat) (shape : file = unlines texts)
      (lined : ∀ t ∈ texts, Lined t) (verified : passes crates key texts = some known) :
      Shut crates key opened file := by
    refine .apart texts known shape lined verified (.inl fun same => ?_)
    rcases passes_link verified with start | ⟨prev, entry, link, -⟩
    · have number := passes_number lined verified
      rw [start] at number
      have none_left : texts = [] := List.eq_nil_of_length_eq_zero (Nat.succ.inj number).symm
      rw [shape, none_left] at some_char
      exact some_char rfl
    · rw [link] at same
      exact codes.ne_nil _ same.symm
  rcases sound with ⟨texts, shape, lined, verified⟩ | shut
  · exact apart texts _ shape lined verified
  · cases shut with
    | apart texts known shape lined verified differ => exact apart texts known shape lined verified
    | unended texts entry shape lined verified => exact .unended texts entry shape lined verified

theorem idle_concat : Idle (before ++ [attempts]) ↔
    Idle before ∧ ∀ other ∈ attempts, other.outcome = .lost := by
  simp only [Idle, List.forall_mem_append, List.forall_mem_singleton]

theorem fileAfter_concat (before : List (List Attempt)) (attempts : List Attempt) :
    fileAfter crates key (before ++ [attempts]) =
      (session crates key attempts (fileAfter crates key before)).2 := by
  simp only [fileAfter, List.foldl_append, List.foldl_cons, List.foldl_nil]

/-- What the file of a history is worth to the session that comes next. -/
structure Worth (crates : JournalCrates) (key : List UInt8) (before : List (List Attempt))
    (file : Text) : Prop where
  idle : Idle before → file = []
  shut : Continuous crates before → ¬ Idle before → file ≠ [] ∧ Shut crates key opened file
  lost : ¬ Continuous crates before → Lost crates key file

theorem Worth.start (worth : Worth crates key before file) (continuous : Continuous crates before) :
    Standing crates key before [] opened file := by
  refine ⟨fun _ idle _ => ?_, fun _ other => ?_, fun unsteady => ?_⟩
  · rw [worth.idle idle]
    exact ⟨[], rfl, nofun, rfl⟩
  · exact (worth.shut continuous fun idle => other ⟨idle, nofun⟩).2
  · exact absurd steady_nil unsteady

theorem Lost.session (reads : Reads crates) (lost : Lost crates key file)
    (attempts : List Attempt) : Lost crates key (session crates key attempts file).2 := by
  induction attempts using List.reverseRecOn with
  | nil => exact lost
  | append_singleton attempts attempt ih =>
    rw [session_concat, append_snd]
    exact ih.append_left reads _ _

/-- **One more session.** -/
theorem Worth.session (codes : Codes crates key) (reads : Reads crates)
    (worth : Worth crates key before file) (attempts : List Attempt) :
    Worth crates key (before ++ [attempts]) (session crates key attempts file).2 := by
  have grown := @session_extends crates key attempts file
  refine ⟨fun idle => ?_, fun continuous busy => ?_, fun broken => ?_⟩
  · obtain ⟨idle, none_left⟩ := idle_concat.mp idle
    rw [grown.1 none_left, worth.idle idle]
  · obtain ⟨continuous, steady⟩ := continuous_concat.mp continuous
    have some_char : (Journal.session crates key attempts file).2 ≠ [] := by
      apply grown.2
      by_cases idle : Idle before
      · exact .inr fun none_left => busy (idle_concat.mpr ⟨idle, none_left⟩)
      · exact .inl (worth.shut continuous idle).1
    have standing := session_standing codes reads (worth.start continuous) attempts
    have sound : InStep crates key (Journal.session crates key attempts file).1
          (Journal.session crates key attempts file).2 ∨
        Shut crates key (Journal.session crates key attempts file).1
          (Journal.session crates key attempts file).2 := by
      by_cases sound : Idle before ∧ ∀ other ∈ attempts, other.outcome = .written
      · exact .inl (standing.inStep steady sound.1 sound.2)
      · exact .inr (standing.shut steady sound)
    exact ⟨some_char, opened_shut codes some_char sound⟩
  · by_cases continuous : Continuous crates before
    · have standing := session_standing codes reads (worth.start continuous) attempts
      exact standing.lost fun steady => broken (continuous_concat.mpr ⟨continuous, steady⟩)
    · exact (worth.lost continuous).session reads attempts

/-- **The file of a history.** -/
theorem fileAfter_worth (codes : Codes crates key) (reads : Reads crates)
    (sessions : List (List Attempt)) : Worth crates key sessions (fileAfter crates key sessions) := by
  induction sessions using List.reverseRecOn with
  | nil =>
    exact ⟨fun _ => rfl, fun _ busy => absurd nofun busy, fun broken => absurd continuous_nil broken⟩
  | append_singleton before attempts ih =>
    rw [fileAfter_concat]
    exact ih.session codes reads attempts

/-- **A journal file is verified exactly when its history is continuous**: one session at
most leaves anything in it, and that session nothing behind an attempt that failed. -/
theorem verified_iff (crates : JournalCrates) (key : List UInt8) (codes : Codes crates key)
    (reads : Reads crates) (sessions : List (List Attempt)) :
    verifyFile crates key (fileAfter crates key sessions) = .ok true ↔
      Continuous crates sessions := by
  have worth := fileAfter_worth codes reads sessions
  constructor
  · intro verified
    by_contra broken
    exact (worth.lost broken).not_verified verified
  · intro continuous
    by_cases idle : Idle sessions
    · rw [worth.idle idle]
      rfl
    · exact (worth.shut continuous idle).2.verified

/-! ## A journal that is opened again -/

/-- A delegation is journalled, and writing ends in some way. -/
def delegation (outcome : Outcome) : Attempt where
  ts := 1
  event := "DELEGATE".toList
  msgId := "task-123".toList
  sender := "client:smart".toList
  recipient := "worker:code".toList
  metadata := .object [("action".toList, .string "test".toList)]
  outcome := outcome

/-- Two sessions that write one entry each leave a file that is not verified. -/
theorem reopened_not_verified : Codes plainJournal [1] ∧ Reads plainJournal ∧
    verifyFile plainJournal [1]
      (fileAfter plainJournal [1] [[delegation .written], [delegation .written]]) ≠ .ok true := by
  have worth := fileAfter_worth (plainJournal_codes [1]) plainJournal_reads
    [[delegation .written], [delegation .written]]
  refine ⟨plainJournal_codes [1], plainJournal_reads, (worth.lost fun continuous => ?_).not_verified⟩
  have steady := continuous [[delegation .written]] [delegation .written] List.prefix_rfl
  have fits := steady [] (delegation .written) List.prefix_rfl nofun
  have silent := fits.first [delegation .written] (List.mem_singleton.mpr rfl) (delegation .written)
    (List.mem_singleton.mpr rfl)
  cases silent

/-- One session that writes two entries, and then cannot write any more, leaves one that
is. -/
theorem one_session_verified :
    verifyFile plainJournal [1] (fileAfter plainJournal [1]
      [[delegation .written, delegation .written, delegation .lost], [delegation .lost]]) =
      .ok true := by
  refine (verified_iff plainJournal [1] (plainJournal_codes [1]) plainJournal_reads _).mpr ?_
  have first : Fits plainJournal [] [] (delegation .written) := ⟨nofun, nofun, .inl rfl, rfl⟩
  have second : Fits plainJournal [] [delegation .written] (delegation .written) :=
    ⟨nofun, List.forall_mem_singleton.mpr rfl, .inl rfl, rfl⟩
  have one : Steady plainJournal [] ([] ++ [delegation .written]) :=
    steady_concat.mpr ⟨steady_nil, fun _ => first⟩
  have two : Steady plainJournal [] ([delegation .written] ++ [delegation .written]) :=
    steady_concat.mpr ⟨one, fun _ => second⟩
  have three : Steady plainJournal []
      ([delegation .written, delegation .written] ++ [delegation .lost]) :=
    steady_concat.mpr ⟨two, fun leaves => absurd rfl leaves⟩
  have later (before : List (List Attempt)) : Steady plainJournal before ([] ++ [delegation .lost]) :=
    steady_concat.mpr ⟨steady_nil, fun leaves => absurd rfl leaves⟩
  exact @continuous_concat plainJournal [_] _ |>.mpr
    ⟨@continuous_concat plainJournal [] _ |>.mpr ⟨continuous_nil, three⟩, later _⟩

end

end JournalContinuity

end Devit
