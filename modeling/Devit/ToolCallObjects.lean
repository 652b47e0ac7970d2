import Devit.ToolCallTotality
import Mathlib.Data.List.Infix

/-! Which object the parser of tool calls takes out of a text without tags. It counts braces,
also those in strings and those that nothing opened, and reads what lies between the first
brace opened and the place where the count comes back to zero. -/
namespace Devit
open Text

namespace ToolCallObjects
open DevItFormatParser (callOfObject)

/-- An object that was read as a call, by its place. -/
structure Located where
  start : Nat
  stop : Nat
  call : ToolCall

def InRange (count : Int) : Prop := -2 ^ 31 ≤ count ∧ count < 2 ^ 31

instance (count : Int) : Decidable (InRange count) := inferInstanceAs (Decidable (_ ∧ _))

/-- A count in the range of an `i32`: another one panics, or wraps around where overflows are
not checked. -/
def counted (count : Int) : Option Int := if InRange count then some count else none

section
variable (read : Text → Option Json)

/-- The loop of `try_parse_json_format`; nothing where its count or its slice panics. -/
def scan (content : Text) : Option Nat → Int → Nat → Text → Option (Option Located)
  | _, _, _, [] => some none
  | braceStart, braceCount, i, c :: cs =>
    if c = '{' then
      (counted (braceCount + 1)).bind fun braceCount =>
        scan content (some (braceStart.getD i)) braceCount (i + 1) cs
    else if c = '}' then
      (counted (braceCount - 1)).bind fun braceCount =>
        if braceCount = 0 then
          match braceStart with
          | none => scan content none braceCount (i + 1) cs
          | some start =>
            (slice content start (i + 1)).bind fun jsonStr =>
              match (read jsonStr).bind callOfObject with
              | some call => some (some ⟨start, i + 1, call⟩)
              | none => scan content none braceCount (i + 1) cs
        else scan content braceStart braceCount (i + 1) cs
    else scan content braceStart braceCount (i + 1) cs

def locate (content : Text) : Option (Option Located) := scan read content none 0 0 content

def tryParseJsonFormat (content : Text) : Option (Option ToolCall) :=
  (locate read content).map fun found => found.map Located.call

end

/-! ## Braces -/

/-- How many more braces are opened than closed. -/
def balance (s : Text) : Int := s.count '{' - s.count '}'

/-- Nothing is opened since as many braces were closed as opened, or since the beginning. -/
def Clear (s : Text) : Prop :=
  ∃ front back, s = front ++ back ∧ '{' ∉ back ∧
    (front = [] ∨ (front.getLast? = some '}' ∧ balance front = 0))

/-- Counting braces finds the object: it begins where nothing is open, its last brace brings the
count to zero and none before it does; and the count is small enough. -/
structure Counts (before object : Text) : Prop where
  clear : Clear before
  small : ∀ part, part <+: before ++ object → InRange (balance part)
  closed : balance (before ++ object) = 0
  first : ∀ part, part <+: object → part ≠ object → part.getLast? = some '}' →
    balance (before ++ part) ≠ 0

theorem balance_nil : balance [] = 0 := rfl

theorem balance_opening (s : Text) : balance (s ++ ['{']) = balance s + 1 := by
  simp [balance, List.count_append]
  omega

theorem balance_closing (s : Text) : balance (s ++ ['}']) = balance s - 1 := by
  simp [balance, List.count_append]
  omega

theorem balance_other (s : Text) {c : Char} (opens : c ≠ '{') (closes : c ≠ '}') :
    balance (s ++ [c]) = balance s := by
  simp [balance, List.count_append, opens, closes]

theorem clear_nil : Clear [] := ⟨[], [], rfl, List.not_mem_nil, .inl rfl⟩

theorem not_clear_opening (s : Text) : ¬ Clear (s ++ ['{']) := by
  rintro ⟨front, back, shape, absent, reset⟩
  rcases List.eq_nil_or_concat back with rfl | ⟨init, last, rfl⟩
  · rw [List.append_nil] at shape
    rcases reset with rfl | ⟨ends, -⟩
    · simp at shape
    · rw [← shape, List.getLast?_concat] at ends
      cases ends
  · rw [List.concat_eq_append, ← List.append_assoc] at shape
    have same := (List.append_inj' shape rfl).2
    rw [List.concat_eq_append, ← same] at absent
    exact absent (List.mem_append_right _ (List.mem_singleton_self _))

theorem clear_closed {s : Text} (closed : balance (s ++ ['}']) = 0) : Clear (s ++ ['}']) :=
  ⟨s ++ ['}'], [], (List.append_nil _).symm, List.not_mem_nil,
    .inr ⟨List.getLast?_concat, closed⟩⟩

theorem clear_concat {s : Text} {c : Char} (opens : c ≠ '{')
    (still : ¬ (c = '}' ∧ balance (s ++ [c]) = 0)) : Clear (s ++ [c]) ↔ Clear s := by
  constructor
  · rintro ⟨front, back, shape, absent, reset⟩
    rcases List.eq_nil_or_concat back with rfl | ⟨init, last, rfl⟩
    · rw [List.append_nil] at shape
      rcases reset with rfl | ⟨ends, closed⟩
      · simp at shape
      · rw [← shape, List.getLast?_concat] at ends
        rw [← shape] at closed
        exact absurd ⟨Option.some.inj ends, closed⟩ still
    · rw [List.concat_eq_append, ← List.append_assoc] at shape
      refine ⟨front, init, (List.append_inj' shape rfl).1, fun member => absent ?_, reset⟩
      rw [List.concat_eq_append]
      exact List.mem_append_left _ member
  · rintro ⟨front, back, rfl, absent, reset⟩
    refine ⟨front, back ++ [c], List.append_assoc _ _ _, fun member => ?_, reset⟩
    rcases List.mem_append.mp member with inside | last
    · exact absent inside
    · exact opens (List.mem_singleton.mp last).symm

/-! ## The scan -/

section
variable {read : Text → Option Json}

/-- The object begins at the brace that is open, or later, and ends later. -/
def Later (started : Option Nat) (i : Nat) (found : Located) : Prop :=
  (started = some found.start ∨ i ≤ found.start) ∧ i < found.stop

theorem Later.before {started started' : Option Nat} {i : Nat} {found : Located}
    (later : Later started' (i + 1) found)
    (opened : started' = some found.start → started = some found.start ∨ i ≤ found.start) :
    Later started i found := by
  obtain ⟨begins | behind, ends⟩ := later
  · exact ⟨opened begins, Nat.lt_of_succ_lt ends⟩
  · exact ⟨.inr (Nat.le_of_succ_le behind), Nat.lt_of_succ_lt ends⟩

theorem scan_later {content cs : Text} {started : Option Nat} {count : Int} {i : Nat}
    {found : Located} (scanned : scan read content started count i cs = some (some found)) :
    Later started i found := by
  induction cs generalizing started count i with
  | nil => simp [scan] at scanned
  | cons c cs ih =>
    rw [scan.eq_def] at scanned
    dsimp only at scanned
    split at scanned
    · obtain ⟨next, -, scanned⟩ := Option.bind_eq_some_iff.mp scanned
      refine (ih scanned).before fun same => ?_
      cases started with
      | none => exact .inr (Nat.le_of_eq (Option.some.inj same))
      | some start => exact .inl same
    · split at scanned
      · obtain ⟨next, -, scanned⟩ := Option.bind_eq_some_iff.mp scanned
        split at scanned
        · cases started with
          | none => exact (ih scanned).before fun same => .inl same
          | some start =>
            obtain ⟨jsonStr, -, scanned⟩ := Option.bind_eq_some_iff.mp scanned
            cases called : (read jsonStr).bind callOfObject with
            | some call =>
              rw [called] at scanned
              cases scanned
              exact ⟨.inl rfl, Nat.lt_succ_self i⟩
            | none =>
              rw [called] at scanned
              exact (ih scanned).before (by rintro ⟨⟩)
        · exact (ih scanned).before fun same => .inl same
      · exact (ih scanned).before fun same => .inl same

/-- The scan has come to the end of this text. -/
structure At (seen : Text) (started : Option Nat) (count : Int) : Prop where
  braces : count = balance seen
  small : InRange count
  clear : started = none ↔ Clear seen
  start : ∀ start, started = some start → start < seen.length

theorem at_nil : At [] none 0 :=
  ⟨rfl, by decide, iff_of_true rfl clear_nil, by rintro start ⟨⟩⟩

/-- **One character** of a text without an object. -/
theorem scan_step {seen cs : Text} {c : Char} {started : Option Nat} {count : Int}
    (here : At seen started count)
    (alone : ∀ part, part <:+: seen ++ [c] → (read part).bind callOfObject = none) :
    if InRange (balance (seen ++ [c])) then
      ∃ started', At (seen ++ [c]) started' (balance (seen ++ [c])) ∧
        scan read (seen ++ c :: cs) started count seen.length (c :: cs) =
          scan read (seen ++ c :: cs) started' (balance (seen ++ [c])) (seen.length + 1) cs
    else scan read (seen ++ c :: cs) started count seen.length (c :: cs) = none := by
  have longer : ∀ {started' : Option Nat}, (∀ start, started' = some start → start < seen.length) →
      ∀ start, started' = some start → start < (seen ++ [c]).length := by
    intro started' before start same
    rw [List.length_append, List.length_singleton]
    exact Nat.lt_succ_of_lt (before start same)
  rw [scan.eq_def]
  dsimp only
  rw [here.braces]
  by_cases opens : c = '{'
  · subst opens
    rw [if_pos rfl, ← balance_opening, counted]
    split
    · rename_i small
      refine ⟨some (started.getD seen.length), ⟨rfl, small, ?_, ?_⟩, by rw [Option.bind_some]⟩
      · exact iff_of_false (by rintro ⟨⟩) (not_clear_opening seen)
      · rintro start ⟨⟩
        rw [List.length_append, List.length_singleton]
        cases started with
        | none => exact Nat.lt_succ_self _
        | some start => exact Nat.lt_succ_of_lt (here.start start rfl)
    · rfl
  · rw [if_neg opens]
    by_cases closes : c = '}'
    · subst closes
      rw [if_pos rfl, ← balance_closing, counted]
      split
      · rename_i small
        rw [Option.bind_some]
        by_cases zero : balance (seen ++ ['}']) = 0
        · refine ⟨none, ⟨rfl, small, iff_of_true rfl (clear_closed zero), by rintro start ⟨⟩⟩, ?_⟩
          rw [if_pos zero]
          cases started with
          | none => rfl
          | some start =>
            have fits := here.start start rfl
            have cut : slice (seen ++ '}' :: cs) start (seen.length + 1) =
                some ((seen ++ ['}']).drop start) := by
              rw [ToolCallTotality.slice_some (by omega) (by simp)]
              congr 2
              rw [← List.singleton_append, ← List.append_assoc]
              exact List.take_left' (by simp)
            simp only [cut, Option.bind_some, alone _ (List.drop_suffix _ _).isInfix]
        · refine ⟨started, ⟨rfl, small, ?_, longer here.start⟩, by rw [if_neg zero]⟩
          rw [here.clear, clear_concat opens fun both => zero both.2]
      · rfl
    · have same := balance_other seen opens closes
      have small : InRange (balance (seen ++ [c])) := by
        rw [same, ← here.braces]
        exact here.small
      rw [if_pos small]
      refine ⟨started, ⟨rfl, small, ?_, longer here.start⟩, by rw [if_neg closes, same]⟩
      rw [here.clear, clear_concat opens fun both => closes both.1]

/-- **A text without an object.** -/
theorem scan_alone {seen part rest : Text} {started : Option Nat} {count : Int}
    (here : At seen started count)
    (alone : ∀ other, other <:+: seen ++ part → (read other).bind callOfObject = none) :
    ((∀ front, front <+: part → InRange (balance (seen ++ front))) ∧
      ∃ started', At (seen ++ part) started' (balance (seen ++ part)) ∧
        scan read (seen ++ (part ++ rest)) started count seen.length (part ++ rest) =
          scan read (seen ++ (part ++ rest)) started' (balance (seen ++ part))
            (seen ++ part).length rest) ∨
    ((∃ front, front <+: part ∧ ¬ InRange (balance (seen ++ front))) ∧
      scan read (seen ++ (part ++ rest)) started count seen.length (part ++ rest) = none) := by
  induction part generalizing seen started count with
  | nil =>
    refine .inl ⟨fun front none => ?_, started, ?_, ?_⟩
    · rw [List.prefix_nil.mp none, List.append_nil, ← here.braces]
      exact here.small
    · rw [List.append_nil, ← here.braces]
      exact here
    · rw [List.append_nil, ← here.braces, List.nil_append]
  | cons c part ih =>
    have step := @scan_step read seen (part ++ rest) c started count here fun other inside =>
      alone other (inside.trans ⟨[], part, by simp⟩)
    rw [List.cons_append]
    split at step
    · rename_i small
      obtain ⟨started', there, scanned⟩ := step
      rw [scanned]
      have regroup : ∀ other, seen ++ c :: other = seen ++ [c] ++ other := by simp
      have fronts : ∀ front, front <+: c :: part → front = [] ∨
          ∃ more, more <+: part ∧ front = c :: more := by
        intro front inside
        rcases List.prefix_cons_iff.mp inside with none | ⟨more, same, rest⟩
        · exact .inl none
        · exact .inr ⟨more, rest, same⟩
      have later := @ih (seen ++ [c]) started' _ there (by rwa [← regroup])
      rw [← regroup, ← regroup, List.length_append, List.length_singleton] at later
      rcases later with ⟨inside, started'', there', scanned'⟩ | ⟨⟨front, inside, big⟩, fails⟩
      · refine .inl ⟨fun front begins => ?_, started'', there', scanned'⟩
        rcases fronts front begins with rfl | ⟨more, onward, rfl⟩
        · rw [List.append_nil, ← here.braces]
          exact here.small
        · rw [regroup]
          exact inside more onward
      · refine .inr ⟨⟨c :: front, List.cons_prefix_cons.mpr ⟨rfl, inside⟩, ?_⟩, fails⟩
        rwa [regroup]
    · rename_i big
      exact .inr ⟨⟨[c], by simp, big⟩, step⟩

/-- One character since a brace was opened. -/
theorem scan_opened {seen cs : Text} {c : Char} {start : Nat} (small : InRange (balance seen)) :
    scan read (seen ++ c :: cs) (some start) (balance seen) seen.length (c :: cs) =
      if InRange (balance (seen ++ [c])) then
        if c = '}' ∧ balance (seen ++ [c]) = 0 then
          (slice (seen ++ c :: cs) start (seen.length + 1)).bind fun jsonStr =>
            match (read jsonStr).bind callOfObject with
            | some call => some (some ⟨start, seen.length + 1, call⟩)
            | none => scan read (seen ++ c :: cs) none 0 (seen.length + 1) cs
        else scan read (seen ++ c :: cs) (some start) (balance (seen ++ [c])) (seen.length + 1) cs
      else none := by
  rw [scan.eq_def]
  dsimp only
  by_cases opens : c = '{'
  · subst opens
    rw [if_pos rfl, ← balance_opening, counted]
    simp only [Option.getD_some, show ¬ ('{' = '}' ∧ balance (seen ++ ['{']) = 0) by simp, if_false]
    split <;> rfl
  · rw [if_neg opens]
    by_cases closes : c = '}'
    · subst closes
      rw [if_pos rfl, ← balance_closing, counted]
      split
      · rw [Option.bind_some]
        by_cases zero : balance (seen ++ ['}']) = 0
        · rw [if_pos zero, if_pos ⟨rfl, zero⟩, zero]
        · rw [if_neg zero, if_neg fun both => zero both.2]
      · rfl
    · rw [if_neg closes, balance_other seen opens closes, if_pos small,
        if_neg fun both => closes both.1]

/-- **The object.** From its first brace on, the scan takes it out exactly if its last brace
brings the count to zero, and none before it does. -/
theorem scan_object {before text done rest after : Text} {call : ToolCall}
    (whole : text = done ++ rest) (last : rest.getLast? = some '}')
    (reads : (read text).bind callOfObject = some call)
    (small : InRange (balance (before ++ done))) :
    scan read (before ++ (text ++ after)) (some before.length) (balance (before ++ done))
        (before ++ done).length (rest ++ after) =
          some (some ⟨before.length, (before ++ text).length, call⟩) ↔
      (∀ part, part <+: rest → InRange (balance (before ++ done ++ part))) ∧
        balance (before ++ done ++ rest) = 0 ∧
        ∀ part, part <+: rest → part ≠ rest → part.getLast? = some '}' →
          balance (before ++ done ++ part) ≠ 0 := by
  induction rest generalizing done with
  | nil => cases last
  | cons c rest ih =>
    have shape : before ++ (text ++ after) = (before ++ done) ++ c :: (rest ++ after) := by
      rw [whole]
      simp
    have onward : ∀ part, before ++ done ++ c :: part = before ++ (done ++ [c]) ++ part := by simp
    have one : before ++ done ++ [c] = before ++ (done ++ [c]) := List.append_assoc _ _ _
    rw [shape, List.cons_append, scan_opened small]
    by_cases small' : InRange (balance (before ++ done ++ [c]))
    · rw [if_pos small']
      by_cases zero : c = '}' ∧ balance (before ++ done ++ [c]) = 0
      · rw [if_pos zero]
        have cut : slice (before ++ done ++ c :: (rest ++ after)) before.length
            ((before ++ done).length + 1) = some (done ++ [c]) := by
          have middle := slice_append before (done ++ [c]) (rest ++ after)
          simpa [Nat.add_assoc] using middle
        rw [cut, Option.bind_some]
        cases rest with
        | nil =>
          rw [← whole, reads]
          refine iff_of_true (by rw [whole]; simp [Nat.add_assoc])
            ⟨fun part inside => ?_, zero.2, ?_⟩
          · rcases List.prefix_cons_iff.mp inside with rfl | ⟨more, rfl, none⟩
            · rwa [List.append_nil]
            · rwa [List.prefix_nil.mp none]
          · intro part inside other ends
            rcases List.prefix_cons_iff.mp inside with rfl | ⟨more, rfl, none⟩
            · cases ends
            · rw [List.prefix_nil.mp none] at other
              exact absurd rfl other
        | cons d rest =>
          refine iff_of_false (fun scanned => ?_) fun counts =>
            counts.2.2 [c] ⟨d :: rest, rfl⟩ (by simp) (by rw [zero.1]; rfl) zero.2
          cases called : (read (done ++ [c])).bind callOfObject with
          | some other =>
            rw [called] at scanned
            have stops := congrArg (Option.map (Option.map Located.stop)) scanned
            rw [whole] at stops
            simp at stops
            omega
          | none =>
            rw [called] at scanned
            obtain ⟨begins | behind, -⟩ := scan_later scanned
            · cases begins
            · rw [List.length_append] at behind
              dsimp only at behind
              omega
      · rw [if_neg zero]
        cases rest with
        | nil =>
          have ends : c = '}' := Option.some.inj last
          refine iff_of_false (fun scanned => ?_) fun counts => zero ⟨ends, counts.2.1⟩
          have stops := (scan_later scanned).2
          rw [whole] at stops
          simp only [List.length_append, List.length_singleton] at stops
          omega
        | cons d rest =>
          have later := @ih (done ++ [c]) (by rw [whole]; simp) (by simpa using last)
            (by rwa [← one])
          rw [shape, ← one, List.length_append, List.length_singleton,
            List.cons_append] at later
          rw [List.cons_append, later]
          have regroup : ∀ part, before ++ done ++ c :: part = before ++ done ++ [c] ++ part := by
            simp
          rw [← regroup]
          constructor
          · rintro ⟨range, closed, first⟩
            refine ⟨fun part inside => ?_, closed, fun part inside other ends => ?_⟩
            · rcases List.prefix_cons_iff.mp inside with rfl | ⟨more, rfl, deeper⟩
              · rwa [List.append_nil]
              · rw [regroup]
                exact range more deeper
            · rcases List.prefix_cons_iff.mp inside with rfl | ⟨more, rfl, deeper⟩
              · cases ends
              · cases more with
                | nil => exact fun back => zero ⟨Option.some.inj ends, back⟩
                | cons e more =>
                  rw [regroup]
                  exact first (e :: more) deeper (fun same => other (by rw [same]))
                    (by simpa using ends)
          · rintro ⟨range, closed, first⟩
            refine ⟨fun part inside => ?_, closed, fun part inside other ends => ?_⟩
            · rw [← regroup]
              exact range (c :: part) (List.cons_prefix_cons.mpr ⟨rfl, inside⟩)
            · rw [← regroup]
              refine first (c :: part) (List.cons_prefix_cons.mpr ⟨rfl, inside⟩)
                (fun same => other (List.cons.inj same).2) ?_
              cases part with
              | nil => cases ends
              | cons e part => simpa using ends
    · rw [if_neg small']
      refine iff_of_false (by rintro ⟨⟩) fun counts => small' ?_
      exact counts.1 [c] ⟨rest, rfl⟩

/-- The braces of an object behind its first one, and those of the whole text. -/
theorem counts_iff {before rest : Text} (clear : Clear before)
    (range : ∀ front, front <+: before → InRange (balance front)) :
    (∀ part, part <+: rest → InRange (balance (before ++ ['{'] ++ part))) ∧
        balance (before ++ ['{'] ++ rest) = 0 ∧
        (∀ part, part <+: rest → part ≠ rest → part.getLast? = some '}' →
          balance (before ++ ['{'] ++ part) ≠ 0) ↔ Counts before ('{' :: rest) := by
  have regroup : ∀ part, before ++ ['{'] ++ part = before ++ '{' :: part := by simp
  simp only [regroup]
  constructor
  · rintro ⟨within, closed, first⟩
    refine ⟨clear, fun part inside => ?_, closed, fun part inside other last => ?_⟩
    · rcases List.prefix_or_prefix_of_prefix inside (List.prefix_append before _) with
        early | ⟨more, rfl⟩
      · exact range part early
      · rcases List.prefix_cons_iff.mp ((List.prefix_append_right_inj before).mp inside) with
          rfl | ⟨more, rfl, deeper⟩
        · rw [List.append_nil]
          exact range before (List.prefix_refl _)
        · exact within more deeper
    · rcases List.prefix_cons_iff.mp inside with rfl | ⟨more, rfl, deeper⟩
      · cases last
      · cases more with
        | nil => cases last
        | cons c more =>
          exact first (c :: more) deeper (fun same => other (by rw [same])) (by simpa using last)
  · intro counts
    refine ⟨fun part inside => ?_, counts.closed, fun part inside other last => ?_⟩
    · exact counts.small _ ((List.prefix_append_right_inj before).mpr
        (List.cons_prefix_cons.mpr ⟨rfl, inside⟩))
    · refine counts.first ('{' :: part) (List.cons_prefix_cons.mpr ⟨rfl, inside⟩)
        (fun same => other (List.cons.inj same).2) ?_
      cases part with
      | nil => cases last
      | cons c part => simpa using last

/-- **Objects.** An object that is read as a call, in a text with no other one before it, is
taken out exactly if counting braces finds it. -/
theorem locate_object_iff (read : Text → Option Json) {before object after : Text} {call : ToolCall}
    (opens : object.head? = some '{') (closes : object.getLast? = some '}')
    (reads : (read object).bind callOfObject = some call)
    (alone : ∀ part, part <:+: before → (read part).bind callOfObject = none) :
    locate read (before ++ (object ++ after)) =
        some (some ⟨before.length, (before ++ object).length, call⟩) ↔ Counts before object := by
  obtain ⟨rest, rfl⟩ : ∃ rest, object = '{' :: rest := List.head?_eq_some_iff.mp opens
  have ends : rest.getLast? = some '}' := by
    cases rest with
    | nil => cases closes
    | cons c rest => simpa using closes
  have opening : before ++ '{' :: rest = before ++ ['{'] ++ rest := by simp
  have passed := @scan_alone read [] before ('{' :: rest ++ after) none 0 at_nil
    (by simpa using alone)
  simp only [List.nil_append] at passed
  rw [locate]
  rcases passed with ⟨range, started, here, scanned⟩ | ⟨⟨front, inside, big⟩, fails⟩
  · rw [show 0 = ([] : Text).length from rfl, scanned]
    by_cases small : InRange (balance (before ++ ['{']))
    · cases started with
      | some start =>
        refine iff_of_false (fun found => ?_) fun counts => ?_
        · rw [List.cons_append, scan_opened (here.braces ▸ here.small), if_pos small,
            if_neg (by simp)] at found
          obtain ⟨same | behind, -⟩ := scan_later found
          · have earlier := here.start _ same
            exact absurd earlier (Nat.lt_irrefl _)
          · exact absurd behind (Nat.not_succ_le_self _)
        · cases here.clear.mpr counts.clear
      | none =>
        have begun : scan read (before ++ ('{' :: rest ++ after)) none (balance before)
            before.length ('{' :: rest ++ after) =
              scan read (before ++ ('{' :: rest ++ after)) (some before.length)
                (balance (before ++ ['{'])) (before ++ ['{']).length (rest ++ after) := by
          rw [List.cons_append, scan.eq_def]
          dsimp only
          rw [if_pos rfl, ← balance_opening, counted, if_pos small, Option.bind_some]
          simp
        rw [begun]
        have whole := @scan_object read before ('{' :: rest) ['{'] rest after call rfl ends reads
          small
        exact whole.trans (counts_iff (here.clear.mp rfl) range)
    · refine iff_of_false (fun found => ?_) fun counts =>
        small (counts.small _ ⟨rest, by simp⟩)
      rw [List.cons_append, scan.eq_def] at found
      dsimp only at found
      rw [if_pos rfl, ← balance_opening, counted, if_neg small] at found
      cases found
  · refine iff_of_false (fun found => ?_) fun counts =>
      big (counts.small front (inside.trans (List.prefix_append _ _)))
    rw [show 0 = ([] : Text).length from rfl, fails] at found
    cases found

/-- A scan that comes to an end is the one with unbounded counts. -/
theorem scan_unbounded {content cs : Text} {started : Option Nat} {count : Int} {i : Nat}
    {found : Option Located} (scanned : scan read content started count i cs = some found) :
    ToolCallTotality.scanJson read content started count i cs =
      some (found.map Located.call) := by
  have bounded : ∀ {count next : Int}, counted count = some next → next = count := by
    intro count next same
    unfold counted at same
    split at same
    · exact (Option.some.inj same).symm
    · cases same
  induction cs generalizing started count i with
  | nil =>
    cases scanned
    rfl
  | cons c cs ih =>
    rw [scan.eq_def] at scanned
    rw [ToolCallTotality.scanJson.eq_def]
    dsimp only at scanned ⊢
    split at scanned
    · rename_i opens
      obtain ⟨next, same, scanned⟩ := Option.bind_eq_some_iff.mp scanned
      rw [if_pos opens, ← bounded same]
      exact ih scanned
    · rename_i other
      rw [if_neg other]
      split at scanned
      · rename_i closes
        obtain ⟨next, same, scanned⟩ := Option.bind_eq_some_iff.mp scanned
        rw [if_pos closes, ← bounded same]
        split at scanned
        · rename_i zero
          rw [if_pos zero]
          cases started with
          | none =>
            rw [zero] at scanned
            exact ih scanned
          | some start =>
            obtain ⟨jsonStr, cut, scanned⟩ := Option.bind_eq_some_iff.mp scanned
            simp only [cut, Option.bind_eq_bind, Option.bind_some]
            cases called : (read jsonStr).bind callOfObject with
            | some call =>
              rw [called] at scanned
              cases scanned
              rfl
            | none =>
              rw [called, zero] at scanned
              exact ih scanned
        · rename_i more
          rw [if_neg more]
          exact ih scanned
      · rename_i between
        rw [if_neg between]
        exact ih scanned

/-- An object that is taken out is the call that is parsed. -/
theorem object_parsed {content : Text} {found : Located}
    (located : locate read content = some (some found)) :
    DevItFormatParser.tryParseJsonFormat read content = some found.call := by
  have unbounded := scan_unbounded located
  have same := ToolCallTotality.scanJson_eq read [] none 0 content (by rintro start ⟨⟩)
  exact Option.some.inj (same.symm.trans unbounded)

end

/-- An object with both braces in a string, and one with a closing brace only. -/
def pairObject : Text :=
  "\x7b\"name\": \"ocr\", \"arguments\": \x7b\"a\": \"\x7b\x7d\"\x7d\x7d".toList

def closingObject : Text :=
  "\x7b\"name\": \"ocr\", \"arguments\": \x7b\"a\": \"\x7d\"\x7d\x7d".toList

def lead : Text := "As \x7bname\x7d: ".toList

def ocrCall (a : String) : ToolCall :=
  ⟨"ocr".toList, .object [("a".toList, .string a.toList)]⟩

/-- `serde_json::from_str` on these two texts. -/
def sampleRead (text : Text) : Option Json :=
  let object (a : String) : Json :=
    .object [("arguments".toList, (ocrCall a).arguments), ("name".toList, .string "ocr".toList)]
  if text = pairObject then some (object "\x7b\x7d")
  else if text = closingObject then some (object "\x7d")
  else none

/-- An object behind braces that are closed, with braces in a string. -/
theorem pair_located :
    locate sampleRead (lead ++ (pairObject ++ " \x7d \x7b".toList)) =
      some (some ⟨11, (lead ++ pairObject).length, ocrCall "\x7b\x7d"⟩) := by
  have alone : ∀ part, part <:+: lead → (sampleRead part).bind callOfObject = none := by
    intro part inside
    have short := inside.length_le
    have long : 11 < pairObject.length ∧ 11 < closingObject.length := by decide +kernel
    have size : lead.length = 11 := by decide
    rw [size] at short
    have other : part ≠ pairObject ∧ part ≠ closingObject := by
      constructor
      · rintro rfl
        omega
      · rintro rfl
        omega
    rw [sampleRead, if_neg other.1, if_neg other.2]
    rfl
  have counts : Counts lead pairObject := by
    refine ⟨⟨"As \x7bname\x7d".toList, ": ".toList, by decide⟩, fun part inside => ?_,
      by decide +kernel, fun part inside => ?_⟩
    · have all : ∀ part ∈ (lead ++ pairObject).inits, InRange (balance part) := by
        decide +kernel
      exact all part ((List.mem_inits _ _).mpr inside)
    · have all : ∀ part ∈ pairObject.inits, part ≠ pairObject → part.getLast? = some '}' →
          balance (lead ++ part) ≠ 0 := by
        decide +kernel
      exact all part ((List.mem_inits _ _).mpr inside)
  exact (@locate_object_iff sampleRead _ pairObject _ (ocrCall "\x7b\x7d") (by decide +kernel)
    (by decide +kernel) (by rw [sampleRead, if_pos rfl]; rfl) alone).mpr counts

/-- A closing brace in front of an object or in a string of it hides the object. -/
theorem closing_hides :
    (locate sampleRead ("\x7d".toList ++ pairObject)).map (·.isSome) = some false ∧
      (locate sampleRead closingObject).map (·.isSome) = some false ∧
      (sampleRead closingObject).isSome = true := by
  decide +kernel

end ToolCallObjects

end Devit
