import Devit.Library.JsonBrackets

/-! The daemon's journal: a file with one entry a line, each with a code over itself
and the code of the entry before it. A journal that is opened counts from the start
again, whatever the file holds; what it has written last it only remembers when the
whole line was written and synced. -/
namespace Devit
open Text

structure JEntry where
  seq : Nat
  ts : UInt64
  ev : Text
  msgId : Text
  /-- `from`. -/
  sender : Text
  /-- `to`. -/
  recipient : Text
  /-- `meta`. -/
  metadata : Json
  prev : Text
  hash : Text

/-- What the journal takes from other crates. -/
structure JournalCrates where
  /-- HMAC-SHA256 of a text under a key. -/
  mac : List UInt8 → Text → List UInt8
  /-- Base 64. -/
  encode : List UInt8 → Text
  /-- `serde_json::from_str` of an entry. -/
  fromStr : Text → Option JEntry
  /-- What a value is read as that was written: the value, but for the last digits of
  floating-point numbers. -/
  reread : Json → Json

/-- How writing a line ends, and what is left in the file. -/
inductive Outcome where
  | written
  /-- An error, and nothing in the file. -/
  | lost
  /-- An error, and the first `n + 1` characters in the file, or so many of them as
  there are before the last one of the line. -/
  | torn (n : Nat)
  /-- An error, and the line in the file, with its newline or without. -/
  | unsynced (newline : Bool)
  deriving DecidableEq, Repr

def Outcome.left (line : Text) : Outcome → Text
  | .written => line ++ ['\n']
  | .lost => []
  | .torn n => line.dropLast.take (n + 1)
  | .unsynced true => line ++ ['\n']
  | .unsynced false => line

/-- A call of `append`: the time, the arguments, and how writing ends. -/
structure Attempt where
  ts : UInt64
  event : Text
  msgId : Text
  sender : Text
  recipient : Text
  metadata : Json
  outcome : Outcome

/-- What a journal keeps in memory besides its key. -/
structure Journal where
  seq : Nat
  lastHash : Text
  deriving DecidableEq

namespace Journal

/-- `serde_json::to_string` of an entry. -/
def line (entry : JEntry) : Text :=
  '{' :: (Json.renderString "seq".toList ++ ':' :: (printNat entry.seq ++ Json.renderFields [
    ("ts".toList, .unsigned entry.ts),
    ("ev".toList, .string entry.ev),
    ("msg_id".toList, .string entry.msgId),
    ("from".toList, .string entry.sender),
    ("to".toList, .string entry.recipient),
    ("meta".toList, entry.metadata),
    ("prev".toList, .string entry.prev),
    ("hash".toList, .string entry.hash)]))

def canonical (seq : Nat) (ts : UInt64) (event msgId sender recipient : Text) : Text :=
  join ['|'] [printNat seq, printNat ts.toNat, event, msgId, sender, recipient]

/-- What the code of an entry is made of, given the code before it. -/
def signedText (prev : Text) (entry : JEntry) : Text :=
  prev ++ canonical entry.seq entry.ts entry.ev entry.msgId entry.sender entry.recipient ++
    entry.metadata.render

/-- `Journal::open`. -/
def opened : Journal := ⟨0, []⟩

section
variable (crates : JournalCrates) (key : List UInt8)

/-- The code of a text, in base 64. -/
def code (text : Text) : Text := crates.encode (crates.mac key text)

/-- The entry that `append` makes of its arguments. -/
def entryOf (attempt : Attempt) (journal : Journal) : JEntry :=
  let entry : JEntry :=
    { seq := journal.seq + 1
      ts := attempt.ts
      ev := attempt.event
      msgId := attempt.msgId
      sender := attempt.sender
      recipient := attempt.recipient
      metadata := attempt.metadata
      prev := journal.lastHash
      hash := [] }
  { entry with hash := code crates key (signedText journal.lastHash entry) }

/-- `append`: the code of the new entry, the journal, and the file. -/
def append (attempt : Attempt) (journal : Journal) (file : Text) :
    Except Unit Text × Journal × Text :=
  let entry := entryOf crates key attempt journal
  let file := file ++ attempt.outcome.left (line entry)
  match attempt.outcome with
  | .written => (.ok entry.hash, ⟨journal.seq + 1, entry.hash⟩, file)
  | _ => (.error (), { journal with seq := journal.seq + 1 }, file)

/-- A session: the journal is opened and then appended to. -/
def session (attempts : List Attempt) (file : Text) : Journal × Text :=
  attempts.foldl (fun (journal, file) attempt => (append crates key attempt journal file).2)
    (opened, file)

/-- The file that some sessions leave. -/
def fileAfter (sessions : List (List Attempt)) : Text :=
  sessions.foldl (fun file attempts => (session crates key attempts file).2) []

/-- The loop of `verify_file`. -/
def verifyLines (prev : Text) (expected : Nat) : List Text → Except Unit Bool
  | [] => .ok true
  | text :: texts =>
    if trim text = [] then verifyLines prev expected texts
    else
      match crates.fromStr text with
      | none => .error ()
      | some entry =>
        if entry.seq ≠ expected then .ok false
        else if entry.prev ≠ prev then .ok false
        else if entry.hash ≠ code crates key (signedText prev entry) then .ok false
        else verifyLines entry.hash (expected + 1) texts

/-- `verify_file`. -/
def verifyFile (file : Text) : Except Unit Bool := verifyLines crates key [] 1 (lines file)

end

/-! ## Lines -/

theorem line_start (entry : JEntry) : ∃ more, line entry = '{' :: '"' :: 's' :: 'e' :: 'q' :: more :=
  ⟨_, rfl⟩

/-- The bracket that opens a line is closed by its last character. -/
theorem line_read (entry : JEntry) : ∃ inner, line entry = '{' :: (inner ++ ['}']) ∧
    Json.read (.plain 0) (inner ++ ['}']) = some .behind := by
  obtain ⟨front, last⟩ := Json.renderFields_last [
    ("ts".toList, .unsigned entry.ts),
    ("ev".toList, .string entry.ev),
    ("msg_id".toList, .string entry.msgId),
    ("from".toList, .string entry.sender),
    ("to".toList, .string entry.recipient),
    ("meta".toList, entry.metadata),
    ("prev".toList, .string entry.prev),
    ("hash".toList, .string entry.hash)]
  refine ⟨Json.renderString "seq".toList ++ ':' :: (printNat entry.seq ++ front), ?_, ?_⟩
  · rw [line, last]
    simp only [List.append_assoc, List.cons_append]
  · have closed : Json.read (.plain 0) (front ++ ['}']) = some .behind := by
      rw [← last, ← List.append_nil (Json.renderFields _), Json.read_renderFields]
      rfl
    have digits : ∀ c ∈ printNat entry.seq, Json.isPlainChar c = true := fun c member =>
      Json.isPlainChar_of_number (Json.isNumberChar_of_digit (printNat_isDigit member))
    rw [List.append_assoc, Json.read_renderString, List.cons_append, List.append_assoc, Json.read]
    simp only [@Json.next_plain ':' 0 (by decide), Option.bind_some]
    rw [Json.read_plain digits, closed]

theorem line_printable (entry : JEntry) : ∀ c ∈ line entry, 32 ≤ c.toNat := by
  intro c member
  simp only [line, List.mem_cons, List.mem_append] at member
  rcases member with rfl | inside | rfl | inside | inside
  · decide
  · exact Json.renderString_printable inside
  · decide
  · exact Json.isNumberChar_printable (Json.isNumberChar_of_digit (printNat_isDigit inside))
  · exact Json.renderFields_printable _ c inside

theorem line_one_line (entry : JEntry) : '\n' ∉ line entry := fun member =>
  absurd (line_printable entry _ member) (by decide)

/-! ## Assumptions on the crates -/

/-- Codes of different texts differ, none is the beginning of another one, and none
holds a bar. -/
structure Codes (crates : JournalCrates) (key : List UInt8) : Prop where
  injective : Function.Injective (code crates key)
  prefixFree : ∀ text text', code crates key text <+: code crates key text' →
    code crates key text = code crates key text'
  barless : ∀ text, '|' ∉ code crates key text

/-- A line is read as the entry it was written for, with the metadata as they are
reread, and nothing is read as an entry that is not one pair of brackets. -/
structure Reads (crates : JournalCrates) : Prop where
  line : ∀ entry, crates.fromStr (line entry) =
    some { entry with metadata := crates.reread entry.metadata }
  bracketed : ∀ text entry, crates.fromStr text = some entry → Json.Bracketed text

/-! ## The chain -/

variable {crates : JournalCrates} {key : List UInt8} {prev prev' : Text} {entry entry' : JEntry}

theorem Codes.ne_nil (codes : Codes crates key) (text : Text) : code crates key text ≠ [] := by
  intro none_left
  have all (text' : Text) : code crates key text = code crates key text' :=
    codes.prefixFree text text' (by rw [none_left]; exact List.nil_prefix)
  have two : ['0'] = ['1'] :=
    codes.injective ((all ['0']).symm.trans (all ['1']))
  exact absurd two (by decide)

/-- What can be the code before an entry with a number. -/
def Chained (crates : JournalCrates) (key : List UInt8) (prev : Text) (seq : Nat) : Prop :=
  (prev = [] ∧ seq = 1) ∨ ∃ text, prev = code crates key text

theorem Chained.barless (codes : Codes crates key) {seq : Nat} (chained : Chained crates key prev seq) :
    '|' ∉ prev := by
  rcases chained with ⟨rfl, -⟩ | ⟨text, rfl⟩
  · exact nofun
  · exact codes.barless text

/-- What follows the number of an entry in the text that is signed. -/
def fieldsText (entry : JEntry) : Text :=
  printNat entry.ts.toNat ++ '|' :: (entry.ev ++ '|' :: (entry.msgId ++ '|' :: (entry.sender ++ '|' ::
    (entry.recipient ++ entry.metadata.render))))

theorem signedText_eq (prev : Text) (entry : JEntry) :
    signedText prev entry = (prev ++ printNat entry.seq) ++ '|' :: fieldsText entry := by
  simp [signedText, canonical, fieldsText, join]

theorem printNat_barless (n : Nat) : '|' ∉ printNat n := fun member =>
  absurd (printNat_isDigit member) (by decide)

/-- **A code binds its place in the chain**: the code before, the number and the text of
the fields. -/
theorem chained_same (codes : Codes crates key) (chained : Chained crates key prev entry.seq)
    (chained' : Chained crates key prev' entry'.seq)
    (same : signedText prev entry = signedText prev' entry') :
    prev = prev' ∧ entry.seq = entry'.seq ∧ fieldsText entry = fieldsText entry' := by
  have cut {before : Text} {e : JEntry} (link : Chained crates key before e.seq) :
      splitFirst '|' (signedText before e) = some (before ++ printNat e.seq, fieldsText e) := by
    rw [signedText_eq]
    refine splitFirst_append _ fun member => ?_
    rcases List.mem_append.mp member with inside | digit
    · exact link.barless codes inside
    · exact printNat_barless _ digit
  have parts := cut chained
  rw [same, cut chained', Option.some.injEq, Prod.mk.injEq] at parts
  obtain ⟨front, fields⟩ := parts
  have digits (n : Nat) : 0 < (printNat n).length := List.length_pos_of_ne_nil (printNat_ne_nil n)
  have some_char (text : Text) : 0 < (code crates key text).length :=
    List.length_pos_of_ne_nil (codes.ne_nil text)
  have one : (printNat 1).length = 1 := rfl
  rcases chained with ⟨rfl, first⟩ | ⟨text, rfl⟩ <;> rcases chained' with ⟨rfl, first'⟩ | ⟨text', rfl⟩
  · exact ⟨rfl, first.trans first'.symm, fields.symm⟩
  · have lengths := congrArg List.length front
    have left := some_char text'
    have right := digits entry'.seq
    rw [List.nil_append, List.length_append, first, one] at lengths
    omega
  · have lengths := congrArg List.length front
    have left := some_char text
    have right := digits entry.seq
    rw [List.nil_append, List.length_append, first', one] at lengths
    omega
  · have equal : code crates key text = code crates key text' := by
      rcases List.append_eq_append_iff.mp front with ⟨more, shape, -⟩ | ⟨more, shape, -⟩
      · exact (codes.prefixFree text' text ⟨more, shape.symm⟩).symm
      · exact codes.prefixFree text text' ⟨more, shape.symm⟩
    rw [equal] at front ⊢
    exact ⟨rfl, (printNat_injective (List.append_cancel_left front)).symm, fields.symm⟩

/-! ## Crates that meet the assumptions -/

/-- A line gives its entry back. -/
theorem line_injective : Function.Injective line := by
  intro entry entry' same
  have fields := List.append_cancel_left (List.cons.inj same).2
  have behind := (List.cons.inj fields).2
  have cut (e : JEntry) (rest : List (Text × Json)) :
      (printNat e.seq ++ Json.renderFields rest).takeWhile isNumberChar = printNat e.seq := by
    refine Json.takeWhile_number (fun c member => ?_) ?_
    · exact Json.isNumberChar_of_digit (printNat_isDigit member)
    · simpa using Json.ends_fields rest []
  have numbers := congrArg (List.takeWhile isNumberChar) behind
  rw [cut, cut] at numbers
  rw [numbers] at behind
  have texts := congrArg (· ++ []) (List.append_cancel_left behind)
  have rest := (Json.renderFields_injective _ _ _ _ texts).1
  have number := printNat_injective numbers
  simp only [List.cons.injEq, Prod.mk.injEq, true_and, and_true, Json.unsigned.injEq,
    Json.string.injEq] at rest
  obtain ⟨ts, ev, msgId, sender, recipient, metadata, before, hash⟩ := rest
  cases entry
  cases entry'
  simp_all

open Classical in
/-- Codes that keep every character of a text, closed by a mark of their own, and a
reader of just the lines that are written. -/
noncomputable def plainJournal : JournalCrates where
  mac := fun key text => key.flatMap (fun b => [b / 128, b % 128]) ++ septets text ++ [255]
  encode := fun bytes => bytes.map fun b => Char.ofNat (256 + b.toNat)
  fromStr := fun text => if read : ∃ entry, line entry = text then some read.choose else none
  reread := id

theorem plainJournal_reads : Reads plainJournal := by
  constructor
  · intro entry
    have written : ∃ other, line other = line entry := ⟨entry, rfl⟩
    have same := line_injective written.choose_spec
    simp only [plainJournal, dif_pos written, same]
    rfl
  · intro text entry read
    simp only [plainJournal] at read
    split at read
    · rename_i written
      obtain ⟨other, rfl⟩ := written
      obtain ⟨inner, shape, closed⟩ := line_read other
      exact ⟨[], '{', inner ++ ['}'], shape, nofun, rfl, closed⟩
    · cases read

theorem byteChar_toNat (b : UInt8) : (Char.ofNat (256 + b.toNat)).toNat = 256 + b.toNat := by
  have bound := b.toNat_lt
  have valid : (256 + b.toNat).isValidChar := .inl (by omega)
  rw [Char.ofNat, dif_pos valid]
  rfl

/-- A code but for its mark. -/
def unmarked (key : List UInt8) (text : Text) : Text :=
  (key.flatMap (fun b => [b / 128, b % 128]) ++ septets text).map fun b : UInt8 =>
    Char.ofNat (256 + b.toNat)

theorem plainJournal_code (key : List UInt8) (text : Text) :
    code plainJournal key text = unmarked key text ++ [Char.ofNat 511] := by
  simp only [code, plainJournal, unmarked, List.map_append, List.map_singleton]
  rfl

theorem unmarked_injective (key : List UInt8) : Function.Injective (unmarked key) := by
  intro text text' same
  have bytes : Function.Injective fun b : UInt8 => Char.ofNat (256 + b.toNat) := by
    intro b b' equal
    have numbers := congrArg Char.toNat equal
    simp only [byteChar_toNat] at numbers
    exact UInt8.toNat.inj (by omega)
  have joined := List.map_injective_iff.mpr bytes same
  exact septets_injective (List.append_cancel_left joined)

/-- The characters before the mark are beyond the bar and are not the mark. -/
theorem unmarked_range {key : List UInt8} {text : Text} {c : Char} (member : c ∈ unmarked key text) :
    256 ≤ c.toNat ∧ c.toNat < 384 := by
  obtain ⟨b, inside, rfl⟩ := List.mem_map.mp member
  rw [byteChar_toNat]
  have small : b.toNat < 128 := by
    rcases List.mem_append.mp inside with keyed | texted
    · obtain ⟨k, -, half⟩ := List.mem_flatMap.mp keyed
      have bound := k.toNat_lt
      simp only [List.mem_cons, List.not_mem_nil, or_false] at half
      rcases half with rfl | rfl
      · rw [UInt8.toNat_div, show (128 : UInt8).toNat = 128 from rfl]
        omega
      · rw [UInt8.toNat_mod, show (128 : UInt8).toNat = 128 from rfl]
        omega
    · exact septets_lt texted
  omega

theorem plainJournal_codes (key : List UInt8) : Codes plainJournal key := by
  have marked (text : Text) (rest : Text) :
      splitFirst (Char.ofNat 511) (code plainJournal key text ++ rest) =
        some (unmarked key text, rest) := by
    rw [plainJournal_code, List.append_assoc]
    refine splitFirst_append rest fun member => ?_
    have range := unmarked_range member
    rw [show (Char.ofNat 511).toNat = 511 from rfl] at range
    omega
  have same_of (text text' rest : Text)
      (same : code plainJournal key text' = code plainJournal key text ++ rest) : text = text' := by
    have found := marked text' []
    rw [List.append_nil, same, marked text rest, Option.some.injEq, Prod.mk.injEq] at found
    exact unmarked_injective key found.1
  refine ⟨fun text text' same => ?_, fun text text' part => ?_, fun text member => ?_⟩
  · exact same_of text text' [] (by rw [List.append_nil]; exact same.symm)
  · obtain ⟨rest, whole⟩ := part
    rw [same_of text text' rest whole.symm]
  · rw [plainJournal_code] at member
    rcases List.mem_append.mp member with inside | mark
    · have range := unmarked_range inside
      rw [show '|'.toNat = 124 from rfl] at range
      omega
    · exact absurd (List.mem_singleton.mp mark) (by decide)

end Journal

end Devit
