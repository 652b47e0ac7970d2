import Devit.JournalContinuity
import Mathlib.Data.List.Forall2

/-! What the code of a journal's last entry is evidence of. A file that is verified and
ends in that code has as many entries as were appended, with the same numbers, times,
codes and signed texts. The texts give the fields back where these hold no bars and the
metadata are in brackets. Which journal the file is of, only that code tells. -/
namespace Devit
open Text

namespace JournalEvidence
open Journal JournalContinuity

section
variable (crates : JournalCrates) (key : List UInt8)

/-- The entries that verification reads. -/
def entriesOf (file : Text) : List JEntry :=
  ((lines file).filter (trim · ≠ [])).filterMap crates.fromStr

/-- The entries that a session appends. -/
def appended (journal : Journal) : List Attempt → List JEntry
  | [] => []
  | attempt :: attempts =>
    entryOf crates key attempt journal ::
      appended (append crates key attempt journal []).2.1 attempts

end

/-- The code of the last entry. -/
def lastCode (entries : List JEntry) : Text := (entries.getLast?.map JEntry.hash).getD []

/-- The fields before the metadata. -/
def names (entry : JEntry) : List Text := [entry.ev, entry.msgId, entry.sender, entry.recipient]

/-- What a code binds of an entry. -/
def Bound (entry entry' : JEntry) : Prop :=
  entry'.seq = entry.seq ∧ entry'.ts = entry.ts ∧ entry'.prev = entry.prev ∧
    entry'.hash = entry.hash ∧
    join ['|'] (names entry') ++ entry'.metadata.render =
      join ['|'] (names entry) ++ entry.metadata.render

/-- A record without bars, and with its metadata in brackets. -/
structure Plain (attempt : Attempt) : Prop where
  barless : ∀ name ∈ [attempt.event, attempt.msgId, attempt.sender, attempt.recipient], '|' ∉ name
  bracketed : attempt.metadata.isCompound = true

/-- Entries that are numbered from one, each with the code of the one before it and the
code of itself. -/
inductive Chain (crates : JournalCrates) (key : List UInt8) : List JEntry → Prop
  | nil : Chain crates key []
  | concat {entries : List JEntry} {entry : JEntry} (before : Chain crates key entries)
      (number : entry.seq = entries.length + 1) (link : entry.prev = lastCode entries)
      (hash : entry.hash = code crates key (signedText (lastCode entries) entry)) :
      Chain crates key (entries ++ [entry])

variable {crates : JournalCrates} {key : List UInt8} {entries entries' : List JEntry}
  {entry entry' : JEntry}

theorem lastCode_concat (entries : List JEntry) (entry : JEntry) :
    lastCode (entries ++ [entry]) = entry.hash := by
  simp [lastCode]

/-- A verified file holds a chain. -/
theorem chain_of_verified {texts : List Text} (before : Chain crates key entries)
    (accepted : verifyLines crates key (lastCode entries) (entries.length + 1) texts = .ok true) :
    Chain crates key
      (entries ++ (texts.filter (trim · ≠ [])).filterMap crates.fromStr) := by
  induction texts generalizing entries with
  | nil => simpa using before
  | cons text texts ih =>
    rw [verifyLines] at accepted
    by_cases blank : trim text = []
    · rw [if_pos blank] at accepted
      rw [List.filter_cons_of_neg (by simpa using blank)]
      exact ih before accepted
    · rw [if_neg blank] at accepted
      rw [List.filter_cons_of_pos (by simpa using blank)]
      cases found : crates.fromStr text with
      | none =>
        rw [found] at accepted
        cases accepted
      | some entry =>
        rw [found] at accepted
        simp only at accepted
        split at accepted
        · cases accepted
        split at accepted
        · cases accepted
        split at accepted
        · cases accepted
        rename_i number link hash
        have longer := before.concat (not_not.mp number) (not_not.mp link) (not_not.mp hash)
        rw [List.filterMap_cons_some found, ← List.singleton_append, ← List.append_assoc]
        refine ih longer ?_
        rwa [lastCode_concat, List.length_append]

/-- And so do the entries of a session. -/
theorem chain_appended {journal : Journal} {attempts : List Attempt}
    (written : ∀ attempt ∈ attempts, attempt.outcome = .written) (before : Chain crates key entries)
    (number : journal.seq = entries.length) (link : journal.lastHash = lastCode entries) :
    Chain crates key (entries ++ appended crates key journal attempts) := by
  induction attempts generalizing journal entries with
  | nil => simpa [appended] using before
  | cons attempt attempts ih =>
    obtain ⟨here, later⟩ := List.forall_mem_cons.mp written
    have longer : Chain crates key (entries ++ [entryOf crates key attempt journal]) := by
      refine before.concat (congrArg (· + 1) number) link ?_
      rw [← link]
      rfl
    rw [appended, ← List.singleton_append, ← List.append_assoc]
    rw [append_snd, here, if_pos rfl]
    refine ih later longer ?_ ?_
    · rw [List.length_append, number]
      rfl
    · rw [lastCode_concat]

/-- What a session leaves, when nothing fails: a line for each entry, and the code of
the last one. -/
theorem session_written {attempts : List Attempt}
    (written : ∀ attempt ∈ attempts, attempt.outcome = .written) :
    (session crates key attempts []).1.lastHash = lastCode (appended crates key opened attempts) ∧
      (session crates key attempts []).2 =
        unlines ((appended crates key opened attempts).map line) := by
  have from_ (journal : Journal) (file : Text) (entries : List JEntry)
      (link : journal.lastHash = lastCode entries) :
      let reached := attempts.foldl
        (fun reached attempt => (append crates key attempt reached.1 reached.2).2) (journal, file)
      reached.1.lastHash = lastCode (entries ++ appended crates key journal attempts) ∧
        reached.2 = file ++ unlines ((appended crates key journal attempts).map line) := by
    induction attempts generalizing journal file entries with
    | nil => simpa [appended, unlines] using link
    | cons attempt attempts ih =>
      obtain ⟨here, later⟩ := List.forall_mem_cons.mp written
      have next : (append crates key attempt journal file).2 =
          ((append crates key attempt journal []).2.1,
            file ++ (line (entryOf crates key attempt journal) ++ ['\n'])) := by
        rw [append_snd, append_snd, here]
        rfl
      obtain ⟨hash, shape⟩ := ih later (append crates key attempt journal []).2.1
        (file ++ (line (entryOf crates key attempt journal) ++ ['\n']))
        (entries ++ [entryOf crates key attempt journal]) (by
          rw [lastCode_concat, append_snd, here, if_pos rfl])
      simp only [List.foldl_cons, next]
      refine ⟨?_, ?_⟩
      · rw [hash, List.append_assoc, List.singleton_append, appended]
      · rw [shape, appended, List.map_cons, unlines, unlines, List.flatMap_cons, List.append_assoc]
  exact from_ opened [] [] rfl

theorem session_lines {attempts : List Attempt}
    (written : ∀ attempt ∈ attempts, attempt.outcome = .written) :
    lines (session crates key attempts []).2 = (appended crates key opened attempts).map line := by
  rw [(session_written written).2]
  refine lines_whole fun text member => ?_
  obtain ⟨entry, -, rfl⟩ := List.mem_map.mp member
  exact lined_line entry

theorem appended_metadata {journal : Journal} {attempts : List Attempt} {entry : JEntry}
    (member : entry ∈ appended crates key journal attempts) :
    ∃ attempt ∈ attempts, entry.metadata = attempt.metadata := by
  induction attempts generalizing journal with
  | nil => cases member
  | cons attempt attempts ih =>
    rcases List.mem_cons.mp member with rfl | later
    · exact ⟨attempt, List.mem_cons_self, rfl⟩
    · obtain ⟨other, inside, same⟩ := ih later
      exact ⟨other, List.mem_cons_of_mem _ inside, same⟩

/-- **A session in which nothing fails reads back**: its file is verified, and holds the
entries that were appended. -/
theorem session_reads_back (codes : Codes crates key) (reads : Reads crates)
    {attempts : List Attempt} (written : ∀ attempt ∈ attempts, attempt.outcome = .written)
    (kept : ∀ attempt ∈ attempts, crates.reread attempt.metadata = attempt.metadata) :
    verifyFile crates key (session crates key attempts []).2 = .ok true ∧
      entriesOf crates (session crates key attempts []).2 = appended crates key opened attempts := by
  constructor
  · have steady : Steady crates [] attempts := by
      intro earlier attempt within _
      have inside := within.subset
      have here := inside (List.mem_append_right _ (List.mem_singleton.mpr rfl))
      exact ⟨nofun, fun other member => written other (inside (List.mem_append_left _ member)),
        .inl (written attempt here), kept attempt here⟩
    have start := (fileAfter_worth codes reads []).start continuous_nil
    exact ((session_standing codes reads start attempts).inStep steady nofun written).verified
  · rw [entriesOf, session_lines written, List.filter_eq_self.mpr, List.filterMap_map]
    · refine (List.filterMap_congr fun entry member => ?_).trans List.filterMap_some
      obtain ⟨attempt, inside, same⟩ := appended_metadata member
      rw [Function.comp_apply, reads.line, same, kept attempt inside, ← same]
    · intro text member
      obtain ⟨entry, -, rfl⟩ := List.mem_map.mp member
      simpa using (lined_line entry).not_blank

/-! ## What a code binds -/

theorem fieldsText_eq (entry : JEntry) : fieldsText entry =
    printNat entry.ts.toNat ++ '|' :: (join ['|'] (names entry) ++ entry.metadata.render) := by
  simp [fieldsText, names, join]

theorem bound_of_signed (number : entry'.seq = entry.seq) (link : entry'.prev = entry.prev)
    (hash : entry'.hash = entry.hash) (fields : fieldsText entry' = fieldsText entry) :
    Bound entry entry' := by
  have cut (e : JEntry) : splitFirst '|' (fieldsText e) =
      some (printNat e.ts.toNat, join ['|'] (names e) ++ e.metadata.render) := by
    rw [fieldsText_eq]
    exact splitFirst_append _ (printNat_barless _)
  have parts := cut entry'
  rw [fields, cut entry, Option.some.injEq, Prod.mk.injEq] at parts
  exact ⟨number, (UInt64.toNat.inj (printNat_injective parts.1)).symm, link, hash, parts.2.symm⟩

theorem Chain.chained (chain : Chain crates key entries) :
    Chained crates key (lastCode entries) (entries.length + 1) := by
  cases chain with
  | nil => exact .inl ⟨rfl, rfl⟩
  | concat before number link hash =>
    rw [lastCode_concat, hash]
    exact .inr ⟨_, rfl⟩

/-- **The last code binds the chain.** -/
theorem Chain.bound (codes : Codes crates key) (chain : Chain crates key entries)
    (chain' : Chain crates key entries') (anchored : lastCode entries' = lastCode entries) :
    List.Forall₂ Bound entries entries' := by
  induction chain generalizing entries' with
  | nil =>
    cases chain' with
    | nil => exact .nil
    | concat before number link hash =>
      rw [lastCode_concat, hash] at anchored
      exact absurd anchored (codes.ne_nil _)
  | @concat entries entry before number link hash ih =>
    cases chain' with
    | nil =>
      rw [lastCode_concat, hash] at anchored
      exact absurd anchored.symm (codes.ne_nil _)
    | @concat entries' entry' before' number' link' hash' =>
      rw [lastCode_concat, lastCode_concat] at anchored
      have texts := codes.injective (hash'.symm.trans (anchored.trans hash))
      have chained := before.chained
      have chained' := before'.chained
      rw [← number] at chained
      rw [← number'] at chained'
      obtain ⟨earlier, numbers, fields⟩ := chained_same codes chained' chained texts
      refine List.rel_append (ih before' earlier) (.cons ?_ .nil)
      exact bound_of_signed numbers (by rw [link', link, earlier]) anchored fields

/-- What is bound of an entry without bars, and with its metadata in brackets, is the
entry. -/
theorem Bound.same (bound : Bound entry entry') (barless : ∀ name ∈ names entry, '|' ∉ name)
    (bracketed : entry.metadata.isCompound = true) : entry' = entry := by
  obtain ⟨seq, ts, link, hash, fields⟩ := bound
  obtain ⟨joined, metadata⟩ := Json.append_compound_injective bracketed fields.symm
  have equal : names entry' = names entry := join_injective barless rfl joined.symm
  simp only [names, List.cons.injEq, and_true] at equal
  obtain ⟨ev, msgId, sender, recipient⟩ := equal
  cases entry
  cases entry'
  simp_all

theorem appended_plain {journal : Journal} {attempts : List Attempt}
    (plain : ∀ attempt ∈ attempts, Plain attempt) : ∀ entry ∈ appended crates key journal attempts,
      (∀ name ∈ names entry, '|' ∉ name) ∧ entry.metadata.isCompound = true := by
  induction attempts generalizing journal with
  | nil => exact nofun
  | cons attempt attempts ih =>
    obtain ⟨here, later⟩ := List.forall_mem_cons.mp plain
    exact List.forall_mem_cons.mpr ⟨⟨here.barless, here.bracketed⟩, ih later⟩

theorem same_of_bound (bound : List.Forall₂ Bound entries entries')
    (plain : ∀ entry ∈ entries, (∀ name ∈ names entry, '|' ∉ name) ∧
      entry.metadata.isCompound = true) : entries' = entries := by
  induction bound with
  | nil => rfl
  | cons head _ ih =>
    obtain ⟨here, later⟩ := List.forall_mem_cons.mp plain
    rw [head.same here.1 here.2, ih later]

/-- **A verified file that ends in the journal's last code is the journal**: it holds as
many entries, each bound to the one that was appended, and the very entries where these
hold no bars and their metadata are in brackets. -/
theorem anchored_file_unchanged (crates : JournalCrates) (key : List UInt8)
    (codes : Codes crates key) (attempts : List Attempt)
    (written : ∀ attempt ∈ attempts, attempt.outcome = .written) (file : Text)
    (accepted : verifyFile crates key file = .ok true)
    (anchored : lastCode (entriesOf crates file) = (session crates key attempts []).1.lastHash) :
    List.Forall₂ Bound (appended crates key opened attempts) (entriesOf crates file) ∧
      ((∀ attempt ∈ attempts, Plain attempt) →
        entriesOf crates file = appended crates key opened attempts) := by
  have own : Chain crates key (appended crates key opened attempts) := chain_appended written .nil rfl rfl
  have other : Chain crates key (entriesOf crates file) := chain_of_verified .nil accepted
  rw [(session_written written).1] at anchored
  have bound := own.bound codes other anchored
  refine ⟨bound, fun plain => ?_⟩
  exact same_of_bound bound (appended_plain plain)

/-! ## Another journal under the same key -/

/-- A notification is journalled. -/
def notification : Attempt where
  ts := 1
  event := "NOTIFY".toList
  msgId := "task-123".toList
  sender := "worker:code".toList
  recipient := "client:smart".toList
  metadata := .object [("status".toList, .string "completed".toList)]
  outcome := .written

/-- The file of another journal with one entry is verified as well. -/
theorem other_journal_accepted : Codes plainJournal [1] ∧
    verifyFile plainJournal [1] (session plainJournal [1] [notification] []).2 = .ok true ∧
    (lines (session plainJournal [1] [notification] []).2).length =
      (lines (session plainJournal [1] [delegation .written] []).2).length ∧
    entriesOf plainJournal (session plainJournal [1] [notification] []).2 ≠
      appended plainJournal [1] opened [delegation .written] := by
  obtain ⟨accepted, entries⟩ := session_reads_back (plainJournal_codes [1]) plainJournal_reads
    (List.forall_mem_singleton.mpr (show notification.outcome = .written from rfl)) (fun _ _ => rfl)
  have one_line (attempt : Attempt) (written : attempt.outcome = .written) :
      (lines (session plainJournal [1] [attempt] []).2).length = 1 := by
    rw [session_lines (List.forall_mem_singleton.mpr written)]
    rfl
  refine ⟨plainJournal_codes [1], accepted, (one_line _ rfl).trans (one_line _ rfl).symm, ?_⟩
  rw [entries]
  intro same
  exact absurd (congrArg JEntry.ev (List.cons.inj same).1) (by decide)

/-- A journal's own file is unchanged. -/
theorem own_file_unchanged : entriesOf plainJournal
      (session plainJournal [1] [delegation .written] []).2 =
    appended plainJournal [1] opened [delegation .written] := by
  have written : ∀ attempt ∈ [delegation .written], attempt.outcome = .written :=
    List.forall_mem_singleton.mpr rfl
  obtain ⟨accepted, entries⟩ := session_reads_back (plainJournal_codes [1]) plainJournal_reads
    written (fun _ _ => rfl)
  refine (anchored_file_unchanged plainJournal [1] (plainJournal_codes [1]) _ written _ accepted
    ?_).2 (List.forall_mem_singleton.mpr ⟨by decide, rfl⟩)
  rw [entries, (session_written written).1]

end JournalEvidence

end Devit
