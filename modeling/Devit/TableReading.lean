import Devit.TableRows

/-! Reading tables back. A row is read exactly if no field but its last ends in a backslash; it
stands on one line exactly if none has a newline. -/
namespace Devit
open Text

namespace TableRows

/-- The lines of a table. -/
def tableLines (table : Text) : List Text :=
  (splitInclusive table).map fun piece => (stripLast '\n' piece).getD piece

/-- A row is cut at the bars that no backslash stands before, and each field unescaped. -/
def readRow (row : Text) : List Text :=
  (cutFields '\\' '|' row).map (unescapeSeparators '\\' '|')

def readTable (table : Text) : List (List Text) := (tableLines table).map readRow

theorem apart : '\\' ≠ '|' := by decide

/-! ## Lines -/

theorem tableLines_unlines {rows : List Text} (clean : ∀ row ∈ rows, '\n' ∉ row) :
    tableLines (unlines rows) = rows := by
  have pieces := splitInclusive_unlines_append clean []
  rw [List.append_nil] at pieces
  rw [tableLines, pieces, show splitInclusive [] = [] from rfl, List.append_nil, List.map_map]
  refine (List.map_congr_left fun row _ => ?_).trans (List.map_id rows)
  rw [Function.comp_apply, stripLast_append]
  rfl

theorem length_splitInclusive (line rest : Text) :
    (splitInclusive (line ++ '\n' :: rest)).length =
      line.count '\n' + 1 + (splitInclusive rest).length := by
  induction line with
  | nil => simp [splitInclusive, Nat.add_comm]
  | cons c line ih =>
    rw [List.cons_append, splitInclusive]
    split
    · rename_i newline
      rw [List.length_cons, ih, newline, List.count_cons_self]
      omega
    · rename_i other
      rw [List.count_cons_of_ne other]
      cases pieces : splitInclusive (line ++ '\n' :: rest) with
      | nil =>
        rw [pieces] at ih
        exact absurd ih (by simp; omega)
      | cons piece pieces' =>
        rw [pieces] at ih
        exact ih

/-- Each row is one line of the table exactly if none has a newline. -/
theorem length_tableLines_le (rows : List Text) :
    rows.length ≤ (tableLines (unlines rows)).length ∧
      ((tableLines (unlines rows)).length = rows.length → ∀ row ∈ rows, '\n' ∉ row) := by
  unfold tableLines
  rw [List.length_map]
  induction rows with
  | nil => exact ⟨Nat.le_refl 0, fun _ row member => absurd member List.not_mem_nil⟩
  | cons row rows ih =>
    have split : unlines (row :: rows) = row ++ '\n' :: unlines rows := by
      rw [unlines, List.flatMap_cons, List.append_assoc]
      rfl
    rw [split, length_splitInclusive, List.length_cons]
    obtain ⟨most, each⟩ := ih
    refine ⟨by omega, fun same => List.forall_mem_cons.mpr ⟨?_, each (by omega)⟩⟩
    exact List.count_eq_zero.mp (by omega)

/-! ## Rows -/

/-- The field is on one line, and does not end in a backslash. -/
def Plain (field : Text) : Prop := '\n' ∉ field ∧ field.getLast? ≠ some '\\'

theorem mem_join {c sep : Char} {parts : List Text} (other : c ≠ sep) :
    c ∈ join [sep] parts ↔ ∃ part ∈ parts, c ∈ part := by
  induction parts with
  | nil => simp [join]
  | cons part parts ih =>
    by_cases more : parts = []
    · simp [more, join]
    · rw [join_cons more, List.mem_append, List.mem_append, ih, List.mem_singleton,
        or_iff_left other, List.exists_mem_cons_iff]

theorem mem_joinFields {fields : List Text} :
    '\n' ∈ joinFields '\\' '|' fields ↔ ∃ field ∈ fields, '\n' ∈ field := by
  rw [joinFields, mem_join (by decide)]
  constructor
  · rintro ⟨part, member, newline⟩
    obtain ⟨field, inside, rfl⟩ := List.mem_map.mp member
    exact ⟨field, inside, (mem_escape (by decide)).mp newline⟩
  · rintro ⟨field, inside, newline⟩
    exact ⟨_, List.mem_map_of_mem inside, (mem_escape (by decide)).mpr newline⟩

/-- Rows of which none has a newline are read one by one. -/
theorem readTable_rows {header : Text} {rows : List Text} {headers : List Text}
    (first : '\n' ∉ header) (read : readRow header = headers)
    (clean : ∀ row ∈ rows, '\n' ∉ row) :
    readTable (header ++ ['\n'] ++ unlines rows) = headers :: rows.map readRow := by
  have lines := tableLines_unlines (List.forall_mem_cons.mpr ⟨first, clean⟩)
  rw [unlines, List.flatMap_cons] at lines
  rw [readTable, unlines, lines, List.map_cons, read]

/-! ## File entries -/

variable {entry : FileEntry} {entries : List FileEntry}

theorem typeText_plain (kind : FileType) : Plain (typeText kind).toList := by
  unfold Plain
  cases kind <;> decide

theorem printNat_plain (n : Nat) : Plain (printNat n) := by
  refine ⟨fun newline => absurd (printNat_isDigit newline) (by decide), fun last => ?_⟩
  exact absurd (printNat_isDigit (List.mem_of_getLast? last)) (by decide)

theorem sizeText_plain (size : Option UInt64) : Plain (sizeText size) := by
  unfold Plain
  cases size with
  | none => decide
  | some n => exact printNat_plain n.toNat

theorem mem_permText {p : FilePermissions} {c : Char} (member : c ∈ permText p) :
    c ∈ ['r', 'w', 'x', '-'] := by
  obtain ⟨readable, writable, executable⟩ := p
  cases readable <;> cases writable <;> cases executable <;> simp [permText] at member ⊢ <;> tauto

/-- The permissions are the end of the row. -/
theorem row_ends (entry : FileEntry) :
    ∃ before, entry.row = before ++ permText entry.permissions := by
  have same : escapeSeparators '\\' '|' (permText entry.permissions) =
      permText entry.permissions :=
    escape_absent fun bar => absurd (mem_permText bar) (by decide)
  refine ⟨escapeSeparators '\\' '|' entry.name ++ '|' ::
    (escapeSeparators '\\' '|' entry.path.text ++ '|' ::
      (escapeSeparators '\\' '|' (typeText entry.entryType).toList ++ '|' ::
        (escapeSeparators '\\' '|' (sizeText entry.size) ++ ['|']))), ?_⟩
  simp [FileEntry.row, FileEntry.values, joinFields, join, same]

/-- **An entry.** Its line is read as its values exactly if its name and path are plain. -/
theorem readRow_line : readRow entry.line = entry.values ↔
    Plain entry.name ∧ Plain entry.path.text := by
  have front : entry.row = joinFields '\\' '|' [entry.name, entry.path.text] ++ '|' ::
      joinFields '\\' '|' [(typeText entry.entryType).toList, sizeText entry.size,
        permText entry.permissions] := by
    simp [FileEntry.row, FileEntry.values, joinFields, join]
  by_cases newline : '\n' ∈ joinFields '\\' '|' [entry.name, entry.path.text]
  · have cut : entry.row.takeWhile (· ≠ '\n') =
        (joinFields '\\' '|' [entry.name, entry.path.text]).takeWhile (· ≠ '\n') := by
      rw [front, List.takeWhile_append, if_neg]
      intro whole
      have same := (List.takeWhile_prefix _).eq_of_length whole
      rw [← same] at newline
      exact not_mem_takeWhile _ newline
    refine iff_of_false (fun read => ?_) fun both => ?_
    · obtain ⟨back, shape, -⟩ := chopCr_rest (entry.row.takeWhile (· ≠ '\n'))
      rw [cut] at shape
      have whole := List.takeWhile_append_dropWhile (p := (· ≠ '\n'))
        (l := joinFields '\\' '|' [entry.name, entry.path.text])
      rw [shape, List.append_assoc] at whole
      have few := length_cutFields_le apart (List.cons_ne_nil entry.name [entry.path.text])
      rw [← whole] at few
      have most := Nat.le_trans (length_cutFrom_append false _ _) few
      have sizes := congrArg List.length read
      rw [readRow, List.length_map, FileEntry.line, cut, cutFields] at sizes
      rw [sizes] at most
      exact absurd most (by simp [FileEntry.values])
    · obtain ⟨field, member, inside⟩ := mem_joinFields.mp newline
      rcases List.mem_pair.mp member with rfl | rfl
      · exact both.1.1 inside
      · exact both.2.1 inside
  · have clean : '\n' ∉ entry.row := by
      rw [front, List.mem_append, not_or]
      refine ⟨newline, List.not_mem_cons_of_ne_of_not_mem (by decide) fun inside => ?_⟩
      obtain ⟨field, member, here⟩ := mem_joinFields.mp inside
      simp only [List.mem_cons, List.not_mem_nil, or_false] at member
      rcases member with rfl | rfl | rfl
      · exact (typeText_plain _).1 here
      · exact (sizeText_plain _).1 here
      · exact absurd (mem_permText here) (by decide)
    have line : entry.line = entry.row := by
      have whole : entry.row.takeWhile (· ≠ '\n') = entry.row :=
        List.takeWhile_eq_self_iff.mpr fun c member =>
          decide_eq_true fun same => clean (same ▸ member)
      rw [FileEntry.line, whole, chopCr_eq_self]
      intro last
      obtain ⟨before, ends⟩ := row_ends entry
      rw [ends, List.getLast?_append] at last
      have shown : (permText entry.permissions).getLast? = some '\r' := last
      exact absurd (mem_permText (List.mem_of_getLast? shown)) (by decide)
    rw [line, FileEntry.row, readRow,
      cutFields_joinFields apart (show entry.values ≠ [] from List.cons_ne_nil _ _)]
    have alone : ∀ field ∈ [entry.name, entry.path.text], '\n' ∉ field := fun field member inside =>
      newline (mem_joinFields.mpr ⟨field, member, inside⟩)
    simp only [List.forall_mem_cons] at alone
    simp only [FileEntry.values, Plain, List.dropLast_cons_cons, List.dropLast_singleton,
      List.forall_mem_cons, alone.1, alone.2.1]
    constructor
    · rintro ⟨name, path, -⟩
      exact ⟨⟨id, name⟩, id, path⟩
    · rintro ⟨name, path⟩
      refine ⟨name.2, path.2, (typeText_plain _).2, (sizeText_plain _).2, ?_⟩
      exact fun field member => absurd member List.not_mem_nil

/-- Every row of the table of the entries is read as what its entry shows, one line an entry. -/
def EntriesRead (entries : List FileEntry) : Prop :=
  ∀ table, entriesToFormat entries = .ok table →
    readTable table = entryHeaders.map String.toList :: entries.map FileEntry.values

theorem readTable_entries :
    readTable (entriesHeader ++ unlines (entries.map FileEntry.line)) =
      entryHeaders.map String.toList :: entries.map fun entry => readRow entry.line := by
  have read : readRow "name|path|type|size|permissions".toList =
      entryHeaders.map String.toList := by decide +kernel
  have header : entriesHeader = "name|path|type|size|permissions".toList ++ ['\n'] := by
    decide +kernel
  rw [header, readTable_rows (by decide) read, List.map_map]
  · rfl
  · intro row member
    obtain ⟨entry, -, rfl⟩ := List.mem_map.mp member
    exact fun inside => not_mem_takeWhile _ (chopCr_subset _ inside)

theorem entries_read_iff : EntriesRead entries ↔
    (∃ entry ∈ entries, ¬ entry.Dated) ∨
      ∀ entry ∈ entries, Plain entry.name ∧ Plain entry.path.text := by
  have each : (∀ entry ∈ entries, Plain entry.name ∧ Plain entry.path.text) ↔
      readTable (entriesHeader ++ unlines (entries.map FileEntry.line)) =
        entryHeaders.map String.toList :: entries.map FileEntry.values := by
    rw [readTable_entries, List.cons.injEq, and_iff_right rfl, List.map_inj_left]
    exact forall₂_congr fun entry _ => readRow_line.symm
  rw [each]
  by_cases dated : ∀ entry ∈ entries, entry.Dated
  · have all_dated : ¬ ∃ entry ∈ entries, ¬ entry.Dated := fun ⟨entry, member, undated⟩ =>
      undated (dated entry member)
    rw [or_iff_right all_dated]
    constructor
    · exact fun read => read _ (entriesToFormat_eq_ok.mpr ⟨dated, rfl⟩)
    · rintro read table made
      rw [(entriesToFormat_eq_ok.mp made).2, read]
  · refine iff_of_true (fun table made => ?_) (.inl ?_)
    · exact absurd (entriesToFormat_eq_ok.mp made).1 dated
    · simpa only [not_forall, exists_prop] using dated

theorem sizeText_injective {size size' : Option UInt64} (same : sizeText size = sizeText size') :
    size = size' := by
  have digit : ∀ n, sizeText none ≠ printNat n := by
    intro n null
    have letter : 'n' ∈ printNat n := by
      rw [← null]
      decide
    exact absurd (printNat_isDigit letter) (by decide)
  cases size with
  | none =>
    cases size' with
    | none => rfl
    | some n' => exact absurd same (digit n'.toNat)
  | some n =>
    cases size' with
    | none => exact absurd same.symm (digit n.toNat)
    | some n' => exact congrArg some (UInt64.toNat_inj.mp (printNat_injective same))

/-- What an entry shows determines it but for its time. -/
theorem values_injective {entry' : FileEntry} (same : entry.values = entry'.values) :
    { entry with modified := none } = { entry' with modified := none } := by
  obtain ⟨name, path, entryType, size, modified, permissions⟩ := entry
  obtain ⟨name', path', entryType', size', modified', permissions'⟩ := entry'
  simp only [FileEntry.values, List.cons.injEq, and_true] at same
  obtain ⟨rfl, paths, types, sizes, perms⟩ := same
  have path_eq : path = path' := by
    cases path
    cases path'
    exact congrArg PathBuf.mk paths
  have type_eq : entryType = entryType' := by
    cases entryType <;> cases entryType' <;> first | rfl | exact absurd types (by decide)
  have perm_eq : permissions = permissions' := by
    obtain ⟨r, w, x⟩ := permissions
    obtain ⟨r', w', x'⟩ := permissions'
    revert perms
    cases r <;> cases w <;> cases x <;> cases r' <;> cases w' <;> cases x' <;>
      first | exact fun _ => rfl | exact fun perms => absurd perms (by decide)
  rw [path_eq, type_eq, sizeText_injective sizes, perm_eq]

/-! ## Matches -/

variable {m : SearchMatch} {results : FileExploration.SearchResults}

/-- Every row of the table of the results is read as what its match shows, one line a match. -/
def ResultsRead (results : FileExploration.SearchResults) : Prop :=
  readTable (resultsToFormat results) =
    searchHeaders.map String.toList :: results.«matches».map searchValues

/-- The columns of a match can be read. -/
def Separable (m : SearchMatch) : Prop :=
  Plain m.file.text ∧ Plain m.line ∧ ∀ line ∈ m.contextBefore ++ m.contextAfter, '\n' ∉ line

theorem mem_contextText : '\n' ∈ contextText m ↔
    ∃ line ∈ m.contextBefore ++ m.contextAfter, '\n' ∈ line := by
  rw [contextText, List.mem_append, List.mem_cons, or_iff_right (show '\n' ≠ '|' by decide),
    mem_join (by decide), mem_join (by decide)]
  simp only [List.mem_append, or_and_right, exists_or]

theorem separable_iff : Separable m ↔
    '\n' ∉ matchRow m ∧ readRow (matchRow m) = searchValues m := by
  rw [matchRow_eq, readRow,
    cutFields_joinFields apart (show searchValues m ≠ [] from List.cons_ne_nil _ _)]
  have context : '\n' ∉ contextText m ↔
      ∀ line ∈ m.contextBefore ++ m.contextAfter, '\n' ∉ line := by
    rw [mem_contextText]
    simp only [not_exists, not_and]
  have clean : '\n' ∉ joinFields '\\' '|' (searchValues m) ↔
      ∀ field ∈ searchValues m, '\n' ∉ field := by
    rw [mem_joinFields]
    simp only [not_exists, not_and]
  rw [Separable, ← context, clean]
  have number := printNat_plain m.lineNumber
  simp only [searchValues, Plain, List.dropLast_cons_cons, List.dropLast_singleton,
    List.forall_mem_cons] at number ⊢
  constructor
  · rintro ⟨⟨file, fileEnd⟩, ⟨line, lineEnd⟩, context⟩
    refine ⟨⟨file, number.1, line, context, ?_⟩, fileEnd, number.2, lineEnd, ?_⟩ <;>
      exact fun field member => absurd member List.not_mem_nil
  · rintro ⟨⟨file, -, line, context, -⟩, fileEnd, -, lineEnd, -⟩
    exact ⟨⟨file, fileEnd⟩, ⟨line, lineEnd⟩, context⟩

theorem results_read_iff : ResultsRead results ↔ ∀ m ∈ results.«matches», Separable m := by
  have header : searchHeader = "file|line|match|context".toList ++ ['\n'] := by decide +kernel
  have read : readRow "file|line|match|context".toList = searchHeaders.map String.toList := by
    decide +kernel
  unfold ResultsRead resultsToFormat
  constructor
  · intro same
    have whole : searchHeader ++ unlines (results.«matches».map matchRow) =
        unlines ("file|line|match|context".toList :: results.«matches».map matchRow) := by
      rw [header]
      rfl
    have sizes := congrArg List.length same
    rw [readTable, List.length_map, whole] at sizes
    have clean := (length_tableLines_le _).2 (by rw [sizes]; simp)
    obtain ⟨first, rows⟩ := List.forall_mem_cons.mp clean
    rw [header, readTable_rows first read rows, List.cons.injEq, and_iff_right rfl, List.map_map,
      List.map_inj_left] at same
    exact fun m member => separable_iff.mpr ⟨rows _ (List.mem_map_of_mem member), same m member⟩
  · intro separable
    have rows : ∀ row ∈ results.«matches».map matchRow, '\n' ∉ row := by
      intro row member
      obtain ⟨m, inside, rfl⟩ := List.mem_map.mp member
      exact (separable_iff.mp (separable m inside)).1
    rw [header, readTable_rows (by decide) read rows, List.map_map]
    refine congrArg _ (List.map_congr_left fun m member => ?_)
    exact (separable_iff.mp (separable m member)).2

/-! ## Contexts -/

def readWords (text : Text) : List Text := if text = [] then [] else splitOn (· == ' ') text

/-- The lines before and after a match, from its context: the bar between them is the first one,
and lines are joined by spaces. -/
def readContext (text : Text) : Option (List Text × List Text) :=
  (splitFirst '|' text).map fun (before, after) => (readWords before, readWords after)

/-- The lines around the match are read back from its row. -/
def ContextRead (m : SearchMatch) : Prop :=
  (readRow (matchRow m))[3]?.bind readContext = some (m.contextBefore, m.contextAfter)

/-- Lines that are words; a single empty line counts as none. -/
def Words (ls : List Text) : Prop := ls ≠ [[]] ∧ ∀ line ∈ ls, ' ' ∉ line

theorem readWords_join {ls : List Text} : readWords (join [' '] ls) = ls ↔ Words ls := by
  unfold readWords Words
  by_cases none_left : ls = []
  · rw [none_left]
    exact iff_of_true rfl ⟨(List.cons_ne_nil _ _).symm, fun line member =>
      absurd member List.not_mem_nil⟩
  · split
    · rename_i empty
      refine iff_of_false (Ne.symm none_left) fun both => both.1 ?_
      obtain ⟨line, rest, rfl⟩ := List.exists_cons_of_ne_nil none_left
      by_cases more : rest = []
      · rw [more, join] at empty
        rw [more, empty]
      · rw [join_cons more] at empty
        simp at empty
    · rename_i some_char
      constructor
      · intro same
        refine ⟨fun blank => some_char (by rw [blank, join]), fun line member space => ?_⟩
        rw [← same] at member
        exact absurd (splitOn_clean member ' ' space) (by decide)
      · rintro ⟨-, clean⟩
        rw [splitOn_join (by decide) none_left]
        have whole : ∀ line ∈ ls, splitOn (· == ' ') line = [line] := fun line member =>
          splitOn_whole fun c inside => beq_false_of_ne fun space =>
            clean line member (space ▸ inside)
        rw [List.flatMap_congr whole, List.flatMap_singleton']

/-- **A context.** -/
theorem readContext_iff : readContext (contextText m) = some (m.contextBefore, m.contextAfter) ↔
    (∀ line ∈ m.contextBefore, '|' ∉ line) ∧ Words m.contextBefore ∧ Words m.contextAfter := by
  rw [← readWords_join, ← readWords_join]
  constructor
  · intro read
    obtain ⟨⟨before, after⟩, cut, same⟩ := Option.map_eq_some_iff.mp read
    obtain ⟨words, words'⟩ := Prod.mk.inj same
    obtain ⟨-, free⟩ := splitFirst_eq_some cut
    have bars : ∀ line ∈ m.contextBefore, '|' ∉ line := by
      intro line member bar
      rw [← words, readWords] at member
      split at member
      · exact absurd member List.not_mem_nil
      · have inside := (mem_join (show '|' ≠ ' ' by decide)).mpr ⟨line, member, bar⟩
        rw [join_splitOn] at inside
        exact free inside
    have clean : '|' ∉ join [' '] m.contextBefore := fun bar =>
      have ⟨line, member, inside⟩ := (mem_join (by decide)).mp bar
      bars line member inside
    rw [contextText, splitFirst_append _ clean] at cut
    cases cut
    exact ⟨bars, words, words'⟩
  · rintro ⟨bars, before, after⟩
    have clean : '|' ∉ join [' '] m.contextBefore := fun bar =>
      have ⟨line, member, inside⟩ := (mem_join (by decide)).mp bar
      bars line member inside
    rw [readContext, contextText, splitFirst_append _ clean, Option.map_some]
    dsimp only
    rw [before, after]

/-- **Tables.** The rows of entries are read back exactly if no name or path has a newline or ends
in a backslash, unless a time fails the table. Those of matches are read back exactly if no
field has a newline and no path or line ends in a backslash; and with the lines around them,
exactly if these moreover are words, without a bar in those before. -/
theorem tables_read_iff (entries : List FileEntry) (results : FileExploration.SearchResults) :
    (EntriesRead entries ↔ (∃ entry ∈ entries, ¬ entry.Dated) ∨
      ∀ entry ∈ entries, Plain entry.name ∧ Plain entry.path.text) ∧
    (ResultsRead results ↔ ∀ m ∈ results.«matches», Separable m) ∧
    ((ResultsRead results ∧ ∀ m ∈ results.«matches», ContextRead m) ↔
      ∀ m ∈ results.«matches», Separable m ∧ (∀ line ∈ m.contextBefore, '|' ∉ line) ∧
        Words m.contextBefore ∧ Words m.contextAfter) := by
  refine ⟨entries_read_iff, results_read_iff, ?_⟩
  rw [results_read_iff, ← forall₂_and]
  refine forall₂_congr fun m _ => and_congr_right fun separable => ?_
  rw [ContextRead, (separable_iff.mp separable).2, ← readContext_iff]
  rfl

/-! ## Rows that are not read -/

/-- A directory whose name ends in a backslash, and one with a newline in its name. -/
def oddNames : List FileEntry :=
  ["a\\", "a\nb"].map fun name =>
    ⟨name.toList, ⟨name.toList⟩, .directory, none, none, ⟨true, true, true⟩⟩

/-- A match in a line that ends in a backslash. -/
def oddLine : FileExploration.SearchResults where
  filesSearched := 1
  totalMatches := 1
  «matches» := [⟨⟨"Makefile".toList⟩, 3, "cc a.c \\".toList, [], []⟩]
  trail := ⟨[], []⟩

theorem odd_unread : (∀ entry ∈ oddNames, ¬ EntriesRead [entry]) ∧ ¬ ResultsRead oddLine := by
  constructor
  · intro entry member
    rw [entries_read_iff]
    have odd : entry.modified = none ∧ ¬ Plain entry.name := by
      unfold Plain
      revert entry member
      decide
    rintro (⟨other, inside, undated⟩ | plain)
    · cases List.mem_singleton.mp inside
      exact undated (by rw [FileEntry.Dated, odd.1]; exact fun nanos given => nomatch given)
    · exact odd.2 (plain entry List.mem_cons_self).1
  · rw [results_read_iff]
    intro separable
    exact absurd (separable _ List.mem_cons_self).2.1.2 (by decide)

end TableRows

end Devit
