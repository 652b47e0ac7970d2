import Devit.Library.FileSystem
import Devit.Library.Utf8
import Devit.LspClient
import Devit.ProcessRegistry

/-! The line of a process in `/proc`. Its fields are taken apart at white space, also inside the
name of the program, so that each gap in the name shows an earlier field as the start time. -/
namespace Devit.ProcessRegistry
open Text FileSystem
open LspClient (printInt)

def nameBytes : Content → Nat
  | .utf8 name => byteLen name
  | .raw bytes => bytes.length

/-- What the kernel shows of a process: the fields 4 to 21 before the start time, and those
behind it. -/
structure StatLine where
  pid : Pid
  comm : Content
  state : Char
  before : List Int
  startTime : UInt64
  behind : List Int
  short : nameBytes comm ≤ 15
  solid : isWhitespace state = false
  eighteen : before.length = 18

namespace StatLine

/-- The line with a name that is a text. -/
def text (line : StatLine) (name : Text) : Text :=
  statText line.pid name ([line.state] :: line.before.map printInt) line.startTime
    (line.behind.map printInt) ++ ['\n']

def encode (s : Text) : List UInt8 := s.flatMap String.utf8EncodeChar

/-- The file as it is read. A name that is not UTF-8 leaves the whole of it so. -/
def content (line : StatLine) : Content :=
  match line.comm with
  | .utf8 name => .utf8 (line.text name)
  | .raw bytes =>
    let fields := [line.state] :: (line.before ++ (line.startTime.toNat : Int) :: line.behind).map
      printInt
    .raw (encode (printNat line.pid.toNat ++ " (".toList) ++ bytes ++
      encode (") ".toList ++ join [' '] fields ++ ['\n']))

/-- The fields from the fourth up to the start time. -/
def numbers (line : StatLine) : List Int := line.before ++ [(line.startTime.toNat : Int)]

end StatLine

/-- `read_proc_stat`, by the content of the file. -/
def readProcStat : Content → Option UInt64
  | .utf8 content => readStartTime content
  | .raw _ => none

/-- The gaps of white space in a name, in its parentheses. -/
def gaps (comm : Text) : Nat := (splitWhitespace ('(' :: (comm ++ [')']))).length - 1

/-- The field as many places before the start time as the name has gaps shows the same number. -/
def ShowsStart (line : StatLine) : Prop :=
  ∃ name, line.comm = .utf8 name ∧
    line.numbers[18 - gaps name]? = some (line.startTime.toNat : Int)

/-- The start time is read, and with it the check is true for this process only. -/
def Identified (line : StatLine) : Prop :=
  readProcStat line.content = some line.startTime ∧
    ∀ view : View, view.startTime line.pid = readProcStat line.content →
      ∀ expected, verifyPgidLeader view line.pid expected = true ↔ expected = line.startTime

/-! ## Words -/

theorem splitWhitespace_parts {parts : List Text} (some_part : parts ≠ []) :
    splitWhitespace (join [' '] parts) = parts.flatMap splitWhitespace := by
  rw [splitWhitespace, splitOn_join (by decide) some_part, List.filter_flatMap]
  rfl

theorem splitWhitespace_newline (s : Text) : splitWhitespace (s ++ ['\n']) = splitWhitespace s := by
  rw [splitWhitespace, splitOn_append (by decide), List.filter_append]
  exact List.append_nil _

theorem IsWord.alone {word : Text} (isWord : IsWord word) : splitWhitespace word = [word] := by
  rw [splitWhitespace, splitOn_whole isWord.2]
  exact List.filter_cons_of_pos (decide_eq_true isWord.1)

theorem splitWhitespace_words {words : List Text} (all : ∀ word ∈ words, IsWord word) :
    words.flatMap splitWhitespace = words := by
  induction words with
  | nil => rfl
  | cons word words ih =>
    obtain ⟨first, rest⟩ := List.forall_mem_cons.mp all
    rw [List.flatMap_cons, first.alone, ih rest]
    rfl

/-- The pieces of a text, with the separators, make it up. -/
theorem splitOn_lengths (sep : Char → Bool) (s : Text) :
    (splitOn sep s).flatten.length + (splitOn sep s).length = s.length + 1 := by
  induction s with
  | nil => rfl
  | cons c s ih =>
    rw [splitOn]
    split
    · rw [List.flatten_cons, List.nil_append, List.length_cons, List.length_cons]
      omega
    · obtain ⟨head, tail, shape⟩ := List.exists_cons_of_ne_nil (splitOn_ne_nil sep s)
      rw [shape] at ih ⊢
      simp only [List.modifyHead_cons, List.flatten_cons, List.length_append,
        List.length_cons] at ih ⊢
      omega

theorem filled_bound (parts : List Text) :
    (parts.filter (· ≠ [])).length ≤ parts.flatten.length := by
  induction parts with
  | nil => exact Nat.zero_le _
  | cons part parts ih =>
    cases part with
    | nil => simpa using ih
    | cons c part =>
      rw [List.filter_cons_of_pos (by simp), List.flatten_cons, List.length_append,
        List.length_cons, List.length_cons]
      omega

/-- Words take one character each, and one between two of them. -/
theorem words_bound (s : Text) : 2 * (splitWhitespace s).length ≤ s.length + 1 := by
  have whole := splitOn_lengths isWhitespace s
  have chars : (splitWhitespace s).length ≤ (splitOn isWhitespace s).flatten.length :=
    filled_bound _
  have count : (splitWhitespace s).length ≤ (splitOn isWhitespace s).length :=
    List.length_filter_le _ _
  omega

theorem length_le_byteLen (s : Text) : s.length ≤ byteLen s := by
  induction s with
  | nil => exact Nat.le_refl _
  | cons c s ih =>
    have wide := c.utf8Size_pos
    rw [byteLen_cons, List.length_cons]
    omega

/-- A name in its parentheses has a word, and not more than its bytes allow. -/
theorem gaps_bound {name : Text} (short : byteLen name ≤ 15) :
    (splitWhitespace ('(' :: (name ++ [')']))).length = gaps name + 1 ∧ gaps name ≤ 8 := by
  have chars := length_le_byteLen name
  have bound := words_bound ('(' :: (name ++ [')']))
  have some_word : 0 < (splitWhitespace ('(' :: (name ++ [')']))).length := by
    obtain ⟨head, tail, shape⟩ :=
      List.exists_cons_of_ne_nil (splitOn_ne_nil isWhitespace (name ++ [')']))
    rw [splitWhitespace, splitOn, if_neg (by decide), shape, List.modifyHead_cons,
      List.filter_cons_of_pos (by simp)]
    exact Nat.succ_pos _
  unfold gaps
  simp only [List.length_cons, List.length_append, List.length_nil] at bound
  omega

/-! ## Numbers -/

/-- Digits that are read are read alike with more room, and fit. -/
theorem readDigits_some {radix max acc m : Nat} {s : Text} (fits : acc ≤ max)
    (read : readDigits radix max acc s = some m) :
    m ≤ max ∧ ∀ more, max ≤ more → readDigits radix more acc s = some m := by
  induction s generalizing acc with
  | nil =>
    cases read
    exact ⟨fits, fun _ _ => rfl⟩
  | cons c s ih =>
    rw [readDigits] at read
    cases digit : digitValue radix c with
    | none =>
      rw [digit] at read
      cases read
    | some d =>
      rw [digit] at read
      dsimp only at read
      split at read
      · rename_i room
        obtain ⟨bounded, later⟩ := ih room read
        refine ⟨bounded, fun more wider => ?_⟩
        rw [readDigits, digit]
        exact (if_pos (room.trans wider)).trans (later more wider)
      · cases read

theorem parseUnsigned_some {radix max m : Nat} {s : Text}
    (read : parseUnsigned radix max s = some m) :
    m ≤ max ∧ ∀ more, max ≤ more → parseUnsigned radix more s = some m := by
  obtain ⟨digits, form⟩ : ∃ digits, ∀ max, parseUnsigned radix max s =
      if digits = [] then none else readDigits radix max 0 digits := ⟨_, fun _ => rfl⟩
  simp only [form] at read ⊢
  split at read
  · cases read
  · rename_i some_digit
    simp only [some_digit, if_false]
    exact readDigits_some (Nat.zero_le _) read

/-- What is read of a printed number is the number. -/
theorem parseUsize_some {n m : Nat} (read : parseUsize (printNat n) = some m) :
    m = n ∧ n ≤ usizeMax := by
  obtain ⟨bounded, later⟩ := parseUnsigned_some read
  have wide : parseUnsigned 10 (usizeMax + n) (printNat n) = some n :=
    parseUnsigned_printNat (Nat.le_add_left _ _)
  rw [later _ (Nat.le_add_right _ _)] at wide
  cases wide
  exact ⟨rfl, bounded⟩

/-- A field reads as the start time exactly if it shows the same number. -/
theorem field_reads_iff {n : Int} {startTime : UInt64} :
    (parseUsize (printInt n)).map UInt64.ofNat = some startTime ↔ n = startTime.toNat := by
  have fits : startTime.toNat ≤ usizeMax := Nat.le_of_lt_succ startTime.toNat_lt
  constructor
  · intro read
    obtain ⟨m, parsed, rfl⟩ := Option.map_eq_some_iff.mp read
    unfold printInt at parsed
    split at parsed
    · simp [parseUsize, parseUnsigned, readDigits, digitValue] at parsed
    · rename_i positive
      obtain ⟨rfl, bounded⟩ := parseUsize_some parsed
      have small : n.natAbs < 2 ^ 64 := Nat.lt_succ_of_le bounded
      have value : (UInt64.ofNat n.natAbs).toNat = n.natAbs := Nat.mod_eq_of_lt small
      omega
  · rintro rfl
    rw [printInt, if_neg (by omega), Int.natAbs_natCast, parseUsize_printNat fits,
      Option.map_some, UInt64.ofNat_toNat]

/-! ## The line -/

theorem isWord_printInt (n : Int) : IsWord (printInt n) := by
  obtain ⟨some_digit, solid⟩ := isWord_printNat n.natAbs
  unfold printInt
  split
  · refine ⟨List.cons_ne_nil _ _, fun c member => ?_⟩
    rcases List.mem_cons.mp member with rfl | digit
    · decide
    · exact solid c digit
  · exact ⟨some_digit, solid⟩

theorem printNat_eq_printInt (n : Nat) : printNat n = printInt n := by
  rw [printInt, if_neg (by omega), Int.natAbs_natCast]

/-- The words of a line: those of the name come between the pid and the state. -/
theorem StatLine.words (line : StatLine) (name : Text) : splitWhitespace (line.text name) =
    printNat line.pid.toNat :: (splitWhitespace ('(' :: (name ++ [')'])) ++ [line.state] ::
      (line.numbers.map printInt ++ line.behind.map printInt)) := by
  have fields : [line.state] :: line.before.map printInt ++
      printNat line.startTime.toNat :: line.behind.map printInt =
        [line.state] :: (line.numbers ++ line.behind).map printInt := by
    rw [numbers, printNat_eq_printInt]
    simp
  have all : ∀ word ∈ [line.state] :: (line.numbers ++ line.behind).map printInt, IsWord word := by
    rintro word (_ | ⟨_, member⟩)
    · exact ⟨List.cons_ne_nil _ _, fun c only => by
        rw [List.mem_singleton.mp only]
        exact line.solid⟩
    · obtain ⟨n, -, rfl⟩ := List.mem_map.mp member
      exact isWord_printInt n
  rw [text, splitWhitespace_newline, statText, splitWhitespace_parts (List.cons_ne_nil _ _), fields,
    List.flatMap_cons, List.flatMap_cons, (isWord_printNat _).alone, splitWhitespace_words all,
    List.map_append]
  rfl

/-- **The start time that is read** is as many fields before it as the name has gaps. -/
theorem StatLine.read (line : StatLine) {name : Text} (short : byteLen name ≤ 15) :
    readStartTime (line.text name) = some line.startTime ↔
      line.numbers[18 - gaps name]? = some (line.startTime.toNat : Int) := by
  obtain ⟨count, few⟩ := gaps_bound short
  have size : line.numbers.length = 19 := by
    rw [numbers, List.length_append, line.eighteen]
    rfl
  have place : (splitWhitespace (line.text name))[21]? =
      (line.numbers[18 - gaps name]?).map printInt := by
    rw [line.words, List.getElem?_cons_succ, List.getElem?_append_right (by omega), count,
      show 20 - (gaps name + 1) = (18 - gaps name) + 1 by omega, List.getElem?_cons_succ,
      List.getElem?_append_left (by rw [List.length_map]; omega), List.getElem?_map]
  rw [readStartTime, place]
  cases field : line.numbers[18 - gaps name]? with
  | none => simp
  | some n =>
    rw [Option.map_some, Option.bind_some, field_reads_iff, Option.some.injEq]

/-- **Identity.** The start time is read right, and the check is true for one process only,
exactly if the name is UTF-8 and the field that is read instead shows the same number. -/
theorem statLine_identified_iff (line : StatLine) : Identified line ↔ ShowsStart line := by
  have checked : readProcStat line.content = some line.startTime ↔ Identified line := by
    refine ⟨fun right => ⟨right, fun view seen expected => ?_⟩, fun both => both.1⟩
    rw [verifyPgidLeader, seen, right, decide_eq_true_eq, Option.some.injEq, eq_comm]
  rw [← checked, StatLine.content, ShowsStart]
  have short := line.short
  cases name : line.comm with
  | utf8 comm =>
    rw [name] at short
    simp only [Content.utf8.injEq, exists_eq_left']
    exact line.read short
  | raw bytes =>
    refine iff_of_false (fun bad => nomatch bad) ?_
    rintro ⟨comm, other, -⟩
    cases other

/-- A name without white space shifts nothing. -/
theorem showsStart_of_solid {line : StatLine} {name : Text} (named : line.comm = .utf8 name)
    (solid : ∀ c ∈ name, isWhitespace c = false) : ShowsStart line := by
  refine ⟨name, named, ?_⟩
  have none_between : gaps name = 0 := by
    rw [gaps, (isWord_bracketed solid).alone]
    rfl
  rw [none_between, StatLine.numbers, List.getElem?_append_right (by rw [line.eighteen]),
    line.eighteen]
  rfl

/-- A process `tmux: server` that started at 5000. -/
def spacedLine : StatLine where
  pid := 7
  comm := .utf8 "tmux: server".toList
  state := 'S'
  before := [1, 7, 7, 0, -1, 4194368, 900, 0, 0, 0, 3, 2, 0, 0, 20, 0, 1, 0]
  startTime := 5000
  behind := [8000000, 1200]
  short := by decide
  solid := by decide
  eighteen := rfl

/-- The field before the start time is read, which is 0 for all processes. -/
theorem spaced_misread : readProcStat spacedLine.content = some 0 ∧ ¬ Identified spacedLine := by
  have read : readProcStat spacedLine.content = some 0 := by decide +kernel
  refine ⟨read, fun identified => ?_⟩
  rw [identified.1] at read
  exact absurd read (by decide)

end Devit.ProcessRegistry
