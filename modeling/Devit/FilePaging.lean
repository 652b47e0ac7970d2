import Devit.FileExploration
import Devit.McpPatcher

/-! Reading a page of a file, as the core and the tool server do it. A page is cut out where
both an offset and a limit are given; with only one of them the whole file is returned. The
lines of a page are numbered from one again, and the numbering reads them off the text they
were joined to, which need not have as many. -/
namespace Devit
open Text Path FileSystem

structure FileContent where
  path : PathBuf
  content : Text
  size : Nat
  lines : Option (List Text)
  encoding : Text

namespace FilePaging
open McpPatcher (invalidDiffError)

def maxFileSize : Nat := 1024 * 1024

/-- `{:4}` of a number. -/
def padded (n : Nat) : Text := List.replicate (4 - (printNat n).length) ' ' ++ printNat n

/-- `{:4}: {}` of a number and a line. -/
def numbered (n : Nat) (line : Text) : Text := padded n ++ ':' :: ' ' :: line

/-- The lines of a text, numbered from one. -/
def numberLines (content : Text) : List Text :=
  (lines content).zipIdx.map fun (line, index) => numbered (index + 1) line

/-- The text that is returned. Nothing where the sum of offset and limit is too large: it
panics, or wraps around where overflows are not checked. -/
def selectLines (content : Text) (offset limit : Option UInt64) : Option Text :=
  match offset, limit with
  | some offset, some limit =>
    let all := lines content
    let start := min offset.toNat all.length
    if offset.toNat + limit.toNat < 2 ^ 64 then
      let stop := min (offset.toNat + limit.toNat) all.length
      some (join ['\n'] ((all.take stop).drop start))
    else none
  | _, _ => some content

def detectEncoding (content : Text) : Text :=
  if ((textBytes content).take 1000).any fun byte => byte > 127 then
    if startsWith ['\uFEFF'] content then "utf-8-bom".toList else "utf-8".toList
  else "utf-8".toList

/-- What is returned of a file that was read. -/
def pageOf (path : PathBuf) (size : Nat) (content : Text) (lineNumbers : Bool)
    (offset limit : Option UInt64) : Option FileContent :=
  (selectLines content offset limit).map fun selected => {
    path := path
    content := selected
    size := size
    lines := if lineNumbers then some (numberLines selected) else none
    encoding := detectEncoding selected }

def tooLarge (size : Nat) : Text :=
  "File too large: ".toList ++ printNat size ++ " bytes (max: ".toList ++ printNat maxFileSize ++
    " bytes)".toList

def fileSize : Files.Node Text Content → Nat
  | .file content => FileExploration.contentSize content
  | _ => 0

section
variable (d : Disk) (lineNumbers : Bool) (offset limit : Option UInt64)

/-- `file_read` of the core; nothing where the arithmetic fails. -/
def fileRead (crates : ExplorationCrates) (ops : FileOpsManager) (path : PathBuf) :
    Option (DevItResult FileContent) :=
  match FileExploration.validated crates ops d "read file" path with
  | .error e => some (.error e)
  | .ok validatedPath =>
    if presentFile d validatedPath then
      match metadata d validatedPath with
      | .error e => some (.error (.io "read file metadata".toList (some validatedPath) e))
      | .ok node =>
        if fileSize node > maxFileSize then
          some (.error (.invalidDiff (tooLarge (fileSize node)) none))
        else
          match readToString d validatedPath with
          | .error e => some (.error (.io "read file content".toList (some validatedPath) e))
          | .ok content =>
            (pageOf (FileExploration.adjustUserPath ops path) (fileSize node) content lineNumbers
              offset limit).map .ok
    else some (.error (.invalidDiff "Path is not a file".toList none))

/-- `read_file` of the tool server. -/
def readFile (env : ToolEnvironment) (canonicalPath : PathBuf) :
    Option (Except McpError FileContent) :=
  if present d canonicalPath then
    if presentFile d canonicalPath then
      match metadata d canonicalPath with
      | .error e =>
        some (.error (ioError env "read file metadata" (some canonicalPath) (env.describe e)))
      | .ok node =>
        if fileSize node > maxFileSize then
          some (.error (invalidDiffError env (tooLarge (fileSize node)) none))
        else
          match readToString d canonicalPath with
          | .error e =>
            some (.error (ioError env "read file content" (some canonicalPath) (env.describe e)))
          | .ok content =>
            (pageOf canonicalPath (fileSize node) content lineNumbers offset limit).map .ok
    else some (.error (invalidDiffError env "Path is not a file".toList none))
  else
    some (.error (ioError env "read file content" (some canonicalPath) "File not found".toList))

end

/-! ## What is asked for -/

/-- The lines from the offset on, as many as the limit; without an offset from the first one,
without a limit to the end. -/
def page (content : Text) (offset limit : Option UInt64) : List Text :=
  let first := (offset.map (·.toNat)).getD 0
  let behind := (lines content).drop first
  match limit with
  | some limit => behind.take limit.toNat
  | none => behind

/-- Lines under the numbers they have in their file. -/
def absolutely (offset : Option UInt64) (page : List Text) : List Text :=
  (page.zipIdx ((offset.map (·.toNat)).getD 0)).map fun (line, index) => numbered (index + 1) line

/-- A text of these lines: they are its lines, or joined they are the text. -/
def TextOf (page : List Text) (text : Text) : Prop := lines text = page ∨ text = join ['\n'] page

/-- The page is returned: its lines, and their numbers if these are asked for. -/
def Exact {ε : Type} (content : Text) (lineNumbers : Bool) (offset limit : Option UInt64)
    (answer : Option (Except ε FileContent)) : Prop :=
  ∃ result, answer = some (.ok result) ∧ TextOf (page content offset limit) result.content ∧
    result.lines =
      if lineNumbers then some (absolutely offset (page content offset limit)) else none

/-- The lines that joining keeps apart: the last is not empty, and no other ends in a carriage
return. -/
def Separable (page : List Text) : Prop :=
  page.getLast? ≠ some [] ∧ ∀ line ∈ page.dropLast, line.getLast? ≠ some '\r'

/-- Where the page is returned. -/
def Pageable (content : Text) (lineNumbers : Bool) : Option UInt64 → Option UInt64 → Prop
  | none, none => True
  | some offset, none => offset = 0 ∨ lines content = []
  | none, some limit => (lines content).length ≤ limit.toNat
  | some offset, some limit =>
    offset.toNat + limit.toNat < 2 ^ 64 ∧ (lineNumbers = true →
      page content (some offset) (some limit) = [] ∨
        (offset = 0 ∧ Separable (page content (some offset) (some limit))))

/-! ## Numbers -/

theorem padded_plain (n : Nat) : ':' ∉ padded n := by
  intro member
  rcases List.mem_append.mp member with space | digit
  · exact absurd (List.eq_of_mem_replicate space) (by decide)
  · exact absurd (printNat_isDigit digit) (by decide)

theorem padded_injective {n m : Nat} (same : padded n = padded m) : n = m := by
  have stripped : ∀ k, (padded k).dropWhile (· = ' ') = printNat k := by
    intro k
    rw [padded, List.dropWhile_append]
    have spaces : (List.replicate (4 - (printNat k).length) ' ').dropWhile (· = ' ') = [] :=
      List.dropWhile_eq_nil_iff.mpr fun c member => by simp [List.eq_of_mem_replicate member]
    rw [spaces]
    cases digits : printNat k with
    | nil => rfl
    | cons c cs =>
      have digit : c.isDigit = true := printNat_isDigit (by rw [digits]; exact List.mem_cons_self)
      have other : c ≠ ' ' := by
        rintro rfl
        exact absurd digit (by decide)
      simp [other]
  exact printNat_injective (by rw [← stripped n, same, stripped m])

theorem numbered_injective {n m : Nat} {line other : Text}
    (same : numbered n line = numbered m other) : n = m ∧ line = other := by
  have cut := fun k (text : Text) => splitFirst_append (' ' :: text) (padded_plain k)
  have parts := congrArg (splitFirst ':') same
  rw [numbered, numbered, cut, cut] at parts
  obtain ⟨numbers, texts⟩ := Prod.mk.inj (Option.some.inj parts)
  exact ⟨padded_injective numbers, (List.cons.inj texts).2⟩

/-- Numbered lines agree where the lines do, and the first number. -/
theorem numbers_agree {ls ms : List Text} {n m : Nat} :
    (ls.zipIdx n).map (fun (line, index) => numbered (index + 1) line) =
        (ms.zipIdx m).map (fun (line, index) => numbered (index + 1) line) ↔
      ls = ms ∧ (ms = [] ∨ n = m) := by
  induction ls generalizing ms n m with
  | nil =>
    cases ms with
    | nil => simp
    | cons line ms => simp
  | cons line ls ih =>
    cases ms with
    | nil => simp
    | cons other ms =>
      simp only [List.zipIdx_cons, List.map_cons, List.cons.injEq, ih, reduceCtorEq, false_or]
      constructor
      · rintro ⟨here, rfl, -⟩
        obtain ⟨index, rfl⟩ := numbered_injective here
        exact ⟨⟨rfl, rfl⟩, Nat.succ.inj index⟩
      · rintro ⟨⟨rfl, rfl⟩, rfl⟩
        exact ⟨rfl, rfl, .inr rfl⟩

/-! ## Joined lines -/

theorem mem_page {content line : Text} {offset limit : Option UInt64}
    (member : line ∈ page content offset limit) : '\n' ∉ line := by
  unfold page at member
  dsimp only at member
  split at member
  · exact not_mem_lines (List.mem_of_mem_drop (List.mem_of_mem_take member))
  · exact not_mem_lines (List.mem_of_mem_drop member)

theorem length_lines_join {ls : List Text} (clean : ∀ line ∈ ls, '\n' ∉ line) :
    (lines (join ['\n'] ls)).length ≤ ls.length := by
  rcases List.eq_nil_or_concat ls with rfl | ⟨init, last, rfl⟩
  · exact Nat.le_refl 0
  · rw [List.concat_eq_append] at clean ⊢
    rw [lines_join init last clean]
    split <;> simp

theorem lines_join_eq_self {ls : List Text} (clean : ∀ line ∈ ls, '\n' ∉ line) :
    lines (join ['\n'] ls) = ls ↔ Separable ls := by
  rcases List.eq_nil_or_concat ls with rfl | ⟨init, last, rfl⟩
  · exact iff_of_true rfl ⟨by simp, by simp⟩
  · rw [List.concat_eq_append] at clean ⊢
    rw [lines_join init last clean, Separable, List.getLast?_concat, List.dropLast_concat]
    by_cases empty : last = []
    · rw [if_pos empty, empty]
      refine iff_of_false (fun same => ?_) fun both => both.1 rfl
      have sizes := congrArg List.length same
      simp at sizes
    · rw [if_neg empty]
      simp only [Option.some.injEq, ne_eq, empty, not_false_eq_true, true_and,
        List.append_left_inj]
      constructor
      · intro same line member
        refine chopCr_eq_self.mp ?_
        have fixed := List.map_eq_iff.mp same
        obtain ⟨i, here⟩ := List.mem_iff_getElem?.mp member
        have there := fixed i
        rw [here] at there
        exact (Option.some.inj there).symm
      · intro plain
        exact (List.map_congr_left fun line member => chopCr_eq_self.mpr (plain line member)).trans
          (List.map_id init)

/-! ## One page -/

variable {content : Text} {lineNumbers : Bool} {offset limit : Option UInt64} {ε : Type}

/-- A file that is returned whole is a page only if the page has all its lines. -/
theorem textOf_whole : TextOf (page content offset limit) content ↔
    page content offset limit = lines content := by
  constructor
  · rintro (same | joined)
    · exact same.symm
    · -- joining loses lines or keeps them, and a page has no more than there are
      have kept := length_lines_join fun line (member : line ∈ page content offset limit) =>
        mem_page member
      rw [← joined] at kept
      unfold page at kept ⊢
      dsimp only at kept ⊢
      split
      · rename_i limit
        simp only [List.length_take, List.length_drop] at kept
        rw [List.take_of_length_le (by simp only [List.length_drop]; omega)]
        rcases Nat.eq_zero_or_pos ((offset.map (·.toNat)).getD 0) with first | later
        · rw [first, List.drop_zero]
        · have none_left : lines content = [] := List.eq_nil_of_length_eq_zero (by omega)
          rw [none_left, List.drop_nil]
      · simp only [List.length_drop] at kept
        rcases Nat.eq_zero_or_pos ((offset.map (·.toNat)).getD 0) with first | later
        · rw [first, List.drop_zero]
        · have none_left : lines content = [] := List.eq_nil_of_length_eq_zero (by omega)
          rw [none_left, List.drop_nil]
  · exact fun same => .inl same.symm

theorem page_eq_lines_of_offset {offset : UInt64} :
    page content (some offset) none = lines content ↔ offset = 0 ∨ lines content = [] := by
  simp only [page, Option.map_some, Option.getD_some]
  constructor
  · intro same
    have sizes := congrArg List.length same
    rw [List.length_drop] at sizes
    rcases Nat.eq_zero_or_pos offset.toNat with first | later
    · exact .inl (UInt64.toNat_inj.mp first)
    · exact .inr (List.eq_nil_of_length_eq_zero (by omega))
  · rintro (rfl | empty)
    · exact List.drop_zero
    · rw [empty, List.drop_nil]

theorem page_eq_lines_of_limit {limit : UInt64} :
    page content none (some limit) = lines content ↔ (lines content).length ≤ limit.toNat :=
  List.take_eq_self_iff _

/-- A selection of a page is the page, joined. -/
theorem selectLines_page {offset limit : UInt64} (fits : offset.toNat + limit.toNat < 2 ^ 64) :
    selectLines content (some offset) (some limit) =
      some (join ['\n'] (page content (some offset) (some limit))) := by
  simp only [selectLines, if_pos fits, page, Option.map_some, Option.getD_some]
  refine congrArg (fun ls => some (join ['\n'] ls)) ?_
  rw [List.drop_take, List.take_eq_take_min, List.length_drop]
  rcases Nat.le_total offset.toNat (lines content).length with inside | behind
  · rw [Nat.min_eq_left inside]
    refine (List.take_eq_take_iff.mpr ?_).trans List.take_eq_take_min.symm
    rw [List.length_drop]
    omega
  · rw [Nat.min_eq_right behind, List.drop_eq_nil_of_le behind, List.drop_eq_nil_of_le
      (Nat.le_refl _)]
    simp

theorem numberLines_eq {text : Text} : numberLines text = absolutely offset
      (page content offset limit) ↔ lines text = page content offset limit ∧
        (page content offset limit = [] ∨ 0 = (offset.map (·.toNat)).getD 0) :=
  numbers_agree

/-- **One read.** -/
theorem exact_iff (path : PathBuf) (size : Nat) :
    Exact content lineNumbers offset limit
        ((pageOf path size content lineNumbers offset limit).map (Except.ok (ε := ε))) ↔
      Pageable content lineNumbers offset limit := by
  have selected : ∀ text, selectLines content offset limit = some text →
      (Exact content lineNumbers offset limit
        ((pageOf path size content lineNumbers offset limit).map (Except.ok (ε := ε))) ↔
          TextOf (page content offset limit) text ∧ (lineNumbers = true →
            lines text = page content offset limit ∧
              (page content offset limit = [] ∨ 0 = (offset.map (·.toNat)).getD 0))) := by
    intro text picked
    rw [Exact, pageOf, picked]
    simp only [Option.map_some, Option.some.injEq, Except.ok.injEq, exists_eq_left']
    refine and_congr_right fun _ => ?_
    cases lineNumbers with
    | false => simp
    | true => simpa using numberLines_eq
  cases offset with
  | none =>
    cases limit with
    | none =>
      rw [selected content rfl]
      exact iff_of_true ⟨.inl rfl, fun _ => ⟨rfl, .inr rfl⟩⟩ trivial
    | some limit =>
      rw [selected content rfl, textOf_whole]
      exact ⟨fun both => page_eq_lines_of_limit.mp both.1, fun all =>
        ⟨page_eq_lines_of_limit.mpr all,
          fun _ => ⟨(page_eq_lines_of_limit.mpr all).symm, .inr rfl⟩⟩⟩
  | some offset =>
    cases limit with
    | none =>
      rw [selected content rfl, textOf_whole, page_eq_lines_of_offset]
      refine ⟨fun both => both.1, fun all => ⟨all, fun _ =>
        ⟨(page_eq_lines_of_offset.mpr all).symm, ?_⟩⟩⟩
      rcases all with rfl | empty
      · exact .inr rfl
      · exact .inl ((page_eq_lines_of_offset.mpr (.inr empty)).trans empty)
    | some limit =>
      by_cases fits : offset.toNat + limit.toNat < 2 ^ 64
      · rw [selected _ (selectLines_page fits), Pageable]
        have clean := fun line (member : line ∈ page content (some offset) (some limit)) =>
          mem_page member
        simp only [fits, true_and, lines_join_eq_self clean]
        rw [and_iff_right (show TextOf _ _ from .inr rfl)]
        refine imp_congr_right fun _ => ?_
        have first : 0 = ((some offset).map (·.toNat)).getD 0 ↔ offset = 0 :=
          ⟨fun zero => UInt64.toNat_inj.mp zero.symm, fun zero => by rw [zero]; rfl⟩
        rw [first]
        constructor
        · rintro ⟨separable, empty | zero⟩
          · exact .inl empty
          · exact .inr ⟨zero, separable⟩
        · rintro (empty | ⟨zero, separable⟩)
          · refine ⟨?_, .inl empty⟩
            rw [empty]
            exact ⟨by simp, by simp⟩
          · exact ⟨separable, .inr zero⟩
      · have fails : selectLines content (some offset) (some limit) = none := by
          simp only [selectLines, if_neg fits]
        refine iff_of_false ?_ fun pageable => fits pageable.1
        rintro ⟨result, ran, -⟩
        rw [pageOf, fails] at ran
        cases ran

/-! ## Both readers -/

/-- A file that can be read, with this content. -/
structure Holds (d : Disk) (p : PathBuf) (content : Text) : Prop where
  file : presentFile d p = true
  text : readToString d p = .ok content
  small : PathSecurityContext.byteLength content ≤ maxFileSize

variable {d : Disk} {p : PathBuf}

theorem Holds.metadata (holds : Holds d p content) :
    metadata d p = .ok (.file (.utf8 content)) ∧ present d p = true := by
  have isFile := holds.file
  have text := holds.text
  unfold presentFile at isFile
  cases found : FileSystem.metadata d p with
  | error e =>
    rw [found] at isFile
    cases isFile
  | ok node =>
    unfold FileSystem.metadata at found
    split at found
    · rename_i fits
      rw [readToString, found] at text
      cases node with
      | dir => cases text
      | link target => cases text
      | file inside =>
        cases inside with
        | raw bytes => cases text
        | utf8 other =>
          cases text
          refine ⟨rfl, ?_⟩
          rw [present, fits, Bool.true_and, pathExists, found]
          rfl
    · cases found

/-- What both readers return of a file that they read. -/
theorem fileRead_holds {crates : ExplorationCrates} {ops : FileOpsManager} {path : PathBuf}
    (checked : FileExploration.validated crates ops d "read file" path = .ok p)
    (holds : Holds d p content) :
    fileRead d lineNumbers offset limit crates ops path =
      (pageOf (FileExploration.adjustUserPath ops path) (PathSecurityContext.byteLength content)
        content lineNumbers offset limit).map .ok := by
  have small : ¬ fileSize (.file (.utf8 content)) > maxFileSize := Nat.not_lt.mpr holds.small
  simp only [fileRead, checked, holds.file, if_true, holds.metadata.1, if_neg small, holds.text]
  rfl

theorem readFile_holds {env : ToolEnvironment} (holds : Holds d p content) :
    readFile d lineNumbers offset limit env p =
      (pageOf p (PathSecurityContext.byteLength content) content lineNumbers offset limit).map
        .ok := by
  have small : ¬ fileSize (.file (.utf8 content)) > maxFileSize := Nat.not_lt.mpr holds.small
  simp only [readFile, holds.metadata.2, holds.file, if_true, holds.metadata.1, if_neg small,
    holds.text]
  rfl

/-- **Paging.** Of a file that is read, the core and the tool server return the page that is
asked for exactly if it is asked for with an offset and a limit whose sum is small enough, or
is the whole file; and where its lines are to be numbered, if it starts with the first line and
joining keeps its lines apart, or has none. -/
theorem paging_exact_iff (content : Text) (lineNumbers : Bool) (offset limit : Option UInt64) :
    (∀ d crates ops path p, FileExploration.validated crates ops d "read file" path = .ok p →
      Holds d p content →
      (Exact content lineNumbers offset limit
          (fileRead d lineNumbers offset limit crates ops path) ↔
        Pageable content lineNumbers offset limit)) ∧
    (∀ d env p, Holds d p content →
      (Exact content lineNumbers offset limit (readFile d lineNumbers offset limit env p) ↔
        Pageable content lineNumbers offset limit)) := by
  constructor
  · intro d crates ops path p checked holds
    rw [fileRead_holds checked holds]
    exact exact_iff _ _
  · intro d env p holds
    rw [readFile_holds holds]
    exact exact_iff _ _

/-- A directory `/s` with a file of three lines. -/
def countDisk : Disk where
  tree := Files.put (Files.put (fun _ => none) ["s".toList] (some .dir))
    ["s".toList, "a.txt".toList] (some (.file (.utf8 "one\ntwo\nthree\n".toList)))
  cwd := []
  touched := []

def countOps : FileOpsManager := ⟨⟨"/s".toList⟩, ⟨⟨"/s".toList⟩, false⟩, false⟩

def countCrates : ExplorationCrates := ⟨id, id, fun _ => .error []⟩

def countEnvironment : ToolEnvironment := ⟨⟨"/tmp".toList⟩, [], fun _ => [], fun _ => false, id⟩

theorem count_holds : Holds countDisk ⟨"/s/a.txt".toList⟩ "one\ntwo\nthree\n".toList where
  file := by decide +kernel
  text := by decide +kernel
  small := by decide +kernel

theorem count_checked : FileExploration.validated countCrates countOps countDisk "read file"
    ⟨"a.txt".toList⟩ = .ok ⟨"/s/a.txt".toList⟩ := by decide +kernel

/-- The first two lines are returned with their numbers. -/
theorem first_lines_paged :
    Exact "one\ntwo\nthree\n".toList true (some 0) (some 2)
        (fileRead countDisk true (some 0) (some 2) countCrates countOps ⟨"a.txt".toList⟩) ∧
      Exact "one\ntwo\nthree\n".toList true (some 0) (some 2)
        (readFile countDisk true (some 0) (some 2) countEnvironment ⟨"/s/a.txt".toList⟩) := by
  have paged : Pageable "one\ntwo\nthree\n".toList true (some 0) (some 2) :=
    ⟨by decide, fun _ => .inr ⟨rfl, by decide +kernel, by decide +kernel⟩⟩
  have both := paging_exact_iff "one\ntwo\nthree\n".toList true (some 0) (some 2)
  exact ⟨(both.1 _ _ _ _ _ count_checked count_holds).mpr paged,
    (both.2 _ _ _ count_holds).mpr paged⟩

/-- The second line is numbered one; an offset without a limit is not looked at; and a limit
at the end of its range has no result. -/
theorem second_line_numbered_one :
    ((readFile countDisk true (some 1) (some 1) countEnvironment ⟨"/s/a.txt".toList⟩).bind
      (fun answer => answer.toOption.bind (·.lines))) = some ["   1: two".toList] ∧
    absolutely (some 1) (page "one\ntwo\nthree\n".toList (some 1) (some 1)) =
      ["   2: two".toList] ∧
    ((readFile countDisk false (some 1) none countEnvironment ⟨"/s/a.txt".toList⟩).bind
      (fun answer => answer.toOption.map (·.content))) = some "one\ntwo\nthree\n".toList ∧
    (fileRead countDisk false (some 1) (some (.ofNat usizeMax)) countCrates countOps
      ⟨"a.txt".toList⟩).isNone = true ∧
    ¬ Exact "one\ntwo\nthree\n".toList true (some 1) (some 1)
      (readFile countDisk true (some 1) (some 1) countEnvironment ⟨"/s/a.txt".toList⟩) := by
  have wrong : ((readFile countDisk true (some 1) (some 1) countEnvironment
      ⟨"/s/a.txt".toList⟩).bind (fun answer => answer.toOption.bind (·.lines))) =
        some ["   1: two".toList] := by decide +kernel
  have right : absolutely (some 1) (page "one\ntwo\nthree\n".toList (some 1) (some 1)) =
      ["   2: two".toList] := by decide +kernel
  refine ⟨wrong, right, by decide +kernel, by decide +kernel, ?_⟩
  rintro ⟨result, ran, -, numbers⟩
  rw [if_pos rfl, right] at numbers
  rw [ran] at wrong
  exact absurd (numbers.symm.trans wrong) (by decide +kernel)

end FilePaging

end Devit
