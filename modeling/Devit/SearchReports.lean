import Devit.ExplorationSafety

/-! What a search reports. The walk is that of `FileExploration`, with the arithmetic of a
machine word: where the end of a window of context lies behind the last word the search
panics, in the addition or in the slice after it. A search that comes to a hundred matches
stops there, and does not look whether there is another one. -/
namespace Devit
open Text Path FileSystem

namespace SearchReports
open FileExploration

/-- Why a search has no results: an error, or its arithmetic. -/
inductive Stop where
  | failed (e : DevItError)
  | panicked

/-- A search; where its fuel ends it has not come to a result. -/
abbrev Search := ExceptT Stop Option

def failing {α : Type} (result : DevItResult α) : Search α := .mk (some (result.mapError .failed))

section
variable (crates : ExplorationCrates) (isMatch : Text → Bool) (contextLines : UInt64)

def searchLines (filePath : PathBuf) (lines : List Text) :
    Nat → List Text → SearchResults → Except Stop SearchResults
  | _, [], results => .ok results
  | lineIdx, line :: rest, results =>
    if isMatch line then
      if lineIdx + contextLines.toNat + 1 < 2 ^ 64 then
        let found : SearchMatch := ⟨filePath, lineIdx + 1, line,
          (lines.take lineIdx).drop (lineIdx - contextLines.toNat),
          (lines.take (min (lineIdx + contextLines.toNat + 1) lines.length)).drop (lineIdx + 1)⟩
        let results := { results with
          totalMatches := results.totalMatches + 1, «matches» := results.matches ++ [found] }
        if results.matches.length ≥ maxSearchResults then .ok results
        else searchLines filePath lines (lineIdx + 1) rest results
      else .error .panicked
    else searchLines filePath lines (lineIdx + 1) rest results

def searchFile (d : Disk) (filePath : PathBuf) (results : SearchResults) :
    Except Stop SearchResults :=
  if shouldSearchFile crates filePath then
    let results := { results with
      filesSearched := results.filesSearched + 1, trail := results.trail.report filePath }
    match readToString d filePath with
    | .error _ => .ok results
    | .ok content =>
      searchLines isMatch contextLines filePath (lines content) 0 (lines content) results
  else .ok results

def searchEntry (d : Disk) (into : PathBuf → SearchResults → Search SearchResults)
    (entryPath : PathBuf) (results : SearchResults) : Search SearchResults :=
  if presentFile d entryPath then
    .mk (some (searchFile crates isMatch contextLines d entryPath results))
  else if presentDir d entryPath then into entryPath results
  else pure results

def searchEntries (d : Disk) (into : PathBuf → SearchResults → Search SearchResults)
    (dirPath : PathBuf) : List Text → SearchResults → Search SearchResults
  | [], results => pure results
  | name :: rest, results =>
    if shouldIncludePath (pathJoin dirPath ⟨name⟩) then do
      let results ← searchEntry crates isMatch contextLines d into (pathJoin dirPath ⟨name⟩) results
      if results.matches.length ≥ maxSearchResults then pure results
      else searchEntries d into dirPath rest results
    else searchEntries d into dirPath rest results

def searchDirectoryRecursive {d : Disk} (c : Catalog d) :
    Nat → PathBuf → SearchResults → Search SearchResults
  | 0, _, _ => .mk none
  | fuel + 1, dirPath, results =>
    match readDir c dirPath with
    | .error e => throw (.failed (.io "read directory for search".toList (some dirPath) e))
    | .ok names =>
      searchEntries crates isMatch contextLines d (searchDirectoryRecursive c fuel) dirPath names
        { results with trail := results.trail.enter dirPath }

def searchPath {d : Disk} (c : Catalog d) (fuel : Nat) (validatedPath : PathBuf) :
    Search SearchResults :=
  if presentFile d validatedPath then
    .mk (some (searchFile crates isMatch contextLines d validatedPath ⟨0, 0, [], .empty⟩))
  else if presentDir d validatedPath then
    searchDirectoryRecursive crates isMatch contextLines c fuel validatedPath ⟨0, 0, [], .empty⟩
  else pure ⟨0, 0, [], .empty⟩

end

/-- `file_search` of the core. -/
def fileSearch (crates : ExplorationCrates) (ops : FileOpsManager) {d : Disk} (c : Catalog d)
    (fuel : Nat) (pattern : Text) (path : PathBuf) (contextLines : Option UInt64) :
    Search SearchOutcome := do
  let validatedPath ← failing (validated crates ops d "search files" path)
  match crates.compile pattern with
  | .error message =>
    throw (.failed (.invalidDiff ("Invalid regex pattern: ".toList ++ message) none))
  | .ok isMatch =>
    let results ← searchPath crates isMatch (contextLines.getD 2) c fuel validatedPath
    pure ⟨pattern, adjustUserPath ops path,
      { results with «matches» := results.matches.take maxSearchResults },
      decide (results.matches.length ≥ maxSearchResults)⟩

/-! ## The same walk -/

/-- The search panics, or does what the search with unbounded numbers does. -/
def Agrees {α : Type} (search : Search α) (walk : Explore α) : Prop :=
  search.run = some (.error .panicked) ∨
    search.run = walk.run.map fun result => result.mapError .failed

theorem Agrees.bind {α β : Type} {search : Search α} {walk : Explore α} {next : α → Search β}
    {onward : α → Explore β} (first : Agrees search walk)
    (second : ∀ x, Agrees (next x) (onward x)) : Agrees (search >>= next) (walk >>= onward) := by
  rcases first with panics | same
  · left
    change search.run >>= ExceptT.bindCont next = _
    rw [panics]
    rfl
  · unfold Agrees
    change search.run >>= ExceptT.bindCont next = _ ∨
      search.run >>= ExceptT.bindCont next =
        (walk.run >>= ExceptT.bindCont onward).map fun result => result.mapError Stop.failed
    rw [same]
    cases walk.run with
    | none => exact .inr rfl
    | some result =>
      cases result with
      | error e => exact .inr rfl
      | ok x => exact second x

theorem agrees_pure {α : Type} (x : α) : Agrees (pure x) (pure x) := .inr rfl

section
variable {crates : ExplorationCrates} {isMatch : Text → Bool} {contextLines : UInt64} {d : Disk}

theorem searchLines_agrees {filePath : PathBuf} {all rest : List Text} {lineIdx : Nat}
    {results : SearchResults} :
    searchLines isMatch contextLines filePath all lineIdx rest results = .error .panicked ∨
      searchLines isMatch contextLines filePath all lineIdx rest results =
        .ok (FileExploration.searchLines isMatch contextLines.toNat filePath all lineIdx rest
          results) := by
  induction rest generalizing lineIdx results with
  | nil => exact .inr rfl
  | cons line rest ih =>
    rw [searchLines, FileExploration.searchLines]
    split
    · split
      · dsimp only
        split
        · exact .inr rfl
        · exact ih
      · exact .inl rfl
    · exact ih

theorem searchFile_agrees (filePath : PathBuf) (results : SearchResults) :
    Agrees (.mk (some (searchFile crates isMatch contextLines d filePath results)))
      (pure (FileExploration.searchFile crates isMatch contextLines.toNat d filePath results)) := by
  have cases : searchFile crates isMatch contextLines d filePath results = .error .panicked ∨
      searchFile crates isMatch contextLines d filePath results =
        .ok (FileExploration.searchFile crates isMatch contextLines.toNat d filePath results) := by
    unfold searchFile FileExploration.searchFile
    split
    · dsimp only
      cases readToString d filePath with
      | error e => exact .inr rfl
      | ok content => exact searchLines_agrees
    · exact .inr rfl
  rcases cases with panics | same
  · rw [panics]
    exact .inl rfl
  · rw [same]
    exact .inr rfl

theorem searchEntries_agrees {into : PathBuf → SearchResults → Search SearchResults}
    {onward : PathBuf → SearchResults → Explore SearchResults}
    (below : ∀ p results, Agrees (into p results) (onward p results)) (dirPath : PathBuf)
    (names : List Text) (results : SearchResults) :
    Agrees (searchEntries crates isMatch contextLines d into dirPath names results)
      (FileExploration.searchEntries crates isMatch contextLines.toNat d onward dirPath names
        results) := by
  induction names generalizing results with
  | nil => exact agrees_pure results
  | cons name names ih =>
    rw [searchEntries, FileExploration.searchEntries]
    split
    · refine Agrees.bind ?_ fun results => ?_
      · unfold searchEntry FileExploration.searchEntry
        split
        · exact searchFile_agrees _ _
        · split
          · exact below _ _
          · exact agrees_pure _
      · split
        · exact agrees_pure results
        · exact ih results
    · exact ih results

theorem searchDirectoryRecursive_agrees (c : Catalog d) (fuel : Nat) (dirPath : PathBuf)
    (results : SearchResults) :
    Agrees (searchDirectoryRecursive crates isMatch contextLines c fuel dirPath results)
      (FileExploration.searchDirectoryRecursive c crates isMatch contextLines.toNat fuel dirPath
        results) := by
  induction fuel generalizing dirPath results with
  | zero => exact .inr rfl
  | succ fuel ih =>
    rw [searchDirectoryRecursive, FileExploration.searchDirectoryRecursive]
    cases readDir c dirPath with
    | error e => exact .inr rfl
    | ok names => exact searchEntries_agrees ih _ _ _

end

/-- **The same search.** Where it does not panic, a search with the arithmetic of words is the
search with unbounded numbers. -/
theorem fileSearch_agrees (crates : ExplorationCrates) (ops : FileOpsManager) {d : Disk}
    (c : Catalog d) (fuel : Nat) (pattern : Text) (path : PathBuf)
    (contextLines : Option UInt64) :
    Agrees (fileSearch crates ops c fuel pattern path contextLines)
      (FileExploration.fileSearch crates ops c fuel pattern path
        (contextLines.map (·.toNat))) := by
  have lines : (contextLines.map (·.toNat)).getD 2 = (contextLines.getD 2).toNat := by
    cases contextLines <;> rfl
  unfold fileSearch FileExploration.fileSearch
  rw [lines]
  refine Agrees.bind (.inr rfl) fun v => ?_
  cases crates.compile pattern with
  | error message => exact .inr rfl
  | ok isMatch =>
    dsimp only
    unfold searchPath
    by_cases isFile : presentFile d v = true
    · rw [if_pos isFile, if_pos isFile]
      exact (searchFile_agrees v _).bind fun results => agrees_pure _
    · rw [if_neg isFile, if_neg isFile]
      by_cases isDirectory : presentDir d v = true
      · rw [if_pos isDirectory, if_pos isDirectory]
        exact (searchDirectoryRecursive_agrees c fuel v _).bind fun results => agrees_pure _
      · rw [if_neg isDirectory, if_neg isDirectory]
        exact (agrees_pure _).bind fun results => agrees_pure _

/-! ## What there is to report -/

/-- A line that matches: its file, the lines of the file, and its index. -/
structure Hit where
  file : PathBuf
  lines : List Text
  index : Nat
  line : Text

/-- The lines with an index from the first on, before the last. -/
def window (ls : List Text) (first last : Nat) : List Text :=
  (ls.zipIdx.filter fun (_, index) => first ≤ index && index < last).map (·.1)

/-- The match as it is to be reported, with the lines before and after it that are at most
so many lines away. -/
def report (contextLines : UInt64) (hit : Hit) : SearchMatch where
  file := hit.file
  lineNumber := hit.index + 1
  line := hit.line
  contextBefore := window hit.lines (hit.index - contextLines.toNat) hit.index
  contextAfter := window hit.lines (hit.index + 1) (hit.index + contextLines.toNat + 1)

def hitsFrom (isMatch : Text → Bool) (file : PathBuf) (all : List Text) (first : Nat)
    (rest : List Text) : List Hit :=
  ((rest.zipIdx first).filter fun (line, _) => isMatch line).map
    fun (line, index) => ⟨file, all, index, line⟩

section
variable (crates : ExplorationCrates) (isMatch : Text → Bool)

/-- The matches in a file, if it is one that is searched. -/
def hitsIn (d : Disk) (file : PathBuf) : List Hit :=
  if shouldSearchFile crates file then
    match readToString d file with
    | .error _ => []
    | .ok content => hitsFrom isMatch file (lines content) 0 (lines content)
  else []

/-- The matches of an entry of a directory, for those below the directories. -/
def hitsOfEntry (d : Disk) (below : PathBuf → List Hit) (entryPath : PathBuf) : List Hit :=
  if shouldIncludePath entryPath then
    if presentFile d entryPath then hitsIn crates isMatch d entryPath
    else if presentDir d entryPath then below entryPath
    else []
  else []

/-- The matches in the files below a directory, at most so many levels. -/
def hitsBelow {d : Disk} (c : Catalog d) : Nat → PathBuf → List Hit
  | 0, _ => []
  | levels + 1, dirPath =>
    match readDir c dirPath with
    | .error _ => []
    | .ok names => names.flatMap fun name =>
      hitsOfEntry crates isMatch d (hitsBelow c levels) (pathJoin dirPath ⟨name⟩)

/-- The matches at a path. There is no directory below 4096 levels. -/
def hitsAt {d : Disk} (c : Catalog d) (p : PathBuf) : List Hit :=
  if presentFile d p then hitsIn crates isMatch d p
  else if presentDir d p then hitsBelow crates isMatch c 4096 p
  else []

end

theorem window_eq (ls : List Text) (first last : Nat) :
    window ls first last = (ls.take last).drop first := by
  have general : ∀ base, ((ls.zipIdx base).filter fun (_, index) =>
      decide (first ≤ index) && decide (index < last)).map (·.1) =
        (ls.take (last - base)).drop (first - base) := by
    induction ls with
    | nil => simp
    | cons line ls ih =>
      intro base
      rcases Nat.lt_or_ge base first with early | from_first
      · rw [List.zipIdx_cons, List.filter_cons_of_neg (by simp; omega), ih,
          show first - base = first - (base + 1) + 1 by omega]
        cases more : last - base with
        | zero => simp [show last - (base + 1) = 0 by omega]
        | succ n =>
          rw [show last - (base + 1) = n by omega, List.take_succ_cons, List.drop_succ_cons]
      · rw [show first - base = 0 by omega, List.drop_zero]
        rcases Nat.lt_or_ge base last with inside | behind
        · rw [List.zipIdx_cons, List.filter_cons_of_pos (by simp; omega), List.map_cons, ih,
            show first - (base + 1) = 0 by omega, List.drop_zero,
            show last - base = last - (base + 1) + 1 by omega, List.take_succ_cons]
        · rw [List.zipIdx_cons, List.filter_cons_of_neg (by simp; omega), ih,
            show last - base = 0 by omega, show last - (base + 1) = 0 by omega]
          simp
  exact general 0

/-! ## What is reported -/

/-- The end of the window of context is a machine word. -/
def Windowed (contextLines : UInt64) (hit : Hit) : Prop :=
  hit.index + contextLines.toNat + 1 < 2 ^ 64

/-- The hits that there is room for. -/
def roomFor (before : SearchResults) (hits : List Hit) : List Hit :=
  hits.take (maxSearchResults - before.matches.length)

/-- What a search over these hits makes of the results before it. -/
def Reporting (contextLines : UInt64) (hits : List Hit) (before : SearchResults) :
    Except Stop SearchResults → Prop
  | .ok after => (∀ hit ∈ roomFor before hits, Windowed contextLines hit) ∧
      after.matches = before.matches ++ (roomFor before hits).map (report contextLines)
  | .error .panicked => ∃ hit ∈ roomFor before hits, ¬ Windowed contextLines hit
  | .error (.failed _) => False

section
variable {crates : ExplorationCrates} {isMatch : Text → Bool} {contextLines : UInt64} {d : Disk}
  {before after : SearchResults} {xs ys : List Hit} {out : Except Stop SearchResults}

theorem reporting_nil (same : after.matches = before.matches) :
    Reporting contextLines [] before (.ok after) := by
  simp [Reporting, roomFor, same]

/-- A search that panics on the first hits panics on more of them. -/
theorem Reporting.panics_append (first : Reporting contextLines xs before (.error .panicked)) :
    Reporting contextLines (xs ++ ys) before (.error .panicked) := by
  obtain ⟨hit, member, wide⟩ := first
  refine ⟨hit, ?_, wide⟩
  rw [roomFor, List.take_append]
  exact List.mem_append_left _ member

/-- A search that has no room left ignores further hits. -/
theorem Reporting.full_append (space : before.matches.length < maxSearchResults)
    (first : Reporting contextLines xs before (.ok after))
    (full : after.matches.length ≥ maxSearchResults) :
    Reporting contextLines (xs ++ ys) before (.ok after) := by
  have enough : maxSearchResults - before.matches.length ≤ xs.length := by
    have sizes := congrArg List.length first.2
    rw [List.length_append, List.length_map, roomFor, List.length_take] at sizes
    omega
  have same : roomFor before (xs ++ ys) = roomFor before xs :=
    List.take_append_of_le_length enough
  rw [Reporting, same]
  exact first

/-- A search that has room left goes on. -/
theorem Reporting.append (first : Reporting contextLines xs before (.ok after))
    (space : after.matches.length < maxSearchResults)
    (second : Reporting contextLines ys after out) :
    Reporting contextLines (xs ++ ys) before out := by
  have sizes := congrArg List.length first.2
  rw [List.length_append, List.length_map, roomFor, List.length_take] at sizes
  have all : roomFor before xs = xs := List.take_of_length_le (by omega)
  have split : roomFor before (xs ++ ys) = xs ++ roomFor after ys := by
    rw [roomFor, List.take_append, List.take_of_length_le (by omega), roomFor]
    congr 2
    omega
  obtain ⟨windowed, reported⟩ := first
  rw [all] at windowed reported
  cases out with
  | ok last =>
    refine ⟨fun hit member => ?_, ?_⟩
    · rw [split] at member
      exact (List.mem_append.mp member).elim (windowed hit) (second.1 hit)
    · rw [second.2, reported, split, List.map_append, List.append_assoc]
  | error stop =>
    cases stop with
    | failed e => exact second
    | panicked =>
      obtain ⟨hit, member, wide⟩ := second
      exact ⟨hit, by rw [split]; exact List.mem_append_right _ member, wide⟩

theorem searchLines_reporting {file : PathBuf} {all rest : List Text} {lineIdx : Nat}
    (space : before.matches.length < maxSearchResults) :
    Reporting contextLines (hitsFrom isMatch file all lineIdx rest) before
      (searchLines isMatch contextLines file all lineIdx rest before) := by
  induction rest generalizing lineIdx before with
  | nil => exact reporting_nil rfl
  | cons line rest ih =>
    rw [searchLines]
    split
    · rename_i matching
      have found : hitsFrom isMatch file all lineIdx (line :: rest) =
          [⟨file, all, lineIdx, line⟩] ++ hitsFrom isMatch file all (lineIdx + 1) rest := by
        simp only [hitsFrom, List.zipIdx_cons, List.filter_cons, matching, if_true]
        rfl
      have one : roomFor before [⟨file, all, lineIdx, line⟩] = [⟨file, all, lineIdx, line⟩] :=
        List.take_of_length_le (by simp only [List.length_singleton]; omega)
      rw [found]
      split
      · rename_i windowed
        dsimp only
        have reported : Reporting contextLines [⟨file, all, lineIdx, line⟩] before (.ok
            { before with
              totalMatches := before.totalMatches + 1
              «matches» := before.matches ++ [⟨file, lineIdx + 1, line,
                (all.take lineIdx).drop (lineIdx - contextLines.toNat),
                (all.take (min (lineIdx + contextLines.toNat + 1) all.length)).drop
                  (lineIdx + 1)⟩] }) := by
          rw [Reporting, one]
          refine ⟨fun hit member => ?_, ?_⟩
          · rw [List.mem_singleton.mp member]
            exact windowed
          · simp only [List.map_cons, List.map_nil, report, window_eq]
            rw [← List.take_eq_take_min]
        split
        · rename_i full
          exact reported.full_append space full
        · rename_i roomLeft
          exact reported.append (Nat.not_le.mp roomLeft) (ih (Nat.not_le.mp roomLeft))
      · rename_i wide
        refine Reporting.panics_append ⟨⟨file, all, lineIdx, line⟩, ?_, wide⟩
        rw [one]
        exact List.mem_singleton_self _
    · rename_i other
      have skipped : hitsFrom isMatch file all lineIdx (line :: rest) =
          hitsFrom isMatch file all (lineIdx + 1) rest := by
        simp only [hitsFrom, List.zipIdx_cons, List.filter_cons, if_neg other]
      rw [skipped]
      exact ih space

theorem searchFile_reporting (file : PathBuf) (space : before.matches.length < maxSearchResults) :
    Reporting contextLines (hitsIn crates isMatch d file) before
      (searchFile crates isMatch contextLines d file before) := by
  unfold hitsIn searchFile
  split
  · dsimp only
    cases readToString d file with
    | error e => exact reporting_nil rfl
    | ok content => exact searchLines_reporting space
  · exact reporting_nil rfl

/-- The loop over the entries of a directory, with what is searched below them. -/
theorem searchEntries_reporting {into : Nat → PathBuf → SearchResults → Search SearchResults}
    {below : PathBuf → List Hit} {dirPath : PathBuf} {names : List Text} {bound : Nat}
    (goes : ∀ name ∈ names, shouldIncludePath (pathJoin dirPath ⟨name⟩) = true →
      presentDir d (pathJoin dirPath ⟨name⟩) = true → ∀ before : SearchResults,
      before.matches.length < maxSearchResults → ∃ out,
        (∀ fuel ≥ bound, into fuel (pathJoin dirPath ⟨name⟩) before = .mk (some out)) ∧
          Reporting contextLines (below (pathJoin dirPath ⟨name⟩)) before out)
    (space : before.matches.length < maxSearchResults) :
    ∃ out, (∀ fuel ≥ bound, searchEntries crates isMatch contextLines d (into fuel) dirPath names
        before = .mk (some out)) ∧
      Reporting contextLines (names.flatMap fun name =>
        hitsOfEntry crates isMatch d below (pathJoin dirPath ⟨name⟩)) before out := by
  induction names generalizing before with
  | nil => exact ⟨.ok before, fun _ _ => rfl, reporting_nil rfl⟩
  | cons name names ih =>
    have rest := fun {before : SearchResults} (space : before.matches.length < maxSearchResults) =>
      ih (fun other member => goes other (List.mem_cons_of_mem _ member)) space
    simp only [searchEntries, List.flatMap_cons]
    by_cases included : shouldIncludePath (pathJoin dirPath ⟨name⟩) = true
    · have first : ∃ out, (∀ fuel ≥ bound, searchEntry crates isMatch contextLines d (into fuel)
          (pathJoin dirPath ⟨name⟩) before = .mk (some out)) ∧
            Reporting contextLines (hitsOfEntry crates isMatch d below (pathJoin dirPath ⟨name⟩))
              before out := by
        unfold searchEntry hitsOfEntry
        rw [if_pos included]
        split
        · exact ⟨_, fun _ _ => rfl, searchFile_reporting _ space⟩
        · split
          · rename_i isDirectory
            exact goes name List.mem_cons_self included isDirectory before space
          · exact ⟨.ok before, fun _ _ => rfl, reporting_nil rfl⟩
      obtain ⟨out, ran, reported⟩ := first
      simp only [if_pos included]
      cases out with
      | error stop =>
        refine ⟨.error stop, fun fuel fuelled => by rw [ran fuel fuelled]; rfl, ?_⟩
        cases stop with
        | failed e => exact reported
        | panicked => exact reported.panics_append
      | ok mid =>
        by_cases full : mid.matches.length ≥ maxSearchResults
        · refine ⟨.ok mid, fun fuel fuelled => ?_, reported.full_append space full⟩
          rw [ran fuel fuelled]
          exact if_pos full
        · obtain ⟨out, ran₂, second⟩ := rest (Nat.not_le.mp full)
          refine ⟨out, fun fuel fuelled => ?_, reported.append (Nat.not_le.mp full) second⟩
          rw [ran fuel fuelled]
          exact (if_neg full).trans (ran₂ fuel fuelled)
    · rw [hitsOfEntry, if_neg included, List.nil_append]
      simp only [if_neg included]
      exact rest space

end

section
variable {crates : ExplorationCrates} {isMatch : Text → Bool} {contextLines : UInt64} {d : Disk}
  {c : Catalog d} {start node : List Text} {root : Files.Loc Text}

/-- **One directory.** A search of a directory that nodes are less than `bound` names below
reports what there is in these levels. -/
theorem searchDirectoryRecursive_reporting (sound : d.Sound) {bound : Nat}
    (plain : ∀ other ∈ start ++ node, PlainName other)
    (there : presentDir d (nodePath start node) = true)
    (deep : ∀ more, Walks.Descends (subdirs c start) node more → more.length < bound)
    {before : SearchResults} (space : before.matches.length < maxSearchResults) :
    ∃ out, (∀ fuel ≥ bound, searchDirectoryRecursive crates isMatch contextLines c fuel
        (nodePath start node) before = .mk (some out)) ∧
      Reporting contextLines (hitsBelow crates isMatch c bound (nodePath start node)) before
        out := by
  induction bound generalizing node before with
  | zero => exact absurd (deep [] trivial) (Nat.lt_irrefl 0)
  | succ bound ih =>
    have listed := readDir_node (c := c) sound there
    have goes : ∀ name ∈ c.names (place d start node),
        shouldIncludePath (pathJoin (nodePath start node) ⟨name⟩) = true →
        presentDir d (pathJoin (nodePath start node) ⟨name⟩) = true → ∀ before : SearchResults,
        before.matches.length < maxSearchResults → ∃ out,
          (∀ fuel ≥ bound, searchDirectoryRecursive crates isMatch contextLines c fuel
            (pathJoin (nodePath start node) ⟨name⟩) before = .mk (some out)) ∧
          Reporting contextLines (hitsBelow crates isMatch c bound
            (pathJoin (nodePath start node) ⟨name⟩)) before out := by
      intro name inDir included isDirectory before space
      have plainName := c.plain _ name inDir
      rw [entry_path plain plainName] at included isDirectory ⊢
      have member := mem_subdirs.mpr ⟨inDir, isDirectory, included⟩
      exact ih (plain_concat plain plainName) isDirectory
        (fun more down => Nat.lt_of_succ_lt_succ (deep (name :: more) ⟨member, down⟩)) space
    obtain ⟨out, ran, reported⟩ := @searchEntries_reporting crates isMatch contextLines d
      { before with trail := before.trail.enter (nodePath start node) } _ _ _ _ _ goes space
    refine ⟨out, fun fuel enough => ?_, ?_⟩
    · obtain ⟨less, rfl⟩ := Nat.exists_eq_add_of_le' (Nat.zero_lt_of_lt enough)
      rw [searchDirectoryRecursive, listed]
      exact ran less (Nat.le_of_succ_le_succ enough)
    · rw [hitsBelow, listed]
      exact reported

/-- There is nothing on further levels. -/
theorem hitsBelow_settled (sound : d.Sound) {bound : Nat}
    (plain : ∀ other ∈ start ++ node, PlainName other)
    (there : presentDir d (nodePath start node) = true)
    (deep : ∀ more, Walks.Descends (subdirs c start) node more → more.length < bound)
    {levels : Nat} (more : bound ≤ levels) :
    hitsBelow crates isMatch c levels (nodePath start node) =
      hitsBelow crates isMatch c bound (nodePath start node) := by
  induction bound generalizing node levels with
  | zero => exact absurd (deep [] trivial) (Nat.lt_irrefl 0)
  | succ bound ih =>
    obtain ⟨further, rfl⟩ := Nat.exists_eq_add_of_le' (Nat.zero_lt_of_lt more)
    rw [hitsBelow, hitsBelow, readDir_node (c := c) sound there]
    refine List.flatMap_congr fun name inDir => ?_
    have plainName := c.plain _ name inDir
    rw [entry_path plain plainName]
    unfold hitsOfEntry
    split
    · rename_i included
      split
      · rfl
      · split
        · rename_i isDirectory
          exact ih (plain_concat plain plainName) isDirectory
            (fun more down => Nat.lt_of_succ_lt_succ
              (deep (name :: more) ⟨mem_subdirs.mpr ⟨inDir, isDirectory, included⟩, down⟩))
            (Nat.le_of_succ_le_succ more)
        · rfl
    · rfl

/-- The hits at a path are all that there are, on any number of levels. -/
theorem hitsAt_settled (sound : d.Sound) (plain : ∀ name ∈ start, PlainName name)
    (notFile : presentFile d (nodePath start []) = false)
    (there : presentDir d (nodePath start []) = true) {levels : Nat} (more : 4096 ≤ levels) :
    hitsAt crates isMatch c (nodePath start []) =
      hitsBelow crates isMatch c levels (nodePath start []) := by
  rw [hitsAt, notFile, if_neg Bool.false_ne_true, if_pos there]
  exact (hitsBelow_settled sound (by simpa using plain) there
    (fun more down => reached_short there down) more).symm

/-- **One path.** -/
theorem searchPath_reporting (sound : d.Sound) (plain : ∀ name ∈ start, PlainName name) :
    ∃ out, (∀ fuel ≥ 4096, searchPath crates isMatch contextLines c fuel (nodePath start []) =
        .mk (some out)) ∧
      Reporting contextLines (hitsAt crates isMatch c (nodePath start []))
        ⟨0, 0, [], .empty⟩ out := by
  unfold searchPath hitsAt
  split
  · exact ⟨_, fun _ _ => rfl, searchFile_reporting _ (by decide)⟩
  · split
    · rename_i there
      exact searchDirectoryRecursive_reporting sound (by simpa using plain) there
        (fun more down => reached_short there down) (by decide)
    · exact ⟨_, fun _ _ => rfl, reporting_nil rfl⟩

/-! ## Calls -/

/-- A truthful report of these hits: at most a hundred of them, each with its context, and
whether there are more. -/
structure Truthful (contextLines : UInt64) (hits : List Hit) (outcome : SearchOutcome) : Prop where
  few : outcome.results.matches.length ≤ maxSearchResults
  reported : outcome.results.matches =
    (hits.take outcome.results.matches.length).map (report contextLines)
  truncated : outcome.truncated = true ↔ outcome.results.matches.length < hits.length

/-- The windows of what is reported end at machine words, and there are not just as many hits
as a search reports. -/
structure Countable (contextLines : UInt64) (hits : List Hit) : Prop where
  windowed : ∀ hit ∈ hits.take maxSearchResults, Windowed contextLines hit
  other : hits.length ≠ maxSearchResults

section
variable (crates : ExplorationCrates) (ops : FileOpsManager) (c : Catalog d) (pattern : Text)
  (path : PathBuf) (contextLines : Option UInt64)

/-- The call is let through, to this path and with this expression. -/
def Runs (v : PathBuf) (isMatch : Text → Bool) : Prop :=
  validated crates ops d "search files" path = .ok v ∧ crates.compile pattern = .ok isMatch

/-- The call, if it is let through, comes to a truthful report. -/
def ReportsTruthfully : Prop :=
  ∀ v isMatch, Runs crates ops (d := d) pattern path v isMatch →
    ∃ outcome, (∃ enough, ∀ fuel ≥ enough,
        (fileSearch crates ops c fuel pattern path contextLines).run = some (.ok outcome)) ∧
      Truthful (contextLines.getD 2) (hitsAt crates isMatch c v) outcome

end

variable {ops : FileOpsManager}

/-- What a call makes of the results of its path. -/
def outcomeOf (ops : FileOpsManager) (pattern : Text) (path : PathBuf) (results : SearchResults) :
    SearchOutcome :=
  ⟨pattern, adjustUserPath ops path,
    { results with «matches» := results.matches.take maxSearchResults },
    decide (results.matches.length ≥ maxSearchResults)⟩

/-- A call that is not let through fails. -/
theorem search_refused {pattern : Text} {path : PathBuf} {contextLines : Option UInt64} (fuel : Nat)
    (refused : ∀ v isMatch, ¬ Runs crates ops (d := d) pattern path v isMatch) :
    ∃ e, (fileSearch crates ops c fuel pattern path contextLines).run =
      some (.error (.failed e)) := by
  unfold fileSearch
  cases checked : validated crates ops d "search files" path with
  | error e => exact ⟨e, rfl⟩
  | ok v =>
    cases compiled : crates.compile pattern with
    | error message => exact ⟨_, rfl⟩
    | ok isMatch => exact absurd ⟨checked, compiled⟩ (refused v isMatch)

theorem fileSearch_run {v : PathBuf} {pattern : Text} {path : PathBuf}
    {contextLines : Option UInt64} {fuel : Nat} {out : Except Stop SearchResults}
    (runs : Runs crates ops (d := d) pattern path v isMatch)
    (ran : searchPath crates isMatch (contextLines.getD 2) c fuel v = .mk (some out)) :
    (fileSearch crates ops c fuel pattern path contextLines).run =
      some (out.map (outcomeOf ops pattern path)) := by
  unfold fileSearch
  rw [runs.1]
  change ExceptT.run (match crates.compile pattern with
    | .error message => _
    | .ok isMatch => _) = _
  rw [runs.2]
  change ExceptT.run (searchPath crates isMatch (contextLines.getD 2) c fuel v >>= _) = _
  rw [ran]
  cases out with
  | error stop => rfl
  | ok results => rfl

/-- The report of a hundred hits is truthful unless there are no others. -/
theorem hits_truthful_iff {contextLines : UInt64} {hits : List Hit} {after : SearchResults}
    {pattern : Text} {path : PathBuf}
    (reported : after.matches = (hits.take maxSearchResults).map (report contextLines)) :
    Truthful contextLines hits (outcomeOf ops pattern path after) ↔
      hits.length ≠ maxSearchResults := by
  have sizes : after.matches.length = min maxSearchResults hits.length := by
    rw [reported, List.length_map, List.length_take]
  have kept : after.matches.take maxSearchResults = after.matches :=
    List.take_of_length_le (by omega)
  have flag : (outcomeOf ops pattern path after).truncated = true ↔
      maxSearchResults ≤ hits.length := by
    simp only [outcomeOf, decide_eq_true_eq, sizes]
    omega
  have shown : (outcomeOf ops pattern path after).results.matches = after.matches := kept
  constructor
  · intro truthful same
    have more := truthful.truncated.mp (flag.mpr (Nat.le_of_eq same.symm))
    rw [shown, sizes] at more
    omega
  · intro other
    refine ⟨?_, ?_, ?_⟩
    · rw [shown, sizes]
      exact Nat.min_le_left _ _
    · rw [shown, sizes, List.take_eq_take_min.symm, reported]
    · rw [flag, shown, sizes]
      omega

/-- **Search.** A search that is let through comes to a truthful report exactly if the windows
of what it reports end at machine words, and there are not just a hundred matches. -/
theorem search_truthful_iff (cleans : Cleans crates.clean) (sound : d.Sound) (spelled : Spelled d)
    (rooted : PatchPaths.RootedAt d ops.pathSecurity root) (c : Catalog d) (pattern : Text)
    (path : PathBuf) (contextLines : Option UInt64) :
    ReportsTruthfully crates ops c pattern path contextLines ↔
      ∀ v isMatch, Runs crates ops (d := d) pattern path v isMatch →
        Countable (contextLines.getD 2) (hitsAt crates isMatch c v) := by
  refine forall_congr' fun v => forall_congr' fun isMatch => imp_congr_right fun runs => ?_
  obtain ⟨passed, -⟩ := validated_ok.mp runs.1
  obtain ⟨start, plain, rfl⟩ := PatchPaths.accepted_absolute cleans sound spelled rooted passed
  rw [← nodePath_nil] at runs ⊢
  obtain ⟨out, ran, reporting⟩ :=
    @searchPath_reporting crates isMatch (contextLines.getD 2) d c start sound plain
  have outcomes : ∀ outcome, (∃ enough, ∀ fuel ≥ enough,
      (fileSearch crates ops c fuel pattern path contextLines).run = some (.ok outcome)) ↔
        out.map (outcomeOf ops pattern path) = .ok outcome := by
    intro outcome
    constructor
    · rintro ⟨enough, ends⟩
      have same := ends (max enough 4096) (Nat.le_max_left _ _)
      rw [fileSearch_run runs (ran _ (Nat.le_max_right _ _))] at same
      exact Option.some.inj same
    · intro same
      exact ⟨4096, fun fuel enough => by rw [fileSearch_run runs (ran fuel enough), same]⟩
  simp only [outcomes]
  cases out with
  | error stop =>
    cases stop with
    | failed e => exact reporting.elim
    | panicked =>
      obtain ⟨hit, member, wide⟩ := reporting
      refine iff_of_false ?_ fun countable => wide (countable.windowed hit member)
      rintro ⟨outcome, same, -⟩
      cases same
  | ok after =>
    obtain ⟨windowed, reported⟩ := reporting
    have exact_report := @hits_truthful_iff ops (contextLines.getD 2) _ after pattern path reported
    constructor
    · rintro ⟨outcome, same, truthful⟩
      cases same
      exact ⟨windowed, exact_report.mp truthful⟩
    · intro countable
      exact ⟨_, rfl, exact_report.mpr countable.other⟩

end

/-- The notes are searched. -/
theorem notes_searched : ReportsTruthfully plainCrates workOps projectCatalog "todo".toList
    ⟨"notes".toList⟩ none := by
  refine (search_truthful_iff cleans_cleanAbsolute projectDisk_sound projectDisk_spelled
    projectDisk_rooted projectCatalog _ _ none).mpr ?_
  rintro v isMatch ⟨checked, compiled⟩
  have accepted : validated plainCrates workOps projectDisk "search files" ⟨"notes".toList⟩ =
      .ok ⟨"/w/notes".toList⟩ := by decide +kernel
  cases accepted.symm.trans checked
  cases compiled
  have one : (hitsAt plainCrates (contains "todo".toList) projectCatalog
        ⟨"/w/notes".toList⟩).length = 1 ∧
      ∀ hit ∈ (hitsAt plainCrates (contains "todo".toList) projectCatalog
        ⟨"/w/notes".toList⟩).take maxSearchResults, hit.index + 2 + 1 < 2 ^ 64 := by
    decide +kernel
  exact ⟨one.2, by rw [one.1]; decide⟩

/-- A directory `/w` with a file of a hundred lines. -/
def hundredDisk : Disk where
  tree := Files.put (Files.put (fun _ => none) ["w".toList] (some .dir))
    ["w".toList, "a.txt".toList]
      (some (.file (.utf8 (List.replicate 100 ['a', '\n']).flatten)))
  cwd := []
  touched := []

def hundredCatalog : Catalog hundredDisk :=
  catalogOf [["w".toList, "a.txt".toList], ["w".toList]]
    (known_put (known_put (by simp) _ _) _ _) (by decide)

theorem hundred_runs : Runs plainCrates workOps (d := hundredDisk) "a".toList ⟨"a.txt".toList⟩
    ⟨"/w/a.txt".toList⟩ (contains "a".toList) :=
  ⟨by decide +kernel, rfl⟩

/-- A hundred matches are all reported, and said to be truncated; and a window of context
without an end has no report. -/
theorem hundred_truncated :
    ((fileSearch plainCrates workOps hundredCatalog 0 "a".toList ⟨"a.txt".toList⟩ none).run.bind
        fun result => result.toOption.map fun outcome =>
          (outcome.results.matches.length, outcome.truncated)) = some (100, true) ∧
      (hitsAt plainCrates (contains "a".toList) hundredCatalog
        ⟨"/w/a.txt".toList⟩).length = 100 ∧
      ¬ ReportsTruthfully plainCrates workOps hundredCatalog "a".toList ⟨"a.txt".toList⟩ none ∧
      ¬ ReportsTruthfully plainCrates workOps hundredCatalog "a".toList ⟨"a.txt".toList⟩
        (some (.ofNat usizeMax)) := by
  have isFile : presentFile hundredDisk ⟨"/w/a.txt".toList⟩ = true := by decide +kernel
  have searched : ∀ contextLines fuel, (fileSearch plainCrates workOps hundredCatalog fuel
      "a".toList ⟨"a.txt".toList⟩ contextLines).run =
        some ((searchFile plainCrates (contains "a".toList) (contextLines.getD 2) hundredDisk
          ⟨"/w/a.txt".toList⟩ ⟨0, 0, [], .empty⟩).map
            (outcomeOf workOps "a".toList ⟨"a.txt".toList⟩)) :=
    fun _ _ => fileSearch_run hundred_runs (if_pos isFile)
  have found : ((fileSearch plainCrates workOps hundredCatalog 0 "a".toList ⟨"a.txt".toList⟩
        none).run.bind fun result => result.toOption.map fun outcome =>
          (outcome.results.matches.length, outcome.truncated)) = some (100, true) ∧
      (hitsAt plainCrates (contains "a".toList) hundredCatalog
        ⟨"/w/a.txt".toList⟩).length = 100 ∧
      (searchFile plainCrates (contains "a".toList) (.ofNat usizeMax) hundredDisk
        ⟨"/w/a.txt".toList⟩ ⟨0, 0, [], .empty⟩).toOption.isNone = true := by decide +kernel
  obtain ⟨counted, present, panics⟩ := found
  refine ⟨counted, present, fun reports => ?_, fun reports => ?_⟩
  · obtain ⟨outcome, ⟨enough, ends⟩, truthful⟩ := reports _ _ hundred_runs
    rw [searched none 0, ← searched none enough, ends enough (Nat.le_refl _)] at counted
    obtain ⟨hundred, truncated⟩ := Prod.mk.inj (Option.some.inj counted)
    have more := truthful.truncated.mp truncated
    rw [present] at more
    omega
  · obtain ⟨outcome, ⟨enough, ends⟩, -⟩ := reports _ _ hundred_runs
    have same := Option.some.inj ((searched _ enough).symm.trans (ends enough (Nat.le_refl _)))
    rw [Option.getD_some] at same
    cases result : searchFile plainCrates (contains "a".toList) (.ofNat usizeMax) hundredDisk
        ⟨"/w/a.txt".toList⟩ ⟨0, 0, [], .empty⟩ with
    | error stop =>
      rw [result] at same
      cases same
    | ok after =>
      rw [result] at panics
      cases panics

end SearchReports

end Devit
