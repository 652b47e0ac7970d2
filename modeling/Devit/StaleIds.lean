import Devit.IdCache

/-! Whether a changed repository is noticed. An identifier is checked against what git
reports and against nothing else: the paths said to be affected are looked at, but not
compared. So a state is found stale where git's report is another, and a content that
changes under the same report is not noticed. -/
namespace Devit
open Text Path FileSystem

namespace StaleIds
open SnapshotIds IdCache

variable {blake3 : List UInt8 → List UInt8} {git : GitCommands} {states : GitState → Prop}
  {cache : SnapshotSignatureCache} {g g' : GitState}

/-- The loop over the affected paths refuses nothing. -/
theorem validateAffectedPaths_ok (git : GitCommands) (repoPath : PathBuf) (d : Disk)
    (affectedPaths : List PathBuf) : validateAffectedPaths git repoPath d affectedPaths = .ok true := by
  induction affectedPaths with
  | nil => rfl
  | cons path paths ih =>
    rw [validateAffectedPaths, ih]
    split <;> rfl

/-- **Checks.** Where the cache cannot be seen, an identifier is valid in a state
without conflicts exactly if it is the state's own. -/
theorem snapshotValidateIn_answer {repoPath : PathBuf} {d : Disk} {affectedPaths : List PathBuf}
    (knows : Knows blake3 states cache) (clean : g.inConflict = false)
    (agrees : ∀ i, states i → Memo.Shares (stateKey blake3) (generateSnapshotIdFromGit blake3) i g)
    (snapshotId : Text) :
    (snapshotValidateIn blake3 git snapshotId repoPath d affectedPaths g cache).1 =
      .ok (decide (generateSnapshotIdFromGit blake3 g = .ok snapshotId)) := by
  have answer := @get_answer blake3 cache (signatureOf g)
  have made := (@generate_ok blake3 g _).mpr ⟨clean, rfl⟩
  unfold snapshotValidateIn
  rw [clean, if_neg Bool.false_ne_true]
  dsimp only
  split
  · rename_i same
    obtain ⟨i, seen, key, result⟩ := knows (stateKey blake3 g) snapshotId (answer.symm.trans same)
    rw [validateAffectedPaths_ok, decide_eq_true (agrees i seen key snapshotId result)]
  · rw [made]
    dsimp only
    split
    · rename_i same
      rw [validateAffectedPaths_ok, decide_eq_true (by rw [same])]
    · rename_i other
      rw [decide_eq_false (by rw [Except.ok.injEq]; exact other)]

/-- **Stale states.** After a run with one cache in which states that share a key share
the identifier, a state with a merge or a rebase under way is an error, and one for which
git reports something else than when the identifier was given out is stale. -/
theorem changed_report_stale {capacity : Nat} {done between : List Call} {repoPath : PathBuf}
    {before later : Disk} {snapshotId : Text} (separates : Separates blake3 states)
    (agrees : ∀ g g', states g → states g' → Agrees g g')
    (seen : ∀ c ∈ done ++ .get (getGitState blake3 git repoPath before) :: between, states c.gitState)
    (seen_later : states (getGitState blake3 git repoPath later))
    (got : (snapshotGet blake3 git repoPath before
      (Runs.final (call blake3 git) (.withCapacity capacity) done)).1 = .ok snapshotId)
    (affectedPaths : List PathBuf) :
    let now := getGitState blake3 git repoPath later
    let answer := (snapshotValidate blake3 git snapshotId repoPath later affectedPaths
      (Runs.final (call blake3 git) (.withCapacity capacity)
        (done ++ .get (getGitState blake3 git repoPath before) :: between))).1
    (now.inConflict = true → answer = .error (conflict "snapshot_validate"
      "Repository has unresolved conflicts. Resolve them before validating snapshots." now)) ∧
    (now.inConflict = false → stateBytes now ≠ stateBytes (getGitState blake3 git repoPath before) →
      answer = .ok false) := by
  intro now answer
  have seen_before : states (getGitState blake3 git repoPath before) :=
    seen (.get (getGitState blake3 git repoPath before)) (by simp)
  refine ⟨fun conflicting => ?_, fun clean other => ?_⟩
  · simp only [answer, snapshotValidate, snapshotValidateIn]
    rw [if_pos conflicting]
  · have earlier := @run_knows blake3 git states capacity done fun c member =>
      seen c (List.mem_append_left _ member)
    rw [snapshotGet, snapshotGetIn_answer, Memo.Learned.consult_eq earlier fun i here =>
      (shares_iff separates here seen_before).mpr (agrees i _ here seen_before)] at got
    have valid := @snapshotValidateIn_answer blake3 git states _ _ repoPath later affectedPaths
      (@run_knows blake3 git states capacity _ seen) clean (fun i here =>
        (shares_iff separates here seen_later).mpr (agrees i _ here seen_later)) snapshotId
    refine valid.trans ?_
    rw [decide_eq_false]
    intro same
    obtain ⟨clean_before, -⟩ := generate_ok.mp got
    exact other ((generate_same_iff separates seen_before seen_later clean_before).mp
      (same.trans got.symm)).2

/-! ## A file that was already modified -/

/-- A repository in `/r` with a note. -/
def repository (note : String) : Disk :=
  (((⟨fun _ => none, [], []⟩ : Disk).put ["r".toList] (some .dir)).put
    ["r".toList, ".git".toList] (some .dir)).put
    ["r".toList, "a.txt".toList] (some (.file (.utf8 note.toList)))

/-- The same with a merge under way. -/
def mergingRepository (note : String) : Disk :=
  (repository note).put ["r".toList, ".git".toList, "MERGE_HEAD".toList] (some (.file (.utf8 [])))

/-- What git reports there: whether the note is what was committed. -/
def noteGit : GitCommands where
  revParseHead := fun _ _ => some "abc\n".toList
  status := fun _ d =>
    if readToString d ⟨"/r/a.txt".toList⟩ = .ok "zero".toList then some []
    else some " M a.txt\x00".toList
  lsFiles := fun _ _ _ => some "100644 a.txt".toList

/-- The identifier of the repository with the note `one`. -/
def noteId : Text :=
  (snapshotGet List.reverse noteGit ⟨"/r".toList⟩ (repository "one")
    (.withCapacity 128)).1.toOption.getD []

/-- The cache after it was given out. -/
def noteCache : SnapshotSignatureCache :=
  (snapshotGet List.reverse noteGit ⟨"/r".toList⟩ (repository "one") (.withCapacity 128)).2

/-- Going back to what was committed is noticed. -/
theorem reverted_note_stale : (snapshotGet List.reverse noteGit ⟨"/r".toList⟩ (repository "one")
      (.withCapacity 128)).1 = .ok noteId ∧
    (snapshotValidate List.reverse noteGit noteId ⟨"/r".toList⟩ (repository "zero")
      [⟨"a.txt".toList⟩] noteCache).1 = .ok false := by
  have got : (snapshotGet List.reverse noteGit ⟨"/r".toList⟩ (repository "one")
      (.withCapacity 128)).1 = .ok noteId := by decide +kernel
  have before : getGitState List.reverse noteGit ⟨"/r".toList⟩ (repository "one") =
      atCommit " M a.txt" none := by decide +kernel
  have later : getGitState List.reverse noteGit ⟨"/r".toList⟩ (repository "zero") =
      atCommit "" none := by decide +kernel
  have separates : Separates List.reverse (· ∈ [atCommit " M a.txt" none, atCommit "" none]) :=
    separates_listed (by decide +kernel) (by decide +kernel)
  have agree : ∀ g ∈ [atCommit " M a.txt" none, atCommit "" none],
      ∀ g' ∈ [atCommit " M a.txt" none, atCommit "" none], Agrees g g' := by
    unfold Agrees SameKey
    decide +kernel
  have seen : ∀ c ∈ ([] ++ .get (getGitState List.reverse noteGit ⟨"/r".toList⟩ (repository "one")) :: [] :
      List Call), c.gitState ∈ [atCommit " M a.txt" none, atCommit "" none] := by
    intro c member
    cases List.mem_singleton.mp (show c ∈ [_] from member)
    rw [before]
    decide +kernel
  have stale := (changed_report_stale separates (fun g g' here here' => agree g here g' here') seen
    (by rw [later]; decide +kernel) got [⟨"a.txt".toList⟩]).2
  refine ⟨got, stale ?_ ?_⟩
  · rw [later]
    decide +kernel
  · rw [later, before]
    decide +kernel

/-- Another edit of the modified note is not, and with a merge under way there is an
error instead. -/
theorem edited_note_valid :
    (snapshotGet List.reverse noteGit ⟨"/r".toList⟩ (repository "one")
      (.withCapacity 128)).1 = .ok noteId ∧
    readToString (repository "one") ⟨"/r/a.txt".toList⟩ = .ok "one".toList ∧
    readToString (repository "two") ⟨"/r/a.txt".toList⟩ = .ok "two".toList ∧
    (snapshotValidate List.reverse noteGit noteId ⟨"/r".toList⟩ (repository "two")
      [⟨"a.txt".toList⟩] noteCache).1 = .ok true ∧
    (snapshotValidate List.reverse noteGit noteId ⟨"/r".toList⟩ (mergingRepository "two")
      [⟨"a.txt".toList⟩] noteCache).1 = .error (.vcsConflict "snapshot_validate".toList "merge".toList []
        (some "Repository has unresolved conflicts. Resolve them before validating snapshots.".toList)) := by
  refine ⟨by decide +kernel, by decide +kernel, by decide +kernel, by decide +kernel, by decide +kernel⟩

end StaleIds

end Devit
