import Devit.StructuredEdits
import Devit.Library.Table
import Devit.Library.Runs

/-! Edit sessions: hunks that are accepted or rejected one by one, and applied to the contents
that the files had when the session began. Which hunks have been applied before is not stored
but in their status, and a second call passes over them. -/
namespace Devit
open Text

namespace EditSessions
open DiffApplier

structure EditSession where
  id : Text
  hunks : List EditHunk
  originalContents : Table Text

/-! ## The session of an answer -/

/-- The hunks filled in, and the contents that were read for it. -/
def fillHunks (read : Text → Option Text) : List EditHunk → Table Text →
    Option (List EditHunk × Table Text)
  | [], contents => some ([], contents)
  | hunk :: hunks, contents =>
    let contents :=
      if (contents.lookup hunk.filePath).isSome then contents
      else (read hunk.filePath).elim contents (contents.insert hunk.filePath)
    let filled := (contents.lookup hunk.filePath).elim (some hunk) (fillOriginal · hunk)
    filled.bind fun hunk =>
      (fillHunks read hunks contents).map fun (hunks, contents) => (hunk :: hunks, contents)

/-- What `request_structured_edit` stores for the answer of a model. -/
def requestStructuredEdit (fromStr : Text → Except Text StructuredEdit) (read : Text → Option Text)
    (sessionId responseText : Text) : Except ContextError (Option EditSession) :=
  match parseEdit fromStr responseText with
  | .error e => .error e
  | .ok hunks => .ok <| (fillHunks read hunks ∅).map fun (hunks, contents) =>
      { id := sessionId, hunks := hunks, originalContents := contents }

theorem fillOriginal_status {fileContent : Text} {hunk filled : EditHunk}
    (done : fillOriginal fileContent hunk = some filled) : filled.status = hunk.status := by
  unfold fillOriginal at done
  dsimp only at done
  split at done
  · cases done
    rfl
  · split at done
    · split at done
      · cases done
        rfl
      · cases done
    · cases done
      rfl

theorem fillHunks_status {read : Text → Option Text} {hunks filled : List EditHunk}
    {contents contents' : Table Text} {status : HunkStatus}
    (done : fillHunks read hunks contents = some (filled, contents'))
    (all : ∀ hunk ∈ hunks, hunk.status = status) : ∀ hunk ∈ filled, hunk.status = status := by
  induction hunks generalizing contents filled with
  | nil =>
    cases done
    exact nofun
  | cons hunk hunks ih =>
    obtain ⟨head, later⟩ := List.forall_mem_cons.mp all
    rw [fillHunks] at done
    obtain ⟨first, one, rest⟩ := Option.bind_eq_some_iff.mp done
    obtain ⟨⟨others, _⟩, below, shape⟩ := Option.map_eq_some_iff.mp rest
    cases shape
    refine List.forall_mem_cons.mpr ⟨?_, ih below later⟩
    rw [← head]
    revert one
    cases AList.lookup hunk.filePath _ with
    | none =>
      rintro ⟨⟩
      rfl
    | some content => exact fillOriginal_status

/-- A session begins with hunks to be reviewed. -/
theorem requested_pending {fromStr : Text → Except Text StructuredEdit} {read : Text → Option Text}
    {sessionId responseText : Text} {session : EditSession}
    (requested : requestStructuredEdit fromStr read sessionId responseText = .ok (some session)) :
    ∀ hunk ∈ session.hunks, hunk.status = .pending := by
  unfold requestStructuredEdit parseEdit at requested
  cases reading : fromStr responseText with
  | error e =>
    rw [reading] at requested
    cases requested
  | ok edit =>
    rw [reading] at requested
    obtain ⟨⟨hunks, contents⟩, done, rfl⟩ := Option.map_eq_some_iff.mp (Except.ok.inj requested)
    refine fillHunks_status done (List.forall_mem_map.mpr fun p _ => ?_)
    obtain ⟨operation, idx⟩ := p
    cases operation <;> rfl

/-! ## Commands -/

structure Studio where
  sessions : Table EditSession
  disk : Text → Option Text

inductive Failure where
  | message (text : Text)
  | panicked
  deriving DecidableEq

inductive Answer where
  | updated
  | modified (files : List Text)
  | failed (failure : Failure)
  deriving DecidableEq

def updateHunkStatus (sessionId hunkId : Text) (accepted : Bool) (s : Studio) : Answer × Studio :=
  match s.sessions.lookup sessionId with
  | none => (.failed (.message "Session not found".toList), s)
  | some session =>
    match session.hunks.findIdx? (·.id = hunkId) with
    | none => (.failed (.message "Hunk not found".toList), s)
    | some idx =>
      let session := { session with
        hunks := session.hunks.modify idx fun hunk =>
          { hunk with status := if accepted then .accepted else .rejected } }
      (.updated, { s with sessions := s.sessions.insert sessionId session })

/-- What comes of writing a file: a failed write can leave anything in its place. -/
inductive WriteResult where
  | ok
  | failed (error : Text) (left : Option Text)

def applyFile (session : EditSession) (write : Text → WriteResult) (disk : Text → Option Text)
    (filePath : Text) : Except Failure Unit × (Text → Option Text) :=
  match session.originalContents.lookup filePath with
  | none => (.error (.message ("Original content not found for ".toList ++ filePath)), disk)
  | some original =>
    match applyHunks original (session.hunks.filter (·.filePath = filePath)) with
    | none => (.error .panicked, disk)
    | some newContent =>
      match write filePath with
      | .failed e left =>
        (.error (.message ("Failed to write ".toList ++ filePath ++ ": ".toList ++ e)),
          Function.update disk filePath left)
      | .ok => (.ok (), Function.update disk filePath (some newContent))

/-- The files one after the other, up to the first one that fails. -/
def applyFiles (session : EditSession) (write : Text → WriteResult) :
    List Text → (Text → Option Text) → Except Failure Unit × (Text → Option Text)
  | [], disk => (.ok (), disk)
  | filePath :: files, disk =>
    match applyFile session write disk filePath with
    | (.error failure, disk) => (.error failure, disk)
    | (.ok (), disk) => applyFiles session write files disk

def markApplied (hunk : EditHunk) : EditHunk :=
  if hunk.status = .accepted then { hunk with status := .applied } else hunk

/-- The files are grouped in a hash map, whose order is given. -/
def applyAcceptedHunks (sessionId : Text) (order : List Text) (write : Text → WriteResult)
    (s : Studio) : Answer × Studio :=
  match s.sessions.lookup sessionId with
  | none => (.failed (.message "Session not found".toList), s)
  | some session =>
    match applyFiles session write order s.disk with
    | (.error failure, disk) => (.failed failure, { s with disk := disk })
    | (.ok (), disk) =>
      let session := { session with hunks := session.hunks.map markApplied }
      (.modified order, { sessions := s.sessions.insert sessionId session, disk := disk })

/-! ## Which hunks are in force -/

/-- A call for the session. -/
inductive Call where
  | update (hunkId : Text) (accepted : Bool)
  | apply (order : List Text) (write : Text → WriteResult)

/-- The commands' state, and which hunks were applied and not rejected since. -/
structure Tracked where
  studio : Studio
  standing : Nat → Bool

def Tracked.session? (t : Tracked) (sessionId : Text) : Option EditSession :=
  t.studio.sessions.lookup sessionId

/-- The hunks that stand or are accepted. -/
def inForce (session : EditSession) (standing : Nat → Bool) (i : Nat) : Bool :=
  standing i || (session.hunks[i]?).any (·.status = .accepted)

/-- What stands after a call and its answer. -/
def track (session : EditSession) (standing : Nat → Bool) : Call → Answer → Nat → Bool
  | .update hunkId false, .updated => fun i =>
    standing i && decide (session.hunks.findIdx? (·.id = hunkId) ≠ some i)
  | .apply _ _, .modified _ => inForce session standing
  | _, _ => standing

def perform (sessionId : Text) : Call → Studio → Answer × Studio
  | .update hunkId accepted => updateHunkStatus sessionId hunkId accepted
  | .apply order write => applyAcceptedHunks sessionId order write

def step (sessionId : Text) (t : Tracked) (call : Call) : Answer × Tracked :=
  let result := perform sessionId call t.studio
  let standing := (t.session? sessionId).elim t.standing fun session =>
    track session t.standing call result.1
  (result.1, ⟨result.2, standing⟩)

def forcedHunk (force : Nat → Bool) (p : EditHunk × Nat) : EditHunk :=
  { p.1 with status := if force p.2 then .accepted else .pending }

/-- The hunks with just those accepted that are in force. -/
def forced (hunks : List EditHunk) (force : Nat → Bool) : List EditHunk :=
  hunks.zipIdx.map (forcedHunk force)

/-- The file holds its original content with the hunks in force spliced in. -/
def Holds (session : EditSession) (force : Nat → Bool) (disk : Text → Option Text)
    (filePath : Text) : Prop :=
  ∃ original content, session.originalContents.lookup filePath = some original ∧
    applyHunks original ((forced session.hunks force).filter (·.filePath = filePath)) =
      some content ∧
    disk filePath = some content

/-- A file that holds its content with the accepted hunks. -/
def Written (session : EditSession) (disk : Text → Option Text) (filePath : Text) : Prop :=
  ∃ original content, session.originalContents.lookup filePath = some original ∧
    applyHunks original (session.hunks.filter (·.filePath = filePath)) = some content ∧
    disk filePath = some content

theorem applyFile_ok {session : EditSession} {write : Text → WriteResult}
    {disk disk' : Text → Option Text} {filePath : Text}
    (done : applyFile session write disk filePath = (.ok (), disk')) :
    Written session disk' filePath ∧ ∀ other, other ≠ filePath → disk' other = disk other := by
  unfold applyFile at done
  split at done
  · cases done
  · rename_i original stored
    split at done
    · cases done
    · rename_i content applied
      split at done
      · cases done
      · obtain ⟨-, rfl⟩ := Prod.mk.inj done
        exact ⟨⟨original, content, stored, applied, Function.update_self ..⟩,
          fun other different => Function.update_of_ne different ..⟩

/-- What stands was accepted, and may have been applied since. -/
def Sound (hunks : List EditHunk) (standing : Nat → Bool) : Prop :=
  ∀ i hunk, hunks[i]? = some hunk → standing i = true →
    hunk.status = .accepted ∨ hunk.status = .applied

def Tracks (sessionId : Text) (t : Tracked) : Prop :=
  ∀ session, t.session? sessionId = some session → Sound session.hunks t.standing

theorem Sound.update {hunks : List EditHunk} {standing standing' : Nat → Bool} {idx : Nat}
    {accepted : Bool} (sound : Sound hunks standing)
    (left : ∀ i, standing' i = true → standing i = true ∧ (idx = i → accepted = true)) :
    Sound (hunks.modify idx fun hunk =>
      { hunk with status := if accepted then .accepted else .rejected }) standing' := by
  intro i hunk at_i stands
  obtain ⟨stood, kept⟩ := left i stands
  rw [List.getElem?_modify] at at_i
  obtain ⟨old, there, rfl⟩ := Option.map_eq_some_iff.mp at_i
  by_cases here : idx = i
  · rw [if_pos here, kept here]
    exact .inl rfl
  · rw [if_neg here]
    exact sound i old there stood

theorem Sound.applied {session : EditSession} {standing : Nat → Bool}
    (sound : Sound session.hunks standing) :
    Sound (session.hunks.map markApplied) (inForce session standing) := by
  intro i hunk at_i stands
  rw [List.getElem?_map] at at_i
  obtain ⟨old, there, rfl⟩ := Option.map_eq_some_iff.mp at_i
  rw [markApplied]
  split
  · exact .inr rfl
  · rename_i other
    rw [inForce, there, Option.any_some, decide_eq_false other, Bool.or_false] at stands
    exact sound i old there stands

def twoHunks : List EditHunk :=
  [⟨"a.rs-0".toList, "a.rs".toList, 1, 1, ['1'], ['x'], "Replace lines 1-1".toList, .pending⟩,
    ⟨"a.rs-1".toList, "a.rs".toList, 2, 2, ['2'], ['y'], "Replace lines 2-2".toList, .pending⟩]

def opened : Tracked :=
  { studio :=
      { sessions := (∅ : Table EditSession).insert ['s']
          ⟨['s'], twoHunks, (∅ : Table Text).insert "a.rs".toList "1\n2".toList⟩
        disk := fun filePath => if filePath = "a.rs".toList then some "1\n2".toList else none }
    standing := fun _ => false }

def accept (hunkId : String) : Call := .update hunkId.toList true

end EditSessions
end Devit
