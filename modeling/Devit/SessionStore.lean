import Devit.Library.Json
import Devit.Library.Path
import Devit.Library.Runs
import Devit.Library.StableSort
import Devit.Library.Table
import Devit.SnapshotFiles
import Devit.SnapshotIds

/-! The chat sessions below `~/.devit`, one file each, in a directory for each day. A session is
named after the second in which it was made, so two sessions of one second have one file; and a
JSON file that is no session is listed among the sessions of every application. -/
namespace Devit
open Text Path FileSystem

inductive StoredMessage where
  | user (content : Text)
  | assistant (content : Text)
  | system (content : Text)
  | toolCall (name args : Text)
  | toolResult (name result : Text)
  deriving DecidableEq, Repr

structure Session where
  id : Text
  createdAt : Text
  updatedAt : Text
  model : Text
  workspace : Text
  app : Text
  messages : List StoredMessage
  inputHistory : List Text
  deriving DecidableEq, Repr

/-- What sessions use of other crates. Times are in nanoseconds. -/
structure SessionCrates where
  /-- `serde_json::to_string_pretty` and `from_str`. -/
  serialize : Session → Text
  parse : Text → Option Session
  /-- A time as `%Y%m%d_%H%M%S`. -/
  stamp : Nat → Text
  /-- `to_rfc3339` -/
  rfc3339 : Nat → Text

/-- The directories in `~/.devit`, with their files. -/
abbrev SessionFolder := Table (Table Text)

structure SessionInfo where
  path : Text × Text
  displayName : Text
  app : Option Text
  deriving DecidableEq, Repr

/-- A file that does not parse. -/
inductive SessionError where
  | json
  deriving DecidableEq, Repr

namespace SessionStore
open SnapshotIds (textLe)

section
variable (crates : SessionCrates)

/-- `Session::new_with_app` -/
def newWithApp (now : Nat) (model workspace app : Text) : Session where
  id := crates.stamp now
  createdAt := crates.rfc3339 now
  updatedAt := crates.rfc3339 now
  model := model
  workspace := workspace
  app := app
  messages := []
  inputHistory := []

/-- `Session::file_path`: the directory of the day and the file in it. -/
def filePath (session : Session) : Text × Text :=
  (session.createdAt.take 10, "session_".toList ++ session.id ++ ".json".toList)

/-- `Session::save` -/
def save (now : Nat) (session : Session) (home : SessionFolder) : SessionFolder :=
  let session := { session with updatedAt := crates.rfc3339 now }
  let (date, file) := filePath session
  home.insert date (((home.lookup date).getD ∅).insert file (crates.serialize session))

/-- `matches_app_filter`: what does not parse is included. -/
def matchesAppFilter (content : Text) : Option Text → Bool × Option Text
  | none => (true, none)
  | some filter =>
    match crates.parse content with
    | some session => if session.app = filter then (true, some session.app) else (false, none)
    | none => (true, none)

/-- One file of a directory. -/
def sessionInfo (appFilter : Option Text) (dir : Text) (file content : Text) :
    Option SessionInfo :=
  if extension ⟨file⟩ = some "json".toList then
    let (included, app) := matchesAppFilter crates content appFilter
    if included then some ⟨(dir, file), dir ++ '/' :: stem file, app⟩ else none
  else none

def listSessions (home : SessionFolder) (dateFilter appFilter : Option Text) :
    List SessionInfo :=
  ((home.entries.filter fun dir => (dateFilter.map (startsWith · dir.1)).getD true).flatMap
    fun dir => dir.2.entries.filterMap fun file =>
      sessionInfo crates appFilter dir.1 file.1 file.2).mergeSort
    fun a b => textLe b.displayName a.displayName

/-- `Session::load`, for the path of a file that is there. -/
def load (home : SessionFolder) (path : Text × Text) : Except SessionError Session :=
  match ((home.lookup path.1).bind (·.lookup path.2)).bind crates.parse with
  | some session => .ok session
  | none => .error .json

def getLatestSession (home : SessionFolder) (appFilter : Option Text) :
    Except SessionError (Option Session) :=
  match listSessions crates home none appFilter with
  | [] => .ok none
  | info :: _ => (load crates home info.path).map some

def getSessionById (home : SessionFolder) (sessionId : Text) (appFilter : Option Text) :
    Except SessionError (Option Session) :=
  match (listSessions crates home none appFilter).find? fun info =>
      stem info.path.2 == "session_".toList ++ sessionId with
  | none => .ok none
  | some info => (load crates home info.path).map some

end

/-! ## The chat of the studio -/

structure FrontendMessage where
  role : Text
  content : Text
  toolName : Option Text
  deriving DecidableEq, Repr

def toStoredMessage (msg : FrontendMessage) : Option StoredMessage :=
  if msg.role = "user".toList then some (.user msg.content)
  else if msg.role = "assistant".toList then some (.assistant msg.content)
  else if msg.role = "system".toList then some (.system msg.content)
  else if msg.role = "tool_call".toList then
    some (.toolCall (msg.toolName.getD []) msg.content)
  else if msg.role = "tool_result".toList then
    some (.toolResult (msg.toolName.getD []) msg.content)
  else none

def toFrontendMessage : StoredMessage → FrontendMessage
  | .user s => ⟨"user".toList, s, none⟩
  | .assistant s => ⟨"assistant".toList, s, none⟩
  | .system s => ⟨"system".toList, s, none⟩
  | .toolCall name args => ⟨"tool_call".toList, args, some name⟩
  | .toolResult name result => ⟨"tool_result".toList, result, some name⟩

def studio : Text := "studio".toList

/-- A session that an application makes at one time and saves at another. -/
structure Save where
  made : Nat
  saved : Nat
  model : Text
  workspace : Text
  app : Text
  messages : List StoredMessage

section
variable (crates : SessionCrates)

def sessionOf (s : Save) : Session :=
  { newWithApp crates s.made s.model s.workspace s.app with messages := s.messages }

/-- Saving a new session answers with its name. -/
def saveSession (home : SessionFolder) (s : Save) : Text × SessionFolder :=
  (crates.stamp s.made, save crates s.saved (sessionOf crates s) home)

/-- `save_chat_session`: messages of an unknown role are left out. -/
def chatSave (made saved : Nat) (model workspace : Text) (messages : List FrontendMessage) : Save :=
  ⟨made, saved, model, workspace, studio, messages.filterMap toStoredMessage⟩

def loadChatSession (home : SessionFolder) (sessionId : Option Text) :
    Except SessionError (Option (List FrontendMessage)) := do
  let session ← match sessionId with
    | some id => getSessionById crates home id (some studio)
    | none => getLatestSession crates home (some studio)
  .ok (session.map fun s => s.messages.map toFrontendMessage)

end

/-! ## What is in the folder -/

/-- The content of a file. -/
def contentAt (home : SessionFolder) (path : Text × Text) : Option Text :=
  (home.lookup path.1).bind (·.lookup path.2)

theorem mem_contentAt {home : SessionFolder} {path : Text × Text} {content : Text} :
    contentAt home path = some content ↔
      ∃ dir ∈ home.entries, dir.1 = path.1 ∧ ⟨path.2, content⟩ ∈ dir.2.entries := by
  rw [contentAt, Option.bind_eq_some_iff]
  constructor
  · rintro ⟨files, found, there⟩
    exact ⟨⟨path.1, files⟩, AList.mem_lookup_iff.mp found, rfl, AList.mem_lookup_iff.mp there⟩
  · rintro ⟨⟨date, files⟩, member, rfl, there⟩
    exact ⟨files, AList.mem_lookup_iff.mpr member, AList.mem_lookup_iff.mpr there⟩

theorem contentAt_save {crates : SessionCrates} {now : Nat} {session : Session}
    {home : SessionFolder} (path : Text × Text) :
    contentAt (save crates now session home) path =
      if path = filePath session then
        some (crates.serialize { session with updatedAt := crates.rfc3339 now })
      else contentAt home path := by
  obtain ⟨dir, file⟩ := path
  have same : filePath { session with updatedAt := crates.rfc3339 now } = filePath session := rfl
  unfold save contentAt
  dsimp only
  rw [same, Table.lookup_insert_if]
  by_cases day : dir = (filePath session).1
  · rw [if_pos day, Option.bind_some, Table.lookup_insert_if]
    by_cases named : file = (filePath session).2
    · rw [if_pos named, if_pos (Prod.ext day named)]
    · rw [if_neg named, if_neg fun both => named (congrArg Prod.snd both), day]
      cases home.lookup (filePath session).1 with
      | none => rfl
      | some files => rfl
  · rw [if_neg day, if_neg fun both => day (congrArg Prod.fst both)]

/-- The sessions that are listed. -/
theorem mem_listSessions {crates : SessionCrates} {home : SessionFolder} {app : Option Text}
    {info : SessionInfo} :
    info ∈ listSessions crates home none app ↔
      ∃ path content, contentAt home path = some content ∧
        sessionInfo crates app path.1 path.2 content = some info := by
  rw [listSessions, List.mem_mergeSort, List.mem_flatMap]
  simp only [Option.map_none, Option.getD_none, List.filter_true, List.mem_filterMap]
  constructor
  · rintro ⟨⟨dir, files⟩, member, ⟨file, content⟩, there, shown⟩
    exact ⟨(dir, file), content, mem_contentAt.mpr ⟨_, member, rfl, there⟩, shown⟩
  · rintro ⟨⟨dir, file⟩, content, found, shown⟩
    obtain ⟨⟨date, files⟩, member, rfl, there⟩ := mem_contentAt.mp found
    exact ⟨_, member, ⟨file, content⟩, there, shown⟩

theorem sessionInfo_path {crates : SessionCrates} {app : Option Text} {dir file content : Text}
    {info : SessionInfo} (shown : sessionInfo crates app dir file content = some info) :
    extension ⟨file⟩ = some "json".toList ∧ info.path = (dir, file) ∧
      info.displayName = dir ++ '/' :: stem file := by
  unfold sessionInfo at shown
  split at shown
  · rename_i json
    dsimp only at shown
    split at shown
    · cases shown
      exact ⟨json, rfl, rfl⟩
    · cases shown
  · cases shown

/-! ## Runs of saves -/

/-- The times of chrono: seconds have names of their own, and belong to one day. -/
structure Clock (crates : SessionCrates) : Prop where
  second : ∀ t t', crates.stamp t = crates.stamp t' ↔ t / 10 ^ 9 = t' / 10 ^ 9
  day : ∀ t t', t / 10 ^ 9 = t' / 10 ^ 9 → (crates.rfc3339 t).take 10 = (crates.rfc3339 t').take 10
  named : ∀ t, '/' ∉ crates.stamp t

/-- No file has the name of a session made in the second. -/
def Free (crates : SessionCrates) (home : SessionFolder) (t : Nat) : Prop :=
  ∀ path content, contentAt home path = some content →
    stem path.2 ≠ "session_".toList ++ crates.stamp t

section
variable {crates : SessionCrates} {home : SessionFolder} {saves : List Save} {t : Nat}

/-- The folder after some saves. -/
def after (crates : SessionCrates) (home : SessionFolder) (saves : List Save) : SessionFolder :=
  Runs.final (saveSession crates) home saves

/-- The last of the sessions made in one second. -/
def lastIn (saves : List Save) (t : Nat) : Option Save :=
  saves.reverse.find? fun s => s.made / 10 ^ 9 = t / 10 ^ 9

/-- A session as it is saved. -/
def savedOf (crates : SessionCrates) (s : Save) : Session :=
  { sessionOf crates s with updatedAt := crates.rfc3339 s.saved }

/-- What serde writes of these sessions it reads back. -/
def ReadsBack (crates : SessionCrates) (saves : List Save) : Prop :=
  ∀ s ∈ saves, crates.parse (crates.serialize (savedOf crates s)) = some (savedOf crates s)

def pathOf (crates : SessionCrates) (t : Nat) : Text × Text :=
  ((crates.rfc3339 t).take 10, "session_".toList ++ crates.stamp t ++ ".json".toList)

theorem stem_pathOf : stem (pathOf crates t).2 = "session_".toList ++ crates.stamp t := by
  have found := SnapshotFiles.beforeLast_fileOf ("session_".toList ++ crates.stamp t)
  rw [SnapshotFiles.fileOf] at found
  rw [pathOf, stem, found]
  rfl

theorem pathOf_iff (clock : Clock crates) {t' : Nat} :
    pathOf crates t = pathOf crates t' ↔ t / 10 ^ 9 = t' / 10 ^ 9 := by
  constructor
  · intro same
    have stems := congrArg (fun path => stem path.2) same
    simp only [stem_pathOf, List.append_cancel_left_eq] at stems
    exact (clock.second t t').mp stems
  · intro second
    rw [pathOf, pathOf, clock.day t t' second, (clock.second t t').mpr second]

/-- A file is the last session that was saved in it, or was there before. -/
theorem contentAt_after (clock : Clock crates) (t : Nat) :
    contentAt (after crates home saves) (pathOf crates t) =
      match lastIn saves t with
      | some s => some (crates.serialize (savedOf crates s))
      | none => contentAt home (pathOf crates t) := by
  induction saves using List.reverseRecOn with
  | nil => rfl
  | append_singleton saves s ih =>
    have step : after crates home (saves ++ [s]) =
        save crates s.saved (sessionOf crates s) (after crates home saves) :=
      Runs.final_concat ..
    have own : filePath (sessionOf crates s) = pathOf crates s.made := rfl
    rw [step, contentAt_save, own, ih, lastIn, lastIn, List.reverse_concat, List.find?_cons]
    by_cases second : s.made / 10 ^ 9 = t / 10 ^ 9
    · rw [if_pos ((pathOf_iff clock).mpr second.symm), decide_eq_true second]
      rfl
    · rw [if_neg fun same => second ((pathOf_iff clock).mp same).symm, decide_eq_false second]

theorem contentAt_after_other {path : Text × Text} {content : Text}
    (found : contentAt (after crates home saves) path = some content) :
    contentAt home path = some content ∨ ∃ s ∈ saves, path = pathOf crates s.made := by
  induction saves using List.reverseRecOn with
  | nil => exact .inl found
  | append_singleton saves s ih =>
    have step : after crates home (saves ++ [s]) =
        save crates s.saved (sessionOf crates s) (after crates home saves) :=
      Runs.final_concat ..
    rw [step, contentAt_save] at found
    split at found
    · rename_i own
      exact .inr ⟨s, List.mem_concat_self, own⟩
    · rcases ih found with before | ⟨other, member, own⟩
      · exact .inl before
      · exact .inr ⟨other, List.mem_append_left _ member, own⟩

/-- The stem of a file tells which second's file it is. -/
theorem path_of_stem (clock : Clock crates) (free : Free crates home t) {path : Text × Text}
    {content : Text} (found : contentAt (after crates home saves) path = some content)
    (stemmed : stem path.2 = "session_".toList ++ crates.stamp t) : path = pathOf crates t := by
  rcases contentAt_after_other found with before | ⟨s, -, rfl⟩
  · exact absurd stemmed (free path content before)
  · rw [stem_pathOf, List.append_cancel_left_eq, clock.second] at stemmed
    exact (pathOf_iff clock).mpr stemmed

theorem find?_unique {α : Type} {p : α → Bool} {xs : List α} {x : α} (member : x ∈ xs)
    (holds : p x = true) (only : ∀ y ∈ xs, p y = true → y = x) : xs.find? p = some x := by
  cases found : xs.find? p with
  | none => exact absurd holds (by simpa using List.find?_eq_none.mp found x member)
  | some y =>
    rw [only y (List.mem_of_find?_eq_some found) (List.find?_some found)]

theorem extension_pathOf (clock : Clock crates) :
    extension ⟨(pathOf crates t).2⟩ = some "json".toList := by
  have plain : PlainName (pathOf crates t).2 := by
    refine ⟨by simp [pathOf], ?_, ?_, ?_⟩
    · have := clock.named t
      simp [pathOf, this]
    · intro bare
      have length := congrArg List.length bare
      simp [pathOf] at length
    · intro dots
      have length := congrArg List.length dots
      simp [pathOf] at length
  have named : fileName ⟨(pathOf crates t).2⟩ = some (pathOf crates t).2 := by
    rw [fileName, (components_name plain).1]
    rfl
  have found := SnapshotFiles.beforeLast_fileOf ("session_".toList ++ crates.stamp t)
  rw [SnapshotFiles.fileOf] at found
  rw [extension, named, Option.bind_some, pathOf]
  dsimp only
  rw [found]
  simp

/-- What is found under the name of a second is the last session that was saved with it. -/
theorem getById_after (clock : Clock crates) (reads : ReadsBack crates saves)
    (free : Free crates home t) {s : Save} (last : lastIn saves t = some s) (app : Text) :
    getSessionById crates (after crates home saves) (crates.stamp t) (some app) =
      .ok (if s.app = app then some (savedOf crates s) else none) := by
  have read := reads s (List.mem_reverse.mp (List.mem_of_find?_eq_some last))
  have content := @contentAt_after _ home saves clock t
  rw [last] at content
  dsimp only at content
  have shown : sessionInfo crates (some app) (pathOf crates t).1 (pathOf crates t).2
      (crates.serialize (savedOf crates s)) =
      if s.app = app then some ⟨pathOf crates t, (pathOf crates t).1 ++ '/' ::
        stem (pathOf crates t).2, some s.app⟩ else none := by
    rw [sessionInfo, if_pos (extension_pathOf clock), matchesAppFilter, read]
    dsimp only
    rw [show (savedOf crates s).app = s.app from rfl]
    split <;> rfl
  have only : ∀ info ∈ listSessions crates (after crates home saves) none (some app),
      (stem info.path.2 == "session_".toList ++ crates.stamp t) = true →
        info.path = pathOf crates t ∧ sessionInfo crates (some app) (pathOf crates t).1
          (pathOf crates t).2 (crates.serialize (savedOf crates s)) = some info := by
    intro info member stemmed
    obtain ⟨path, other, found, listed⟩ := mem_listSessions.mp member
    obtain ⟨-, own, -⟩ := sessionInfo_path listed
    rw [own] at stemmed ⊢
    obtain rfl := path_of_stem clock free found (beq_iff_eq.mp stemmed)
    cases content.symm.trans found
    exact ⟨rfl, listed⟩
  unfold getSessionById
  by_cases mine : s.app = app
  · rw [if_pos mine] at shown ⊢
    have member := mem_listSessions.mpr ⟨pathOf crates t, _, content, shown⟩
    rw [find?_unique member (by rw [beq_iff_eq]; exact stem_pathOf) fun info there stemmed =>
      Option.some.inj ((only info there stemmed).2.symm.trans shown)]
    dsimp only
    unfold load
    rw [contentAt] at content
    rw [content, Option.bind_some, read]
    rfl
  · rw [if_neg mine] at shown ⊢
    rw [List.find?_eq_none.mpr fun info there stemmed => ?_]
    have listed := (only info there stemmed).2
    rw [shown] at listed
    cases listed

def plainRoles : List Text := ["user".toList, "assistant".toList, "system".toList]

def toolRoles : List Text := ["tool_call".toList, "tool_result".toList]

/-- The message comes back as it was: its role is known, and it names a tool exactly where it is
about one. -/
def Kept (msg : FrontendMessage) : Prop :=
  msg.role ∈ plainRoles ∧ msg.toolName = none ∨ msg.role ∈ toolRoles ∧ msg.toolName.isSome

theorem kept_plain {role content : Text} {toolName : Option Text} (known : role ∈ plainRoles) :
    Kept ⟨role, content, toolName⟩ ↔ toolName = none := by
  have other : role ∉ toolRoles := (show ∀ r ∈ plainRoles, r ∉ toolRoles by decide) role known
  simp [Kept, known, other]

theorem kept_tool {role content : Text} {toolName : Option Text} (known : role ∈ toolRoles) :
    Kept ⟨role, content, toolName⟩ ↔ toolName.isSome := by
  have other : role ∉ plainRoles := (show ∀ r ∈ toolRoles, r ∉ plainRoles by decide) role known
  simp [Kept, known, other]

theorem front_eq_iff {role content : Text} {toolName other : Option Text} :
    some (⟨role, content, other⟩ : FrontendMessage) = some ⟨role, content, toolName⟩ ↔
      other = toolName := by
  rw [Option.some.injEq, FrontendMessage.mk.injEq]
  exact (and_iff_right rfl).trans (and_iff_right rfl)

theorem tool_eq_iff {toolName : Option Text} : some (toolName.getD []) = toolName ↔
    toolName.isSome := by
  cases toolName <;> simp

theorem stored_front_iff {msg : FrontendMessage} :
    (toStoredMessage msg).map toFrontendMessage = some msg ↔ Kept msg := by
  obtain ⟨role, content, toolName⟩ := msg
  unfold toStoredMessage
  dsimp only
  by_cases user : role = "user".toList
  · rw [if_pos user, kept_plain (by rw [user]; decide), user]
    exact front_eq_iff.trans eq_comm
  rw [if_neg user]
  by_cases assistant : role = "assistant".toList
  · rw [if_pos assistant, kept_plain (by rw [assistant]; decide), assistant]
    exact front_eq_iff.trans eq_comm
  rw [if_neg assistant]
  by_cases system : role = "system".toList
  · rw [if_pos system, kept_plain (by rw [system]; decide), system]
    exact front_eq_iff.trans eq_comm
  rw [if_neg system]
  by_cases call : role = "tool_call".toList
  · rw [if_pos call, kept_tool (by rw [call]; decide), call]
    exact front_eq_iff.trans tool_eq_iff
  rw [if_neg call]
  by_cases result : role = "tool_result".toList
  · rw [if_pos result, kept_tool (by rw [result]; decide), result]
    exact front_eq_iff.trans tool_eq_iff
  rw [if_neg result]
  refine iff_of_false (by simp) ?_
  rintro (⟨known, -⟩ | ⟨known, -⟩)
  · unfold plainRoles at known
    rcases List.mem_cons.mp known with same | known
    · exact user same
    · rcases List.mem_cons.mp known with same | known
      · exact assistant same
      · exact system (List.mem_singleton.mp known)
  · unfold toolRoles at known
    rcases List.mem_cons.mp known with same | known
    · exact call same
    · exact result (List.mem_singleton.mp known)

theorem stored_front_length (messages : List FrontendMessage) :
    ((messages.filterMap toStoredMessage).map toFrontendMessage).length ≤ messages.length := by
  rw [List.length_map]
  exact List.length_filterMap_le ..

/-- Messages come back as they were exactly where each does. -/
theorem messages_kept_iff {messages : List FrontendMessage} :
    (messages.filterMap toStoredMessage).map toFrontendMessage = messages ↔
      ∀ msg ∈ messages, Kept msg := by
  induction messages with
  | nil => simp
  | cons msg messages ih =>
    rw [List.forall_mem_cons, ← ih, ← stored_front_iff]
    cases stored : toStoredMessage msg with
    | none =>
      rw [List.filterMap_cons_none stored]
      refine iff_of_false (fun same => ?_) (fun both => nomatch both.1)
      have longer := stored_front_length messages
      rw [same, List.length_cons] at longer
      omega
    | some front =>
      rw [List.filterMap_cons_some stored, List.map_cons, List.cons.injEq, Option.map_some,
        Option.some.injEq]

theorem loadChat_after (clock : Clock crates) (reads : ReadsBack crates saves)
    (free : Free crates home t) {s : Save} (last : lastIn saves t = some s) :
    loadChatSession crates (after crates home saves) (some (crates.stamp t)) =
      .ok (if s.app = studio then some (s.messages.map toFrontendMessage) else none) := by
  unfold loadChatSession
  dsimp only
  rw [getById_after clock reads free last]
  split <;> rfl

theorem lastIn_split {before later : List Save} {s : Save} :
    lastIn (before ++ s :: later) s.made = some ((lastIn later s.made).getD s) := by
  rw [lastIn, lastIn, List.reverse_append, List.reverse_cons, List.find?_append,
    List.find?_append]
  cases later.reverse.find? fun other => other.made / 10 ^ 9 = s.made / 10 ^ 9 with
  | some other => rfl
  | none => simp

/-- **A saved chat** is loaded back as it was exactly where no session is saved later with the
name of its second and all its messages are kept, or the last one saved with that name is a chat
with the same messages. -/
theorem saved_chat_loaded_iff (clock : Clock crates) {before later : List Save}
    {made saved : Nat} {model workspace : Text} {messages : List FrontendMessage}
    (reads : ReadsBack crates (before ++ chatSave made saved model workspace messages :: later))
    (free : Free crates home made) :
    loadChatSession crates (after crates home
      (before ++ chatSave made saved model workspace messages :: later))
        (some (crates.stamp made)) = .ok (some messages) ↔
      match lastIn later made with
      | none => ∀ msg ∈ messages, Kept msg
      | some s => s.app = studio ∧ s.messages.map toFrontendMessage = messages := by
  have last : lastIn (before ++ chatSave made saved model workspace messages :: later) made =
      some ((lastIn later made).getD (chatSave made saved model workspace messages)) := lastIn_split
  rw [loadChat_after clock reads free last, Except.ok.injEq]
  cases lastIn later made with
  | none =>
    have own : (chatSave made saved model workspace messages).app = studio := rfl
    rw [Option.getD_none, if_pos own, Option.some.injEq]
    exact messages_kept_iff
  | some s =>
    rw [Option.getD_some]
    by_cases chat : s.app = studio
    · rw [if_pos chat, Option.some.injEq]
      exact Iff.symm (and_iff_right chat)
    · rw [if_neg chat]
      exact iff_of_false (by simp) fun both => chat both.1

end

/-- A message, as it is stored. -/
def messageJson : StoredMessage → Json
  | .user s => .ofFields [("type", .string "User".toList), ("content", .string s)]
  | .assistant s => .ofFields [("type", .string "Assistant".toList), ("content", .string s)]
  | .system s => .ofFields [("type", .string "System".toList), ("content", .string s)]
  | .toolCall name args => .ofFields [("type", .string "ToolCall".toList),
      ("content", .ofFields [("name", .string name), ("args", .string args)])]
  | .toolResult name result => .ofFields [("type", .string "ToolResult".toList),
      ("content", .ofFields [("name", .string name), ("result", .string result)])]

/-- A session, as it is stored. -/
def sessionText (session : Session) : Text :=
  (Json.ofFields [("id", .string session.id), ("created_at", .string session.createdAt),
    ("updated_at", .string session.updatedAt), ("model", .string session.model),
    ("workspace", .string session.workspace), ("app", .string session.app),
    ("messages", .array (session.messages.map messageJson)),
    ("input_history", .array (session.inputHistory.map .string))]).render

/-- Crates that read these sessions back. Their names are those of the first seconds. -/
def chatCrates (known : List Session) : SessionCrates where
  serialize := sessionText
  parse text := known.find? fun session => sessionText session = text
  stamp t := "19700101_00000".toList ++ printNat (t / 10 ^ 9)
  rfc3339 t := "1970-01-01T00:00:0".toList ++ printNat (t / 10 ^ 9) ++ "+00:00".toList

/-- A chat of one message. -/
def oneMessage (made : Nat) (content : String) : Save :=
  chatSave made made "ollama".toList "/w".toList [⟨"user".toList, content.toList, none⟩]

/-- The crates for some chats. -/
def cratesFor (saves : List Save) : SessionCrates :=
  chatCrates (saves.map (savedOf (chatCrates [])))

theorem chat_clock (known : List Session) : Clock (chatCrates known) where
  second t t' := by
    simp only [chatCrates, List.append_cancel_left_eq]
    exact ⟨printNat_injective, fun same => by rw [same]⟩
  day t t' same := by simp only [chatCrates, same]
  named t := by
    simp only [chatCrates, List.mem_append, not_or]
    refine ⟨by decide, fun slash => ?_⟩
    exact absurd (printNat_isDigit slash) (by decide)

theorem empty_free (crates : SessionCrates) (t : Nat) : Free crates ∅ t := by
  intro path content found
  simp [contentAt] at found

/-- A chat is loaded back unless another one was made in its second. -/
theorem chats_of_a_second :
    loadChatSession (cratesFor [oneMessage (10 ^ 9) "one", oneMessage (2 * 10 ^ 9) "two"])
        (after (cratesFor [oneMessage (10 ^ 9) "one", oneMessage (2 * 10 ^ 9) "two"]) ∅
          [oneMessage (10 ^ 9) "one", oneMessage (2 * 10 ^ 9) "two"])
        (some "19700101_000001".toList) = .ok (some [⟨"user".toList, "one".toList, none⟩]) ∧
      loadChatSession (cratesFor [oneMessage (10 ^ 9) "one", oneMessage (10 ^ 9 + 1) "two"])
        (after (cratesFor [oneMessage (10 ^ 9) "one", oneMessage (10 ^ 9 + 1) "two"]) ∅
          [oneMessage (10 ^ 9) "one", oneMessage (10 ^ 9 + 1) "two"])
        (some "19700101_000001".toList) ≠ .ok (some [⟨"user".toList, "one".toList, none⟩]) := by
  constructor
  · refine (@saved_chat_loaded_iff (cratesFor [oneMessage (10 ^ 9) "one",
      oneMessage (2 * 10 ^ 9) "two"]) ∅ (chat_clock _) [] [oneMessage (2 * 10 ^ 9) "two"]
      (10 ^ 9) (10 ^ 9) "ollama".toList "/w".toList [⟨"user".toList, "one".toList, none⟩]
      (by unfold ReadsBack; decide +kernel) (empty_free _ _)).mpr ?_
    have none_later : lastIn [oneMessage (2 * 10 ^ 9) "two"] (10 ^ 9) = none := by
      simp [lastIn, oneMessage, chatSave]
    rw [none_later]
    intro msg member
    obtain rfl := List.mem_singleton.mp member
    exact .inl ⟨by decide, rfl⟩
  · intro loaded
    have kept := (@saved_chat_loaded_iff (cratesFor [oneMessage (10 ^ 9) "one",
      oneMessage (10 ^ 9 + 1) "two"]) ∅ (chat_clock _) [] [oneMessage (10 ^ 9 + 1) "two"]
      (10 ^ 9) (10 ^ 9) "ollama".toList "/w".toList [⟨"user".toList, "one".toList, none⟩]
      (by unfold ReadsBack; decide +kernel) (empty_free _ _)).mp loaded
    have later : lastIn [oneMessage (10 ^ 9 + 1) "two"] (10 ^ 9) =
        some (oneMessage (10 ^ 9 + 1) "two") := by
      simp [lastIn, oneMessage, chatSave]
    rw [later] at kept
    exact absurd kept.2 (by decide)

/-! ## The latest session -/

theorem textLe_total (s t : Text) : (textLe s t || textLe t s) = true := by
  simp only [textLe, Bool.or_eq_true, decide_eq_true_eq]
  exact le_total _ _

theorem textLe_trans {s t u : Text} (first : textLe s t = true) (second : textLe t u = true) :
    textLe s u = true := by
  simp only [textLe, decide_eq_true_eq] at first second ⊢
  exact le_trans first second

theorem textLe_antisymm {s t : Text} (below : textLe s t = true) (above : textLe t s = true) :
    s = t := by
  simp only [textLe, decide_eq_true_eq] at below above
  have injective : Function.Injective Char.toNat := fun c d same =>
    Char.ext (UInt32.toNat_inj.mp same)
  exact List.map_injective_iff.mpr injective (le_antisymm below above)

/-- Names in the folder are names. -/
def Spelled (home : SessionFolder) : Prop :=
  ∀ path content, contentAt home path = some content → '/' ∉ path.1 ∧ PlainName path.2

/-- A JSON file. -/
def IsJson (home : SessionFolder) (path : Text × Text) (content : Text) : Prop :=
  contentAt home path = some content ∧ extension ⟨path.2⟩ = some "json".toList

/-- What sessions are ordered by. -/
def display (path : Text × Text) : Text := path.1 ++ '/' :: stem path.2

/-- The file has the last session of an application. -/
structure Newest (crates : SessionCrates) (home : SessionFolder) (app : Text)
    (path : Text × Text) (content : Text) (session : Session) : Prop where
  json : IsJson home path content
  parses : crates.parse content = some session
  own : session.app = app
  last : ∀ other text s, IsJson home other text → crates.parse text = some s → s.app = app →
    textLe (display other) (display path) = true

theorem before_dot {file before : Text} (found : beforeLast ['.'] file = some before) :
    file = before ++ '.' :: file.drop (before.length + 1) := by
  induction file generalizing before with
  | nil => cases found
  | cons c file ih =>
    simp only [beforeLast] at found
    split at found
    · rename_i inner later
      cases found
      exact congrArg (c :: ·) (ih later)
    · split at found
      · rename_i starts
        cases found
        obtain ⟨rest, shape⟩ := startsWith_iff.mp starts
        cases shape
        rfl
      · cases found

/-- A file is its stem and its extension. -/
theorem stem_extension {file ext : Text} (plain : PlainName file)
    (found : extension ⟨file⟩ = some ext) : file = stem file ++ '.' :: ext := by
  have named : fileName ⟨file⟩ = some file := by
    rw [fileName, (components_name plain).1]
    rfl
  rw [extension, named, Option.bind_some] at found
  rw [stem]
  split at found
  · cases found
  · cases found
  · rename_i before filled cut
    cases found
    exact before_dot cut

theorem display_injective {home : SessionFolder} (spelled : Spelled home)
    {path other : Text × Text} {content text : Text} (json : IsJson home path content)
    (json' : IsJson home other text) (same : display path = display other) : path = other := by
  obtain ⟨clean, plain⟩ := spelled path content json.1
  obtain ⟨clean', plain'⟩ := spelled other text json'.1
  have cut := splitFirst_append (stem path.2) clean
  rw [show path.1 ++ '/' :: stem path.2 = other.1 ++ '/' :: stem other.2 from same,
    splitFirst_append (stem other.2) clean', Option.some.injEq, Prod.mk.injEq] at cut
  refine Prod.ext cut.1.symm ?_
  rw [stem_extension plain json.2, stem_extension plain' json'.2, cut.2]

/-- **The latest session** of an application is found exactly where no JSON file that is no
session comes after it. -/
theorem latest_iff {crates : SessionCrates} {home : SessionFolder} (spelled : Spelled home)
    {app : Text} {path : Text × Text} {content : Text} {session : Session}
    (newest : Newest crates home app path content session) :
    getLatestSession crates home (some app) = .ok (some session) ↔
      ∀ other text, IsJson home other text → crates.parse text = none →
        textLe (display other) (display path) = true := by
  have shown : sessionInfo crates (some app) path.1 path.2 content =
      some ⟨path, display path, some session.app⟩ := by
    rw [sessionInfo, if_pos newest.json.2, matchesAppFilter, newest.parses]
    dsimp only
    rw [if_pos newest.own]
    rfl
  have member := mem_listSessions.mpr ⟨path, content, newest.json.1, shown⟩
  unfold getLatestSession
  have ordered : (listSessions crates home none (some app)).Pairwise
      fun a b => textLe b.displayName a.displayName = true := by
    unfold listSessions
    exact @List.pairwise_mergeSort _ (fun a b : SessionInfo => textLe b.displayName a.displayName)
      (fun _ _ _ first second => textLe_trans second first) (fun _ _ => textLe_total _ _) _
  cases sorted : listSessions crates home none (some app) with
  | nil =>
    rw [sorted] at member
    cases member
  | cons head rest =>
    dsimp only
    rw [sorted] at member ordered
    have highest : ∀ info ∈ listSessions crates home none (some app),
        textLe info.displayName head.displayName = true := by
      rw [sorted]
      rintro info (_ | ⟨_, inside⟩)
      · simpa using textLe_total head.displayName head.displayName
      · exact List.rel_of_pairwise_cons ordered inside
    obtain ⟨top, text, found, listed⟩ := mem_listSessions.mp
      (show head ∈ listSessions crates home none (some app) by
        rw [sorted]
        exact List.mem_cons_self)
    obtain ⟨json, own, named⟩ := sessionInfo_path listed
    have above : textLe (display path) (display top) = true := by
      have high := highest _ (mem_listSessions.mpr ⟨path, content, newest.json.1, shown⟩)
      rwa [named] at high
    have loaded : load crates home head.path =
        match crates.parse text with
        | some s => .ok s
        | none => .error .json := by
      rw [contentAt] at found
      rw [load, own, found, Option.bind_some]
    have same (below : textLe (display top) (display path) = true) : path = top :=
      display_injective spelled newest.json ⟨found, json⟩ (textLe_antisymm above below)
    rw [loaded]
    constructor
    · intro got
      cases parsed : crates.parse text with
      | none =>
        rw [parsed] at got
        cases got
      | some s =>
        rw [parsed] at got
        obtain rfl : s = session := Option.some.inj (Except.ok.inj got)
        have there := same (newest.last top text s ⟨found, json⟩ parsed newest.own)
        intro other text' json' unread
        have passed : sessionInfo crates (some app) other.1 other.2 text' =
            some ⟨other, display other, none⟩ := by
          rw [sessionInfo, if_pos json'.2, matchesAppFilter, unread]
          rfl
        have high := highest _ (mem_listSessions.mpr ⟨other, text', json'.1, passed⟩)
        rw [there]
        rwa [named] at high
    · intro all
      have below : textLe (display top) (display path) = true := by
        cases parsed : crates.parse text with
        | none => exact all top text ⟨found, json⟩ parsed
        | some s =>
          refine newest.last top text s ⟨found, json⟩ parsed ?_
          by_contra foreign
          rw [sessionInfo, if_pos json, matchesAppFilter, parsed] at listed
          dsimp only at listed
          rw [if_neg foreign] at listed
          cases listed
      obtain rfl := same below
      rw [← Option.some.inj (newest.json.1.symm.trans found), newest.parses]
      rfl

/-- A folder with one file in each of its directories. -/
def folderOf : List ((Text × Text) × Text) → SessionFolder
  | [] => ∅
  | (path, content) :: files =>
    (folderOf files).insert path.1 ((∅ : Table Text).insert path.2 content)

theorem contentAt_folderOf (path : Text × Text) (content : Text)
    (files : List ((Text × Text) × Text)) (other : Text × Text) :
    contentAt (folderOf ((path, content) :: files)) other =
      if other.1 = path.1 then if other.2 = path.2 then some content else none
      else contentAt (folderOf files) other := by
  rw [folderOf, contentAt, Table.lookup_insert_if]
  split
  · rw [Option.bind_some, Table.lookup_insert_if, AList.lookup_empty]
  · rfl

theorem folder_cases {first second : (Text × Text) × Text} {path : Text × Text} {content : Text}
    (found : contentAt (folderOf [first, second]) path = some content) :
    (path, content) = first ∨ (path, content) = second := by
  obtain ⟨⟨dir, file⟩, text⟩ := first
  obtain ⟨⟨dir', file'⟩, text'⟩ := second
  rw [contentAt_folderOf, contentAt_folderOf] at found
  dsimp only at found
  split_ifs at found with day named day' named'
  · cases found
    exact .inl (Prod.ext (Prod.ext day named) rfl)
  · cases found
    exact .inr (Prod.ext (Prod.ext day' named') rfl)
  · simp [folderOf, contentAt] at found

/-- The chat, as it is saved. -/
def oneChat : Session := savedOf (chatCrates []) (oneMessage (10 ^ 9) "one")

def oneChatFile : (Text × Text) × Text :=
  (("1970-01-01".toList, "session_19700101_000001.json".toList), sessionText oneChat)

/-- A JSON file that is no session, in another directory of the folder. -/
def otherFile : (Text × Text) × Text := (("snapshots".toList, "index.json".toList), "[]".toList)

/-- A session is not found when another JSON file comes after it. -/
theorem latest_behind_other :
    getLatestSession (chatCrates [oneChat]) (folderOf [otherFile, oneChatFile]) (some studio) ≠
      .ok (some oneChat) := by
  have spelled : Spelled (folderOf [otherFile, oneChatFile]) := by
    intro path content found
    rcases folder_cases found with same | same
    · rw [show path = otherFile.1 from congrArg Prod.fst same]
      decide +kernel
    · rw [show path = oneChatFile.1 from congrArg Prod.fst same]
      decide +kernel
  have reads : (chatCrates [oneChat]).parse (sessionText oneChat) = some oneChat := by
    decide +kernel
  have fails : (chatCrates [oneChat]).parse "[]".toList = none := by decide +kernel
  have newest : Newest (chatCrates [oneChat]) (folderOf [otherFile, oneChatFile]) studio
      oneChatFile.1 oneChatFile.2 oneChat := by
    refine ⟨⟨by decide +kernel, by decide +kernel⟩, reads, rfl, ?_⟩
    intro other text s json parsed own
    rcases folder_cases json.1 with same | same
    · rw [show text = otherFile.2 from congrArg Prod.snd same] at parsed
      cases fails.symm.trans parsed
    · rw [show other = oneChatFile.1 from congrArg Prod.fst same]
      decide +kernel
  rw [ne_eq, latest_iff spelled newest]
  intro all
  have behind := all otherFile.1 otherFile.2 ⟨by decide +kernel, by decide +kernel⟩ fails
  exact absurd behind (by decide +kernel)

end SessionStore

end Devit
