import Devit.ChatStreams
import Devit.Library.Interleaving
import Devit.Library.Table

/-! Edits that a language model makes at a second cursor. For every session one task passes the
stream of the backend into a channel, and another reads the channel, keeps the session up to
date and tells the window. The user accepts or rejects at any moment, in the middle of it. -/
namespace Devit
open Text

namespace GhostEditing
open ChatStreams (StreamChunk)

structure Position where
  line : UInt32
  column : UInt32
  deriving DecidableEq, Repr

structure CodeContext where
  before : Text
  after : Text

structure GhostEditRequest where
  filePath : Text
  position : Position
  prompt : Text
  context : Option CodeContext

inductive GhostState where
  | pending
  | streaming
  | waitingApproval
  | accepted
  | rejected
  | cancelled
  deriving DecidableEq

/-- The `Debug` text of a state. -/
def GhostState.debug : GhostState → Text
  | .pending => "Pending".toList
  | .streaming => "Streaming".toList
  | .waitingApproval => "WaitingApproval".toList
  | .accepted => "Accepted".toList
  | .rejected => "Rejected".toList
  | .cancelled => "Cancelled".toList

structure GhostSession where
  id : Text
  filePath : Text
  startLine : UInt32
  startColumn : UInt32
  currentLine : UInt32
  currentColumn : UInt32
  pendingText : Text
  state : GhostState
  deriving DecidableEq

def GhostSession.new (id filePath : Text) (position : Position) : GhostSession where
  id := id
  filePath := filePath
  startLine := position.line
  startColumn := position.column
  currentLine := position.line
  currentColumn := position.column
  pendingText := []
  state := .pending

inductive GhostStreamChunk where
  | delta (text : Text)
  | done
  | error (message : Text)
  deriving DecidableEq

structure GhostUpdate where
  sessionId : Text
  position : Position
  delta : Text
  pendingText : Text
  done : Bool
  deriving DecidableEq

structure GhostStateResponse where
  sessionId : Text
  state : Text
  pendingText : Text
  startPosition : Position
  currentPosition : Position
  deriving DecidableEq

/-! ## The tasks of a session -/

/-- The two tasks of a session and the channel between them. -/
structure GhostTasks where
  /-- What the stream of the backend has still to say before it ends. -/
  incoming : List StreamChunk
  /-- The first task still holds its sender. -/
  pumping : Bool
  channel : List GhostStreamChunk
  pos : Position
  pending : Text
  /-- The second task is still in its loop. -/
  draining : Bool
  /-- The delta that the second task is about to tell the window, and whether it is the last. -/
  leaving : Option (Text × Bool)

def channelCapacity : Nat := 100

/-- The tasks as they are spawned on a stream. -/
def GhostTasks.new (stream : List StreamChunk) (position : Position) : GhostTasks where
  incoming := stream
  pumping := true
  channel := []
  pos := position
  pending := []
  draining := true
  leaving := none

/-- `tx.send`: where the channel is full, the chunk waits. -/
def GhostTasks.send (t : GhostTasks) (chunk : GhostStreamChunk) (rest : List StreamChunk)
    (goesOn : Bool) : GhostTasks :=
  if t.channel.length < channelCapacity then
    { t with incoming := rest, channel := t.channel ++ [chunk], pumping := goesOn }
  else t

/-- A turn of the first task. -/
def GhostTasks.pump (t : GhostTasks) : GhostTasks :=
  if t.pumping then
    match t.incoming with
    | [] => { t with pumping := false }
    | .delta s :: rest => t.send (.delta s) rest true
    | .thinking _ :: rest => { t with incoming := rest }
    | .done _ :: rest => t.send .done rest false
    | .error e :: rest => t.send (.error e) rest false
  else t

/-- The cursor moves on by one character. -/
def moveOver (pos : Position) (c : Char) : Position :=
  if c = '\n' then ⟨pos.line + 1, 0⟩ else ⟨pos.line, pos.column + 1⟩

def advance (pos : Position) (text : Text) : Position := text.foldl moveOver pos

/-- A session is brought up to the tasks. -/
def GhostTasks.show (t : GhostTasks) (session : GhostSession) : GhostSession :=
  { session with
    pendingText := t.pending, currentLine := t.pos.line, currentColumn := t.pos.column }

/-- A turn of the second task, and whether it writes to the session: it waits for the channel
unless nobody can send any more. -/
def GhostTasks.drain (t : GhostTasks) : GhostTasks × Bool :=
  if t.draining = true ∧ t.leaving = none then
    match t.channel with
    | .delta text :: rest =>
      ({ t with
          channel := rest, pos := advance t.pos text, pending := t.pending ++ text,
          leaving := some (text, false) }, true)
    | .done :: rest =>
      ({ t with channel := rest, draining := false, leaving := some ([], true) }, false)
    | .error err :: rest =>
      ({ t with
          channel := rest, draining := false,
          leaving := some ("Error: ".toList ++ err, true) }, false)
    | [] =>
      if t.pumping then (t, false)
      else ({ t with draining := false, leaving := some ([], true) }, false)
  else (t, false)

/-- What the window is told. -/
def GhostTasks.update (sid : Text) (t : GhostTasks) : Option GhostUpdate :=
  t.leaving.map fun (delta, done) => ⟨sid, t.pos, delta, t.pending, done⟩

/-! ## The commands -/

structure AppState where
  sessions : Table GhostSession
  /-- The calls that wait for the backend to open its stream. -/
  opening : Table Position
  tasks : Table GhostTasks
  /-- What the window was told. -/
  window : List GhostUpdate

/-- The application as it starts. -/
def initial : AppState := ⟨∅, ∅, ∅, []⟩

inductive Event where
  /-- `start_ghost_edit` up to the call of the backend, with the id it drew. -/
  | start (id : Text) (request : GhostEditRequest)
  /-- The backend opened its stream for the session, or refused. -/
  | opened (id : Text) (stream : Except Text (List StreamChunk))
  | pump (id : Text)
  | drain (id : Text)
  | emit (id : Text)
  | accept (id : Text)
  | reject (id : Text)
  | look (id : Text)

inductive Answer where
  | nothing
  /-- The backend is asked: the system prompt and the prompt of the user. -/
  | asked (systemPrompt userPrompt : Text)
  | started (result : Except Text Text)
  | accepted (result : Except Text Text)
  | shown (response : Option GhostStateResponse)

/-- The piece behind the last dot, or all of it. -/
def fileExt (filePath : Text) : Text := ((splitOn (· = '.') filePath).getLast?).getD "txt".toList

def contextInfo (request : GhostEditRequest) : Text :=
  match request.context with
  | none => []
  | some ctx =>
    let ext := fileExt request.filePath
    "Code before cursor:\n```".toList ++ ext ++ '\n' :: ctx.before ++
      "\n```\n\nCode after cursor:\n```".toList ++ ext ++ '\n' :: ctx.after ++ "\n```".toList

def systemPrompt (request : GhostEditRequest) : Text :=
  "You are a code completion assistant. Generate ONLY the code to insert ".toList ++
    "at the cursor position. ".toList ++
    "Do NOT include any explanations, markdown formatting, or code blocks. ".toList ++
    "Output raw code only.\n\nFile: ".toList ++ request.filePath ++ "\n\n".toList ++
    contextInfo request

def response (session : GhostSession) : GhostStateResponse where
  sessionId := session.id
  state := session.state.debug
  pendingText := session.pendingText
  startPosition := ⟨session.startLine, session.startColumn⟩
  currentPosition := ⟨session.currentLine, session.currentColumn⟩

def startGhostEdit (id : Text) (request : GhostEditRequest) (s : AppState) : Answer × AppState :=
  (.asked (systemPrompt request) request.prompt,
    { s with
      sessions := s.sessions.insert id (.new id request.filePath request.position)
      opening := s.opening.insert id request.position })

/-- The rest of `start_ghost_edit`: the tasks are spawned where there is a stream. -/
def finishStart (id : Text) (stream : Except Text (List StreamChunk)) (s : AppState) :
    Answer × AppState :=
  match s.opening.lookup id with
  | none => (.nothing, s)
  | some position =>
    let s := { s with opening := s.opening.erase id }
    match stream with
    | .error e => (.started (.error e), s)
    | .ok chunks =>
      (.started (.ok id), { s with tasks := s.tasks.insert id (.new chunks position) })

def pumpTask (id : Text) (s : AppState) : AppState :=
  match s.tasks.lookup id with
  | none => s
  | some t => { s with tasks := s.tasks.insert id t.pump }

def drainTask (id : Text) (s : AppState) : AppState :=
  match s.tasks.lookup id with
  | none => s
  | some t =>
    let (t, writes) := t.drain
    let s := { s with tasks := s.tasks.insert id t }
    match s.sessions.lookup id with
    | some session =>
      if writes then { s with sessions := s.sessions.insert id (t.show session) } else s
    | none => s

def emitUpdate (id : Text) (s : AppState) : AppState :=
  match s.tasks.lookup id with
  | none => s
  | some t =>
    { s with
      tasks := s.tasks.insert id { t with leaving := none }
      window := s.window ++ (t.update id).toList }

def acceptGhost (id : Text) (s : AppState) : Answer × AppState :=
  match s.sessions.lookup id with
  | none => (.accepted (.error "Session not found".toList), s)
  | some session =>
    (.accepted (.ok session.pendingText), { s with sessions := s.sessions.erase id })

def rejectGhost (id : Text) (s : AppState) : AppState := { s with sessions := s.sessions.erase id }

def getGhostState (id : Text) (s : AppState) : Option GhostStateResponse :=
  (s.sessions.lookup id).map response

def step (s : AppState) : Event → Answer × AppState
  | .start id request => startGhostEdit id request s
  | .opened id stream => finishStart id stream s
  | .pump id => (.nothing, pumpTask id s)
  | .drain id => (.nothing, drainTask id s)
  | .emit id => (.nothing, emitUpdate id s)
  | .accept id => acceptGhost id s
  | .reject id => (.nothing, rejectGhost id s)
  | .look id => (.shown (getGhostState id s), s)

end GhostEditing

end Devit
