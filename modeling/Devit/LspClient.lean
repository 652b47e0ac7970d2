import Devit.Library.Json
import Devit.Library.Runs

/-! The requests of a language client and the messages of its server. A request leaves a sender in
a table under its id, and waits; the reader takes messages off the server's output, and sends the
outcome of every message with an id to the sender that it finds under it. The reader ends at the
end of the output and at the first thing that it cannot read. -/
namespace Devit.LspClient
open Text

/-! ## Messages -/

structure JsonRpcError where
  code : Int
  message : Text
  data : Option Json

structure JsonRpcMessage where
  jsonrpc : Text
  id : Option UInt64
  method : Option Text
  params : Option Json
  result : Option Json
  error : Option JsonRpcError

/-- A field that may be missing or `null`. -/
def optional {α : Type} (read : Json → Option α) : Option Json → Option (Option α)
  | none | some .null => some none
  | some value => (read value).map some

def asI32 : Json → Option Int
  | .unsigned n => if n.toNat < 2 ^ 31 then some n.toNat else none
  | .negative n => if n.val < 2 ^ 31 then some (-1 - n.val) else none
  | _ => none

/-- The fields of a structure, by their names in an object or by their order in an array. -/
def fieldsOf (names : List String) : Json → Option (List (Option Json))
  | .object fields => some (names.map fun name => (Json.object fields).get name.toList)
  | .array items =>
    if items.length ≤ names.length then
      some ((List.range names.length).map fun i => items[i]?)
    else none
  | _ => none

def JsonRpcError.fromValue (value : Json) : Option JsonRpcError := do
  let fields ← fieldsOf ["code", "message", "data"] value
  match fields with
  | [code, message, data] =>
    some ⟨← code.bind asI32, ← message.bind Json.asStr, ← optional some data⟩
  | _ => none

/-- `serde_json::from_slice` of a message, from the value that its text has. -/
def JsonRpcMessage.fromValue (value : Json) : Option JsonRpcMessage := do
  let fields ← fieldsOf ["jsonrpc", "id", "method", "params", "result", "error"] value
  match fields with
  | [jsonrpc, id, method, params, result, error] =>
    some ⟨← jsonrpc.bind Json.asStr, ← optional Json.asU64 id, ← optional Json.asStr method,
      ← optional some params, ← optional some result, ← optional JsonRpcError.fromValue error⟩
  | _ => none

/-- What comes next on the server's output. -/
inductive Input where
  | eof
  | failed (err : Text)
  /-- Header lines up to an empty one, and the body: its value, or why there is none. -/
  | frame (headers : List Text) (body : Except Text Json)

/-- The length that the headers give last. -/
def contentLength (headers : List Text) : Except Text (Option Nat) :=
  headers.foldlM (fun length line =>
    match stripPrefix "Content-Length: ".toList (trim line) with
    | none => .ok length
    | some digits =>
      match parseUsize digits with
      | some n => .ok (some n)
      | none => .error "invalid digit found in string".toList) none

/-- The next message. Where there is none the reader ends, at the end of the output without an
error. -/
def readMessage : Input → Except (Option Text) JsonRpcMessage
  | .eof => .error none
  | .failed err => .error (some err)
  | .frame headers body =>
    match contentLength headers with
    | .error err => .error (some err)
    | .ok none => .error (some "Missing Content-Length header".toList)
    | .ok (some _) =>
      match body with
      | .error err => .error (some err)
      | .ok value =>
        match JsonRpcMessage.fromValue value with
        | none => .error (some "not a message".toList)
        | some message => .ok message

def printInt (n : Int) : Text := if n < 0 then '-' :: printNat n.natAbs else printNat n.natAbs

def outcome (message : JsonRpcMessage) : Except Text Json :=
  match message.error with
  | some err => .error ("LSP error ".toList ++ printInt err.code ++ ": ".toList ++ err.message)
  | none => .ok (message.result.getD .null)

/-! ## The client -/

/-- A sender of the table, and whether its request still waits. -/
structure Pending where
  id : UInt64
  waiting : Bool

structure Client where
  /-- `request_id`. -/
  nextId : UInt64
  pending : List Pending
  /-- The reader has ended. -/
  ended : Bool

def Client.new : Client := ⟨1, [], false⟩

/-- How a request returns. -/
inductive Completion where
  | response (result : Except Text Json)
  /-- Its sender was dropped. -/
  | cancelled
  | notSent (err : Text)

inductive Step where
  /-- A request is put into the table and written, or fails to be written. -/
  | request (failure : Option Text)
  | receive (input : Input)

/-- What completes when the senders under an id are taken out of the table. -/
def completing (client : Client) (id : UInt64) (completion : Completion) :
    List (UInt64 × Completion) :=
  (client.pending.filter fun entry => entry.id = id ∧ entry.waiting).map fun entry =>
    (entry.id, completion)

def remove (client : Client) (id : UInt64) : List Pending :=
  client.pending.filter fun entry => entry.id ≠ id

def request (client : Client) (failure : Option Text) : List (UInt64 × Completion) × Client :=
  let id := client.nextId
  let replaced := completing client id .cancelled
  match failure with
  | none =>
    (replaced, { client with nextId := id + 1, pending := ⟨id, true⟩ :: remove client id })
  | some err =>
    (replaced ++ [(id, .notSent err)],
      { client with nextId := id + 1, pending := ⟨id, false⟩ :: remove client id })

/-- A message with an id goes to the sender under it; the others are notifications. -/
def dispatch (client : Client) (message : JsonRpcMessage) : List (UInt64 × Completion) × Client :=
  match message.id with
  | none => ([], client)
  | some id =>
    (completing client id (.response (outcome message)),
      { client with pending := remove client id })

def step (client : Client) : Step → List (UInt64 × Completion) × Client
  | .request failure => request client failure
  | .receive input =>
    if client.ended then ([], client)
    else
      match readMessage input with
      | .error _ => ([], { client with ended := true })
      | .ok message => dispatch client message

/-! ## What is asked for -/

/-- The message answers a request: it has the id, and is no request or notification itself. -/
def Answers (message : JsonRpcMessage) (id : UInt64) : Prop :=
  message.id = some id ∧ message.method = none

/-- A request waits under this id. -/
def Waits (client : Client) (id : UInt64) : Prop :=
  ∃ entry ∈ client.pending, entry.id = id ∧ entry.waiting = true

/-- Requests are written while the reader reads, and under ids that are free; the server uses no
id of a waiting request for a request of its own; and its output ends when nobody waits. -/
def Careful (client : Client) : Step → Prop
  | .request failure => failure = none ∧ client.ended = false ∧ ¬ Waits client client.nextId
  | .receive input => client.ended = false →
      match readMessage input with
      | .error _ => ∀ id, ¬ Waits client id
      | .ok message => message.method ≠ none → ∀ id, message.id = some id → ¬ Waits client id

/-! ## One step -/

theorem completing_waits {client : Client} {id other : UInt64} {completion found : Completion}
    (member : (other, found) ∈ completing client id completion) :
    other = id ∧ found = completion ∧ Waits client id := by
  obtain ⟨entry, listed, same⟩ := List.mem_map.mp member
  obtain ⟨there, kind⟩ := List.mem_filter.mp listed
  have ⟨named, waits⟩ : entry.id = id ∧ entry.waiting = true := of_decide_eq_true kind
  cases same
  exact ⟨named, rfl, entry, there, named, waits⟩

/-- In a careful step a request completes with the response that carries its id. -/
theorem careful_completion {client : Client} {event : Step} (careful : Careful client event)
    {id : UInt64} {completion : Completion} (member : (id, completion) ∈ (step client event).1) :
    ∃ input message, event = .receive input ∧ readMessage input = .ok message ∧
      Answers message id ∧ completion = .response (outcome message) := by
  cases event with
  | request failure =>
    obtain ⟨rfl, _, free⟩ := careful
    exact absurd (completing_waits member).2.2 free
  | receive input =>
    cases ended : client.ended with
    | true =>
      rw [step, if_pos ended] at member
      cases member
    | false =>
      rw [step, ended] at member
      have careful := careful ended
      cases read : readMessage input with
      | error err =>
        rw [read] at member
        cases member
      | ok message =>
        rw [read] at member careful
        cases carried : message.id with
        | none =>
          simp only [Bool.false_eq_true, if_false, dispatch, carried] at member
          cases member
        | some other =>
          simp only [Bool.false_eq_true, if_false, dispatch, carried] at member
          obtain ⟨rfl, rfl, waits⟩ := completing_waits member
          refine ⟨input, message, rfl, read, ⟨carried, ?_⟩, rfl⟩
          by_contra named
          exact careful named id carried waits

/-- Nobody waits once the reader has ended. -/
def Settled (client : Client) : Prop := client.ended = true → ∀ id, ¬ Waits client id

theorem settled_step (client : Client) (event : Step) (settled : Settled client)
    (careful : Careful client event) : Settled (step client event).2 := by
  cases event with
  | request failure =>
    obtain ⟨rfl, reads, _⟩ := careful
    intro ended
    rw [show (step client (.request none)).2.ended = client.ended from rfl, reads] at ended
    cases ended
  | receive input =>
    cases ended : client.ended with
    | true =>
      rw [step, if_pos ended]
      exact settled
    | false =>
      rw [step, ended]
      have careful := careful ended
      cases read : readMessage input with
      | error err =>
        rw [read] at careful
        exact fun _ => careful
      | ok message =>
        intro after
        cases carried : message.id with
        | none =>
          simp only [Bool.false_eq_true, if_false, dispatch, carried, ended] at after
        | some other =>
          simp only [Bool.false_eq_true, if_false, dispatch, carried, ended] at after

/-- The replies of the server reach their own requests in a careful run: a request completes only
with the response that carries its id, and nobody waits once the reader has ended. -/
theorem replies_reach_requests (events : List Step)
    (careful : Runs.Along Careful step Client.new events) :
    (∀ done event rest id completion, events = done ++ event :: rest →
      (id, completion) ∈ (step (Runs.final step Client.new done) event).1 →
        ∃ input message, event = .receive input ∧ readMessage input = .ok message ∧
          Answers message id ∧ completion = .response (outcome message)) ∧
    ∀ done rest, events = done ++ rest → (Runs.final step Client.new done).ended = true →
      ∀ id, ¬ Waits (Runs.final step Client.new done) id := by
  refine ⟨fun done event rest id completion shape member => ?_, fun done rest shape => ?_⟩
  · exact careful_completion (careful done event rest shape) member
  · rw [shape] at careful
    exact Runs.invariant_along settled_step nofun (Runs.along_append.mp careful).1

/-- A message with an id, and perhaps a method. -/
def sampleValue (method : Option Text) : Json :=
  .ofFields ([("jsonrpc", .string "2.0".toList), ("id", .unsigned 1)] ++
    (method.map fun method => ("method", Json.string method)).toList)

def sampleFrame (method : Option Text) : Input :=
  .frame ["Content-Length: 40".toList] (.ok (sampleValue method))

theorem read_sampleFrame (method : Option Text) :
    readMessage (sampleFrame method) = .ok ⟨"2.0".toList, some 1, method, none, none, none⟩ := by
  have length : contentLength ["Content-Length: 40".toList] = .ok (some 40) := by rfl
  have read : JsonRpcMessage.fromValue (sampleValue method) =
      some ⟨"2.0".toList, some 1, method, none, none, none⟩ := by
    have fields : fieldsOf ["jsonrpc", "id", "method", "params", "result", "error"]
        (sampleValue method) = some [some (.string "2.0".toList), some (.unsigned 1),
          method.map Json.string, none, none, none] := by
      have get (name : String) := Json.get_ofFields name.toList
        ([("jsonrpc", .string "2.0".toList), ("id", .unsigned 1)] ++
          (method.map fun method => ("method", Json.string method)).toList)
      show some (["jsonrpc", "id", "method", "params", "result", "error"].map
        fun name => (sampleValue method).get name.toList) = _
      unfold sampleValue
      simp only [get]
      cases method with
      | none => rfl
      | some method =>
        simp only [Option.map_some, Option.toList_some, List.cons_append, List.nil_append,
          List.reverse_cons, List.reverse_nil, List.find?_cons, List.find?_nil, List.map_cons,
          List.map_nil, Option.map_none, beq_eq_decide, String.toList_inj, String.reduceEq,
          decide_false, decide_true]
    rw [JsonRpcMessage.fromValue, fields]
    cases method <;> rfl
  simp only [readMessage, sampleFrame, length, read]

/-- A request and its response. -/
theorem replies_reach_requests_response :
    let events : List Step := [.request none, .receive (sampleFrame none)]
    (∀ done event rest id completion, events = done ++ event :: rest →
      (id, completion) ∈ (step (Runs.final step Client.new done) event).1 →
        ∃ input message, event = .receive input ∧ readMessage input = .ok message ∧
          Answers message id ∧ completion = .response (outcome message)) ∧
    ∀ done rest, events = done ++ rest → (Runs.final step Client.new done).ended = true →
      ∀ id, ¬ Waits (Runs.final step Client.new done) id := by
  have quiet : Careful (step Client.new (.request none)).2 (.receive (sampleFrame none)) := by
    intro _
    rw [read_sampleFrame]
    exact fun named => absurd rfl named
  exact replies_reach_requests [.request none, .receive (sampleFrame none)]
    (Runs.along_cons.mpr ⟨⟨rfl, rfl, by rintro ⟨_, ⟨⟩, _⟩⟩,
      Runs.along_cons.mpr ⟨quiet, Runs.along_nil _ _⟩⟩)

/-- A request of the server under the id of the client's own request completes it. -/
theorem server_request_completes :
    let events : List Step := [.request none, .receive (sampleFrame (some "a".toList))]
    ¬ ∀ done event rest id completion, events = done ++ event :: rest →
      (id, completion) ∈ (step (Runs.final step Client.new done) event).1 →
        ∃ input message, event = .receive input ∧ readMessage input = .ok message ∧
          Answers message id ∧ completion = .response (outcome message) := by
  intro events reached
  have completes : step (Runs.final step Client.new [.request none])
      (.receive (sampleFrame (some "a".toList))) =
        ([(1, .response (.ok .null))], ⟨2, [], false⟩) := by
    rw [step, read_sampleFrame]
    rfl
  obtain ⟨input, message, same, read, answers, _⟩ := reached [.request none] _ [] 1
    (.response (.ok .null)) rfl (by rw [completes]; exact List.mem_cons_self)
  cases same
  rw [read_sampleFrame] at read
  cases read
  cases answers.2

end Devit.LspClient
