import Devit.ApprovalDecisions
import Devit.Library.JsonBrackets

/-! A client of the daemon, and the lines between them. A request is one line in one of two
spellings, and its answer has the spelling of the request. Both sides sign what they write and
drop what does not carry its code, so the two spellings are one exchange of messages. -/
namespace Devit
open Text Path

/-- A message with short names. -/
structure MsgC where
  t : Text
  i : Text
  f : Text
  o : Text
  s : UInt64
  n : Text
  h : Text
  p : Json

structure DevitClient where
  ident : Text
  secret : Text
  useCompact : Bool
  clientVersion : Option Text
  daemonVersion : Option Text
  caps : List Text

/-- What a client makes up for a message. -/
structure Draft where
  msgId : Text
  nonce : Text
  ts : UInt64
  pid : UInt64

namespace DaemonClient
open Daemon

/-! ## Two spellings -/

def toCompact (m : Msg) : MsgC := ⟨m.msgType, m.msgId, m.sender, m.recipient, m.ts, m.nonce, m.hmac,
  m.payload⟩

def fromCompact (c : MsgC) : Msg := ⟨c.t, c.i, c.f, c.o, c.s, c.n, c.h, c.p⟩

def msgFields : List Text :=
  ["msg_type".toList, "msg_id".toList, "from".toList, "to".toList, "ts".toList, "nonce".toList,
    "hmac".toList, "payload".toList]

def compactFields : List Text := [['t'], ['i'], ['f'], ['o'], ['s'], ['n'], ['h'], ['p']]

/-- What the derived `Serialize` writes, under the names of the fields. -/
def fieldsJson (names : List Text) (m : Msg) : Json :=
  .object (names.zip [.string m.msgType, .string m.msgId, .string m.sender, .string m.recipient,
    .unsigned m.ts, .string m.nonce, .string m.hmac, m.payload])

def msgJson (m : Msg) : Json := fieldsJson msgFields m

def msgCJson (c : MsgC) : Json := fieldsJson compactFields (fromCompact c)

/-- The value of a field that is there once. -/
def only (fields : List (Text × Json)) (name : Text) : Option Json :=
  match fields.filter (·.1 == name) with
  | [field] => some field.2
  | _ => none

/-- The values that the derived `Deserialize` looks for: by name, or by their place in an array. -/
def fieldValues (names : List Text) : Json → Option (List Json)
  | .object fields => names.mapM (only fields)
  | .array items => if items.length = names.length then some items else none
  | _ => none

def readFields (names : List Text) (v : Json) : Option Msg :=
  match fieldValues names v with
  | some [t, i, f, o, s, n, h, p] => do
    some ⟨← t.asStr, ← i.asStr, ← f.asStr, ← o.asStr, ← s.asU64, ← n.asStr, ← h.asStr, p⟩
  | _ => none

def readMsg (v : Json) : Option Msg := readFields msgFields v

def readMsgC (v : Json) : Option MsgC := (readFields compactFields v).map toCompact

/-- The value that a line is printed of. -/
def printed (compact : Bool) (m : Msg) : Json :=
  if compact then msgCJson (toCompact m) else msgJson m

/-- A message as a line. -/
def spelled (compact : Bool) (m : Msg) : Text := (printed compact m).render ++ ['\n']

/-- What `register` makes of an answer. -/
def registered (client : DevitClient) : Option Msg → Except Text DevitClient
  | none => .ok client
  | some m =>
    if m.msgType = "ACK".toList then
      match strField "daemon_version" m.payload with
      | some version => .ok { client with daemonVersion := some version }
      | none => .ok client
    else if m.msgType = "ERR".toList then
      .error ((strField "message" m.payload).getD "daemon rejected registration".toList)
    else .ok client

section
variable (crates : DaemonCrates) (parse : Text → Option Json)

/-- A line as a message, and whether it was spelled with the short names. -/
def heard (line : Text) : Option (Bool × Msg) :=
  match (parse (trim line)).bind readMsgC with
  | some c => some (true, fromCompact c)
  | none => ((parse (trim line)).bind readMsg).map fun m => (false, m)

/-! ## The daemon's side -/

/-- One turn of `handle_connection`: blank lines and lines that are no message are passed over. -/
def handleLine (reading : Reading) (line : Text) (s : State) : Option Text × State :=
  if trim line = [] then (none, s)
  else
    match heard parse line with
    | none => (none, s)
    | some (compact, msg) =>
      let (answer, s') := handleMessage crates reading msg s
      (answer.map fun m => spelled compact (signMsg crates s'.secret m), s')

/-- `handle_connection`, until the client has nothing more to say. -/
def handleConnection : List (Reading × Text) → State → List Text × State
  | [], s => ([], s)
  | (reading, line) :: later, s =>
    let (answer, s) := handleLine crates parse reading line s
    let (answers, s) := handleConnection later s
    (answer.toList ++ answers, s)

/-! ## The client's side -/

/-- The answer that is read in time, if any. -/
def readAnswer (client : DevitClient) (response : Option Text) : Option Msg :=
  match response with
  | none => none
  | some line =>
    if trim line = [] then none
    else (heard parse line).bind fun (_, m) =>
      if verifyHmac crates client.secret m then some m else none

/-- `send_message`, and what the daemon does meanwhile. -/
def sendMessage (client : DevitClient) (reading : Reading) (inTime : Bool) (msg : Msg) (s : State) :
    Option Msg × State :=
  let request := spelled client.useCompact (signMsg crates client.secret msg)
  let (answers, s) := handleConnection crates parse
    ((splitInclusive request).map fun line => (reading, line)) s
  (readAnswer crates parse client (if inTime then answers.head? else none), s)

/-- `new_msg`. -/
def newMsg (client : DevitClient) (draft : Draft) (typ recipient : Text) (payload : Json) : Msg :=
  signMsg crates client.secret
    ⟨typ, draft.msgId, client.ident, recipient, draft.ts, draft.nonce, [], payload⟩

def registerMsg (client : DevitClient) (draft : Draft) : Msg :=
  newMsg crates client draft "REGISTER".toList orchestrator (.ofFields (
    [("caps", .array (client.caps.map .string)), ("pid", .unsigned draft.pid)] ++
      (client.clientVersion.map fun version => ("version", Json.string version)).toList))

/-- `register`, which fails where an error is read. -/
def register (client : DevitClient) (draft : Draft) (reading : Reading) (inTime : Bool)
    (s : State) : Except Text DevitClient × State :=
  let (answer, s) := sendMessage crates parse client reading inTime
    (registerMsg crates client draft) s
  (registered client answer, s)

def heartbeatMsg (client : DevitClient) (draft : Draft) : Msg :=
  newMsg crates client draft "HEARTBEAT".toList orchestrator (.object [])

def pollMsg (client : DevitClient) (draft : Draft) : Msg :=
  newMsg crates client draft "POLL".toList orchestrator (.object [])

def statusMsg (client : DevitClient) (draft : Draft) : Msg :=
  newMsg crates client draft "STATUS_REQUEST".toList orchestrator (.object [])

def delegateMsg (client : DevitClient) (draft : Draft) (toWorker : Text) (task : Json)
    (returnTo : Text) : Msg :=
  newMsg crates client draft "DELEGATE".toList toWorker
    (.ofFields [("task", task), ("return_to", .string returnTo)])

/-- `delegate`: the answer is not looked at. -/
def delegate (client : DevitClient) (draft : Draft) (reading : Reading) (inTime : Bool)
    (toWorker : Text) (task : Json) (returnTo : Text) (s : State) : Text × State :=
  let msg := delegateMsg crates client draft toWorker task returnTo
  (msg.msgId, (sendMessage crates parse client reading inTime msg s).2)

def notifyMsg (client : DevitClient) (draft : Draft) (recipient taskId status : Text)
    (artifacts : Json) (returnTo : Option Text) : Msg :=
  newMsg crates client draft "NOTIFY".toList recipient (.ofFields (
    [("task_id", .string taskId), ("status", .string status), ("artifacts", artifacts)] ++
      (returnTo.map fun target => ("return_to", Json.string target)).toList))

end

/-! ## Lines and their messages -/

theorem last_fields (fields : List (Text × Json)) :
    ∃ front, Json.renderFields fields = front ++ ['}'] := by
  induction fields with
  | nil => exact ⟨[], rfl⟩
  | cons field fields ih =>
    obtain ⟨key, value⟩ := field
    obtain ⟨front, shape⟩ := ih
    refine ⟨',' :: (Json.renderString key ++ ':' :: (Json.render value ++ front)), ?_⟩
    rw [Json.renderFields, shape]
    simp

/-- A line between client and daemon has nothing to trim but its newline. -/
theorem trim_object (fields : List (Text × Json)) :
    trim ((Json.object fields).render ++ ['\n']) = (Json.object fields).render := by
  obtain ⟨front, shape⟩ : ∃ front, (Json.object fields).render = '{' :: (front ++ ['}']) := by
    cases fields with
    | nil => exact ⟨[], rfl⟩
    | cons field fields =>
      obtain ⟨key, value⟩ := field
      obtain ⟨front, shape⟩ := last_fields fields
      refine ⟨Json.renderString key ++ ':' :: (Json.render value ++ front), ?_⟩
      rw [Json.render, shape]
      simp
  rw [trim_append_space (by decide), shape, trim,
    List.dropWhile_cons_of_neg (by decide), ← List.cons_append, List.reverse_append,
    List.reverse_singleton, List.singleton_append, List.dropWhile_cons_of_neg (by decide),
    List.reverse_cons, List.reverse_reverse]

theorem printed_object (compact : Bool) (m : Msg) :
    ∃ fields, printed compact m = .object fields := by
  cases compact
  · exact ⟨_, rfl⟩
  · exact ⟨_, rfl⟩

theorem trim_spelled (compact : Bool) (m : Msg) :
    trim (spelled compact m) = (printed compact m).render := by
  obtain ⟨fields, shape⟩ := printed_object compact m
  have line : spelled compact m = (printed compact m).render ++ ['\n'] := rfl
  rw [line, shape, trim_object]

theorem spelled_not_blank (compact : Bool) (m : Msg) : trim (spelled compact m) ≠ [] := by
  obtain ⟨fields, shape⟩ := printed_object compact m
  rw [trim_spelled, shape]
  cases fields with
  | nil => exact List.cons_ne_nil _ _
  | cons field fields => exact List.cons_ne_nil _ _

/-- A message is one line. -/
theorem splitInclusive_spelled (compact : Bool) (m : Msg) :
    splitInclusive (spelled compact m) = [spelled compact m] := by
  have clean : '\n' ∉ (printed compact m).render := fun member =>
    absurd (Json.render_printable _ _ member) (by decide)
  exact splitInclusive_line [] clean

theorem readMsg_msgJson (m : Msg) : readMsg (msgJson m) = some m := rfl

theorem readMsgC_msgJson (m : Msg) : readMsgC (msgJson m) = none := rfl

section
variable {crates : DaemonCrates} {parse : Text → Option Json} {client : DevitClient}
variable {reading : Reading} {inTime : Bool} {msg : Msg} {s : State}

/-- A message whose two spellings are read back as they were printed. -/
def Travels (parse : Text → Option Json) (m : Msg) : Prop :=
  ∀ compact, parse (printed compact m).render = some (printed compact m)

theorem heard_spelled {compact : Bool} {m : Msg} (travels : Travels parse m) :
    heard parse (spelled compact m) = some (compact, m) := by
  rw [heard, trim_spelled, travels compact, Option.bind_some]
  cases compact with
  | true => rfl
  | false =>
    have other : readMsgC (printed false m) = none := readMsgC_msgJson m
    have own : readMsg (printed false m) = some m := readMsg_msgJson m
    rw [other, Option.bind_some, own]
    rfl

theorem handleMessage_secret (reading : Reading) (msg : Msg) (s : State) :
    (handleMessage crates reading msg s).2.secret = s.secret :=
  ApprovalDecisions.step_secret s (.message reading msg)

theorem handleConnection_single (line : Text) :
    handleConnection crates parse [(reading, line)] s =
      ((handleLine crates parse reading line s).1.toList,
        (handleLine crates parse reading line s).2) := by
  simp only [handleConnection, List.append_nil]

/-- What the client reads of an answer that was written for it. -/
theorem readAnswer_spelled {compact : Bool} {m : Msg} (travels : Travels parse m) :
    readAnswer crates parse client (some (spelled compact m)) =
      if verifyHmac crates client.secret m then some m else none := by
  rw [readAnswer]
  dsimp only
  rw [if_neg (spelled_not_blank compact m), heard_spelled travels, Option.bind_some]

/-- A message that the daemon answers what it does, as the client hears it. -/
def AnswerTravels (crates : DaemonCrates) (parse : Text → Option Json) (s : State)
    (answer : Option Msg) : Prop :=
  ∀ m, answer = some m → Travels parse (signMsg crates s.secret m)

/-- A reader that knows some values by what they are printed as. -/
def readerOf (known : List Json) : Text → Option Json := fun text => known.find? (·.render == text)

theorem readerOf_render {known : List Json} {v : Json} (member : v ∈ known) :
    readerOf known v.render = some v := by
  have inside : (known.find? (·.render == v.render)).isSome = true :=
    List.find?_isSome.mpr ⟨v, member, beq_self_eq_true _⟩
  obtain ⟨found, first⟩ := Option.isSome_iff_exists.mp inside
  have same : found.render = v.render := by simpa using List.find?_some first
  rw [readerOf, first, Json.render_injective same]

/-- Both spellings of a message. -/
def spellings (m : Msg) : List Json := [printed false m, printed true m]

theorem travels_readerOf {known : List Json} {m : Msg} (both : spellings m ⊆ known) :
    Travels (readerOf known) m := by
  intro compact
  apply readerOf_render
  apply both
  cases compact
  · exact List.mem_cons_self
  · exact List.mem_cons_of_mem _ List.mem_cons_self

/-- A client that spells its messages with the short names. -/
def shortClient (secret : Text) : DevitClient := ⟨['c'], secret, true, none, none, []⟩

def firstDraft : Draft := ⟨['1'], ['2'], 3, 4⟩

open NotificationDelivery in
/-- The registration of that client, and the answer of a new daemon. -/
def registration (secret : Text) : Msg :=
  signMsg plainCrates secret (registerMsg plainCrates (shortClient secret) firstDraft)

open NotificationDelivery in
def registrationAnswer (secret : Text) : Option Msg :=
  (handleMessage plainCrates (readingAt 1) (registration secret) freshState).1

/-- **An exchange** is one message and its answer: whichever spelling the client uses, the daemon
does what it does with the signed message, and the client is given the answer, signed by the
daemon, if it comes in time and carries the code under the client's secret. -/
theorem sendMessage_eq (sent : Travels parse (signMsg crates client.secret msg))
    (answered : AnswerTravels crates parse s
      (handleMessage crates reading (signMsg crates client.secret msg) s).1) :
    sendMessage crates parse client reading inTime msg s =
      (if inTime then
          ((handleMessage crates reading (signMsg crates client.secret msg) s).1.map
            (signMsg crates s.secret)).filter (verifyHmac crates client.secret ·)
        else none,
        (handleMessage crates reading (signMsg crates client.secret msg) s).2) := by
  have kept := @handleMessage_secret crates reading (signMsg crates client.secret msg) s
  unfold sendMessage
  dsimp only
  rw [splitInclusive_spelled, List.map_singleton, handleConnection_single, handleLine,
    if_neg (spelled_not_blank _ _), heard_spelled sent]
  dsimp only
  rw [kept]
  cases answer : (handleMessage crates reading (signMsg crates client.secret msg) s).1 with
  | none => cases inTime <;> rfl
  | some m =>
    rw [answer] at answered
    cases inTime with
    | false => rfl
    | true =>
      dsimp only [Option.map_some, Option.toList_some, List.append_nil, List.head?_cons, if_true]
      rw [if_pos rfl, if_pos rfl, readAnswer_spelled (answered m rfl), Option.filter_some]

open NotificationDelivery in
/-- A registration in the short spelling, and its answer. -/
theorem registration_exchanged :
    ∃ answer, registrationAnswer ['s'] = some answer ∧
      (sendMessage plainCrates (readerOf (spellings (registration ['s']) ++
          spellings (signMsg plainCrates ['s'] answer))) (shortClient ['s']) (readingAt 1) true
        (registerMsg plainCrates (shortClient ['s']) firstDraft) freshState).1 =
          some (signMsg plainCrates ['s'] answer) := by
  have some_answer : (registrationAnswer ['s']).isSome = true := by decide +kernel
  obtain ⟨answer, answered⟩ := Option.isSome_iff_exists.mp some_answer
  have verified : verifyHmac plainCrates ['s'] (signMsg plainCrates ['s'] answer) = true := by
    have all : (registrationAnswer ['s']).all fun answer =>
        verifyHmac plainCrates ['s'] (signMsg plainCrates ['s'] answer) := by decide +kernel
    rwa [answered] at all
  have handled : (handleMessage plainCrates (readingAt 1) (signMsg plainCrates
      (shortClient ['s']).secret (registerMsg plainCrates (shortClient ['s']) firstDraft))
        freshState).1 = some answer := answered
  refine ⟨answer, answered, ?_⟩
  have exchange := @sendMessage_eq plainCrates (readerOf (spellings (registration ['s']) ++
      spellings (signMsg plainCrates ['s'] answer))) (shortClient ['s']) (readingAt 1) true
    (registerMsg plainCrates (shortClient ['s']) firstDraft) freshState
    (travels_readerOf (List.subset_append_left _ _))
    (fun m own => by
      cases handled.symm.trans own
      exact travels_readerOf (List.subset_append_right _ _))
  rw [exchange, if_pos rfl, handled, Option.map_some, Option.filter_some]
  exact if_pos verified

/-- The daemon takes the message, whatever the client sees of the answer. -/
theorem sendMessage_state (sent : Travels parse (signMsg crates client.secret msg)) :
    (sendMessage crates parse client reading inTime msg s).2 =
      (handleMessage crates reading (signMsg crates client.secret msg) s).2 := by
  unfold sendMessage
  dsimp only
  rw [splitInclusive_spelled, List.map_singleton, handleConnection_single, handleLine,
    if_neg (spelled_not_blank _ _), heard_spelled sent]

/-! ## Delegating -/

theorem handleMessage_forged (forged : verifyHmac crates s.secret msg = false) :
    handleMessage crates reading msg s = (none, s) := by
  rw [handleMessage, if_pos forged]

theorem handleMessage_register (authentic : verifyHmac crates s.secret msg = true)
    (type : msg.msgType = "REGISTER".toList) :
    handleMessage crates reading msg s = handleRegister reading msg s := by
  unfold handleMessage
  rw [if_neg (by rw [authentic]; decide), if_pos type]

/-- A client that is not turned away is written down. -/
theorem handleRegister_journal (accepted : versionRefusal reading msg s = none) :
    (handleRegister reading msg s).2.journal.length = s.journal.length + 1 := by
  unfold handleRegister
  rw [accepted]
  exact List.length_append

/-- Who is turned away is told so in an error. -/
theorem versionRefusal_type {refusal : Msg}
    (refused : versionRefusal reading msg s = some refusal) : refusal.msgType = "ERR".toList := by
  unfold versionRefusal at refused
  split at refused
  · cases refused
  · split at refused
    · cases refused
    · cases refused
      rfl
  · cases refused
    rfl

theorem registered_ok {answer : Option Msg} :
    (∃ known, registered client answer = .ok known) ↔ ∀ m ∈ answer, m.msgType ≠ "ERR".toList := by
  cases answer with
  | none => exact iff_of_true ⟨client, rfl⟩ (by simp)
  | some m =>
    simp only [Option.mem_def, Option.some.injEq, forall_eq']
    unfold registered
    dsimp only
    by_cases ack : m.msgType = "ACK".toList
    · rw [if_pos ack]
      refine iff_of_true ?_ (by rw [ack]; decide)
      split <;> exact ⟨_, rfl⟩
    · rw [if_neg ack]
      by_cases err : m.msgType = "ERR".toList
      · rw [if_pos err]
        exact iff_of_false (by simp) (fun other => other err)
      · rw [if_neg err]
        exact iff_of_true ⟨_, rfl⟩ err

/-- **A client takes itself for registered** though the daemon is as before exactly where its
message does not carry its code under the daemon's secret, or the daemon turns it away and the
error is not read: it comes too late, or does not carry its code under the client's secret. -/
theorem registered_unknown_iff {draft : Draft}
    (sent : Travels parse (signMsg crates client.secret (registerMsg crates client draft)))
    (answered : AnswerTravels crates parse s (handleMessage crates reading
      (signMsg crates client.secret (registerMsg crates client draft)) s).1) :
    ((∃ known, (register crates parse client draft reading inTime s).1 = .ok known) ∧
        (register crates parse client draft reading inTime s).2 = s) ↔
      verifyHmac crates s.secret
          (signMsg crates client.secret (registerMsg crates client draft)) = false ∨
        ∃ refusal, versionRefusal reading (signMsg crates client.secret
            (registerMsg crates client draft)) s = some refusal ∧
          (inTime = false ∨
            verifyHmac crates client.secret (signMsg crates s.secret refusal) = false) := by
  have exchange := @sendMessage_eq crates parse client reading inTime _ s sent answered
  unfold register
  dsimp only
  rw [exchange, registered_ok]
  cases authentic : verifyHmac crates s.secret
      (signMsg crates client.secret (registerMsg crates client draft)) with
  | false =>
    rw [handleMessage_forged authentic]
    refine iff_of_true ⟨?_, rfl⟩ (.inl rfl)
    cases inTime <;> simp
  | true =>
    rw [handleMessage_register authentic rfl]
    cases refused : versionRefusal reading (signMsg crates client.secret
        (registerMsg crates client draft)) s with
    | none =>
      refine iff_of_false (fun both => ?_) (by simp)
      have count := @handleRegister_journal reading _ s refused
      rw [both.2] at count
      omega
    | some refusal =>
      have turned : handleRegister reading (signMsg crates client.secret
          (registerMsg crates client draft)) s = (some refusal, s) := by
        unfold handleRegister
        rw [refused]
      have type : refusal.msgType = "ERR".toList := versionRefusal_type refused
      have signed : (signMsg crates s.secret refusal).msgType = "ERR".toList := type
      rw [turned, and_iff_left rfl]
      simp only [Option.map_some, Option.filter_some, Bool.true_eq_false, false_or,
        Option.some.injEq, exists_eq_left']
      cases inTime with
      | false => simp
      | true =>
        cases verified : verifyHmac crates client.secret (signMsg crates s.secret refusal) with
        | false => simp
        | true => simp [signed]

open NotificationDelivery in
/-- A client with another secret takes itself for registered. -/
theorem stranger_unknown :
    (∃ known, (register plainCrates (readerOf (spellings (registration ['x']))) (shortClient ['x'])
        firstDraft (readingAt 1) true freshState).1 = .ok known) ∧
      (register plainCrates (readerOf (spellings (registration ['x']))) (shortClient ['x'])
        firstDraft (readingAt 1) true freshState).2 = freshState := by
  have forged : verifyHmac plainCrates freshState.secret (registration ['x']) = false := by
    decide +kernel
  refine (registered_unknown_iff (travels_readerOf (List.Subset.refl _)) fun m own => ?_).mpr
    (.inl forged)
  have silent : (handleMessage plainCrates (readingAt 1) (registration ['x']) freshState).1 =
      none := by rw [handleMessage_forged forged]
  cases silent.symm.trans own

end

end DaemonClient

end Devit
