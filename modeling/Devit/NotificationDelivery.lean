import Devit.DaemonEffects

/-! What becomes of the messages queued for a client. They are answered to its POLL
and HEARTBEAT requests in the order they were queued, none twice; and none is lost as
long as each request finds one message at most, for a request takes all that wait
and is answered the first. -/
namespace Devit
open Text Path

namespace NotificationDelivery
open Daemon

section
variable (crates : DaemonCrates) (client : Text)

/-- Whether an event is a request of a client for what waits for it. -/
def isFetch : Event → Bool
  | .message _ msg =>
    msg.sender = client && (msg.msgType = "POLL".toList || msg.msgType = "HEARTBEAT".toList)
  | _ => false

/-- What the requests of a client were answered, in a run. -/
def fetched (s : State) (events : List Event) : List Msg :=
  (events.zip (Runs.outputs (step crates) s events)).filterMap fun (event, answer) =>
    if isFetch client event then answer else none

/-- What was ever queued for a client. -/
def queuedFor (s : State) : List Msg := (s.queued.filter (·.1 = client)).map Prod.snd

/-- What was answered to a client and what still waits for it are together what was
queued for it. -/
def Delivered (s : State) (events : List Event) : Prop :=
  fetched crates client s events ++ pendingFor client (after crates s events) =
    queuedFor client (after crates s events)

/-- A request that carries its code finds one message at most. -/
def FewWaiting (s : State) (event : Event) : Prop :=
  ∀ reading msg, event = .message reading msg → isFetch client event = true →
    verifyHmac crates s.secret msg = true → (pendingFor client s).length ≤ 1

/-- A sweep finds no client that has been silent too long. -/
def NoTimeout (s : State) (event : Event) : Prop :=
  ∀ reading, event = .sweep reading → deadClients reading s = []

end

variable {crates : DaemonCrates} {client : Text} {s : State}

/-! ## One step -/

theorem handlePoll_own {msg : Msg} (own : msg.sender = client) :
    (handlePoll msg s).1 = (pendingFor client s).head? ∧
      pendingFor client (handlePoll msg s).2 = [] ∧ (handlePoll msg s).2.queued = s.queued := by
  subst own
  refine ⟨rfl, ?_, rfl⟩
  simp only [handlePoll, getNotifications, pendingFor, AList.lookup_erase, Option.getD_none]

theorem handlePoll_other {msg : Msg} (other : msg.sender ≠ client) :
    pendingFor client (handlePoll msg s).2 = pendingFor client s ∧
      (handlePoll msg s).2.queued = s.queued := by
  refine ⟨?_, rfl⟩
  simp only [handlePoll, getNotifications, pendingFor]
  rw [AList.lookup_erase_ne (Ne.symm other)]

theorem handleHeartbeat_eq (reading : Reading) (msg : Msg) (s : State) : ∃ clients,
    handleHeartbeat reading msg s = handlePoll msg { s with clients := clients } := by
  unfold handleHeartbeat
  split <;> exact ⟨_, rfl⟩

/-- What a client waits for grows by what is queued for it. -/
def Grows (client : Text) (s s' : State) : Prop :=
  ∃ more, pendingFor client s' = pendingFor client s ++ more ∧
    queuedFor client s' = queuedFor client s ++ more

theorem Grows.of_queues {s' : State} {sent : List (Text × Msg)} (queues : Queues s s' sent) :
    Grows client s s' := by
  refine ⟨_, queues.pending client, ?_⟩
  rw [queuedFor, queues.queued, List.filter_append, List.map_append]
  rfl

theorem Grows.of_same {s' : State} (pending : pendingFor client s' = pendingFor client s)
    (queued : s'.queued = s.queued) : Grows client s s' :=
  ⟨[], by rw [pending, List.append_nil], by rw [queuedFor, queued, List.append_nil]; rfl⟩

theorem handleDelegate_grows (reading : Reading) (msg : Msg) :
    Grows client s (handleDelegate crates reading msg s).2 := by
  unfold handleDelegate
  dsimp only
  split
  · exact .of_queues delegateDenied_queues
  · exact .of_queues handleApprovalRequest_queues
  · exact .of_queues delegateAllowed_queues

theorem handleNotify_grows (reading : Reading) (msg : Msg) :
    Grows client s (handleNotify crates reading msg s) := by
  cases report : isAck msg with
  | true =>
    unfold handleNotify
    simp only [report, if_true]
    exact .of_same rfl rfl
  | false => exact .of_queues (handleNotify_queues report)

theorem handleRegister_grows (reading : Reading) (msg : Msg) :
    Grows client s (handleRegister reading msg s).2 := by
  unfold handleRegister
  split
  · exact .of_same rfl rfl
  · exact .of_same rfl rfl

theorem cleanupExpired_grows {reading : Reading} (alive : deadClients reading s = []) :
    Grows client s (cleanupExpired crates reading s) := by
  rw [cleanupExpired_eq, alive]
  exact .of_queues (expireLeases_queues (expiredIds_nodup s))

/-- What a step is for a client: a request of its own that carries its code, which
takes all that waits and is answered the first of it; or anything else, which only
adds to what waits and answers the client's requests nothing. -/
inductive StepFor (crates : DaemonCrates) (client : Text) (s : State) (event : Event)
    (answer : Option Msg) (s' : State) : Prop
  | fetch {reading msg} (shape : event = .message reading msg) (own : isFetch client event = true)
      (authentic : verifyHmac crates s.secret msg = true)
      (first : answer = (pendingFor client s).head?) (taken : pendingFor client s' = [])
      (queued : s'.queued = s.queued)
  | other (silent : isFetch client event = true → answer = none)
      (forged : ∀ reading msg, event = .message reading msg → isFetch client event = true →
        verifyHmac crates s.secret msg = false)
      (grows : Grows client s s')

/-- A step that is no request for what waits. -/
theorem StepFor.quiet {event : Event} {answer : Option Msg} {s' : State}
    (foreign : isFetch client event = false) (grows : Grows client s s') :
    StepFor crates client s event answer s' := by
  refine .other (fun own => ?_) (fun reading msg shape own => ?_) grows
  · rw [foreign] at own
    cases own
  · rw [foreign] at own
    cases own

theorem isFetch_message {reading : Reading} {msg : Msg} :
    isFetch client (.message reading msg) = true ↔
      msg.sender = client ∧ (msg.msgType = "POLL".toList ∨ msg.msgType = "HEARTBEAT".toList) := by
  simp only [isFetch, Bool.and_eq_true, Bool.or_eq_true, decide_eq_true_eq]

theorem isFetch_type {reading : Reading} {msg : Msg} {type : Text} (types : msg.msgType = type)
    (foreign : type ≠ "POLL".toList ∧ type ≠ "HEARTBEAT".toList) :
    isFetch client (.message reading msg) = false := by
  refine Bool.eq_false_iff.mpr fun own => ?_
  obtain ⟨-, polls | beats⟩ := isFetch_message.mp own
  · exact foreign.1 (types.symm.trans polls)
  · exact foreign.2 (types.symm.trans beats)

/-- A request for what waits, of any client. -/
theorem stepFor_poll {reading : Reading} {msg : Msg} (clients : Table Client)
    (authentic : verifyHmac crates s.secret msg = true)
    (type : msg.msgType = "POLL".toList ∨ msg.msgType = "HEARTBEAT".toList) :
    StepFor crates client s (.message reading msg)
      (handlePoll msg { s with clients := clients }).1
      (handlePoll msg { s with clients := clients }).2 := by
  by_cases own : msg.sender = client
  · obtain ⟨first, taken, queued⟩ := @handlePoll_own client { s with clients := clients } msg own
    exact .fetch rfl (isFetch_message.mpr ⟨own, type⟩) authentic first taken queued
  · obtain ⟨pending, queued⟩ := @handlePoll_other client { s with clients := clients } msg own
    refine .quiet (Bool.eq_false_iff.mpr fun fetches => ?_) (.of_same pending queued)
    exact own (isFetch_message.mp fetches).1

theorem steps_for {event : Event} {answer : Option Msg} {s' : State}
    (steps : Steps crates s event answer s') (alive : NoTimeout s event) :
    StepFor crates client s event answer s' := by
  cases steps with
  | forged forged =>
    refine .other (fun _ => rfl) ?_ (.of_same rfl rfl)
    intro reading msg shape _
    cases shape
    exact forged
  | unknown type =>
    refine .quiet (Bool.eq_false_iff.mpr fun fetches => ?_) (.of_same rfl rfl)
    obtain ⟨-, polls | beats⟩ := isFetch_message.mp fetches
    · exact type (by rw [polls]; decide)
    · exact type (by rw [beats]; decide)
  | register authentic type =>
    exact .quiet (isFetch_type type (by decide)) (handleRegister_grows _ _)
  | heartbeat authentic type =>
    rename_i reading msg
    obtain ⟨clients, same⟩ := handleHeartbeat_eq reading msg s
    rw [same]
    exact stepFor_poll clients authentic (.inr type)
  | delegate authentic type =>
    exact .quiet (isFetch_type type (by decide)) (handleDelegate_grows _ _)
  | notify authentic type =>
    exact .quiet (isFetch_type type (by decide)) (handleNotify_grows _ _)
  | decision authentic type =>
    exact .quiet (isFetch_type type (by decide)) (.of_queues handleApprovalDecision_queues)
  | poll authentic type => exact stepFor_poll s.clients authentic (.inl type)
  | report authentic type =>
    refine .quiet ?_ (.of_same rfl rfl)
    rcases type with status | screenshot
    · exact isFetch_type status (by decide)
    · exact isFetch_type screenshot (by decide)
  | sweep => exact .quiet rfl (cleanupExpired_grows (alive _ rfl))
  | idle none_running => exact .quiet rfl (.of_same rfl rfl)
  | finished runs =>
    rename_i reading i outcome task
    obtain ⟨more, pending, queued⟩ := @handleNotify_grows crates client
      { s with running := s.running.eraseIdx i } reading
      (signMsg crates s.secret (workerReport reading task outcome))
    exact .quiet rfl ⟨more, pending, queued⟩

/-! ## Runs -/

/-- Of one message at most, the first is all. -/
theorem head_of_short {waiting : List Msg} (short : waiting.length ≤ 1) :
    waiting.head?.toList = waiting := by
  match waiting, short with
  | [], _ => rfl
  | [_], _ => rfl

theorem after_concat (events : List Event) (event : Event) :
    after crates s (events ++ [event]) = (step crates (after crates s events) event).2 :=
  Runs.final_concat s events event

theorem fetched_concat (events : List Event) (event : Event) :
    fetched crates client s (events ++ [event]) = fetched crates client s events ++
      (if isFetch client event then (step crates (after crates s events) event).1 else none).toList := by
  unfold fetched
  rw [Runs.outputs_concat, List.zip_append (Runs.outputs_length s events).symm, List.filterMap_append]
  congr 1

/-- What one more step does to what was answered, what waits and what was queued. -/
theorem run_step {events : List Event} {event : Event}
    (alive : NoTimeout (after crates s events) event) :
    (isFetch client event = true ∧ (∃ reading msg, event = .message reading msg ∧
          verifyHmac crates (after crates s events).secret msg = true) ∧
        fetched crates client s (events ++ [event]) = fetched crates client s events ++
          (pendingFor client (after crates s events)).head?.toList ∧
        pendingFor client (after crates s (events ++ [event])) = [] ∧
        queuedFor client (after crates s (events ++ [event])) =
          queuedFor client (after crates s events)) ∨
      (FewWaiting crates client (after crates s events) event ∧
        fetched crates client s (events ++ [event]) = fetched crates client s events ∧
        Grows client (after crates s events) (after crates s (events ++ [event]))) := by
  rw [fetched_concat, after_concat]
  have stepped := @steps_for crates client (after crates s events) event _ _ (step_steps event) alive
  rcases stepped with ⟨shape, own, authentic, first, taken, queued⟩ | ⟨silent, forged, grows⟩
  · refine .inl ⟨own, ⟨_, _, shape, authentic⟩, ?_, taken, ?_⟩
    · rw [own, if_pos rfl, first]
    · rw [queuedFor, queued]
      rfl
  · refine .inr ⟨fun reading msg shape own authentic => ?_, ?_, grows⟩
    · rw [forged reading msg shape own] at authentic
      cases authentic
    · by_cases own : isFetch client event = true
      · rw [own, if_pos rfl, silent own, Option.toList_none, List.append_nil]
      · rw [if_neg own, Option.toList_none, List.append_nil]

/-- Nothing is answered or waits that was not queued. -/
theorem delivered_length_le {events : List Event} (fresh : s.queued = [] ∧ pendingFor client s = [])
    (alive : Runs.Along NoTimeout (step crates) s events) :
    (fetched crates client s events).length + (pendingFor client (after crates s events)).length ≤
      (queuedFor client (after crates s events)).length := by
  induction events using List.reverseRecOn with
  | nil => simp [fetched, after, Runs.final, fresh]
  | append_singleton events event ih =>
    obtain ⟨before, last⟩ := Runs.along_concat.mp alive
    have bound := ih before
    rcases @run_step crates client s events event last with
      ⟨-, -, answered, taken, queued⟩ | ⟨-, answered, more, pending, queued⟩
    · rw [answered, taken, queued, List.length_append, List.length_nil]
      have one : (pendingFor client (after crates s events)).head?.toList.length ≤
          (pendingFor client (after crates s events)).length := by
        cases pendingFor client (after crates s events) <;> simp
      omega
    · rw [answered, pending, queued, List.length_append, List.length_append]
      omega

/-- A run has delivered everything exactly if it had before its last step, and this
finds one message at most if it is a request. -/
theorem delivered_concat {events : List Event} {event : Event}
    (fresh : s.queued = [] ∧ pendingFor client s = [])
    (alive : Runs.Along NoTimeout (step crates) s (events ++ [event])) :
    Delivered crates client s (events ++ [event]) ↔
      Delivered crates client s events ∧ FewWaiting crates client (after crates s events) event := by
  obtain ⟨before, last⟩ := Runs.along_concat.mp alive
  have bound := delivered_length_le fresh before
  unfold Delivered
  rcases @run_step crates client s events event last with
    ⟨own, ⟨reading, msg, shape, authentic⟩, answered, taken, queued⟩ |
      ⟨few, answered, more, pending, queued⟩
  · rw [answered, taken, queued, List.append_nil]
    constructor
    · intro all
      have short : (pendingFor client (after crates s events)).length ≤ 1 := by
        have count := congrArg List.length all
        rw [List.length_append] at count
        cases waiting : pendingFor client (after crates s events) with
        | nil => simp
        | cons first rest =>
          simp only [waiting, List.head?_cons, Option.toList_some, List.length_cons,
            List.length_nil] at count bound ⊢
          omega
      rw [head_of_short short] at all
      exact ⟨all, fun _ _ _ _ _ => short⟩
    · rintro ⟨all, few⟩
      rw [head_of_short (few reading msg shape own authentic)]
      exact all
  · rw [answered, pending, queued, ← List.append_assoc, List.append_cancel_right_eq]
    exact ⟨fun all => ⟨all, few⟩, fun both => both.1⟩

theorem delivered_iff_along {events : List Event}
    (fresh : s.queued = [] ∧ pendingFor client s = [])
    (alive : Runs.Along NoTimeout (step crates) s events) :
    Delivered crates client s events ↔ Runs.Along (FewWaiting crates client) (step crates) s events := by
  induction events using List.reverseRecOn with
  | nil =>
    refine ⟨fun _ => Runs.along_nil _ _, fun _ => ?_⟩
    simp [Delivered, fetched, after, Runs.final, queuedFor, fresh]
  | append_singleton events event ih =>
    rw [delivered_concat fresh alive, Runs.along_concat, ih (Runs.along_concat.mp alive).1]
    rfl

/-- **Delivery.** In a run without timeouts, what a client's requests were answered
and what still waits for it are together what was queued for it, in every state
reached, exactly if each request finds one message at most. -/
theorem delivered_iff {secret daemonVersion approvalTarget : Text} {workerConfigs : List Text}
    {expected : Option Text} {events : List Event}
    (alive : Runs.Along NoTimeout (step crates)
      (newState secret workerConfigs daemonVersion expected approvalTarget) events) :
    (∀ done rest, events = done ++ rest → Delivered crates client
        (newState secret workerConfigs daemonVersion expected approvalTarget) done) ↔
      Runs.Along (FewWaiting crates client) (step crates)
        (newState secret workerConfigs daemonVersion expected approvalTarget) events := by
  have fresh : (newState secret workerConfigs daemonVersion expected approvalTarget).queued = [] ∧
      pendingFor client (newState secret workerConfigs daemonVersion expected approvalTarget) = [] :=
    ⟨rfl, rfl⟩
  constructor
  · intro all
    exact (delivered_iff_along fresh alive).mp (all events [] (List.append_nil events).symm)
  · rintro few done rest rfl
    refine (delivered_iff_along fresh (Runs.along_append.mp alive).1).mpr ?_
    exact (Runs.along_append.mp few).1

/-! ## Two notifications at once -/

/-- Crates that give texts for codes. -/
def plainCrates : DaemonCrates where
  mac := fun secret body => (secret ++ body).map fun c => c.toNat.toUInt8
  encode := fun bytes => bytes.map fun b => Char.ofNat b.toNat
  decode := fun code => some (code.map fun c => c.toNat.toUInt8)
  statusJson := fun _ => .null

/-- What is found `n` seconds after the daemon was started. -/
def readingAt (n : Nat) : Reading where
  instant := n * 10 ^ 9
  utc := n * 1000
  utcText := printNat n
  utcFullText := printNat n
  ts := n.toUInt64
  uuid := fun k => printNat n ++ '-' :: printNat k
  screenshot := .error ("E_SCREENSHOT_DENIED".toList, [])
  order := id
  ordered := fun _ => .refl _

/-- A message `n` seconds after the start, with its code. -/
def sentAt (n : Nat) (type id sender recipient : String) (payload : List (String × Json)) : Event :=
  .message (readingAt n) (signMsg plainCrates ['s'] {
    msgType := type.toList
    msgId := id.toList
    sender := sender.toList
    recipient := recipient.toList
    ts := n.toUInt64
    nonce := printNat n
    hmac := []
    payload := .ofFields payload })

/-- A daemon without configured workers. -/
def freshState : State := newState ['s'] [] "0".toList none []

/-- A worker reports the end of two tasks to a client, which then polls. -/
def twoReports : List Event :=
  [sentAt 1 "NOTIFY" "t1" "w" "orchestrator" [("return_to", .string ['c'])],
    sentAt 2 "NOTIFY" "t2" "w" "orchestrator" [("return_to", .string ['c'])],
    sentAt 3 "POLL" "p" "c" "orchestrator" []]

theorem messages_time_out_none {events : List Event} {s : State}
    (messages : ∀ event ∈ events, ∀ reading, event ≠ .sweep reading) :
    Runs.Along NoTimeout (step crates) s events := by
  rintro done event rest rfl reading shape
  exact absurd shape (messages event (by simp) reading)

/-- A worker reports the end of a task to a client, which then polls. -/
def oneReport : List Event :=
  [sentAt 1 "NOTIFY" "t1" "w" "orchestrator" [("return_to", .string ['c'])],
    sentAt 3 "POLL" "p" "c" "orchestrator" []]

/-- One report that is fetched is delivered. -/
theorem report_delivered : Runs.Along NoTimeout (step plainCrates) freshState oneReport ∧
    ∀ done rest, oneReport = done ++ rest → Delivered plainCrates ['c'] freshState done := by
  have alive : Runs.Along NoTimeout (step plainCrates) freshState oneReport :=
    messages_time_out_none (by simp [oneReport, sentAt])
  refine ⟨alive, (delivered_iff alive).mpr ?_⟩
  refine Runs.along_cons.mpr ⟨?_, Runs.along_cons.mpr ⟨?_, Runs.along_nil _ _⟩⟩
  · intro reading msg shape own
    cases shape
    exact absurd own (by decide +kernel)
  · intro reading msg _ _ _
    decide +kernel

/-- The second of the two reports is neither answered nor waiting any more. -/
theorem second_report_lost : Runs.Along NoTimeout (step plainCrates) freshState twoReports ∧
    (fetched plainCrates ['c'] freshState twoReports).length = 1 ∧
    pendingFor ['c'] (after plainCrates freshState twoReports) = [] ∧
    (queuedFor ['c'] (after plainCrates freshState twoReports)).length = 2 ∧
    ¬ Delivered plainCrates ['c'] freshState twoReports := by
  have fetchedOne : (fetched plainCrates ['c'] freshState twoReports).length = 1 := by
    decide +kernel
  have waiting : (pendingFor ['c'] (after plainCrates freshState twoReports)).length = 0 := by
    decide +kernel
  have queuedTwo : (queuedFor ['c'] (after plainCrates freshState twoReports)).length = 2 := by
    decide +kernel
  refine ⟨messages_time_out_none (by simp [twoReports, sentAt]), fetchedOne,
    List.eq_nil_of_length_eq_zero waiting, queuedTwo, fun all => ?_⟩
  have count := congrArg List.length all
  rw [List.length_append, fetchedOne, waiting, queuedTwo] at count
  omega

end NotificationDelivery

end Devit
