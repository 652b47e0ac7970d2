import Devit.DaemonClient
import Devit.Library.Mailbox

/-! What a client is handed of the messages queued for it. The daemon takes all that waits when
the client asks and answers the first; the client may not wait for the answer, and others may
ask in its name. Runs mix the requests of one client, over the line, with anything else. -/
namespace Devit
open Text Path

namespace ClientDelivery
open Daemon NotificationDelivery DaemonClient Runs

/-- The client asks, by a heartbeat or a poll, or something else happens to the daemon. -/
inductive Happening where
  | ask (beats : Bool) (draft : Draft) (reading : Reading) (inTime : Bool)
  | other (event : Event)

section
variable (crates : DaemonCrates) (parse : Text → Option Json) (client : DevitClient)

def requestMsg (beats : Bool) (draft : Draft) : Msg :=
  if beats then heartbeatMsg crates client draft else pollMsg crates client draft

/-- What happens, and what the client reads of it. -/
def happen (s : State) : Happening → Option Msg × State
  | .ask beats draft reading inTime =>
    sendMessage crates parse client reading inTime (requestMsg crates client beats draft) s
  | .other event => (none, (step crates s event).2)

/-- What is queued for the client, as it is signed for it, and what the client reads of it. -/
def box : Mailbox (happen crates parse client) Msg where
  given s := (queuedFor client.ident s).map (signMsg crates client.secret)
  waiting s := (pendingFor client.ident s).map (signMsg crates client.secret)
  handed s event := (happen crates parse client s event).1.toList

/-- The lines between client and daemon are read back as they were printed. -/
def Legible (s : State) : Happening → Prop
  | .ask beats draft _ _ =>
    Travels parse (signMsg crates client.secret (requestMsg crates client beats draft)) ∧
      ∀ m ∈ pendingFor client.ident s, Travels parse (signMsg crates client.secret m)
  | .other _ => True

/-- No sweep drops a client. -/
def Attended (s : State) : Happening → Prop
  | .ask .. => True
  | .other event => NoTimeout s event

/-- The client finds one message at most and waits for it, and nobody asks in its name while
something waits. -/
def InTurn (s : State) : Happening → Prop
  | .ask _ _ _ inTime =>
    (inTime = true ∧ (pendingFor client.ident s).length ≤ 1) ∨ pendingFor client.ident s = []
  | .other event => ∀ reading msg, event = .message reading msg →
    isFetch client.ident event = true → verifyHmac crates client.secret msg = true →
      pendingFor client.ident s = []

end

variable {crates : DaemonCrates} {parse : Text → Option Json} {client : DevitClient} {s : State}

/-- The code of a message that was just signed is right. -/
theorem verify_signMsg (coded : ∀ bytes, crates.decode (crates.encode bytes) = some bytes)
    (secret : Text) (m : Msg) : verifyHmac crates secret (signMsg crates secret m) = true := by
  unfold verifyHmac signMsg
  rw [coded, Option.getD_some]
  exact beq_self_eq_true _

theorem requestMsg_isFetch (beats : Bool) (draft : Draft) (reading : Reading) :
    isFetch client.ident (.message reading
      (signMsg crates client.secret (requestMsg crates client beats draft))) = true := by
  apply isFetch_message.mpr
  cases beats
  · exact ⟨rfl, .inl rfl⟩
  · exact ⟨rfl, .inr rfl⟩

/-! ## One step -/

/-- What a request of the client does. -/
theorem ask_spec (coded : ∀ bytes, crates.decode (crates.encode bytes) = some bytes)
    (shared : s.secret = client.secret) {beats : Bool} {draft : Draft} {reading : Reading}
    {inTime : Bool} (legible : Legible crates parse client s (.ask beats draft reading inTime)) :
    (happen crates parse client s (.ask beats draft reading inTime)).1 =
        (if inTime then (pendingFor client.ident s).head?.map (signMsg crates client.secret)
          else none) ∧
      pendingFor client.ident
        (happen crates parse client s (.ask beats draft reading inTime)).2 = [] ∧
      (happen crates parse client s (.ask beats draft reading inTime)).2.queued = s.queued := by
  obtain ⟨sent, answers⟩ := legible
  have authentic := verify_signMsg coded client.secret (requestMsg crates client beats draft)
  have stepped := @steps_for crates client.ident s (.message reading
    (signMsg crates client.secret (requestMsg crates client beats draft))) _ _
    (step_steps _) (by simp [NoTimeout])
  rcases stepped with ⟨-, -, -, first, taken, queued⟩ | ⟨-, forged, -⟩
  · have answered : (handleMessage crates reading (signMsg crates client.secret
        (requestMsg crates client beats draft)) s).1 = (pendingFor client.ident s).head? := first
    have exchange := @sendMessage_eq crates parse client reading inTime _ s sent (by
      intro m own
      rw [answered] at own
      rw [shared]
      exact answers m (List.mem_of_head? own))
    unfold happen
    dsimp only
    rw [exchange]
    refine ⟨?_, taken, queued⟩
    rw [answered, shared]
    cases inTime with
    | false => rfl
    | true =>
      rw [if_pos rfl, if_pos rfl]
      cases (pendingFor client.ident s).head? with
      | none => rfl
      | some m =>
        rw [Option.map_some, Option.filter_some]
        exact if_pos (verify_signMsg coded client.secret m)
  · have refused := forged reading _ rfl (requestMsg_isFetch beats draft reading)
    rw [shared, authentic] at refused
    cases refused

theorem waiting_eq_nil : (box crates parse client).waiting s = [] ↔
    pendingFor client.ident s = [] := List.map_eq_nil_iff

theorem given_of_queued {s' : State} (queued : s'.queued = s.queued) :
    (box crates parse client).given s' = (box crates parse client).given s := by
  refine congrArg (List.map (signMsg crates client.secret)) ?_
  rw [queuedFor, queued]
  rfl

theorem grown {s' : State} (grows : Grows client.ident s s') : ∃ more,
    (box crates parse client).waiting s' = (box crates parse client).waiting s ++ more ∧
      (box crates parse client).given s' = (box crates parse client).given s ++ more := by
  obtain ⟨more, pending, queued⟩ := grows
  refine ⟨more.map (signMsg crates client.secret), ?_, ?_⟩
  · exact (congrArg (List.map (signMsg crates client.secret)) pending).trans List.map_append
  · exact (congrArg (List.map (signMsg crates client.secret)) queued).trans List.map_append

/-- Everything that happens takes what waits for the client, or only puts something behind it. -/
theorem moves (coded : ∀ bytes, crates.decode (crates.encode bytes) = some bytes)
    (shared : s.secret = client.secret) {h : Happening} (legible : Legible crates parse client s h)
    (attended : Attended s h) : (box crates parse client).Moves s h := by
  cases h with
  | ask beats draft reading inTime =>
    obtain ⟨-, taken, queued⟩ := ask_spec coded shared legible
    exact .takes (waiting_eq_nil.mpr taken) (given_of_queued queued)
  | other event =>
    rcases @steps_for crates client.ident s event _ _ (step_steps event) attended with
      ⟨-, -, -, -, taken, queued⟩ | ⟨-, -, grows⟩
    · exact .takes (waiting_eq_nil.mpr taken) (given_of_queued queued)
    · obtain ⟨more, waiting, given⟩ := grown grows
      exact .puts rfl more waiting given

/-- A request hands over all that waits where the client waits for the one message there is. -/
theorem ask_handsAll (coded : ∀ bytes, crates.decode (crates.encode bytes) = some bytes)
    (shared : s.secret = client.secret) {beats : Bool} {draft : Draft} {reading : Reading}
    {inTime : Bool} (legible : Legible crates parse client s (.ask beats draft reading inTime)) :
    (box crates parse client).HandsAll s (.ask beats draft reading inTime) ↔
      InTurn crates client s (.ask beats draft reading inTime) := by
  obtain ⟨answer, taken, -⟩ := ask_spec coded shared legible
  have handed : (box crates parse client).handed s (.ask beats draft reading inTime) =
      (if inTime then (pendingFor client.ident s).head?.map (signMsg crates client.secret)
        else none).toList := congrArg Option.toList answer
  constructor
  · rintro (all | ⟨more, -, waiting, -⟩)
    · rw [handed] at all
      have count := congrArg List.length all
      cases inTime with
      | false =>
        apply Or.inr
        exact List.eq_nil_of_length_eq_zero (by simpa [box] using count.symm)
      | true =>
        refine .inl ⟨rfl, ?_⟩
        have size : (pendingFor client.ident s).length =
            ((box crates parse client).waiting s).length := (List.length_map _).symm
        rw [size, ← count, if_pos rfl]
        cases (pendingFor client.ident s).head? <;> simp
    · apply Or.inr
      rw [waiting_eq_nil.mpr taken] at waiting
      exact waiting_eq_nil.mp (List.append_eq_nil_iff.mp waiting.symm).1
  · rintro (⟨rfl, short⟩ | none)
    · apply Or.inl
      rw [handed, if_pos rfl]
      have whole := head_of_short short
      have waiting : (box crates parse client).waiting s =
          (pendingFor client.ident s).map (signMsg crates client.secret) := rfl
      rw [waiting]
      conv_rhs => rw [← whole]
      cases (pendingFor client.ident s).head? <;> rfl
    · apply Or.inl
      rw [handed, waiting_eq_nil.mpr none, none]
      cases inTime <;> rfl

/-- Anything else hands the client nothing. -/
theorem other_handsAll (shared : s.secret = client.secret) {event : Event}
    (attended : NoTimeout s event) :
    (box crates parse client).HandsAll s (.other event) ↔
      InTurn crates client s (.other event) := by
  have nothing : (box crates parse client).handed s (.other event) = [] := rfl
  rcases @steps_for crates client.ident s event _ _ (step_steps event) attended with
    ⟨shape, own, authentic, -, taken, -⟩ | ⟨-, forged, grows⟩
  · constructor
    · rintro (all | ⟨more, -, waiting, -⟩) reading msg _ _ _
      · rw [nothing] at all
        exact waiting_eq_nil.mp all.symm
      · have empty : (box crates parse client).waiting
            (happen crates parse client s (.other event)).2 = [] := waiting_eq_nil.mpr taken
        rw [empty] at waiting
        exact waiting_eq_nil.mp (List.append_eq_nil_iff.mp waiting.symm).1
    · intro turn
      rw [shared] at authentic
      apply Or.inl
      rw [nothing, waiting_eq_nil.mpr (turn _ _ shape own authentic)]
  · obtain ⟨more, waiting, given⟩ := @grown crates parse client s _ grows
    refine iff_of_true (.inr ⟨more, nothing, waiting, given⟩) ?_
    intro reading msg shape own authentic
    rw [← shared, forged reading msg shape own] at authentic
    cases authentic

/-! ## Runs -/

theorem happen_secret {h : Happening} (legible : Legible crates parse client s h) :
    (happen crates parse client s h).2.secret = s.secret := by
  cases h with
  | ask beats draft reading inTime =>
    unfold happen
    rw [sendMessage_state legible.1]
    exact handleMessage_secret _ _ _
  | other event => exact ApprovalDecisions.step_secret s event

/-- The secret stays the same in a run whose lines can be read. -/
theorem run_secret {events : List Happening}
    (legible : Along (Legible crates parse client) (happen crates parse client) s events) :
    (final (happen crates parse client) s events).secret = s.secret :=
  invariant_along (I := fun now => now.secret = s.secret)
    (fun _ _ same readable => (happen_secret readable).trans same) rfl legible

/-- **Delivery to a client.** In a run without timeouts of clients, what the client has read and
what still waits for it are together what was queued for it, in every state reached, exactly if
each time that it asks it finds one message at most and waits for it, or finds none, and nobody
else asks in its name while something waits. -/
theorem received_iff {daemonVersion approvalTarget : Text} {workerConfigs : List Text}
    {expected : Option Text} {events : List Happening}
    (coded : ∀ bytes, crates.decode (crates.encode bytes) = some bytes)
    (legible : Along (Legible crates parse client) (happen crates parse client)
      (newState client.secret workerConfigs daemonVersion expected approvalTarget) events)
    (attended : Along Attended (happen crates parse client)
      (newState client.secret workerConfigs daemonVersion expected approvalTarget) events) :
    (∀ done rest, events = done ++ rest → (box crates parse client).Complete
        (newState client.secret workerConfigs daemonVersion expected approvalTarget) done) ↔
      Along (InTurn crates client) (happen crates parse client)
        (newState client.secret workerConfigs daemonVersion expected approvalTarget) events := by
  have shared : ∀ done h rest, events = done ++ h :: rest →
      (final (happen crates parse client)
        (newState client.secret workerConfigs daemonVersion expected approvalTarget) done).secret =
          client.secret := by
    rintro done h rest rfl
    exact run_secret (along_append.mp legible).1
  have turns : ∀ done h rest, events = done ++ h :: rest →
      ((box crates parse client).HandsAll (final (happen crates parse client)
          (newState client.secret workerConfigs daemonVersion expected approvalTarget) done) h ↔
        InTurn crates client (final (happen crates parse client) (newState client.secret
          workerConfigs daemonVersion expected approvalTarget) done) h) := by
    intro done h rest shape
    cases h with
    | ask beats draft reading inTime =>
      exact ask_handsAll coded (shared _ _ _ shape) (legible _ _ _ shape)
    | other event => exact other_handsAll (shared _ _ _ shape) (attended _ _ _ shape)
  rw [@Mailbox.complete_iff _ _ _ _ _ (box crates parse client) _ _ rfl fun done h rest shape =>
    moves coded (shared _ _ _ shape) (legible _ _ _ shape) (attended _ _ _ shape)]
  exact forall₄_congr fun done h rest shape => turns done h rest shape

/-! ## One report -/

theorem plain_coded (bytes : List UInt8) :
    plainCrates.decode (plainCrates.encode bytes) = some bytes := by
  have small : ∀ n, n < 256 → (Char.ofNat n).toNat = n := by decide +kernel
  refine congrArg some ?_
  have back : plainCrates.encode bytes = bytes.map fun b => Char.ofNat b.toNat := rfl
  rw [back, List.map_map]
  refine (List.map_congr_left fun b _ => ?_).trans (List.map_id bytes)
  rw [Function.comp_apply, small b.toNat b.toNat_lt, Nat.toUInt8_eq, UInt8.ofNat_toNat]
  rfl

/-- The daemon after the report of a task for the client. -/
def reported : State := after plainCrates freshState
  [sentAt 1 "NOTIFY" "t1" "w" "orchestrator" [("return_to", .string ['c'])]]

/-- The lines between the client and that daemon. -/
def reportLines : List Json :=
  spellings (signMsg plainCrates ['s']
      (requestMsg plainCrates (shortClient ['s']) false firstDraft)) ++
    (pendingFor ['c'] reported).flatMap fun m => spellings (signMsg plainCrates ['s'] m)

def oneReading : List Happening :=
  [.other (sentAt 1 "NOTIFY" "t1" "w" "orchestrator" [("return_to", .string ['c'])]),
    .ask false firstDraft (readingAt 3) true]

/-- A client that waits for the answer reads the one report there is. -/
theorem report_read : (box plainCrates (readerOf reportLines)
    (shortClient ['s'])).Complete freshState oneReading := by
  refine (@received_iff plainCrates (readerOf reportLines) (shortClient ['s']) _ _ _ _ _ plain_coded
    ?_ ?_).mpr ?_ oneReading [] (List.append_nil _).symm
  · refine along_cons.mpr ⟨trivial, along_cons.mpr ⟨⟨?_, fun m member => ?_⟩, along_nil _ _⟩⟩
    · exact travels_readerOf (List.subset_append_left _ _)
    · refine travels_readerOf fun v inside => List.mem_append_right _ ?_
      exact List.mem_flatMap.mpr ⟨m, member, inside⟩
  · refine along_cons.mpr ⟨?_, along_cons.mpr ⟨trivial, along_nil _ _⟩⟩
    exact fun reading impossible => by cases impossible
  · refine along_cons.mpr ⟨?_, along_cons.mpr ⟨.inl ⟨rfl, ?_⟩, along_nil _ _⟩⟩
    · rintro reading msg own fetches
      exact absurd fetches (by decide +kernel)
    · decide +kernel

end ClientDelivery

end Devit
