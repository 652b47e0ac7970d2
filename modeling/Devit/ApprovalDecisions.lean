import Devit.Approvals

/-! What a pending approval leads to, over all decisions on it in a run. The first one
that a client signs takes it away: if this is a grant or a denial, the task is delegated
or failed, once; if it is neither, nothing comes of the approval any more. -/
namespace Devit
open Text Path

namespace ApprovalDecisions
open Daemon NotificationDelivery Approvals

/-- A grant or a denial. -/
def isFinal (msg : Msg) : Bool :=
  statusOf "unknown" msg = "granted".toList || statusOf "unknown" msg = "denied".toList

section
variable (crates : DaemonCrates) (approvalId : Text)

/-- The decision on an approval that an event is, if it carries its code. -/
def decisionOn (secret : Text) : Event → Option (Reading × Msg)
  | .message reading msg =>
    if verifyHmac crates secret msg && msg.msgType = "APPROVAL_DECISION".toList &&
        msg.msgId = approvalId then some (reading, msg) else none
  | _ => none

/-- The decisions on an approval in a run. -/
def decisions (secret : Text) (events : List Event) : List (Reading × Msg) :=
  events.filterMap (decisionOn crates approvalId secret)

/-- What the decisions on an approval in a run have the daemon queue. -/
def settled (s : State) : List Event → List (Text × Msg)
  | [] => []
  | event :: events =>
    (if (decisionOn crates approvalId s.secret event).isSome then
      (step crates s event).2.queued.drop s.queued.length else []) ++
      settled (step crates s event).2 events

/-- A pending approval leads to what its first grant or denial says, once, and is then no
longer pending; and without one it leads to nothing and stays pending. -/
def ExactlyOnce (pending : PendingApproval) (s : State) (events : List Event) : Prop :=
  match (decisions crates approvalId s.secret events).find? (isFinal ·.2) with
  | some (reading, msg) =>
    settled crates approvalId s events = decisionNotices crates reading msg pending s ∧
      (after crates s events).pendingApprovals.lookup approvalId = none
  | none =>
    settled crates approvalId s events = [] ∧
      (after crates s events).pendingApprovals.lookup approvalId = some pending

/-- An event does not put another delegation to approval under the same identifier. -/
def AsksElsewhere : Event → Prop
  | .message reading msg => msg.msgType = "DELEGATE".toList → reading.uuid 0 ≠ approvalId
  | _ => True

end

variable {crates : DaemonCrates} {approvalId : Text} {reading : Reading} {s : State} {msg : Msg}
  {event : Event} {events : List Event} {pending : PendingApproval}

theorem decisionOn_some {secret : Text}
    (decision : decisionOn crates approvalId secret event = some (reading, msg)) :
    event = .message reading msg ∧ verifyHmac crates secret msg = true ∧
      msg.msgType = "APPROVAL_DECISION".toList ∧ msg.msgId = approvalId := by
  cases event with
  | message reading msg =>
    simp only [decisionOn] at decision
    split at decision
    · rename_i own
      simp only [Bool.and_eq_true, decide_eq_true_eq] at own
      cases decision
      exact ⟨rfl, own.1.1, own.1.2, own.2⟩
    · cases decision
  | sweep reading => cases decision
  | finished reading i outcome => cases decision

/-- What a step that is no decision on an approval makes of it. -/
theorem step_elsewhere (elsewhere : AsksElsewhere approvalId event)
    (other : decisionOn crates approvalId s.secret event = none) :
    (step crates s event).2.pendingApprovals.lookup approvalId =
      s.pendingApprovals.lookup approvalId := by
  cases (approval_steps (@step_steps crates s event)).1 with
  | same approvals => rw [approvals]
  | asked asks approvals =>
    rw [approvals, Table.lookup_insert_if, if_neg]
    cases asks with
    | mk authentic type ask => exact (elsewhere type).symm
  | decided decides approvals =>
    rw [approvals, Table.lookup_erase_if, if_neg]
    cases decides with
    | mk authentic type found =>
      intro own
      simp [decisionOn, authentic, type, own] at other

theorem step_secret (s : State) (event : Event) : (step crates s event).2.secret = s.secret :=
  (approval_steps (step_steps event)).2

/-- What a decision on an approval makes of it, and has queued. -/
theorem step_decides (decision : decisionOn crates approvalId s.secret event = some (reading, msg)) :
    (step crates s event).2.pendingApprovals.lookup approvalId = none ∧
      (step crates s event).2.queued.drop s.queued.length =
        match s.pendingApprovals.lookup approvalId with
        | some pending => decisionNotices crates reading msg pending s
        | none => [] := by
  obtain ⟨rfl, authentic, type, rfl⟩ := decisionOn_some decision
  rw [step_decision authentic type]
  constructor
  · obtain ⟨_, _, _, _, _, _, framed⟩ := @handleApprovalDecision_frame crates reading msg s
    rw [framed]
    exact AList.lookup_erase _ _
  · refine (congrArg (List.drop s.queued.length) handleApprovalDecision_queues.queued).trans ?_
    refine List.drop_left.trans ?_
    cases s.pendingApprovals.lookup msg.msgId <;> rfl

theorem decisions_cons (secret : Text) (event : Event) (events : List Event) :
    decisions crates approvalId secret (event :: events) =
      (decisionOn crates approvalId secret event).toList ++
        decisions crates approvalId secret events := by
  unfold decisions
  rw [List.filterMap_cons]
  cases decisionOn crates approvalId secret event <;> rfl

/-- An approval that is not pending leads to nothing. -/
theorem settled_gone (gone : s.pendingApprovals.lookup approvalId = none)
    (elsewhere : ∀ event ∈ events, AsksElsewhere approvalId event) :
    settled crates approvalId s events = [] ∧
      (after crates s events).pendingApprovals.lookup approvalId = none := by
  induction events generalizing s with
  | nil => exact ⟨rfl, gone⟩
  | cons event events ih =>
    obtain ⟨first, rest⟩ := List.forall_mem_cons.mp elsewhere
    unfold settled
    cases decision : decisionOn crates approvalId s.secret event with
    | none =>
      obtain ⟨nothing, still⟩ := ih ((step_elsewhere first decision).trans gone) rest
      refine ⟨?_, still⟩
      rw [nothing]
      rfl
    | some found =>
      obtain ⟨taken, queued⟩ := step_decides decision
      obtain ⟨nothing, still⟩ := ih taken rest
      refine ⟨?_, still⟩
      rw [nothing, queued, gone]
      rfl

theorem notices_of_final (final : isFinal msg = true) :
    decisionNotices crates reading msg pending s ≠ [] := by
  unfold decisionNotices
  dsimp only
  split
  · exact List.cons_ne_nil _ _
  · rename_i not_granted
    split
    · exact List.cons_ne_nil _ _
    · rename_i not_denied
      simp only [isFinal, Bool.or_eq_true, decide_eq_true_eq] at final
      exact absurd final (not_or.mpr ⟨not_granted, not_denied⟩)

theorem notices_of_other (other : isFinal msg = false) :
    decisionNotices crates reading msg pending s = [] := by
  simp only [isFinal, Bool.or_eq_false_iff, decide_eq_false_iff_not] at other
  unfold decisionNotices
  simp only [other.1, other.2, if_false]

theorem notices_congr {s' : State} (secret : s'.secret = s.secret) :
    decisionNotices crates reading msg pending s' = decisionNotices crates reading msg pending s := by
  unfold decisionNotices
  rw [secret]

/-- **Exactly once.** A pending approval leads, in any run, to exactly one outcome, that
of its first grant or denial, and stays pending without one, exactly if the first
decision on it, if any, is a grant or a denial. -/
theorem exactly_once_iff (found : s.pendingApprovals.lookup approvalId = some pending)
    (elsewhere : ∀ event ∈ events, AsksElsewhere approvalId event) :
    ExactlyOnce crates approvalId pending s events ↔
      ((decisions crates approvalId s.secret events).head?.all fun decision =>
        isFinal decision.2) = true := by
  induction events generalizing s with
  | nil => exact ⟨fun _ => rfl, fun _ => ⟨rfl, found⟩⟩
  | cons event events ih =>
    obtain ⟨first, rest⟩ := List.forall_mem_cons.mp elsewhere
    unfold ExactlyOnce
    rw [decisions_cons]
    cases decision : decisionOn crates approvalId s.secret event with
    | none =>
      have later := ih ((step_elsewhere first decision).trans found) rest
      unfold ExactlyOnce at later
      rw [step_secret] at later
      simp only [settled, decision, Option.isSome_none, Bool.false_eq_true, if_false,
        List.nil_append, Option.toList_none]
      rw [← later]
      simp only [notices_congr (step_secret s event)]
      exact Iff.rfl
    | some answer =>
      obtain ⟨reading, msg⟩ := answer
      obtain ⟨taken, queued⟩ := step_decides decision
      obtain ⟨nothing, still⟩ := @settled_gone crates _ _ events taken rest
      rw [found] at queued
      simp only [settled, decision, Option.isSome_some, if_true, nothing, queued, List.append_nil,
        Option.toList_some, List.singleton_append, List.head?_cons, Option.all_some]
      cases final : isFinal msg with
      | true =>
        simp only [List.find?_cons, final]
        exact ⟨fun _ => trivial, fun _ => ⟨trivial, still⟩⟩
      | false =>
        simp only [List.find?_cons, final, notices_of_other final]
        refine ⟨fun once => ?_, nofun⟩
        split at once
        · rename_i later
          have final := List.find?_some later
          exact absurd once.1.symm (notices_of_final final)
        · rw [show after crates s (event :: events) = after crates (step crates s event).2 events
            from rfl, still] at once
          cases once.2

/-! ## A decision that is neither -/

theorem granted_once : ∃ pending,
    (after plainCrates freshState [patchAsked]).pendingApprovals.lookup "1-0".toList =
      some pending ∧
    ExactlyOnce plainCrates "1-0".toList pending (after plainCrates freshState [patchAsked])
      [approverGrants] := by
  have waits : ((after plainCrates freshState [patchAsked]).pendingApprovals.lookup
      "1-0".toList).isSome = true := by decide +kernel
  obtain ⟨pending, found⟩ := Option.isSome_iff_exists.mp waits
  refine ⟨pending, found, (exactly_once_iff found ?_).mpr (by decide +kernel)⟩
  intro event member
  rw [List.mem_singleton] at member
  subst member
  intro type
  exact absurd type (by decide)

/-- The approver answers that it will decide later. -/
def approverWaits : Event :=
  sentAt 2 "APPROVAL_DECISION" "1-0" "client:approver" "orchestrator"
    [("status", .string "later".toList)]

/-- The approval is no longer pending, and nothing comes of it. -/
theorem later_loses_approval : ∃ pending,
    (after plainCrates freshState [patchAsked]).pendingApprovals.lookup "1-0".toList =
      some pending ∧
    (after plainCrates freshState [patchAsked, approverWaits]).pendingApprovals.lookup
      "1-0".toList = none ∧
    (settled plainCrates "1-0".toList (after plainCrates freshState [patchAsked])
      [approverWaits, approverGrants]).length = 0 ∧
    ¬ ExactlyOnce plainCrates "1-0".toList pending (after plainCrates freshState [patchAsked])
      [approverWaits] := by
  have waits : ((after plainCrates freshState [patchAsked]).pendingApprovals.lookup
      "1-0".toList).isSome = true := by decide +kernel
  have gone : (after plainCrates (after plainCrates freshState [patchAsked])
      [approverWaits]).pendingApprovals.lookup "1-0".toList = none :=
    Option.isNone_iff_eq_none.mp (by decide +kernel)
  have nothing : (settled plainCrates "1-0".toList (after plainCrates freshState [patchAsked])
      [approverWaits, approverGrants]).length = 0 := by decide +kernel
  have undecided : ((decisions plainCrates "1-0".toList
      (after plainCrates freshState [patchAsked]).secret [approverWaits]).find?
        (isFinal ·.2)) = none := Option.isNone_iff_eq_none.mp (by decide +kernel)
  obtain ⟨pending, found⟩ := Option.isSome_iff_exists.mp waits
  refine ⟨pending, found, gone, nothing, fun once => ?_⟩
  unfold ExactlyOnce at once
  rw [undecided] at once
  cases gone.symm.trans once.2

end ApprovalDecisions

end Devit
