import Devit.Library.Utf8

/-! A task that reads a stream of lines from the network and sends what it makes of them.
The stream arrives in chunks of bytes; each chunk is decoded and cut into lines by itself.
A line may end the stream, and so may a failure of the network. -/
namespace Devit
open Text

/-- What the network gives: a chunk of bytes, or a failure. -/
inductive Arrival where
  | bytes (chunk : List UInt8)
  | failed (message : Text)

/-- A task with the messages that it reads lines as, its state and what it sends. Handling
a message gives what is sent, and the next state unless the stream is finished. -/
structure LineTask (μ σ κ : Type) where
  hear : Text → Option μ
  handle : σ → μ → List κ × Option σ
  failed : Text → κ
  ended : σ → List κ

namespace LineTask

variable {μ σ κ : Type} (task : LineTask μ σ κ)

/-- The messages of a chunk. Lines that cannot be read are passed over. -/
def messages (chunk : List UInt8) : List μ := (lines (utf8Lossy chunk)).filterMap task.hear

def handleAll : σ → List μ → List κ × Option σ
  | state, [] => ([], some state)
  | state, message :: rest =>
    match task.handle state message with
    | (sent, none) => (sent, none)
    | (sent, some next) =>
      let later := handleAll next rest
      (sent ++ later.1, later.2)

/-- All that is sent. -/
def run : σ → List Arrival → List κ
  | state, [] => task.ended state
  | _, .failed message :: _ => [task.failed message]
  | state, .bytes chunk :: rest =>
    match task.handleAll state (task.messages chunk) with
    | (sent, none) => sent
    | (sent, some next) => sent ++ run next rest

/-- Handling in two steps: a message is taken in, and then it may finish the stream. -/
def inTwo (absorb : σ → μ → List κ × σ) (finish : σ → μ → Option (List κ)) (state : σ)
    (message : μ) : List κ × Option σ :=
  let (sent, next) := absorb state message
  match finish next message with
  | some last => (sent ++ last, none)
  | none => (sent, some next)

variable {task}

/-! ## Ending once -/

/-- One terminal item is sent, and it is the last one. -/
def EndsOnce (terminal : κ → Bool) (sent : List κ) : Prop :=
  ∃ before last, sent = before ++ [last] ∧ terminal last = true ∧
    ∀ item ∈ before, terminal item = false

theorem EndsOnce.after {terminal : κ → Bool} {before sent : List κ}
    (plain : ∀ item ∈ before, terminal item = false) (ends : EndsOnce terminal sent) :
    EndsOnce terminal (before ++ sent) := by
  obtain ⟨middle, last, rfl, closes, quiet⟩ := ends
  exact ⟨before ++ middle, last, by rw [List.append_assoc], closes,
    List.forall_mem_append.mpr ⟨plain, quiet⟩⟩

theorem not_endsOnce {terminal : κ → Bool} {sent : List κ}
    (plain : ∀ item ∈ sent, terminal item = false) : ¬ EndsOnce terminal sent := by
  rintro ⟨before, last, rfl, closes, -⟩
  rw [plain last (by simp)] at closes
  cases closes

/-- What a task needs to do with each message: nothing terminal is sent where it goes on,
and one terminal item, last, where it finishes. Which messages finish the stream does not
depend on the state. -/
structure Steady (task : LineTask μ σ κ) (terminal : κ → Bool) (finishes : μ → Bool) : Prop where
  goes_on : ∀ state message, finishes message = false →
    ∃ sent next, task.handle state message = (sent, some next) ∧
      ∀ item ∈ sent, terminal item = false
  finished : ∀ state message, finishes message = true →
    ∃ sent, task.handle state message = (sent, none) ∧ EndsOnce terminal sent
  failure : ∀ message, terminal (task.failed message) = true

variable {terminal : κ → Bool} {finishes : μ → Bool} {absorb : σ → μ → List κ × σ}
  {finish : σ → μ → Option (List κ)}

theorem steady_inTwo (split : task.handle = inTwo absorb finish)
    (plain : ∀ state message, ∀ item ∈ (absorb state message).1, terminal item = false)
    (finished : ∀ state message, (finish state message).isSome = finishes message)
    (ending : ∀ state message, ∀ last ∈ finish state message, EndsOnce terminal last)
    (failure : ∀ message, terminal (task.failed message) = true) :
    Steady task terminal finishes where
  goes_on state message unfinished := by
    have none : finish (absorb state message).2 message = none := by
      rw [← Option.not_isSome_iff_eq_none, finished, unfinished]
      exact Bool.false_ne_true
    refine ⟨_, (absorb state message).2, ?_, plain state message⟩
    simp only [split, inTwo, none]
  finished state message ends := by
    rw [← finished (absorb state message).2 message] at ends
    obtain ⟨last, same⟩ := Option.isSome_iff_exists.mp ends
    refine ⟨_, ?_, (ending _ _ last same).after (plain state message)⟩
    simp only [split, inTwo, same]
  failure := failure

/-- The messages of one chunk, as each one is steady. -/
theorem handleAll_steady (steady : Steady task terminal finishes) (state : σ)
    (messages : List μ) :
    (messages.any finishes = false ∧ ∃ sent next,
      task.handleAll state messages = (sent, some next) ∧ ∀ item ∈ sent, terminal item = false) ∨
    (messages.any finishes = true ∧ ∃ sent,
      task.handleAll state messages = (sent, none) ∧ EndsOnce terminal sent) := by
  induction messages generalizing state with
  | nil => exact .inl ⟨rfl, [], state, rfl, nofun⟩
  | cons message rest ih =>
    cases finish : finishes message with
    | true =>
      obtain ⟨sent, handled, ends⟩ := steady.finished state message finish
      exact .inr ⟨by simp [finish], sent, by simp [handleAll, handled], ends⟩
    | false =>
      obtain ⟨sent, next, handled, plain⟩ := steady.goes_on state message finish
      rcases ih next with ⟨others, later, final, ran, quiet⟩ | ⟨some_finish, later, ran, ends⟩
      · exact .inl ⟨by simp [finish, others], sent ++ later, final,
          by simp [handleAll, handled, ran], List.forall_mem_append.mpr ⟨plain, quiet⟩⟩
      · exact .inr ⟨by simp [some_finish], sent ++ later, by simp [handleAll, handled, ran],
          ends.after plain⟩

/-- The network fails, or a message finishes the stream. -/
def stops (task : LineTask μ σ κ) (finishes : μ → Bool) : Arrival → Bool
  | .failed _ => true
  | .bytes chunk => (task.messages chunk).any finishes

/-- A whole stream, chunk by chunk. -/
theorem run_steady (steady : Steady task terminal finishes) (state : σ)
    (arrivals : List Arrival) :
    (arrivals.any (task.stops finishes) = false ∧ ∃ sent final,
      task.run state arrivals = sent ++ task.ended final ∧ ∀ item ∈ sent, terminal item = false) ∨
    (arrivals.any (task.stops finishes) = true ∧ EndsOnce terminal (task.run state arrivals)) := by
  induction arrivals generalizing state with
  | nil => exact .inl ⟨rfl, [], state, rfl, nofun⟩
  | cons arrival rest ih =>
    cases arrival with
    | failed message =>
      exact .inr ⟨rfl, [], task.failed message, rfl, steady.failure message, nofun⟩
    | bytes chunk =>
      rcases handleAll_steady steady state (task.messages chunk) with
        ⟨others, sent, next, handled, plain⟩ | ⟨finish, sent, handled, ends⟩
      · rcases ih next with ⟨quiet, later, final, ran, silent⟩ | ⟨stopped, ends⟩
        · refine .inl ⟨by simp [stops, others, quiet], sent ++ later, final, ?_,
            List.forall_mem_append.mpr ⟨plain, silent⟩⟩
          simp only [run, handled, ran, List.append_assoc]
        · refine .inr ⟨by simp [stopped], ?_⟩
          simp only [run, handled]
          exact ends.after plain
      · refine .inr ⟨by simp [stops, finish], ?_⟩
        simp only [run, handled]
        exact ends

/-- **Ending once.** A steady task that ends once where the stream does, ends once on every
stream. -/
theorem run_endsOnce (steady : Steady task terminal finishes)
    (ending : ∀ state, EndsOnce terminal (task.ended state)) (state : σ)
    (arrivals : List Arrival) : EndsOnce terminal (task.run state arrivals) := by
  rcases run_steady steady state arrivals with ⟨-, sent, final, ran, plain⟩ | ⟨-, ends⟩
  · rw [ran]
    exact (ending final).after plain
  · exact ends

/-- A steady task that sends nothing at the end of the stream ends once exactly where the
stream is stopped before. -/
theorem run_endsOnce_iff (steady : Steady task terminal finishes)
    (silent : ∀ state, task.ended state = []) (state : σ) (arrivals : List Arrival) :
    EndsOnce terminal (task.run state arrivals) ↔
      arrivals.any (task.stops finishes) = true := by
  rcases run_steady steady state arrivals with ⟨quiet, sent, final, ran, plain⟩ | ⟨stopped, ends⟩
  · rw [ran, silent, List.append_nil, quiet]
    exact iff_of_false (not_endsOnce plain) (by decide)
  · exact iff_of_true ends stopped

/-! ## Cutting into chunks -/

/-- The messages up to the first one that finishes the stream. -/
def upTo (finishes : μ → Bool) : List μ → List μ
  | [] => []
  | message :: rest => if finishes message then [message] else message :: upTo finishes rest

/-- What is heard of a stream. -/
def heard (task : LineTask μ σ κ) (finishes : μ → Bool) (chunks : List (List UInt8)) : List μ :=
  upTo finishes (chunks.flatMap task.messages)

/-- What is sent of messages at whose end the stream ends. -/
def sendAll (task : LineTask μ σ κ) (state : σ) (messages : List μ) : List κ :=
  match task.handleAll state messages with
  | (sent, none) => sent
  | (sent, some final) => sent ++ task.ended final

theorem handleAll_append (state : σ) (first second : List μ) :
    task.handleAll state (first ++ second) =
      match task.handleAll state first with
      | (sent, none) => (sent, none)
      | (sent, some next) =>
        (sent ++ (task.handleAll next second).1, (task.handleAll next second).2) := by
  induction first generalizing state with
  | nil => rfl
  | cons message first ih =>
    rw [List.cons_append, handleAll, handleAll]
    rcases task.handle state message with ⟨sent, _ | next⟩
    · rfl
    · dsimp only
      rw [ih]
      rcases task.handleAll next first with ⟨later, _ | final⟩
      · rfl
      · simp only [List.append_assoc]

/-- Without a failure, what is sent is what the messages come to. -/
theorem run_bytes (state : σ) (chunks : List (List UInt8)) :
    task.run state (chunks.map .bytes) = task.sendAll state (chunks.flatMap task.messages) := by
  induction chunks generalizing state with
  | nil => rfl
  | cons chunk chunks ih =>
    rw [List.map_cons, run, List.flatMap_cons, sendAll, handleAll_append]
    rcases task.handleAll state (task.messages chunk) with ⟨sent, _ | next⟩
    · rfl
    · dsimp only
      rw [ih, sendAll]
      rcases task.handleAll next (chunks.flatMap task.messages) with ⟨later, _ | final⟩
      · rfl
      · simp only [List.append_assoc]

/-- Nothing is handled behind a message that finishes the stream. -/
theorem handleAll_upTo (steady : Steady task terminal finishes) (state : σ) (messages : List μ) :
    task.handleAll state (upTo finishes messages) = task.handleAll state messages := by
  induction messages generalizing state with
  | nil => rfl
  | cons message rest ih =>
    cases finish : finishes message with
    | true =>
      obtain ⟨sent, handled, -⟩ := steady.finished state message finish
      simp only [upTo, finish, if_true, handleAll, handled]
    | false =>
      obtain ⟨sent, next, handled, -⟩ := steady.goes_on state message finish
      simp only [upTo, finish, Bool.false_eq_true, if_false, handleAll, handled, ih]

/-- **Hearing.** What is sent is what the messages that are heard come to. -/
theorem run_eq_sendAll (steady : Steady task terminal finishes) (state : σ)
    (chunks : List (List UInt8)) :
    task.run state (chunks.map .bytes) = task.sendAll state (task.heard finishes chunks) := by
  rw [run_bytes, sendAll, sendAll, heard, handleAll_upTo steady]

theorem upTo_cases (finishes : μ → Bool) (messages : List μ) :
    (∀ message ∈ upTo finishes messages, finishes message = false) ∨
      ∃ front last, upTo finishes messages = front ++ [last] ∧ finishes last = true ∧
        ∀ message ∈ front, finishes message = false := by
  induction messages with
  | nil => exact .inl nofun
  | cons message rest ih =>
    rw [upTo]
    split
    · rename_i finish
      exact .inr ⟨[], message, rfl, finish, nofun⟩
    · rename_i unfinished
      have first : finishes message = false := by simpa using unfinished
      rcases ih with none | ⟨front, last, same, finish, quiet⟩
      · exact .inl (List.forall_mem_cons.mpr ⟨first, none⟩)
      · refine .inr ⟨message :: front, last, ?_, finish, List.forall_mem_cons.mpr ⟨first, quiet⟩⟩
        rw [same, List.cons_append]

/-- The state behind messages that are taken in. -/
def absorbAll (absorb : σ → μ → List κ × σ) (state : σ) (messages : List μ) : σ :=
  messages.foldl (fun state message => (absorb state message).2) state

theorem handleAll_inTwo (split : task.handle = inTwo absorb finish)
    (plain : ∀ state message, ∀ item ∈ (absorb state message).1, terminal item = false)
    {messages : List μ} (unfinished : ∀ message ∈ messages, ∀ state, finish state message = none)
    (state : σ) :
    ∃ sent, task.handleAll state messages = (sent, some (absorbAll absorb state messages)) ∧
      ∀ item ∈ sent, terminal item = false := by
  induction messages generalizing state with
  | nil => exact ⟨[], rfl, nofun⟩
  | cons message rest ih =>
    obtain ⟨first, others⟩ := List.forall_mem_cons.mp unfinished
    obtain ⟨later, ran, quiet⟩ := ih others (absorb state message).2
    refine ⟨(absorb state message).1 ++ later, ?_, ?_⟩
    · simp only [handleAll, split, inTwo, first, ran]
      rfl
    · exact List.forall_mem_append.mpr ⟨plain state message, quiet⟩

/-- Messages of which the last one finishes the stream. -/
theorem sendAll_finished (split : task.handle = inTwo absorb finish)
    (plain : ∀ state message, ∀ item ∈ (absorb state message).1, terminal item = false)
    {front : List μ} {last : μ}
    (unfinished : ∀ message ∈ front, ∀ state, finish state message = none) {state : σ}
    {final : List κ} (ends : finish (absorbAll absorb state (front ++ [last])) last = some final) :
    ∃ sent, task.sendAll state (front ++ [last]) = sent ++ final ∧
      ∀ item ∈ sent, terminal item = false := by
  obtain ⟨sent, ran, quiet⟩ := handleAll_inTwo split plain unfinished state
  have ends : finish (absorb (absorbAll absorb state front) last).2 last = some final := by
    rw [absorbAll, List.foldl_append] at ends
    exact ends
  refine ⟨sent ++ (absorb (absorbAll absorb state front) last).1, ?_,
    List.forall_mem_append.mpr ⟨quiet, plain _ _⟩⟩
  rw [sendAll, handleAll_append, ran]
  simp only [handleAll, split, inTwo, ends, List.append_assoc]

/-- Messages of which none finishes the stream. -/
theorem sendAll_unfinished (split : task.handle = inTwo absorb finish)
    (plain : ∀ state message, ∀ item ∈ (absorb state message).1, terminal item = false)
    {messages : List μ} (unfinished : ∀ message ∈ messages, ∀ state, finish state message = none)
    (state : σ) :
    ∃ sent, task.sendAll state messages = sent ++ task.ended (absorbAll absorb state messages) ∧
      ∀ item ∈ sent, terminal item = false := by
  obtain ⟨sent, ran, quiet⟩ := handleAll_inTwo split plain unfinished state
  exact ⟨sent, by rw [sendAll, ran], quiet⟩

/-! ### Cuts at line ends -/

end LineTask

end Devit
