import Devit.Compaction
import Devit.Library.Runs

/-! The context of a conversation: a system prompt, summaries of topics, and recent messages. Its
tokens are counted along, while messages come in, are replaced by a summary, and topics go. -/
namespace Devit
open Text
open Compaction (BackendMessage TopicSummary estimateTokens estimateMessageTokens)

structure ContextConfig where
  maxTokens : Nat
  maxTopics : Nat

structure ContextManager where
  config : ContextConfig
  topics : List TopicSummary
  recentMessages : List BackendMessage
  systemPrompt : Option Text
  currentTokens : Nat

/-- What `stats` says in whole numbers. -/
structure ContextStats where
  totalTokens : Nat
  maxTokens : Nat
  topicCount : Nat
  recentMessageCount : Nat

namespace ContextManager

def new (config : ContextConfig) : ContextManager := ⟨config, [], [], none, 0⟩

def promptTokens (m : ContextManager) : Nat := (m.systemPrompt.map estimateTokens).getD 0

def setSystemPrompt (m : ContextManager) (prompt : Text) : ContextManager :=
  { m with
    currentTokens := m.currentTokens - m.promptTokens + estimateTokens prompt
    systemPrompt := some prompt }

def addMessage (m : ContextManager) (message : BackendMessage) : ContextManager :=
  { m with
    currentTokens := m.currentTokens + estimateMessageTokens message
    recentMessages := m.recentMessages ++ [message] }

def clear (m : ContextManager) : ContextManager :=
  { m with topics := [], recentMessages := [], currentTokens := m.promptTokens }

/-- The loop that drops the oldest topics, with the tokens that are left. -/
def enforce (maxTopics : Nat) : Nat → List TopicSummary → Nat × List TopicSummary
  | tokens, [] => (tokens, [])
  | tokens, removed :: topics =>
    if (removed :: topics).length > maxTopics then
      enforce maxTopics (tokens - removed.tokenCount) topics
    else (tokens, removed :: topics)

/-- Nothing where the slice of the messages panics, before anything is changed. -/
def applyCompression (m : ContextManager) (summary : TopicSummary)
    (compressedMessageCount : Nat) : Option ContextManager :=
  if compressedMessageCount ≤ m.recentMessages.length then
    let compressed := m.recentMessages.take compressedMessageCount
    let oldTokens := (compressed.map estimateMessageTokens).sum
    let (tokens, topics) := enforce m.config.maxTopics
      (m.currentTokens - oldTokens + summary.tokenCount) (m.topics ++ [summary])
    some { m with
      topics := topics
      recentMessages := m.recentMessages.drop compressedMessageCount
      currentTokens := tokens }
  else none

def stats (m : ContextManager) : ContextStats where
  totalTokens := m.currentTokens
  maxTokens := m.config.maxTokens
  topicCount := m.topics.length
  recentMessageCount := m.recentMessages.length

/-- The topic that the front end's summary is made into. -/
def topicOf (title summary : Text) (compressedCount : Nat) : TopicSummary where
  title := title
  summary := summary
  tokenCount := estimateTokens summary + 20
  originalMessageCount := compressedCount

def applyTopicSummary (m : ContextManager) (title summary : Text) (compressedCount : Nat) :
    Option ContextManager :=
  m.applyCompression (topicOf title summary compressedCount) compressedCount

end ContextManager

namespace ContextAccounting
open ContextManager

inductive Call where
  | setSystemPrompt (prompt : Text)
  | addMessage (message : BackendMessage)
  | clear
  | applyTopicSummary (title summary : Text) (compressedCount : Nat)

inductive Answer where
  | done
  | stats (stats : ContextStats)
  | panicked

/-- A context, with all topics that were made since it was cleared. -/
structure Session where
  manager : ContextManager
  made : List TopicSummary

def fresh (config : ContextConfig) : Session := ⟨.new config, []⟩

/-- A call that panics has changed nothing. -/
def step (s : Session) : Call → Answer × Session
  | .setSystemPrompt prompt => (.done, { s with manager := s.manager.setSystemPrompt prompt })
  | .addMessage message => (.done, { s with manager := s.manager.addMessage message })
  | .clear => (.done, ⟨s.manager.clear, []⟩)
  | .applyTopicSummary title summary count =>
    match s.manager.applyTopicSummary title summary count with
    | none => (.panicked, s)
    | some manager => (.stats manager.stats, ⟨manager, s.made ++ [topicOf title summary count]⟩)

/-- The last ones of a list. -/
def newest {α : Type} (count : Nat) (xs : List α) : List α := xs.drop (xs.length - count)

def topicTokens (topics : List TopicSummary) : Nat := (topics.map (·.tokenCount)).sum

def messageTokens (messages : List BackendMessage) : Nat :=
  (messages.map estimateMessageTokens).sum

structure Accounted (s : Session) : Prop where
  tokens : s.manager.currentTokens = s.manager.promptTokens + topicTokens s.manager.topics +
    messageTokens s.manager.recentMessages
  topics : s.manager.topics = newest s.manager.config.maxTopics s.made
  few : s.manager.topics.length ≤ s.manager.config.maxTopics

/-- There are as many messages as the front end says were summarized. -/
def Counts (s : Session) : Call → Prop
  | .applyTopicSummary _ _ compressedCount => compressedCount ≤ s.manager.recentMessages.length
  | _ => True

/-- No call panics, and the context is accounted for before and after each. -/
def ExactAlong (config : ContextConfig) (calls : List Call) : Prop :=
  .panicked ∉ Runs.outputs step (fresh config) calls ∧
    ∀ done rest, calls = done ++ rest → Accounted (Runs.final step (fresh config) done)

/-! ## The topics that are kept -/

theorem newest_length {α : Type} (count : Nat) (xs : List α) :
    (newest count xs).length ≤ count := by
  rw [newest, List.length_drop]
  omega

theorem newest_concat {α : Type} (count : Nat) (xs : List α) (x : α) :
    newest count (newest count xs ++ [x]) = newest count (xs ++ [x]) := by
  simp only [newest, List.length_append, List.length_drop, List.length_singleton]
  by_cases room : xs.length ≤ count
  · rw [Nat.sub_eq_zero_of_le room, List.drop_zero, Nat.sub_zero]
  · rw [← List.drop_append_of_le_length (by omega), List.drop_drop]
    congr 1
    omega

/-- **The loop** takes the oldest topics away with their tokens. -/
theorem enforce_eq (maxTopics others : Nat) (topics : List TopicSummary) :
    enforce maxTopics (others + topicTokens topics) topics =
      (others + topicTokens (newest maxTopics topics), newest maxTopics topics) := by
  induction topics with
  | nil => simp [enforce, newest]
  | cons removed topics ih =>
    rw [enforce]
    split
    · rename_i over_full
      have left : others + topicTokens (removed :: topics) - removed.tokenCount =
          others + topicTokens topics := by
        rw [topicTokens, List.map_cons, List.sum_cons, ← topicTokens]
        omega
      have rest : newest maxTopics (removed :: topics) = newest maxTopics topics := by
        rw [List.length_cons] at over_full
        rw [newest, newest, List.length_cons, Nat.sub_add_comm (by omega), List.drop_succ_cons]
      rw [left, ih, rest]
    · rename_i room
      rw [newest, Nat.sub_eq_zero_of_le (Nat.not_lt.mp room), List.drop_zero]

theorem topicTokens_concat (topics : List TopicSummary) (topic : TopicSummary) :
    topicTokens (topics ++ [topic]) = topicTokens topics + topic.tokenCount := by
  simp [topicTokens]

/-! ## Runs -/

theorem fresh_accounted (config : ContextConfig) : Accounted (fresh config) :=
  ⟨rfl, by simp [fresh, ContextManager.new, newest], Nat.zero_le _⟩

/-- A call panics exactly if it counts more messages than there are. -/
theorem answers_iff (s : Session) (call : Call) : (step s call).1 ≠ .panicked ↔ Counts s call := by
  cases call with
  | applyTopicSummary title summary count =>
    rw [step, Counts, applyTopicSummary, applyCompression]
    split
    · rename_i failed
      split at failed
      · cases failed
      · exact iff_of_false (fun other => other rfl) ‹_›
    · rename_i done
      split at done
      · exact iff_of_true (fun same => nomatch same) ‹_›
      · cases done
  | _ => exact iff_of_true (fun same => nomatch same) trivial

/-- **One call** keeps the account. -/
theorem step_accounted {s : Session} (call : Call) (accounted : Accounted s) :
    Accounted (step s call).2 := by
  obtain ⟨tokens, topics, few⟩ := accounted
  cases call with
  | setSystemPrompt prompt =>
    refine ⟨?_, topics, few⟩
    simp only [step, setSystemPrompt, tokens]
    simp only [promptTokens, Option.map_some, Option.getD_some]
    omega
  | addMessage message =>
    refine ⟨?_, topics, few⟩
    simp only [step, ContextManager.addMessage, tokens]
    simp only [promptTokens, messageTokens, List.map_append, List.sum_append, List.map_singleton,
      List.sum_singleton]
    omega
  | clear => exact ⟨rfl, by simp [step, ContextManager.clear, newest], Nat.zero_le _⟩
  | applyTopicSummary title summary count =>
    rw [step, applyTopicSummary, applyCompression]
    by_cases counts : count ≤ s.manager.recentMessages.length
    · have split : messageTokens s.manager.recentMessages =
          messageTokens (s.manager.recentMessages.take count) +
            messageTokens (s.manager.recentMessages.drop count) := by
        rw [messageTokens, messageTokens, messageTokens, ← List.sum_append, ← List.map_append,
          List.take_append_drop]
      have left : s.manager.currentTokens -
          ((s.manager.recentMessages.take count).map estimateMessageTokens).sum +
            (topicOf title summary count).tokenCount =
          s.manager.promptTokens + messageTokens (s.manager.recentMessages.drop count) +
            topicTokens (s.manager.topics ++ [topicOf title summary count]) := by
        rw [topicTokens_concat, ← messageTokens]
        omega
      rw [if_pos counts]
      dsimp only
      rw [left, enforce_eq]
      refine ⟨?_, ?_, newest_length _ _⟩
      · dsimp only [promptTokens]
        omega
      · dsimp only
        rw [topics, newest_concat]
    · rw [if_neg counts]
      exact ⟨tokens, topics, few⟩

/-- **Every run** is exact if its calls count no more messages than there are, and only then. -/
theorem exact_along_iff (config : ContextConfig) (calls : List Call) :
    ExactAlong config calls ↔ Runs.Along Counts step (fresh config) calls := by
  have accounted : ∀ done, Accounted (Runs.final step (fresh config) done) := fun done =>
    Runs.invariant (fun s call held => step_accounted call held) (fresh_accounted config) done
  rw [ExactAlong, and_iff_left fun done _ _ => accounted done]
  induction calls using List.reverseRecOn with
  | nil => exact iff_of_true List.not_mem_nil (Runs.along_nil _ _)
  | append_singleton calls call ih =>
    rw [Runs.along_concat, Runs.outputs_concat, ← answers_iff, List.mem_append, not_or,
      List.mem_singleton, ne_comm]
    exact and_congr_left' ih

/-- A summary of one message where there is none. -/
theorem summary_of_nothing :
    ¬ ExactAlong ⟨8192, 10⟩ [.applyTopicSummary "Greetings".toList "Hello".toList 1] := by
  rintro ⟨answered, -⟩
  exact answered (List.mem_singleton_self _)

end ContextAccounting

end Devit
