import Mathlib.Data.List.Count
import Mathlib.Data.Nat.Basic

/-! Limiting how many times lie in any window of some width. Of the times that were granted
a queue keeps those that a window ending now can still reach; one more is granted as long
as the queue is not full. -/
namespace Devit.SlidingWindow

/-- The queue without the times that the window before `now` does not reach. -/
def expire (width now : Nat) : List Nat → List Nat
  | [] => []
  | oldest :: times => if now - oldest > width then expire width now times else oldest :: times

/-- How many of the times lie between two others, both ends included. -/
def within (first last : Nat) (times : List Nat) : Nat :=
  times.countP fun t => first ≤ t ∧ t ≤ last

/-- The queue has the last of the times that were granted, and all that a window can reach. -/
structure Tracks (width limit now : Nat) (granted queue : List Nat) : Prop where
  past : ∀ t ∈ granted, t ≤ now
  ordered : queue.Pairwise (· ≤ ·)
  split : ∃ old, granted = old ++ queue ∧ ∀ t ∈ old, t + width < now
  few : queue.length ≤ limit
  windows : ∀ first, within first (first + width) granted ≤ limit

variable {width limit now : Nat} {granted queue : List Nat}

theorem expire_spec (ordered : queue.Pairwise (· ≤ ·)) :
    ∃ gone, queue = gone ++ expire width now queue ∧ (∀ t ∈ gone, t + width < now) ∧
      ∀ t ∈ expire width now queue, now ≤ t + width := by
  induction queue with
  | nil => exact ⟨[], rfl, by simp, by simp [expire]⟩
  | cons oldest times ih =>
    obtain ⟨above, later⟩ := List.pairwise_cons.mp ordered
    rw [expire]
    split
    · rename_i past
      obtain ⟨gone, shape, out, kept⟩ := ih later
      refine ⟨oldest :: gone, congrArg (oldest :: ·) shape, ?_, kept⟩
      intro t member
      rcases List.mem_cons.mp member with rfl | behind
      · omega
      · exact out t behind
    · rename_i reached
      refine ⟨[], rfl, by simp, ?_⟩
      intro t member
      rcases List.mem_cons.mp member with rfl | behind
      · omega
      · have := above t behind
        omega

theorem tracks_empty (width limit now : Nat) : Tracks width limit now [] [] :=
  ⟨by simp, List.Pairwise.nil, ⟨[], rfl, by simp⟩, Nat.zero_le _, by simp [within]⟩

/-- The queue may also keep what no window reaches any more. -/
theorem Tracks.wait (tracks : Tracks width limit now granted queue) {later : Nat}
    (passes : now ≤ later) : Tracks width limit later granted queue := by
  obtain ⟨old, shape, out⟩ := tracks.split
  refine ⟨fun t member => Nat.le_trans (tracks.past t member) passes, tracks.ordered,
    ⟨old, shape, fun t member => Nat.lt_of_lt_of_le (out t member) passes⟩, tracks.few,
    tracks.windows⟩

/-- **Time passes.** What no window reaches any more is dropped. -/
theorem Tracks.expire (tracks : Tracks width limit now granted queue) {later : Nat}
    (passes : now ≤ later) :
    Tracks width limit later granted (SlidingWindow.expire width later queue) ∧
      ∀ t ∈ SlidingWindow.expire width later queue, later ≤ t + width := by
  obtain ⟨old, shape, out⟩ := tracks.split
  obtain ⟨gone, cut, left, kept⟩ := @expire_spec width later queue tracks.ordered
  have suffix : SlidingWindow.expire width later queue <:+ queue := ⟨gone, cut.symm⟩
  refine ⟨⟨?_, tracks.ordered.sublist suffix.sublist, ⟨old ++ gone, ?_, ?_⟩, ?_, tracks.windows⟩,
    kept⟩
  · exact fun t member => Nat.le_trans (tracks.past t member) passes
  · rw [List.append_assoc, ← cut, shape]
  · intro t member
    rcases List.mem_append.mp member with before | between
    · exact Nat.lt_of_lt_of_le (out t before) passes
    · exact left t between
  · exact Nat.le_trans suffix.length_le tracks.few

/-- **Granting.** One more time in a queue that is not full keeps every window within the
limit. -/
theorem Tracks.grant (tracks : Tracks width limit now granted queue)
    (reached : ∀ t ∈ queue, now ≤ t + width) (room : queue.length < limit) :
    Tracks width limit now (granted ++ [now]) (queue ++ [now]) := by
  obtain ⟨old, shape, out⟩ := tracks.split
  refine ⟨?_, ?_, ⟨old, by rw [shape, List.append_assoc], out⟩, ?_, fun first => ?_⟩
  · intro t member
    rcases List.mem_append.mp member with before | last
    · exact tracks.past t before
    · exact Nat.le_of_eq (List.mem_singleton.mp last)
  · refine List.pairwise_append.mpr ⟨tracks.ordered, List.pairwise_singleton _ _, ?_⟩
    intro t member last same
    rw [List.mem_singleton.mp same]
    exact tracks.past t (by rw [shape]; exact List.mem_append_right old member)
  · rw [List.length_append]
    exact room
  · by_cases inside : first ≤ now ∧ now ≤ first + width
    · -- what has left the queue lies before the window
      have before : old.countP (fun t => first ≤ t ∧ t ≤ first + width) = 0 := by
        refine List.countP_eq_zero.mpr fun t member => ?_
        have := out t member
        simp only [decide_eq_true_eq]
        omega
      have most : queue.countP (fun t => first ≤ t ∧ t ≤ first + width) ≤ queue.length :=
        List.countP_le_length
      rw [within, shape, List.countP_append, List.countP_append, before,
        List.countP_singleton, if_pos (by simpa using inside)]
      omega
    · rw [within, List.countP_append, List.countP_singleton, if_neg (by simpa using inside)]
      exact tracks.windows first

/-- **Refusing.** Where the queue is full the limit is reached in the window that ends now. -/
theorem Tracks.full (tracks : Tracks width limit now granted queue)
    (reached : ∀ t ∈ queue, now ≤ t + width) (full : limit ≤ queue.length) :
    limit ≤ within (now - width) now granted := by
  obtain ⟨old, shape, -⟩ := tracks.split
  have all : queue.countP (fun t => now - width ≤ t ∧ t ≤ now) = queue.length := by
    refine List.countP_eq_length.mpr fun t member => ?_
    have first := reached t member
    have last := tracks.past t (by rw [shape]; exact List.mem_append_right old member)
    simp only [decide_eq_true_eq]
    omega
  rw [within, shape, List.countP_append, all]
  omega

end Devit.SlidingWindow
