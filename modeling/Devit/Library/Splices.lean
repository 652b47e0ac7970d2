import Mathlib.Algebra.GroupWithZero.Nat
import Mathlib.Data.List.Induction
import Mathlib.Data.List.Sort
import Mathlib.Tactic.Common

/-! Edits of a list at places of the list as it was: each puts new items in the place of a
range, which may be empty. Edits whose ranges do not overlap can be performed one after
the other, the last range first, without counting places anew. -/
namespace Devit.Splices

variable {α : Type}

/-- New items in the place of those from one gap to another. -/
structure Edit (α : Type) where
  lo : Nat
  hi : Nat
  new : List α

def splice (xs : List α) (e : Edit α) : List α := xs.take e.lo ++ (e.new ++ xs.drop e.hi)

/-- What is inserted at a gap, in the order of the edits. -/
def insertsAt (edits : List (Edit α)) (gap : Nat) : List α :=
  (edits.filter fun e => e.lo = gap ∧ e.hi = gap).flatMap (·.new)

/-- What replaces the items behind a gap. -/
def startsAt (edits : List (Edit α)) (gap : Nat) : List α :=
  (edits.filter fun e => e.lo = gap ∧ gap < e.hi).flatMap (·.new)

def covered (edits : List (Edit α)) (gap : Nat) : Bool :=
  edits.any fun e => e.lo ≤ gap ∧ gap < e.hi

/-- The edits performed from a gap on: at each gap what is inserted and what begins, and
then the next item, unless it is replaced. -/
def perform (edits : List (Edit α)) : Nat → List α → List α
  | gap, [] => insertsAt edits gap
  | gap, x :: xs =>
    insertsAt edits gap ++ (startsAt edits gap ++
      ((if covered edits gap then [] else [x]) ++ perform edits (gap + 1) xs))

/-! ## One more edit -/

theorem insertsAt_cons (e : Edit α) (edits : List (Edit α)) (gap : Nat) :
    insertsAt (e :: edits) gap =
      (if e.lo = gap ∧ e.hi = gap then e.new else []) ++ insertsAt edits gap := by
  by_cases here : e.lo = gap ∧ e.hi = gap <;> simp [insertsAt, here]

theorem startsAt_cons (e : Edit α) (edits : List (Edit α)) (gap : Nat) :
    startsAt (e :: edits) gap =
      (if e.lo = gap ∧ gap < e.hi then e.new else []) ++ startsAt edits gap := by
  by_cases here : e.lo = gap ∧ gap < e.hi <;> simp [startsAt, here]

theorem covered_cons (e : Edit α) (edits : List (Edit α)) (gap : Nat) :
    covered (e :: edits) gap = (decide (e.lo ≤ gap ∧ gap < e.hi) || covered edits gap) := rfl

/-- An edit before a gap does nothing from there on. -/
theorem perform_behind {e : Edit α} {gap : Nat} (begins : e.lo < gap) (ends : e.hi ≤ gap)
    (edits : List (Edit α)) (xs : List α) : perform (e :: edits) gap xs = perform edits gap xs := by
  have other : ¬ (e.lo = gap ∧ e.hi = gap) := by omega
  have unstarted : ¬ (e.lo = gap ∧ gap < e.hi) := by omega
  have uncovered : ¬ (e.lo ≤ gap ∧ gap < e.hi) := by omega
  induction xs generalizing gap with
  | nil => rw [perform, perform, insertsAt_cons, if_neg other, List.nil_append]
  | cons x xs ih =>
    have later := @ih (gap + 1) (by omega) (by omega) (by omega) (by omega) (by omega)
    rw [perform, perform, insertsAt_cons, startsAt_cons, covered_cons, if_neg other,
      if_neg unstarted, decide_eq_false uncovered, later]
    rfl

/-- Nothing happens at a gap that lies before all edits. -/
theorem untouched {edits : List (Edit α)} {gap : Nat} (above : ∀ e ∈ edits, gap < e.lo) :
    insertsAt edits gap = [] ∧ startsAt edits gap = [] ∧ covered edits gap = false := by
  induction edits with
  | nil => exact ⟨rfl, rfl, rfl⟩
  | cons e edits ih =>
    obtain ⟨inserts, starts, uncovered⟩ :=
      ih fun f member => above f (List.mem_cons_of_mem _ member)
    have later := above e List.mem_cons_self
    refine ⟨?_, ?_, ?_⟩
    · rw [insertsAt_cons, inserts, if_neg (by omega), List.nil_append]
    · rw [startsAt_cons, starts, if_neg (by omega), List.nil_append]
    · rw [covered_cons, uncovered, decide_eq_false (by omega), Bool.or_false]

/-- Edits behind a gap leave the items before it. -/
theorem perform_before {edits : List (Edit α)} {gap n : Nat} {xs : List α}
    (above : ∀ e ∈ edits, gap + n ≤ e.lo) (inside : n ≤ xs.length) :
    perform edits gap xs = xs.take n ++ perform edits (gap + n) (xs.drop n) := by
  induction n generalizing gap xs with
  | zero => rfl
  | succ n ih =>
    cases xs with
    | nil => simp at inside
    | cons x xs =>
      obtain ⟨inserts, starts, uncovered⟩ := untouched fun e member => by
        have bound := above e member
        show gap < e.lo
        omega
      have later := @ih (gap + 1) xs (fun e member => by
        have bound := above e member
        omega) (by simpa using inside)
      rw [perform, inserts, starts, uncovered, later, List.take_succ_cons, List.drop_succ_cons,
        Nat.add_right_comm, Nat.add_assoc]
      rfl

/-- Items inside of the range of an edit are skipped. -/
theorem perform_inside {e : Edit α} {edits : List (Edit α)} {n gap : Nat} {xs : List α}
    (begins : e.lo < gap) (ends : e.hi = gap + n) (above : ∀ f ∈ edits, e.hi ≤ f.lo)
    (inside : n ≤ xs.length) :
    perform (e :: edits) gap xs = perform edits e.hi (xs.drop n) := by
  induction n generalizing gap xs with
  | zero =>
    obtain rfl : e.hi = gap := ends
    exact perform_behind begins (Nat.le_refl _) edits xs
  | succ n ih =>
    cases xs with
    | nil => simp at inside
    | cons x xs =>
      obtain ⟨inserts, starts, -⟩ := untouched fun f member => by
        have bound := above f member
        show gap < f.lo
        omega
      have within : e.lo ≤ gap ∧ gap < e.hi := by omega
      have later := @ih (gap + 1) xs (by omega) (by omega) (by simpa using inside)
      rw [perform, insertsAt_cons, startsAt_cons, covered_cons, inserts, starts,
        if_neg (by omega), if_neg (by omega), decide_eq_true within, later]
      rfl

/-- From the gap where an edit begins, its items come first and its range is skipped. -/
theorem perform_at {e : Edit α} {edits : List (Edit α)} {xs : List α} (range : e.lo ≤ e.hi)
    (above : ∀ f ∈ edits, e.hi ≤ f.lo) (inside : e.hi ≤ e.lo + xs.length) :
    perform (e :: edits) e.lo xs = e.new ++ perform edits e.hi (xs.drop (e.hi - e.lo)) := by
  rcases Nat.eq_or_lt_of_le range with same | wide
  · rw [← same, Nat.sub_self, List.drop_zero]
    cases xs with
    | nil => rw [perform, perform, insertsAt_cons, if_pos ⟨rfl, same.symm⟩]
    | cons x xs =>
      have later := perform_behind (Nat.lt_succ_self e.lo) (by omega) edits xs
      rw [perform, perform, insertsAt_cons, startsAt_cons, covered_cons,
        if_pos ⟨rfl, same.symm⟩, if_neg (by omega), decide_eq_false (by omega), later,
        Bool.false_or, List.nil_append, List.append_assoc]
  · cases xs with
    | nil =>
      simp only [List.length_nil] at inside
      omega
    | cons x xs =>
      obtain ⟨inserts, starts, -⟩ := untouched fun f member => by
        have bound := above f member
        show e.lo < f.lo
        omega
      have within : e.lo ≤ e.lo ∧ e.lo < e.hi := ⟨Nat.le_refl _, wide⟩
      obtain ⟨n, ends⟩ : ∃ n, e.hi - e.lo = n + 1 := ⟨e.hi - e.lo - 1, by omega⟩
      have later := @perform_inside _ e edits n (e.lo + 1) xs (Nat.lt_succ_self _) (by omega) above
        (by simp only [List.length_cons] at inside; omega)
      rw [perform, insertsAt_cons, startsAt_cons, covered_cons, inserts, starts,
        if_neg (by omega), if_pos ⟨rfl, wide⟩, decide_eq_true within, later, ends,
        List.nil_append, List.append_nil]
      rfl

/-! ## One after the other -/

theorem perform_nil (gap : Nat) (xs : List α) : perform [] gap xs = xs := by
  induction xs generalizing gap with
  | nil => rfl
  | cons x xs ih =>
    rw [perform, ih]
    rfl

/-- An edit before all others, made after them. -/
theorem splice_perform {e : Edit α} {edits : List (Edit α)} {xs : List α} (range : e.lo ≤ e.hi)
    (above : ∀ f ∈ edits, e.hi ≤ f.lo) (inside : e.hi ≤ xs.length) :
    splice (perform edits 0 xs) e = perform (e :: edits) 0 xs := by
  have kept := @perform_before _ edits 0 e.hi xs (by simpa using above) inside
  have size : (xs.take e.hi).length = e.hi := List.length_take_of_le inside
  have reached := @perform_before _ (e :: edits) 0 e.lo xs (fun f member => by
    rcases List.mem_cons.mp member with rfl | member
    · omega
    · have bound := above f member
      omega) (by omega)
  have there := @perform_at _ e edits (xs.drop e.lo) range above
    (by rw [List.length_drop]; omega)
  rw [Nat.zero_add] at kept reached
  rw [List.drop_drop, Nat.add_sub_cancel' range] at there
  rw [reached, there, splice, kept, List.take_append_of_le_length (by omega), List.take_take,
    Nat.min_eq_left range, List.drop_append_of_le_length (by omega), List.drop_eq_nil_of_le
    (Nat.le_of_eq size), List.nil_append]

/-- **The last range first.** Edits made one after the other, each before the last one, are
all performed at the places of the list as it was. -/
theorem foldl_splice {edits : List (Edit α)} {xs : List α}
    (below : edits.Pairwise fun e f => f.hi ≤ e.lo)
    (ranges : ∀ e ∈ edits, e.lo ≤ e.hi ∧ e.hi ≤ xs.length) :
    edits.foldl splice xs = perform edits.reverse 0 xs := by
  induction edits using List.reverseRecOn with
  | nil => exact (perform_nil 0 xs).symm
  | append_singleton edits e ih =>
    obtain ⟨below, -, under⟩ := List.pairwise_append.mp below
    have range := ranges e (by simp)
    have before := ih below fun f member => ranges f (List.mem_append_left _ member)
    have last := @splice_perform _ e edits.reverse xs range.1
      (fun f member => under f (List.mem_reverse.mp member) e (List.mem_singleton.mpr rfl)) range.2
    rw [List.foldl_append, before, List.foldl_cons, List.foldl_nil, last, List.reverse_append]
    rfl

/-- The same where each step can fail, but does not within the list. -/
theorem foldlM_splice {ι : Type} {f : ι → Edit α} {step : List α → ι → Option (List α)}
    {is : List ι} {xs : List α}
    (steps : ∀ i ∈ is, ∀ ys : List α, (f i).hi ≤ ys.length → step ys i = some (splice ys (f i)))
    (below : is.Pairwise fun i j => (f j).hi ≤ (f i).lo)
    (ranges : ∀ i ∈ is, (f i).lo ≤ (f i).hi ∧ (f i).hi ≤ xs.length) :
    is.foldlM step xs = some ((is.map f).foldl splice xs) := by
  induction is generalizing xs with
  | nil => rfl
  | cons i is ih =>
    obtain ⟨under, below⟩ := List.pairwise_cons.mp below
    have range := ranges i List.mem_cons_self
    have size : (f i).lo ≤ (splice xs (f i)).length := by
      rw [splice, List.length_append, List.length_take_of_le (by omega)]
      omega
    rw [List.foldlM_cons, steps i List.mem_cons_self xs range.2, List.map_cons, List.foldl_cons]
    refine ih (fun j member => steps j (List.mem_cons_of_mem _ member)) below fun j member => ?_
    have before := under j member
    exact ⟨(ranges j (List.mem_cons_of_mem _ member)).1, by omega⟩

/-! ## In any order -/

theorem flatMap_perm {ι : Type} {f : ι → List α} {is js : List ι} (same : is.Perm js)
    (alone : is.Pairwise fun i j => f i = [] ∨ f j = []) : is.flatMap f = js.flatMap f := by
  induction same with
  | nil => rfl
  | cons i same ih =>
    rw [List.flatMap_cons, List.flatMap_cons, ih (List.pairwise_cons.mp alone).2]
  | swap i j is =>
    obtain ⟨first, -⟩ := List.pairwise_cons.mp alone
    rcases first i List.mem_cons_self with none | none <;>
      simp only [List.flatMap_cons, none, List.nil_append]
  | trans same same' ih ih' =>
    exact (ih alone).trans (ih' (same.pairwise alone fun nothing => nothing.symm))

/-- No two edits put items in at one place. -/
def Alone (e f : Edit α) : Prop :=
  e.lo = f.lo → (e.hi = e.lo ↔ f.hi = f.lo) → e.new = [] ∨ f.new = []

/-- The order of the edits does not matter where no two put items in at one place. -/
theorem perform_perm {edits edits' : List (Edit α)} (same : edits.Perm edits')
    (alone : edits.Pairwise Alone) (gap : Nat) (xs : List α) :
    perform edits gap xs = perform edits' gap xs := by
  have inserts (gap : Nat) : insertsAt edits gap = insertsAt edits' gap := by
    refine flatMap_perm (same.filter _) (List.Pairwise.imp_of_mem ?_ (alone.filter _))
    intro e f he hf apart
    have at_gap := of_decide_eq_true (List.mem_filter.mp he).2
    have at_gap' := of_decide_eq_true (List.mem_filter.mp hf).2
    exact apart (by omega) (by omega)
  have starts (gap : Nat) : startsAt edits gap = startsAt edits' gap := by
    refine flatMap_perm (same.filter _) (List.Pairwise.imp_of_mem ?_ (alone.filter _))
    intro e f he hf apart
    have at_gap := of_decide_eq_true (List.mem_filter.mp he).2
    have at_gap' := of_decide_eq_true (List.mem_filter.mp hf).2
    exact apart (by omega) (by omega)
  have coverage (gap : Nat) : covered edits gap = covered edits' gap := same.any_eq
  induction xs generalizing gap with
  | nil => exact inserts gap
  | cons x xs ih => rw [perform, perform, inserts, starts, coverage, ih]

/-- What holds of any two items in the order in which a sort puts them holds along the
sorted list. -/
theorem pairwise_sorted {ι : Type} {r Q : ι → ι → Prop} [DecidableRel r] [Std.Total r]
    [IsTrans ι r] {is : List ι}
    (pairs : is.Pairwise fun i j => (r i j → Q i j) ∧ (¬ r i j → Q j i)) :
    (is.insertionSort r).Pairwise Q := by
  induction is with
  | nil => exact List.Pairwise.nil
  | cons i is ih =>
    obtain ⟨first, later⟩ := List.pairwise_cons.mp pairs
    have sorted := List.pairwise_insertionSort r is
    have related := ih later
    have known : ∀ j ∈ is.insertionSort r, (r i j → Q i j) ∧ (¬ r i j → Q j i) := fun j member =>
      first j ((List.mem_insertionSort r).mp member)
    rw [List.insertionSort_cons]
    generalize is.insertionSort r = js at sorted related known
    induction js with
    | nil => exact List.pairwise_singleton _ _
    | cons j js insert =>
      obtain ⟨least, sorted⟩ := List.pairwise_cons.mp sorted
      obtain ⟨head, related'⟩ := List.pairwise_cons.mp related
      rw [List.orderedInsert_cons]
      by_cases before : r i j
      · rw [if_pos before]
        refine List.pairwise_cons.mpr ⟨fun k member => ?_, related⟩
        have ordered : r i k := by
          rcases List.mem_cons.mp member with rfl | member
          · exact before
          · exact IsTrans.trans _ _ _ before (least k member)
        exact (known k member).1 ordered
      · rw [if_neg before]
        refine List.pairwise_cons.mpr ⟨fun k member => ?_,
          insert sorted related' fun k member => known k (List.mem_cons_of_mem _ member)⟩
        rcases (List.mem_orderedInsert r).mp member with rfl | member
        · exact (known j List.mem_cons_self).2 before
        · exact head k member

/-! ## Out of order -/

/-- The edits put as many items in as they take out. -/
def Balanced (edits : List (Edit α)) : Prop :=
  (edits.map fun e => e.new.length).sum = (edits.map fun e => e.hi - e.lo).sum

theorem balanced_perm {edits others : List (Edit α)} (same : edits.Perm others) :
    Balanced edits ↔ Balanced others := by
  unfold Balanced
  rw [(same.map _).sum_nat, (same.map _).sum_nat]

/-- Each range ends before the next one begins. -/
def Ascending (edits : List (Edit α)) : Prop := edits.Pairwise fun e f => e.hi ≤ f.lo

/-- The ranges are ranges of a list of this length. -/
def Ranges (edits : List (Edit α)) (size : Nat) : Prop := ∀ e ∈ edits, e.lo ≤ e.hi ∧ e.hi ≤ size

theorem insertsAt_append (edits more : List (Edit α)) (gap : Nat) :
    insertsAt (edits ++ more) gap = insertsAt edits gap ++ insertsAt more gap := by
  simp [insertsAt]

theorem startsAt_append (edits more : List (Edit α)) (gap : Nat) :
    startsAt (edits ++ more) gap = startsAt edits gap ++ startsAt more gap := by
  simp [startsAt]

theorem covered_append (edits more : List (Edit α)) (gap : Nat) :
    covered (edits ++ more) gap = (covered edits gap || covered more gap) := List.any_append

theorem perform_all_behind {edits more : List (Edit α)} {gap : Nat}
    (behind : ∀ e ∈ edits, e.lo < gap ∧ e.hi ≤ gap) (xs : List α) :
    perform (edits ++ more) gap xs = perform more gap xs := by
  induction edits with
  | nil => rfl
  | cons e edits ih =>
    obtain ⟨begins, ends⟩ := behind e List.mem_cons_self
    rw [List.cons_append, perform_behind begins ends, ih fun f member =>
      behind f (List.mem_cons_of_mem _ member)]

/-- Where all edits end, the insertions at that gap are left to make. -/
theorem perform_ended {edits more : List (Edit α)} {gap : Nat}
    (ended : ∀ e ∈ edits, e.lo ≤ e.hi ∧ e.hi ≤ gap) (xs : List α) :
    perform (edits ++ more) gap xs = insertsAt edits gap ++ perform more gap xs := by
  cases xs with
  | nil => exact insertsAt_append edits more gap
  | cons x xs =>
    have starts : startsAt edits gap = [] := by
      have none : edits.filter (fun e => e.lo = gap ∧ gap < e.hi) = [] := by
        refine List.filter_eq_nil_iff.mpr fun e member => ?_
        have bound := ended e member
        simp only [decide_eq_true_eq]
        omega
      rw [startsAt, none]
      rfl
    have uncovered : covered edits gap = false := by
      refine List.any_eq_false.mpr fun e member => ?_
      have bound := ended e member
      simp only [decide_eq_true_eq]
      omega
    have later := @perform_all_behind _ edits more (gap + 1) (fun e member => by
      have bound := ended e member
      omega) xs
    rw [perform, perform, insertsAt_append, startsAt_append, covered_append, starts, uncovered,
      later, List.nil_append, Bool.false_or, List.append_assoc]

/-- Edits before a gap and edits behind it are made apart. -/
theorem perform_append {before after : List (Edit α)} {gap n : Nat} {xs : List α}
    (ended : ∀ e ∈ before, e.lo ≤ e.hi ∧ e.hi ≤ gap + n) (later : ∀ e ∈ after, gap + n ≤ e.lo)
    (inside : n ≤ xs.length) :
    perform (before ++ after) gap xs =
      perform before gap (xs.take n) ++ perform after (gap + n) (xs.drop n) := by
  induction n generalizing gap xs with
  | zero =>
    rw [Nat.add_zero] at ended ⊢
    rw [perform_ended ended]
    rfl
  | succ n ih =>
    cases xs with
    | nil => simp at inside
    | cons x xs =>
      obtain ⟨inserts, starts, uncovered⟩ := untouched fun e member => by
        have bound := later e member
        show gap < e.lo
        omega
      have below := @ih (gap + 1) xs (fun e member => by
        have bound := ended e member
        omega) (fun e member => by
        have bound := later e member
        omega) (by simpa using inside)
      rw [perform, insertsAt_append, startsAt_append, covered_append, inserts, starts, uncovered,
        below, List.take_succ_cons, List.drop_succ_cons, perform, Nat.add_right_comm, Nat.add_assoc]
      simp only [List.append_assoc, List.append_nil, Bool.or_false]

theorem length_perform {edits : List (Edit α)} {xs : List α} (ascending : Ascending edits)
    (ranges : Ranges edits xs.length) :
    (perform edits 0 xs).length + (edits.map fun e => e.hi - e.lo).sum =
      xs.length + (edits.map fun e => e.new.length).sum := by
  induction edits with
  | nil => rw [perform_nil]; rfl
  | cons e edits ih =>
    obtain ⟨above, ascending⟩ := List.pairwise_cons.mp ascending
    obtain ⟨range, inside⟩ := ranges e List.mem_cons_self
    have counted := ih ascending fun f member => ranges f (List.mem_cons_of_mem _ member)
    have kept := @perform_before _ edits 0 e.hi xs (by simpa using above) inside
    have reach : e.hi ≤ (perform edits 0 xs).length := by
      rw [kept, List.length_append, List.length_take_of_le inside]
      omega
    rw [← splice_perform range above inside, splice, List.map_cons, List.map_cons, List.sum_cons,
      List.sum_cons, List.length_append, List.length_append, List.length_drop,
      List.length_take_of_le (range.trans reach)]
    omega

/-- What is there after the edits was there, outside their ranges, or is new. -/
theorem mem_perform_cases {edits : List (Edit α)} {gap : Nat} {xs : List α} {x : α}
    (member : x ∈ perform edits gap xs) :
    (∃ k, xs[k]? = some x ∧ covered edits (gap + k) = false) ∨ ∃ e ∈ edits, x ∈ e.new := by
  have inserted {p : Edit α → Bool} (inside : x ∈ (edits.filter p).flatMap (·.new)) :
      ∃ e ∈ edits, x ∈ e.new := by
    obtain ⟨e, listed, new⟩ := List.mem_flatMap.mp inside
    exact ⟨e, List.mem_of_mem_filter listed, new⟩
  induction xs generalizing gap with
  | nil => exact .inr (inserted member)
  | cons y ys ih =>
    rw [perform] at member
    rcases List.mem_append.mp member with inserts | member
    · exact .inr (inserted inserts)
    rcases List.mem_append.mp member with starts | member
    · exact .inr (inserted starts)
    rcases List.mem_append.mp member with kept | later
    · by_cases coverage : covered edits gap = true
      · rw [if_pos coverage] at kept
        cases kept
      · rw [if_neg coverage] at kept
        exact .inl ⟨0, congrArg some (List.mem_singleton.mp kept).symm, by simpa using coverage⟩
    · refine (ih later).imp_left fun ⟨k, found, uncovered⟩ => ⟨k + 1, found, ?_⟩
      rw [← uncovered, Nat.add_right_comm, Nat.add_assoc]

theorem mem_perform {edits : List (Edit α)} {gap : Nat} {xs : List α} {x : α}
    (member : x ∈ perform edits gap xs) : x ∈ xs ∨ ∃ e ∈ edits, x ∈ e.new :=
  (mem_perform_cases member).imp_left fun ⟨_, found, _⟩ => List.mem_of_getElem? found

/-- An item outside the ranges stays. -/
theorem kept_mem_perform {edits : List (Edit α)} {gap k : Nat} {xs : List α} {x : α}
    (found : xs[k]? = some x) (uncovered : covered edits (gap + k) = false) :
    x ∈ perform edits gap xs := by
  induction xs generalizing gap k with
  | nil => cases found
  | cons y ys ih =>
    rw [perform]
    refine List.mem_append_right _ (List.mem_append_right _ ?_)
    cases k with
    | zero =>
      obtain rfl : y = x := Option.some.inj found
      rw [Nat.add_zero] at uncovered
      rw [uncovered]
      exact List.mem_append_left _ (List.mem_singleton.mpr rfl)
    | succ k =>
      refine List.mem_append_right _ (ih found ?_)
      rw [← uncovered, Nat.add_right_comm, Nat.add_assoc]

section
variable {before after : List (Edit α)} {e : Edit α} {xs : List α}

/-- A gap between edits, those before it balanced, is where it was. -/
theorem perform_between (ascending : Ascending (before ++ after))
    (ranges : Ranges (before ++ after) xs.length) {s : Nat} (ended : ∀ b ∈ before, b.hi ≤ s)
    (later : ∀ a ∈ after, s ≤ a.lo) (inside : s ≤ xs.length) :
    perform (before ++ after) 0 xs = perform before 0 (xs.take s) ++ perform after s (xs.drop s) ∧
    (perform before 0 (xs.take s)).length + (before.map fun b => b.hi - b.lo).sum =
      s + (before.map fun b => b.new.length).sum := by
  have size : (xs.take s).length = s := List.length_take_of_le inside
  have own : ∀ b ∈ before, b.lo ≤ b.hi ∧ b.hi ≤ s := fun b member =>
    ⟨(ranges b (List.mem_append_left _ member)).1, ended b member⟩
  have counted := @length_perform _ before (xs.take s) (List.pairwise_append.mp ascending).1
    (by rwa [size])
  rw [size] at counted
  refine ⟨?_, counted⟩
  have apart := @perform_append _ before after 0 s xs (by simpa using own) (by simpa using later)
    inside
  rwa [Nat.zero_add] at apart

/-- An edit between others, those before it balanced, finds its own range. -/
theorem range_between (ascending : Ascending (before ++ after))
    (ranges : Ranges (before ++ after) xs.length) (range : e.lo ≤ e.hi)
    (ended : ∀ b ∈ before, b.hi ≤ e.lo) (later : ∀ a ∈ after, e.hi ≤ a.lo)
    (balanced : Balanced before) (inside : e.hi ≤ xs.length) :
    ∃ front own rest, front.length = e.lo ∧ own = (xs.drop e.lo).take (e.hi - e.lo) ∧
      e.lo + own.length = e.hi ∧ perform (before ++ after) 0 xs = front ++ (own ++ rest) ∧
      perform (before ++ e :: after) 0 xs = front ++ (e.new ++ rest) := by
  obtain ⟨apart, size⟩ := perform_between ascending ranges ended
    (fun a member => range.trans (later a member)) (range.trans inside)
  have sums : (before.map fun b => b.new.length).sum = (before.map fun b => b.hi - b.lo).sum :=
    balanced
  have kept := @perform_before _ after e.lo (e.hi - e.lo) (xs.drop e.lo)
    (by simpa [Nat.add_sub_cancel' range] using later) (by rw [List.length_drop]; omega)
  rw [Nat.add_sub_cancel' range, List.drop_drop, Nat.add_sub_cancel' range] at kept
  have apart' := @perform_append _ before (e :: after) 0 e.lo xs (fun b member => by
    have bound := ended b member
    have own := ranges b (List.mem_append_left _ member)
    omega) (fun a member => by
    rcases List.mem_cons.mp member with rfl | member
    · omega
    · have bound := later a member
      omega) (range.trans inside)
  have there := @perform_at _ e after (xs.drop e.lo) range later (by rw [List.length_drop]; omega)
  rw [List.drop_drop, Nat.add_sub_cancel' range] at there
  rw [Nat.zero_add, there] at apart'
  refine ⟨perform before 0 (xs.take e.lo), _, _, by omega, rfl, ?_, ?_, apart'⟩
  · rw [List.length_take, List.length_drop]
    omega
  · rw [apart, kept]

/-- So it can be made where it was meant to be. -/
theorem splice_between (ascending : Ascending (before ++ after))
    (ranges : Ranges (before ++ after) xs.length) (range : e.lo ≤ e.hi)
    (ended : ∀ b ∈ before, b.hi ≤ e.lo) (later : ∀ a ∈ after, e.hi ≤ a.lo)
    (balanced : Balanced before) (inside : e.hi ≤ xs.length) :
    splice (perform (before ++ after) 0 xs) e = perform (before ++ e :: after) 0 xs := by
  obtain ⟨front, own, rest, size, -, taken, shape, made⟩ :=
    range_between ascending ranges range ended later balanced inside
  rw [made, shape, splice, ← taken, ← size, List.take_left, ← List.drop_drop, List.drop_left,
    List.drop_left]

theorem kept_between (ascending : Ascending (before ++ after))
    (ranges : Ranges (before ++ after) xs.length) (range : e.lo ≤ e.hi)
    (ended : ∀ b ∈ before, b.hi ≤ e.lo) (later : ∀ a ∈ after, e.hi ≤ a.lo)
    (balanced : Balanced before) (inside : e.hi ≤ xs.length) :
    ((perform (before ++ after) 0 xs).drop e.lo).take (e.hi - e.lo) =
      (xs.drop e.lo).take (e.hi - e.lo) := by
  obtain ⟨front, own, rest, size, there, taken, shape, -⟩ :=
    range_between ascending ranges range ended later balanced inside
  have width : e.hi - e.lo = own.length := by omega
  rw [← there, shape, width, ← size, List.drop_left, List.take_left]

/-- Its range is one of the list exactly if it was one. -/
theorem inside_between (ascending : Ascending (before ++ after))
    (ranges : Ranges (before ++ after) xs.length) (range : e.lo ≤ e.hi)
    (ended : ∀ b ∈ before, b.hi ≤ e.lo) (later : ∀ a ∈ after, e.hi ≤ a.lo)
    (balanced : Balanced before) :
    e.hi ≤ (perform (before ++ after) 0 xs).length ↔ e.hi ≤ xs.length := by
  constructor
  · intro reach
    cases after with
    | nil =>
      have counted := length_perform ascending ranges
      rw [List.append_nil] at counted reach
      have sums : (before.map fun b => b.new.length).sum = (before.map fun b => b.hi - b.lo).sum :=
        balanced
      omega
    | cons a after =>
      have first := later a List.mem_cons_self
      have bound := ranges a (List.mem_append_right _ List.mem_cons_self)
      omega
  · intro inside
    obtain ⟨front, own, rest, size, -, taken, shape, -⟩ :=
      range_between ascending ranges range ended later balanced inside
    rw [shape, List.length_append, List.length_append]
    omega

end

/-! ## Items of another kind -/

def Edit.map {β : Type} (f : α → β) (e : Edit α) : Edit β := ⟨e.lo, e.hi, e.new.map f⟩

theorem perform_map {β : Type} (f : α → β) (edits : List (Edit α)) (gap : Nat) (xs : List α) :
    perform (edits.map (Edit.map f)) gap (xs.map f) = (perform edits gap xs).map f := by
  have inserts (gap : Nat) :
      insertsAt (edits.map (Edit.map f)) gap = (insertsAt edits gap).map f := by
    rw [insertsAt, insertsAt, List.filter_map, List.flatMap_map, List.map_flatMap]
    rfl
  have starts (gap : Nat) :
      startsAt (edits.map (Edit.map f)) gap = (startsAt edits gap).map f := by
    rw [startsAt, startsAt, List.filter_map, List.flatMap_map, List.map_flatMap]
    rfl
  have coverage (gap : Nat) : covered (edits.map (Edit.map f)) gap = covered edits gap :=
    List.any_map
  induction xs generalizing gap with
  | nil => exact inserts gap
  | cons x xs ih =>
    rw [List.map_cons, perform, perform, inserts, starts, coverage, ih]
    cases covered edits gap <;> simp

end Devit.Splices
