import Mathlib.Data.List.Induction
import Mathlib.Logic.Function.Basic
import Mathlib.Tactic.Common

/-! Putting contents back at places, one after the other, each after a copy of what is
there now was made at a place of its own. A content stays as it was put back unless
its place is where a later one's copy goes. Places and contents are arbitrary. -/
namespace Devit.PutBack

variable {L C : Type} [DecidableEq L]

/-- One content put back; `copyTo` says where the copy goes, if copies are made, and
copying something to its own place leaves `blank` there. -/
def putBack (copyTo : Option (L → L)) (blank : C) (now : L → Option C) (entry : L × C) :
    L → Option C :=
  let kept := match copyTo, now entry.1 with
    | some place, some old =>
      Function.update now (place entry.1) (some (if place entry.1 = entry.1 then blank else old))
    | _, _ => now
  Function.update kept entry.1 (some entry.2)

/-- All contents put back. -/
def putAll (copyTo : Option (L → L)) (blank : C) (now : L → Option C) (entries : List (L × C)) :
    L → Option C :=
  entries.foldl (putBack copyTo blank) now

variable {copyTo : Option (L → L)} {blank : C} {now : L → Option C}

/-- The last copy that is made at a place among these entries holds the content. -/
def LastCopy (place : L → L) (now : L → Option C) (q : L) (c : C) (after : List (L × C)) : Prop :=
  ∀ between entry rest, after = between ++ entry :: rest → place entry.1 = q →
    ∀ old, now entry.1 = some old → (∀ e ∈ rest, place e.1 = q → now e.1 = none) → old = c

theorem putBack_self (entry : L × C) : putBack copyTo blank now entry entry.1 = some entry.2 :=
  Function.update_self ..

theorem putBack_without (entry : L × C) :
    putBack none blank now entry = Function.update now entry.1 (some entry.2) := rfl

/-- What putting a content back does elsewhere. -/
theorem putBack_other {place : L → L} {entry : L × C} {q : L} (apart : q ≠ entry.1) :
    putBack (some place) blank now entry q =
      match now entry.1 with
      | some old => if place entry.1 = q then some old else now q
      | none => now q := by
  unfold putBack
  rw [Function.update_of_ne apart]
  cases now entry.1 with
  | none => rfl
  | some old =>
    by_cases here : place entry.1 = q
    · subst here
      dsimp only
      rw [Function.update_self, if_neg apart, if_pos rfl]
    · dsimp only
      rw [Function.update_of_ne (Ne.symm here), if_neg here]

/-- Without copies every place that is not put back stays. -/
theorem putAll_without {entries : List (L × C)} {q : L} (apart : ∀ e ∈ entries, e.1 ≠ q) :
    putAll none blank now entries q = now q := by
  induction entries generalizing now with
  | nil => rfl
  | cons entry entries ih =>
    have rest := @ih (putBack none blank now entry)
      fun e member => apart e (List.mem_cons_of_mem _ member)
    rw [putAll, List.foldl_cons]
    refine rest.trans ?_
    rw [putBack_without, Function.update_of_ne (Ne.symm (apart entry List.mem_cons_self))]

theorem putAll_own {before after : List (L × C)} {q : L} {c : C}
    (distinct : ((before ++ (q, c) :: after).map (·.1)).Nodup) :
    putAll none blank now (before ++ (q, c) :: after) q = some c := by
  rw [List.map_append, List.nodup_append] at distinct
  have apart : ∀ e ∈ after, e.1 ≠ q := by
    rintro e member rfl
    exact (List.nodup_cons.mp distinct.2.1).1 (List.mem_map.mpr ⟨e, member, rfl⟩)
  rw [putAll, List.foldl_append, List.foldl_cons]
  exact (putAll_without apart).trans (putBack_self _)

/-- A place that neither is put back nor is where copies go stays. -/
theorem putAll_untouched {place : L → L} {entries : List (L × C)} {p : L}
    (apart : ∀ e ∈ entries, e.1 ≠ p) (uncopied : ∀ e ∈ entries, place e.1 ≠ p) :
    putAll (some place) blank now entries p = now p := by
  induction entries generalizing now with
  | nil => rfl
  | cons entry entries ih =>
    have rest := @ih (putBack (some place) blank now entry)
      (fun e member => apart e (List.mem_cons_of_mem _ member))
      fun e member => uncopied e (List.mem_cons_of_mem _ member)
    rw [putAll, List.foldl_cons]
    refine rest.trans ?_
    rw [putBack_other (Ne.symm (apart entry List.mem_cons_self))]
    cases now entry.1 with
    | none => rfl
    | some old => simp [uncopied entry List.mem_cons_self]

theorem putAll_concat (entries : List (L × C)) (entry : L × C) :
    putAll copyTo blank now (entries ++ [entry]) =
      putBack copyTo blank (putAll copyTo blank now entries) entry := by
  rw [putAll, List.foldl_append]
  rfl

theorem lastCopy_concat {place : L → L} {q : L} {c : C} {after : List (L × C)} {entry : L × C} :
    LastCopy place now q c (after ++ [entry]) ↔
      if place entry.1 = q ∧ now entry.1 ≠ none then now entry.1 = some c
      else LastCopy place now q c after := by
  split
  · rename_i copied
    obtain ⟨old, there⟩ := Option.ne_none_iff_exists'.mp copied.2
    constructor
    · intro last
      rw [there, last after entry [] rfl copied.1 old there nofun]
    · intro same between other rest shape _ old' there' free
      rcases List.eq_nil_or_concat rest with rfl | ⟨rest, final, rfl⟩
      · obtain ⟨-, last⟩ := List.append_inj' shape rfl
        cases List.cons.inj last |>.1
        exact Option.some.inj (there'.symm.trans same)
      · rw [List.concat_eq_append, ← List.cons_append, ← List.append_assoc] at shape
        obtain ⟨-, last⟩ := List.append_inj' shape rfl
        cases List.cons.inj last |>.1
        have gone := free entry (by simp) copied.1
        exact absurd gone copied.2
  · rename_i uncopied
    rw [not_and_not_right] at uncopied
    constructor
    · intro last between other rest shape copies old there free
      refine last between other (rest ++ [entry]) (by rw [shape]; simp) copies old there ?_
      intro e member here
      rcases List.mem_append.mp member with inside | atEnd
      · exact free e inside here
      · rw [List.mem_singleton.mp atEnd] at here ⊢
        exact uncopied here
    · intro last between other rest shape copies old there free
      rcases List.eq_nil_or_concat rest with rfl | ⟨rest, final, rfl⟩
      · obtain ⟨-, same⟩ := List.append_inj' shape rfl
        cases List.cons.inj same |>.1
        rw [uncopied copies] at there
        cases there
      · rw [List.concat_eq_append, ← List.cons_append, ← List.append_assoc] at shape
        obtain ⟨rfl, same⟩ := List.append_inj' shape rfl
        refine last between other rest rfl copies old there fun e member here => ?_
        exact free e (by simp [member]) here

/-- **What is put back stays.** At distinct places, with copies that go where copies of
copies would go as well, an entry's place ends with its content exactly if the last
copy made there later holds it too. -/
theorem putAll_eq_iff {place : L → L} {before after : List (L × C)} {q : L} {c : C}
    (settled : ∀ e ∈ before ++ (q, c) :: after, place (place e.1) = place e.1)
    (distinct : ((before ++ (q, c) :: after).map (·.1)).Nodup) :
    putAll (some place) blank now (before ++ (q, c) :: after) q = some c ↔
      LastCopy place now q c after := by
  induction after using List.reverseRecOn with
  | nil =>
    rw [putAll_concat, putBack_self]
    exact iff_of_true rfl fun between entry rest shape => by simp at shape
  | append_singleton after entry ih =>
    have whole : before ++ (q, c) :: (after ++ [entry]) = (before ++ (q, c) :: after) ++ [entry] := by
      simp
    rw [whole, List.map_append, List.nodup_append] at distinct
    obtain ⟨inner, -, others⟩ := distinct
    have fresh : ∀ e ∈ before ++ (q, c) :: after, e.1 ≠ entry.1 := fun e member =>
      others e.1 (List.mem_map_of_mem member) entry.1 (by simp)
    have apart : q ≠ entry.1 := fresh (q, c) (by simp)
    rw [whole] at settled
    have earlier := ih (fun e member => settled e (List.mem_append_left _ member)) inner
    rw [whole, putAll_concat, putBack_other apart, lastCopy_concat, ← earlier]
    by_cases copies : place entry.1 = q
    · -- a place that is copied elsewhere is no copy's own place
      have unmoved : ∀ e ∈ before ++ (q, c) :: after, place e.1 ≠ entry.1 := by
        intro e member same
        have stays := settled e (List.mem_append_left _ member)
        rw [same, copies] at stays
        exact apart stays
      rw [putAll_untouched fresh unmoved]
      cases there : now entry.1 with
      | none => simp
      | some old => simp [copies]
    · simp only [copies, false_and, ↓reduceIte]
      cases putAll (some place) blank now (before ++ (q, c) :: after) entry.1 <;> rfl

end Devit.PutBack
