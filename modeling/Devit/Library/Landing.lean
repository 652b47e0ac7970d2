import Devit.Library.Reaching

/-! Where steps lead by themselves: down by a name, up by `..`. A walk that meets no link ends
there, if it ends anywhere. -/
namespace Devit.Files

variable {N C : Type}

/-- Where the steps lead from a place when no link is on the way. -/
def landing (cur : Loc N) : List (Hop N) → Loc N
  | [] => cur
  | .here :: rest => landing cur rest
  | .up :: rest => landing cur.dropLast rest
  | .into name :: rest => landing (cur ++ [name]) rest

/-- No link stands where a step down leads. -/
def Direct (t : Tree N C) (cur : Loc N) : List (Hop N) → Prop
  | [] => True
  | .here :: rest => Direct t cur rest
  | .up :: rest => Direct t cur.dropLast rest
  | .into name :: rest =>
    (∀ target, entry t (cur ++ [name]) ≠ some (.link target)) ∧ Direct t (cur ++ [name]) rest

variable {t : Tree N C} {cur : Loc N} {hops : List (Hop N)} {place : Place N}

theorem landing_here (cur : Loc N) (hops : List (Hop N)) :
    landing cur (hops ++ [.here]) = landing cur hops := by
  fun_induction landing cur hops with
  | case1 cur => rfl
  | case2 cur rest ih => exact ih
  | case3 cur rest ih => exact ih
  | case4 cur name rest ih => exact ih

theorem direct_here : Direct t cur (hops ++ [.here]) ↔ Direct t cur hops := by
  fun_induction Direct t cur hops with
  | case1 cur => exact Iff.rfl
  | case2 cur rest ih => exact ih
  | case3 cur rest ih => exact ih
  | case4 cur name rest ih => exact and_congr_right fun _ => ih

theorem stroll_direct {follow : Bool} {onLink : Loc N → List (Hop N) → Walk N}
    (direct : Direct t cur hops) (ends : (stroll t follow onLink cur hops).result = .ok place) :
    place.loc = landing cur hops := by
  induction hops generalizing cur with
  | nil =>
    cases ends
    rfl
  | cons hop rest ih =>
    cases hop with
    | here => exact ih direct ends
    | up => exact ih direct ends
    | into name =>
      obtain ⟨noLink, onward⟩ := direct
      simp only [stroll, Walk.after] at ends
      cases found : entry t (cur ++ [name]) with
      | none =>
        simp only [found] at ends
        split at ends
        · rename_i last
          cases ends
          rw [last]
          rfl
        · cases ends
      | some node =>
        cases node with
        | file content =>
          simp only [found] at ends
          split at ends
          · rename_i last
            cases ends
            rw [last]
            rfl
          · cases ends
        | dir =>
          simp only [found] at ends
          exact ih onward ends
        | link target => exact absurd found (noLink target)

/-- **A walk without links** ends where its steps lead. -/
theorem walk_direct {follow : Bool} {budget : Nat} (direct : Direct t cur hops)
    (ends : (walk t follow budget cur hops).result = .ok place) : place.loc = landing cur hops := by
  cases budget with
  | zero => exact stroll_direct direct ends
  | succ budget => exact stroll_direct direct ends

end Devit.Files

namespace Devit.FileSystem
open Files Path Text

/-- A character other than a separator is in a part. -/
theorem mem_splitOn {sep : Char → Bool} {s : Text} {c : Char} (member : c ∈ s)
    (other : sep c = false) : ∃ part ∈ splitOn sep s, c ∈ part := by
  induction s with
  | nil => cases member
  | cons first s ih =>
    rw [splitOn]
    split
    · rename_i separator
      rcases List.mem_cons.mp member with rfl | later
      · rw [other] at separator
        cases separator
      · obtain ⟨part, listed, inside⟩ := ih later
        exact ⟨part, List.mem_cons_of_mem _ listed, inside⟩
    · obtain ⟨head, parts, shape⟩ := List.exists_cons_of_ne_nil (splitOn_ne_nil sep s)
      rw [shape] at ih ⊢
      rw [List.modifyHead_cons]
      rcases List.mem_cons.mp member with rfl | later
      · exact ⟨_, List.mem_cons_self, List.mem_cons_self⟩
      · obtain ⟨part, listed, inside⟩ := ih later
        rcases List.mem_cons.mp listed with rfl | below
        · exact ⟨_, List.mem_cons_self, List.mem_cons_of_mem _ inside⟩
        · exact ⟨part, List.mem_cons_of_mem _ below, inside⟩

/-- A path with a character of a name takes a step. -/
theorem hops_ne_nil {p : PathBuf} {c : Char} (member : c ∈ p.text) (slash : c ≠ '/')
    (dot : c ≠ '.') : hops (components p) ≠ [] := by
  obtain ⟨piece, listed, inside⟩ := @mem_splitOn (· == '/') _ _ member (by simpa using slash)
  have named : piece ≠ ['.'] := by
    rintro rfl
    exact dot (List.mem_singleton.mp inside)
  have stands : piece ∈ pieces p := by
    refine List.mem_filter.mpr ⟨listed, ?_⟩
    simpa using List.ne_nil_of_mem inside
  have step : component piece ∈ components p := by
    unfold components
    split
    · exact List.mem_cons_of_mem _ (List.mem_map_of_mem
        (List.mem_filter.mpr ⟨stands, by simpa using named⟩))
    · split
      · rename_i none
        rw [none] at stands
        cases stands
      · rename_i first rest shape
        rw [shape] at stands
        rcases List.mem_cons.mp stands with rfl | later
        · rw [if_neg named]
          exact List.mem_cons_self
        · exact List.mem_cons_of_mem _ (List.mem_map_of_mem
            (List.mem_filter.mpr ⟨later, by simpa using named⟩))
  have hopped : ∃ h, hop (component piece) = some h := by
    unfold component
    split
    · exact ⟨_, rfl⟩
    · exact ⟨_, rfl⟩
  obtain ⟨h, hopped⟩ := hopped
  exact List.ne_nil_of_mem (List.mem_filterMap.mpr ⟨_, step, hopped⟩)

variable {d : Disk} {follow : Bool} {p dir : PathBuf} {top : Loc Text} {place : Place Text}

theorem landing_asked (cur : Loc Text) (hops : List (Hop Text)) (asks : Bool) :
    landing cur (hops ++ if asks then [.here] else []) = landing cur hops := by
  cases asks
  · simp
  · exact landing_here cur hops

theorem direct_asked {t : Tree Text Content} {cur : Loc Text} {hops : List (Hop Text)}
    (asks : Bool) : Direct t cur (hops ++ if asks then [.here] else []) ↔ Direct t cur hops := by
  cases asks
  · simp
  · exact direct_here

/-- Where a path leads on whose way no link is. -/
theorem lookup_direct (filled : p.text ≠ [])
    (direct : Direct d.tree (base d p) (hops (components p)))
    (leads : lookup d follow p = .ok place) :
    place.loc = landing (base d p) (hops (components p)) := by
  rw [lookup_eq filled] at leads
  rw [walk_direct ((direct_asked _).mpr direct) leads, landing_asked]

/-- Where a path from a directory leads on whose way from there no link is. -/
theorem lookup_joined (sound : d.Sound) (filled : dir.text ≠ []) (opens : Opens d dir top)
    (relative : isAbsolute p = false) (some_step : hops (components p) ≠ [])
    (direct : Direct d.tree top (hops (components p)))
    (leads : lookup d follow (pathJoin dir p) = .ok place) :
    place.loc = landing top (hops (components p)) := by
  have steps : hops (components (pathJoin dir p)) =
      hops (components dir) ++ hops (components p) := by
    have same : hops ((components p).filter (· ≠ .curDir)) = hops (components p) := by
      rw [hops, hops, List.filterMap_filter]
      congr 1
      funext c
      cases c <;> rfl
    rw [components_pathJoin filled relative, hops_append, same]
  have start : base d (pathJoin dir p) = base d dir := by
    rw [base, base, (pieces_pathJoin filled relative).2]
  have text : (pathJoin dir p).text ≠ [] := by
    intro empty
    have none : hops (components (pathJoin dir p)) = [] := by
      rw [show pathJoin dir p = ⟨[]⟩ from congrArg PathBuf.mk empty]
      rfl
    rw [steps] at none
    exact some_step (List.append_eq_nil_iff.mp none).2
  rw [lookup_eq text, steps, start, List.append_assoc] at leads
  have more : hops (components p) ++ (if asksDir (pathJoin dir p) then [.here] else []) ≠ [] :=
    List.append_ne_nil_of_left_ne_nil some_step _
  obtain ⟨budget, -, split⟩ := @walk_append _ _ d.tree follow _ more maxLinks _
    (hops (components dir)) (grounded_base sound dir)
  rw [split, Walk.andThen, opens.1] at leads
  simp only [opens.2] at leads
  rw [walk_direct ((direct_asked _).mpr direct) leads, landing_asked]

end Devit.FileSystem
