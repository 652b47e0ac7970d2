import Mathlib.Tactic.Common

/-! A tree of files, directories and symbolic links, and how a route is taken
through it. A location is the list of names from the root; a route is what a
caller spells, and `walk` takes it through the tree link by link, as the kernel
does. Names and contents are arbitrary types. -/
namespace Devit.Files

variable {N C : Type}

/-- One step of a route. -/
inductive Hop (N : Type) where
  /-- `.`, and a slash at the end. -/
  | here
  /-- `..` -/
  | up
  | into (name : N)
  deriving DecidableEq

/-- A path as the kernel reads it. -/
structure Route (N : Type) where
  absolute : Bool
  hops : List (Hop N)
  deriving DecidableEq

/-- What a directory entry can be. -/
inductive Node (N C : Type) where
  | file (content : C)
  | dir
  | link (target : Route N)
  deriving DecidableEq

/-- A place in the tree, from the root. -/
abbrev Loc (N : Type) := List N

/-- The entries of the tree below its root. -/
abbrev Tree (N C : Type) := Loc N → Option (Node N C)

/-- The entry at a location. The root is a directory. -/
def entry (t : Tree N C) (loc : Loc N) : Option (Node N C) :=
  if loc = [] then some .dir else t loc

/-- The failures that the shape of the tree or of a file's bytes can cause. -/
inductive Errno where
  | notFound
  | notDirectory
  | isDirectory
  | alreadyExists
  | tooManyLinks
  | invalidInput
  | invalidData
  deriving DecidableEq, Repr

/-- Where a route leads: to an entry, or to a free name in a directory. -/
inductive Place (N : Type) where
  | found (loc : Loc N)
  | vacant (loc : Loc N)
  deriving DecidableEq

/-- The location a place is at. -/
def Place.loc : Place N → Loc N
  | .found loc => loc
  | .vacant loc => loc

/-- The location and all above it are directories. -/
def Grounded (t : Tree N C) (loc : Loc N) : Prop := ∀ above, above <+: loc → entry t above = some .dir

/-! ## Walking a route -/

/-- A walk with the locations it looked up on the way. -/
structure Walk (N : Type) where
  visited : List (Loc N)
  result : Except Errno (Place N)

/-- The walk after looking up one more location first. -/
def Walk.after (loc : Loc N) (w : Walk N) : Walk N := { w with visited := loc :: w.visited }

/-- Taking hops from a directory. A symbolic link in the middle of a route is
followed, one at its end only when `follow` is set; `onLink` walks on. -/
def stroll (t : Tree N C) (follow : Bool) (onLink : Loc N → List (Hop N) → Walk N) :
    Loc N → List (Hop N) → Walk N
  | cur, [] => ⟨[], .ok (.found cur)⟩
  | cur, .here :: rest => stroll t follow onLink cur rest
  | cur, .up :: rest => stroll t follow onLink cur.dropLast rest
  | cur, .into name :: rest =>
    let next := cur ++ [name]
    Walk.after next <|
      match entry t next with
      | none => ⟨[], if rest = [] then .ok (.vacant next) else .error .notFound⟩
      | some .dir => stroll t follow onLink next rest
      | some (.file _) =>
        ⟨[], if rest = [] then .ok (.found next) else .error .notDirectory⟩
      | some (.link target) =>
        if rest = [] ∧ follow = false then ⟨[], .ok (.found next)⟩
        else onLink (if target.absolute then [] else cur) (target.hops ++ rest)

/-- Taking hops from a directory with at most `budget` links followed. -/
def walk (t : Tree N C) (follow : Bool) : Nat → Loc N → List (Hop N) → Walk N
  | 0 => stroll t follow fun _ _ => ⟨[], .error .tooManyLinks⟩
  | budget + 1 => stroll t follow (walk t follow budget)

/-- The kernel's bound on links followed in one walk. -/
def maxLinks : Nat := 40

/-- The walk of a route from the current directory. -/
def Route.walk (t : Tree N C) (follow : Bool) (cwd : Loc N) (r : Route N) : Walk N :=
  Files.walk t follow maxLinks (if r.absolute then [] else cwd) r.hops

/-- Where a route leads from the current directory. -/
def resolve (t : Tree N C) (follow : Bool) (cwd : Loc N) (r : Route N) : Except Errno (Place N) :=
  (r.walk t follow cwd).result

/-! ## A walk depends on what it visits -/

theorem stroll_congr {t t' : Tree N C} {follow : Bool} {f g : Loc N → List (Hop N) → Walk N}
    (links : ∀ cur hops, (∀ loc ∈ (f cur hops).visited, t' loc = t loc) → g cur hops = f cur hops)
    (cur : Loc N) (hops : List (Hop N))
    (agree : ∀ loc ∈ (stroll t follow f cur hops).visited, t' loc = t loc) :
    stroll t' follow g cur hops = stroll t follow f cur hops := by
  induction hops generalizing cur with
  | nil => rfl
  | cons hop rest ih =>
    cases hop with
    | here => exact ih cur agree
    | up => exact ih cur.dropLast agree
    | into name =>
      simp only [stroll, Walk.after, List.mem_cons] at agree ⊢
      have same : entry t' (cur ++ [name]) = entry t (cur ++ [name]) := by
        simp [entry, agree _ (.inl rfl)]
      rw [same]
      cases found : entry t (cur ++ [name]) with
      | none => rfl
      | some node =>
        cases node with
        | file content => rfl
        | dir =>
          simp only [found] at agree ⊢
          rw [ih _ fun loc member => agree loc (.inr member)]
        | link target =>
          simp only [found] at agree ⊢
          split
          · rfl
          · rename_i followed
            rw [links _ _ fun loc member => agree loc (.inr (by simpa [followed] using member))]

/-- Two trees that agree on the locations a walk visits give the same walk. -/
theorem walk_congr {t t' : Tree N C} {follow : Bool} (budget : Nat) (cur : Loc N)
    (hops : List (Hop N))
    (agree : ∀ loc ∈ (walk t follow budget cur hops).visited, t' loc = t loc) :
    walk t' follow budget cur hops = walk t follow budget cur hops := by
  induction budget generalizing cur hops with
  | zero => exact stroll_congr (fun _ _ _ => rfl) cur hops agree
  | succ budget ih => exact stroll_congr (fun cur hops h => ih cur hops h) cur hops agree

/-! ## Where a walk ends -/

theorem grounded_root (t : Tree N C) : Grounded t [] := by
  intro above member
  rw [List.prefix_nil.mp member]
  rfl

theorem Grounded.entry {t : Tree N C} {loc : Loc N} (h : Grounded t loc) :
    entry t loc = some .dir := h loc List.prefix_rfl

theorem Grounded.of_prefix {t : Tree N C} {loc above : Loc N} (h : Grounded t loc)
    (le : above <+: loc) : Grounded t above := fun _ member => h _ (member.trans le)

theorem Grounded.dropLast {t : Tree N C} {loc : Loc N} (h : Grounded t loc) :
    Grounded t loc.dropLast := h.of_prefix (List.dropLast_prefix loc)

theorem Grounded.concat {t : Tree N C} {loc : Loc N} {name : N} (h : Grounded t loc)
    (child : Files.entry t (loc ++ [name]) = some .dir) : Grounded t (loc ++ [name]) := by
  intro above member
  rcases List.prefix_concat_iff.mp member with rfl | member
  · exact child
  · exact h above member

/-- What a walk may end at: a directory reached through directories, or a name
in one, which is free, a file, or a link that was not to be followed. -/
def Lands (t : Tree N C) (follow : Bool) : Place N → Prop
  | .found loc => Grounded t loc ∨ ∃ dir name, loc = dir ++ [name] ∧ Grounded t dir ∧
      ((∃ content, entry t loc = some (.file content)) ∨
        (follow = false ∧ ∃ target, entry t loc = some (.link target)))
  | .vacant loc => ∃ dir name, loc = dir ++ [name] ∧ Grounded t dir ∧ entry t loc = none

theorem stroll_lands {t : Tree N C} {follow : Bool} {onLink : Loc N → List (Hop N) → Walk N}
    (links : ∀ cur hops place, Grounded t cur → (onLink cur hops).result = .ok place →
      Lands t follow place)
    {cur : Loc N} {hops : List (Hop N)} {place : Place N} (start : Grounded t cur)
    (ends : (stroll t follow onLink cur hops).result = .ok place) : Lands t follow place := by
  induction hops generalizing cur with
  | nil =>
    cases ends
    exact .inl start
  | cons hop rest ih =>
    cases hop with
    | here => exact ih start ends
    | up => exact ih start.dropLast ends
    | into name =>
      simp only [stroll, Walk.after] at ends
      cases found : entry t (cur ++ [name]) with
      | none =>
        simp only [found] at ends
        split at ends <;> cases ends
        exact ⟨cur, name, rfl, start, found⟩
      | some node =>
        cases node with
        | file content =>
          simp only [found] at ends
          split at ends <;> cases ends
          exact .inr ⟨cur, name, rfl, start, .inl ⟨content, found⟩⟩
        | dir =>
          simp only [found] at ends
          exact ih (start.concat found) ends
        | link target =>
          simp only [found] at ends
          split at ends
          · rename_i last
            cases ends
            exact .inr ⟨cur, name, rfl, start, .inr ⟨last.2, target, found⟩⟩
          · refine links _ _ _ ?_ ends
            split
            · exact grounded_root t
            · exact start

/-- A walk that starts at a directory ends at a directory or at a name in one. -/
theorem walk_lands {t : Tree N C} {follow : Bool} {budget : Nat} {cur : Loc N}
    {hops : List (Hop N)} {place : Place N} (start : Grounded t cur)
    (ends : (walk t follow budget cur hops).result = .ok place) : Lands t follow place := by
  induction budget generalizing cur hops place with
  | zero => exact stroll_lands (fun _ _ _ _ bad => by cases bad) start ends
  | succ budget ih => exact stroll_lands (fun _ _ _ h ended => ih h ended) start ends

private theorem stroll_nofollow {t : Tree N C} {f g : Loc N → List (Hop N) → Walk N}
    (links : ∀ cur hops place, (f cur hops).result = .ok place → ∃ other,
      (g cur hops).result = .ok other ∧
        (other = place ∨ ∃ loc target, other = .found loc ∧ entry t loc = some (.link target)))
    {cur : Loc N} {hops : List (Hop N)} {place : Place N}
    (ends : (stroll t true f cur hops).result = .ok place) :
    ∃ other, (stroll t false g cur hops).result = .ok other ∧
      (other = place ∨ ∃ loc target, other = .found loc ∧ entry t loc = some (.link target)) := by
  induction hops generalizing cur with
  | nil =>
    cases ends
    exact ⟨_, rfl, .inl rfl⟩
  | cons hop rest ih =>
    cases hop with
    | here => exact ih ends
    | up => exact ih ends
    | into name =>
      simp only [stroll, Walk.after] at ends ⊢
      cases found : entry t (cur ++ [name]) with
      | none =>
        simp only [found] at ends ⊢
        exact ⟨place, ends, .inl rfl⟩
      | some node =>
        cases node with
        | file content =>
          simp only [found] at ends ⊢
          exact ⟨place, ends, .inl rfl⟩
        | dir =>
          simp only [found] at ends ⊢
          exact ih ends
        | link target =>
          simp only [found, Bool.true_eq_false, and_false, ↓reduceIte] at ends ⊢
          split
          · exact ⟨_, rfl, .inr ⟨_, target, rfl, found⟩⟩
          · exact links _ _ _ ends

/-- Where a route leads when a link at its end is followed, it leads without
following one too: to the same place or to that link. -/
theorem walk_nofollow {t : Tree N C} {budget : Nat} {cur : Loc N} {hops : List (Hop N)}
    {place : Place N} (ends : (walk t true budget cur hops).result = .ok place) :
    ∃ other, (walk t false budget cur hops).result = .ok other ∧
      (other = place ∨ ∃ loc target, other = .found loc ∧ entry t loc = some (.link target)) := by
  induction budget generalizing cur hops place with
  | zero => exact stroll_nofollow (fun _ _ _ bad => by cases bad) ends
  | succ budget ih => exact stroll_nofollow (fun _ _ _ ended => ih ended) ends

private theorem stroll_removed {t t' : Tree N C} {follow : Bool} {gone : Loc N}
    {f g : Loc N → List (Hop N) → Walk N} (same : ∀ loc, loc ≠ gone → entry t' loc = entry t loc)
    (removed : entry t' gone = none)
    (links : ∀ cur hops, gone ∈ (f cur hops).visited →
      ∀ place, (g cur hops).result = .ok place → entry t' place.loc = none)
    {cur : Loc N} {hops : List (Hop N)} (visits : gone ∈ (stroll t false f cur hops).visited)
    {place : Place N} (ends : (stroll t' follow g cur hops).result = .ok place) :
    entry t' place.loc = none := by
  induction hops generalizing cur with
  | nil => simp [stroll] at visits
  | cons hop rest ih =>
    cases hop with
    | here => exact ih visits ends
    | up => exact ih visits ends
    | into name =>
      simp only [stroll, Walk.after, List.mem_cons] at visits ends
      by_cases here : cur ++ [name] = gone
      · rw [here, removed] at ends
        simp only at ends
        split at ends <;> cases ends
        exact removed
      · rw [same _ here] at ends
        have onward := visits.resolve_left (Ne.symm here)
        cases found : entry t (cur ++ [name]) with
        | none => simp [found] at onward
        | some node =>
          cases node with
          | file content => simp [found] at onward
          | dir =>
            simp only [found] at onward ends
            exact ih onward ends
          | link target =>
            simp only [found] at onward ends
            split at onward
            · simp at onward
            · rename_i followed
              have longer : rest ≠ [] := fun last => followed ⟨last, trivial⟩
              simp only [longer, false_and, ↓reduceIte] at ends
              exact links _ _ onward _ ends

/-- A walk that went past an entry leads to nothing once that entry is gone. -/
theorem walk_removed {t t' : Tree N C} {follow : Bool} {gone : Loc N}
    (same : ∀ loc, loc ≠ gone → entry t' loc = entry t loc) (removed : entry t' gone = none)
    {budget : Nat} {cur : Loc N} {hops : List (Hop N)}
    (visits : gone ∈ (walk t false budget cur hops).visited) {place : Place N}
    (ends : (walk t' follow budget cur hops).result = .ok place) : entry t' place.loc = none := by
  induction budget generalizing cur hops place with
  | zero => exact stroll_removed same removed (fun _ _ _ _ bad => by cases bad) visits ends
  | succ budget ih =>
    exact stroll_removed same removed (fun _ _ seen _ ended => ih seen ended) visits ends

/-! ## The names a walk spells -/

/-- All names in the targets of links are of a kind. -/
def Named (P : N → Prop) (t : Tree N C) : Prop :=
  ∀ loc target, t loc = some (.link target) → ∀ name, Hop.into name ∈ target.hops → P name

theorem stroll_names {t : Tree N C} {P : N → Prop} {follow : Bool}
    {onLink : Loc N → List (Hop N) → Walk N} (named : Named P t)
    (links : ∀ cur hops place, (∀ name ∈ cur, P name) → (∀ name, Hop.into name ∈ hops → P name) →
      (onLink cur hops).result = .ok place → ∀ name ∈ place.loc, P name)
    {cur : Loc N} {hops : List (Hop N)} {place : Place N} (start : ∀ name ∈ cur, P name)
    (spelled : ∀ name, Hop.into name ∈ hops → P name)
    (ends : (stroll t follow onLink cur hops).result = .ok place) : ∀ name ∈ place.loc, P name := by
  induction hops generalizing cur with
  | nil =>
    cases ends
    exact start
  | cons hop rest ih =>
    have later : ∀ name, Hop.into name ∈ rest → P name :=
      fun name member => spelled name (List.mem_cons_of_mem _ member)
    cases hop with
    | here => exact ih start later ends
    | up => exact ih (fun name member => start name ((List.dropLast_prefix cur).subset member)) later ends
    | into name =>
      have next : ∀ other ∈ cur ++ [name], P other := by
        intro other member
        rcases List.mem_append.mp member with before | last
        · exact start other before
        · rw [List.mem_singleton.mp last]
          exact spelled name List.mem_cons_self
      simp only [stroll, Walk.after] at ends
      cases found : entry t (cur ++ [name]) with
      | none =>
        simp only [found] at ends
        split at ends <;> cases ends
        exact next
      | some node =>
        cases node with
        | file content =>
          simp only [found] at ends
          split at ends <;> cases ends
          exact next
        | dir =>
          simp only [found] at ends
          exact ih next later ends
        | link target =>
          simp only [found] at ends
          split at ends
          · cases ends
            exact next
          · refine links _ _ _ ?_ ?_ ends
            · split
              · simp
              · exact start
            · intro other member
              rcases List.mem_append.mp member with inTarget | inRest
              · have isLink : t (cur ++ [name]) = some (.link target) := by simpa [entry] using found
                exact named _ target isLink other inTarget
              · exact later other inRest

/-- A walk ends at names that it, its start or a link spells. -/
theorem walk_names {t : Tree N C} {P : N → Prop} {follow : Bool} {budget : Nat} {cur : Loc N}
    {hops : List (Hop N)} {place : Place N} (named : Named P t) (start : ∀ name ∈ cur, P name)
    (spelled : ∀ name, Hop.into name ∈ hops → P name)
    (ends : (walk t follow budget cur hops).result = .ok place) : ∀ name ∈ place.loc, P name := by
  induction budget generalizing cur hops place with
  | zero => exact stroll_names named (fun _ _ _ _ _ bad => by cases bad) start spelled ends
  | succ budget ih =>
    exact stroll_names named (fun _ _ _ base hops ended => ih base hops ended) start spelled ends

/-- Names are gone down through directories. -/
theorem walk_down {t : Tree N C} {follow : Bool} (budget : Nat) {cur : Loc N} {names : List N}
    (ground : Grounded t (cur ++ names)) :
    (walk t follow budget cur (names.map .into)).result = .ok (.found (cur ++ names)) := by
  obtain ⟨f, own⟩ : ∃ f, walk t follow budget = stroll t follow f := by
    cases budget <;> exact ⟨_, rfl⟩
  rw [own]
  induction names generalizing cur with
  | nil => simp [stroll]
  | cons name names ih =>
    have whole : cur ++ name :: names = cur ++ [name] ++ names := by simp
    rw [whole] at ground ⊢
    have here : entry t (cur ++ [name]) = some .dir :=
      ground _ (List.prefix_append _ names)
    simp only [List.map_cons, stroll, Walk.after, here]
    exact ih ground

/-! ## Walking on from a directory -/

/-- A walk continued from where it ended, which must be a directory. -/
def Walk.andThen (t : Tree N C) (w : Walk N) (next : Loc N → Walk N) : Walk N :=
  match w.result with
  | .error e => ⟨w.visited, .error e⟩
  | .ok (.vacant _) => ⟨w.visited, .error .notFound⟩
  | .ok (.found dir) =>
    match entry t dir with
    | some .dir => ⟨w.visited ++ (next dir).visited, (next dir).result⟩
    | _ => ⟨w.visited, .error .notDirectory⟩

theorem Walk.andThen_after (t : Tree N C) (loc : Loc N) (w : Walk N) (next : Loc N → Walk N) :
    Walk.andThen t (w.after loc) next = (Walk.andThen t w next).after loc := by
  unfold Walk.andThen Walk.after
  cases w.result with
  | error e => rfl
  | ok place =>
    cases place with
    | vacant loc => rfl
    | found dir =>
      dsimp only
      split <;> rfl

theorem stroll_append {t : Tree N C} {follow : Bool} {budget : Nat} {ys : List (Hop N)}
    {f g : Loc N → List (Hop N) → Walk N} (more : ys ≠ [])
    (own : walk t follow budget = stroll t follow f)
    (links : ∀ cur hops, Grounded t cur → ∃ left ≤ budget,
      f cur (hops ++ ys) = (g cur hops).andThen t fun dir => walk t follow left dir ys)
    {cur : Loc N} (xs : List (Hop N)) (start : Grounded t cur) :
    ∃ left ≤ budget, stroll t follow f cur (xs ++ ys) =
      (stroll t true g cur xs).andThen t fun dir => walk t follow left dir ys := by
  induction xs generalizing cur with
  | nil =>
    refine ⟨budget, Nat.le_refl _, ?_⟩
    simp [stroll, Walk.andThen, start.entry, own]
  | cons hop rest ih =>
    cases hop with
    | here => exact ih start
    | up => exact ih start.dropLast
    | into name =>
      have long : rest ++ ys ≠ [] := by simp [more]
      simp only [List.cons_append, stroll, Walk.andThen_after]
      cases found : entry t (cur ++ [name]) with
      | none =>
        refine ⟨budget, Nat.le_refl _, ?_⟩
        by_cases last : rest = [] <;> simp [Walk.andThen, last, more]
      | some node =>
        cases node with
        | file content =>
          refine ⟨budget, Nat.le_refl _, ?_⟩
          by_cases last : rest = [] <;> simp [Walk.andThen, last, more, found]
        | dir =>
          obtain ⟨left, le, same⟩ := ih (start.concat found)
          exact ⟨left, le, by simp only [same]⟩
        | link target =>
          have base : Grounded t (if target.absolute then [] else cur) := by
            split
            · exact grounded_root t
            · exact start
          obtain ⟨left, le, same⟩ := links _ (target.hops ++ rest) base
          refine ⟨left, le, ?_⟩
          simp only [long, false_and, Bool.true_eq_false, and_false, ↓reduceIte]
          rw [← same, List.append_assoc]

/-- A longer route passes through the directory its first part leads to, with
some of the budget for links left. -/
theorem walk_append {t : Tree N C} {follow : Bool} {ys : List (Hop N)} (more : ys ≠ [])
    (budget : Nat) {cur : Loc N} (xs : List (Hop N)) (start : Grounded t cur) :
    ∃ left ≤ budget, walk t follow budget cur (xs ++ ys) =
      (walk t true budget cur xs).andThen t fun dir => walk t follow left dir ys := by
  induction budget generalizing cur xs with
  | zero =>
    exact stroll_append more rfl (fun _ _ _ => ⟨0, Nat.le_refl _, rfl⟩) xs start
  | succ budget ih =>
    refine stroll_append more rfl (fun cur hops base => ?_) xs start
    obtain ⟨left, le, same⟩ := ih hops base
    exact ⟨left, Nat.le_succ_of_le le, same⟩

/-- What looking up one name in a directory gives when the name is not a link
to be followed. -/
theorem walk_name {t : Tree N C} {follow : Bool} {budget : Nat} {dir : Loc N} {name : N}
    (plain : follow = true → ∀ target, entry t (dir ++ [name]) ≠ some (.link target)) :
    (walk t follow budget dir [.into name]).result =
      .ok (if entry t (dir ++ [name]) = none then .vacant (dir ++ [name])
        else .found (dir ++ [name])) := by
  have unfolds : ∃ f, walk t follow budget = stroll t follow f := by cases budget <;> exact ⟨_, rfl⟩
  obtain ⟨f, own⟩ := unfolds
  simp only [own, stroll, Walk.after]
  cases found : entry t (dir ++ [name]) with
  | none => simp
  | some node =>
    cases node with
    | file content => simp
    | dir => simp
    | link target =>
      cases follow with
      | true => exact absurd found (plain rfl target)
      | false => simp

/-! ## Leading to a directory -/

/-- The steps lead to a directory. -/
def LeadsTo (t : Tree N C) (start : Loc N) (hops : List (Hop N)) (dir : Loc N) : Prop :=
  (walk t true maxLinks start hops).result = .ok (.found dir) ∧ entry t dir = some .dir

/-- What stands at a location is gone through by a walk. -/
def Passable (t : Tree N C) (loc : Loc N) : Prop :=
  entry t loc = some .dir ∨ ∃ target, entry t loc = some (.link target)

theorem LeadsTo.unique {t : Tree N C} {start dir dir' : Loc N} {hops : List (Hop N)}
    (first : LeadsTo t start hops dir) (second : LeadsTo t start hops dir') : dir = dir' := by
  have same := first.1.symm.trans second.1
  simpa using same

theorem LeadsTo.grounded {t : Tree N C} {start dir : Loc N} {hops : List (Hop N)}
    (leads : LeadsTo t start hops dir) (base : Grounded t start) : Grounded t dir := by
  rcases walk_lands base leads.1 with there | ⟨_, _, -, -, file | ⟨bad, -⟩⟩
  · exact there
  · obtain ⟨content, file⟩ := file
    rw [leads.2] at file
    cases file
  · cases bad

/-- On the way to a directory every part of the route leads to one. -/
theorem LeadsTo.above {t : Tree N C} {start dir : Loc N} {xs ys : List (Hop N)}
    (base : Grounded t start) (leads : LeadsTo t start (xs ++ ys) dir) :
    ∃ mid, LeadsTo t start xs mid := by
  by_cases last : ys = []
  · subst last
    rw [List.append_nil] at leads
    exact ⟨dir, leads⟩
  · obtain ⟨left, -, split⟩ := walk_append last maxLinks xs base
    have ends := leads.1
    rw [split] at ends
    unfold Walk.andThen at ends
    split at ends
    · cases ends
    · cases ends
    · rename_i mid reached
      split at ends
      · rename_i isDir
        exact ⟨mid, reached, isDir⟩
      · cases ends

/-- A route that goes on after a free name leads nowhere. -/
theorem walk_past_vacant {t : Tree N C} {follow : Bool} {start : Loc N} {xs ys : List (Hop N)}
    {loc : Loc N} (base : Grounded t start) (more : ys ≠ [])
    (ends : (walk t true maxLinks start xs).result = .ok (.vacant loc)) :
    (walk t follow maxLinks start (xs ++ ys)).result = .error .notFound := by
  obtain ⟨left, -, split⟩ := walk_append more maxLinks xs base
  rw [split, Walk.andThen, ends]

theorem stroll_visits {t : Tree N C} {follow : Bool} {onLink : Loc N → List (Hop N) → Walk N}
    (links : ∀ cur hops last, (onLink cur hops).result = .ok (.found last) →
      ∀ loc ∈ (onLink cur hops).visited, Passable t loc ∨ loc = last)
    {cur last : Loc N} {hops : List (Hop N)}
    (ends : (stroll t follow onLink cur hops).result = .ok (.found last)) :
    ∀ loc ∈ (stroll t follow onLink cur hops).visited, Passable t loc ∨ loc = last := by
  induction hops generalizing cur with
  | nil => simp [stroll]
  | cons hop rest ih =>
    cases hop with
    | here => exact ih ends
    | up => exact ih ends
    | into name =>
      simp only [stroll, Walk.after, List.mem_cons, forall_eq_or_imp] at ends ⊢
      cases found : entry t (cur ++ [name]) with
      | none =>
        simp only [found] at ends
        split at ends <;> cases ends
      | some node =>
        cases node with
        | file content =>
          simp only [found] at ends ⊢
          split at ends
          · cases ends
            exact ⟨.inr rfl, by simp⟩
          · cases ends
        | dir =>
          simp only [found] at ends ⊢
          exact ⟨.inl (.inl found), ih ends⟩
        | link target =>
          simp only [found] at ends ⊢
          refine ⟨.inl (.inr ⟨target, found⟩), ?_⟩
          split at ends
          · rename_i last
            simp [last]
          · rename_i followed
            rw [if_neg followed]
            exact links _ _ _ ends

/-- A walk goes through directories and links to where it ends. -/
theorem walk_visits {t : Tree N C} {follow : Bool} {budget : Nat} {cur last : Loc N}
    {hops : List (Hop N)}
    (ends : (walk t follow budget cur hops).result = .ok (.found last)) :
    ∀ loc ∈ (walk t follow budget cur hops).visited, Passable t loc ∨ loc = last := by
  induction budget generalizing cur hops last with
  | zero => exact stroll_visits (fun _ _ _ bad => by cases bad) ends
  | succ budget ih => exact stroll_visits (fun _ _ _ ended => ih ended) ends

/-- Changes to free names and to other files leave the way to where a walk ends open. -/
theorem walk_found_congr {t t' : Tree N C} {follow : Bool} {budget : Nat} {cur last : Loc N}
    {hops : List (Hop N)}
    (ends : (walk t follow budget cur hops).result = .ok (.found last))
    (same : ∀ loc, Passable t loc ∨ loc = last → t' loc = t loc) :
    (walk t' follow budget cur hops).result = .ok (.found last) := by
  rw [walk_congr _ _ _ fun loc visited => same loc (walk_visits ends loc visited)]
  exact ends

/-- Changes to free names and to files leave the way to a directory open. -/
theorem LeadsTo.congr {t t' : Tree N C} {start dir : Loc N} {hops : List (Hop N)}
    (leads : LeadsTo t start hops dir) (same : ∀ loc, Passable t loc → t' loc = t loc) :
    LeadsTo t' start hops dir := by
  have open_way : ∀ loc, Passable t loc ∨ loc = dir → t' loc = t loc := by
    rintro loc (passable | rfl)
    · exact same loc passable
    · exact same loc (.inl leads.2)
  refine ⟨walk_found_congr leads.1 open_way, ?_⟩
  have here := same dir (.inl leads.2)
  have isDir := leads.2
  unfold entry at isDir ⊢
  rw [here]
  exact isDir

/-- The place with a given name. -/
def placeAt (t : Tree N C) (loc : Loc N) : Place N :=
  if entry t loc = none then .vacant loc else .found loc

@[simp] theorem placeAt_loc (t : Tree N C) (loc : Loc N) : (placeAt t loc).loc = loc := by
  unfold placeAt
  split <;> rfl

/-- A name is looked up in the directory that the steps before it lead to. -/
theorem walk_into_ok {t : Tree N C} {follow : Bool} {start : Loc N} {hops : List (Hop N)} {name : N}
    {tail : List (Hop N)} {place : Place N} (base : Grounded t start)
    (ends : (walk t follow maxLinks start (hops ++ .into name :: tail)).result = .ok place) :
    ∃ dir left, LeadsTo t start hops dir ∧
      (walk t follow left dir (.into name :: tail)).result = .ok place := by
  have more : Hop.into name :: tail ≠ [] := List.cons_ne_nil _ _
  obtain ⟨left, -, split⟩ := walk_append more maxLinks hops base
  rw [split] at ends
  unfold Walk.andThen at ends
  cases reached : (walk t true maxLinks start hops).result with
  | error e =>
    rw [reached] at ends
    cases ends
  | ok mid =>
    rw [reached] at ends
    cases mid with
    | vacant loc => cases ends
    | found dir =>
      dsimp only at ends
      split at ends
      · rename_i isDir
        exact ⟨dir, left, ⟨reached, isDir⟩, ends⟩
      · cases ends

/-- Where a route to a name leads, when a link with that name is not followed or
there is none. -/
theorem walk_into {t : Tree N C} {follow : Bool} {start dir : Loc N} {hops : List (Hop N)}
    {name : N} (base : Grounded t start) (leads : LeadsTo t start hops dir)
    (plain : follow = true → ∀ target, entry t (dir ++ [name]) ≠ some (.link target)) :
    (walk t follow maxLinks start (hops ++ [.into name])).result =
      .ok (placeAt t (dir ++ [name])) := by
  have more : [Hop.into name] ≠ [] := List.cons_ne_nil _ _
  obtain ⟨left, -, split⟩ := walk_append more maxLinks hops base
  rw [split]
  unfold Walk.andThen
  rw [leads.1]
  dsimp only
  rw [leads.2]
  exact walk_name plain

/-- The name at the end of a route is looked up. -/
theorem walk_into_visits {t : Tree N C} (follow : Bool) {start dir : Loc N} {hops : List (Hop N)}
    (name : N) (base : Grounded t start) (leads : LeadsTo t start hops dir) :
    dir ++ [name] ∈ (walk t follow maxLinks start (hops ++ [.into name])).visited := by
  obtain ⟨left, -, split⟩ := walk_append (List.cons_ne_nil (Hop.into name) []) maxLinks hops base
  rw [split]
  unfold Walk.andThen
  rw [leads.1]
  dsimp only
  rw [leads.2]
  refine List.mem_append_right _ ?_
  cases left <;> exact List.mem_cons_self

/-- Asking for a directory at the end of a route changes nothing when it leads to
one, and fails otherwise. -/
theorem walk_here_iff {t : Tree N C} {start : Loc N} {hops : List (Hop N)} {place : Place N}
    (base : Grounded t start) :
    (walk t true maxLinks start (hops ++ [.here])).result = .ok place ↔
      ∃ dir, LeadsTo t start hops dir ∧ place = .found dir := by
  have stays : ∀ left dir, walk t true left dir [.here] = ⟨[], .ok (.found dir)⟩ := by
    intro left dir
    cases left <;> rfl
  obtain ⟨left, -, split⟩ := walk_append (List.cons_ne_nil Hop.here []) maxLinks hops base
  rw [split]
  unfold Walk.andThen
  cases reached : (walk t true maxLinks start hops).result with
  | error e => simp [LeadsTo, reached]
  | ok mid =>
    cases mid with
    | vacant loc => simp [LeadsTo, reached]
    | found dir =>
      dsimp only
      split
      · rename_i isDir
        simp [stays, LeadsTo, reached, isDir, eq_comm]
      · rename_i notDir
        simp only [reduceCtorEq, LeadsTo, reached, false_iff, not_exists, not_and]
        rintro other ⟨⟨⟩, isDir⟩
        exact absurd isDir notDir

/-- A route whose last step is not a name ends at a directory or fails. -/
theorem walk_no_name {t : Tree N C} {follow : Bool} {start : Loc N} {hops : List (Hop N)}
    {last : Hop N} {place : Place N} (base : Grounded t start) (noName : ∀ name, last ≠ .into name)
    (ends : (walk t follow maxLinks start (hops ++ [last])).result = .ok place) :
    ∃ loc, place = .found loc ∧ entry t loc = some .dir := by
  obtain ⟨left, -, split⟩ := walk_append (List.cons_ne_nil last [])
    maxLinks hops base
  rw [split] at ends
  unfold Walk.andThen at ends
  cases reached : (walk t true maxLinks start hops).result with
  | error e =>
    rw [reached] at ends
    cases ends
  | ok mid =>
    rw [reached] at ends
    cases mid with
    | vacant loc => cases ends
    | found dir =>
      dsimp only at ends
      split at ends
      · rename_i isDir
        have there : Grounded t dir := LeadsTo.grounded ⟨reached, isDir⟩ base
        cases last with
        | here =>
          cases left <;> cases ends <;> exact ⟨dir, rfl, isDir⟩
        | up =>
          cases left <;> cases ends <;> exact ⟨dir.dropLast, rfl, there.dropLast.entry⟩
        | into name => exact absurd rfl (noName name)
      · cases ends

end Devit.Files
