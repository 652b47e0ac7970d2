import Devit.Library.Files

/-! Where following a route leads when not all of it exists. Every link on the way
is followed, a dangling one too, down to the last place that exists; what is left
of the route then only adds names. -/
namespace Devit.Files

variable {N C : Type}

/-- The names of steps that only go down. -/
def downNames : List (Hop N) → Option (List N)
  | [] => some []
  | .here :: rest => downNames rest
  | .up :: _ => none
  | .into name :: rest => (downNames rest).map (name :: ·)

/-- Following the steps from a directory comes to a last place that exists, with
names left that do not exist in it. From a name that does not exist there is no
way up. -/
inductive Follows (t : Tree N C) : Loc N → List (Hop N) → Loc N → List N → Prop where
  | done (cur : Loc N) : Follows t cur [] cur []
  | here {cur last : Loc N} {rest : List (Hop N)} {left : List N} :
      Follows t cur rest last left → Follows t cur (.here :: rest) last left
  | up {cur last : Loc N} {rest : List (Hop N)} {left : List N} :
      Follows t cur.dropLast rest last left → Follows t cur (.up :: rest) last left
  | dir {cur last : Loc N} {name : N} {rest : List (Hop N)} {left : List N} :
      entry t (cur ++ [name]) = some .dir → Follows t (cur ++ [name]) rest last left →
      Follows t cur (.into name :: rest) last left
  | link {cur last : Loc N} {name : N} {target : Route N} {rest : List (Hop N)} {left : List N} :
      entry t (cur ++ [name]) = some (.link target) →
      Follows t (if target.absolute then [] else cur) (target.hops ++ rest) last left →
      Follows t cur (.into name :: rest) last left
  | file {cur : Loc N} {name : N} {content : C} {rest : List (Hop N)} {left : List N} :
      entry t (cur ++ [name]) = some (.file content) → downNames rest = some left →
      Follows t cur (.into name :: rest) (cur ++ [name]) left
  | missing {cur : Loc N} {name : N} {rest : List (Hop N)} {left : List N} :
      entry t (cur ++ [name]) = none → downNames rest = some left →
      Follows t cur (.into name :: rest) cur (name :: left)

variable {t : Tree N C}

/-- What following one name does, by what stands there. -/
theorem follows_into {cur last : Loc N} {name : N} {rest : List (Hop N)} {left : List N} :
    Follows t cur (.into name :: rest) last left ↔
      match entry t (cur ++ [name]) with
      | none => last = cur ∧ ∃ more, downNames rest = some more ∧ left = name :: more
      | some (.file _) => last = cur ++ [name] ∧ downNames rest = some left
      | some .dir => Follows t (cur ++ [name]) rest last left
      | some (.link target) =>
        Follows t (if target.absolute then [] else cur) (target.hops ++ rest) last left := by
  constructor
  · intro follows
    cases follows with
    | dir there below =>
      rw [there]
      exact below
    | link there onward =>
      rw [there]
      exact onward
    | file there down =>
      rw [there]
      exact ⟨rfl, down⟩
    | missing free down =>
      rw [free]
      exact ⟨rfl, _, down, rfl⟩
  · intro shape
    cases there : entry t (cur ++ [name]) with
    | none =>
      rw [there] at shape
      obtain ⟨rfl, more, down, rfl⟩ := shape
      exact .missing there down
    | some node =>
      rw [there] at shape
      cases node with
      | file content =>
        obtain ⟨rfl, down⟩ := shape
        exact .file there down
      | dir => exact .dir there shape
      | link target => exact .link there shape

/-- Following leads to one place. -/
theorem Follows.unique {cur last last' : Loc N} {hops : List (Hop N)} {left left' : List N}
    (first : Follows t cur hops last left) (second : Follows t cur hops last' left') :
    last = last' ∧ left = left' := by
  induction first with
  | done cur =>
    cases second
    exact ⟨rfl, rfl⟩
  | here _ ih =>
    cases second with
    | here onward => exact ih onward
  | up _ ih =>
    cases second with
    | up onward => exact ih onward
  | dir there _ ih =>
    rw [follows_into, there] at second
    exact ih second
  | link there _ ih =>
    rw [follows_into, there] at second
    exact ih second
  | file there down =>
    rw [follows_into, there] at second
    obtain ⟨rfl, down'⟩ := second
    exact ⟨rfl, Option.some.inj (down.symm.trans down')⟩
  | missing free down =>
    rw [follows_into, free] at second
    obtain ⟨rfl, more, down', rfl⟩ := second
    exact ⟨rfl, by rw [Option.some.inj (down.symm.trans down')]⟩

/-! ## Following and walking -/

/-- A route through a directory is followed on from there. -/
theorem Follows.append {cur mid last : Loc N} {xs ys : List (Hop N)} {left : List N}
    (first : Follows t cur xs mid []) (isDir : entry t mid = some .dir)
    (onward : Follows t mid ys last left) : Follows t cur (xs ++ ys) last left := by
  generalize none_left : ([] : List N) = nothing at first
  induction first with
  | done cur => exact onward
  | here _ ih => exact .here (ih isDir onward none_left)
  | up _ ih => exact .up (ih isDir onward none_left)
  | dir there _ ih => exact .dir there (ih isDir onward none_left)
  | link there _ ih =>
    have whole := ih isDir onward none_left
    rw [List.append_assoc] at whole
    exact .link there whole
  | file there _ =>
    rw [there] at isDir
    cases isDir
  | missing _ _ => cases none_left

/-- What a walk found, following finds. -/
def Finds (t : Tree N C) (cur : Loc N) (hops : List (Hop N)) : Place N → Prop
  | .found loc => Follows t cur hops loc []
  | .vacant loc => ∃ dir name, loc = dir ++ [name] ∧ Follows t cur hops dir [name]

theorem stroll_finds {onLink : Loc N → List (Hop N) → Walk N}
    (links : ∀ cur hops place, (onLink cur hops).result = .ok place → Finds t cur hops place)
    {cur : Loc N} {hops : List (Hop N)} {place : Place N}
    (ends : (stroll t true onLink cur hops).result = .ok place) : Finds t cur hops place := by
  induction hops generalizing cur with
  | nil =>
    cases ends
    exact .done cur
  | cons hop rest ih =>
    cases hop with
    | here =>
      have onward := ih ends
      cases place with
      | found loc => exact .here onward
      | vacant loc =>
        obtain ⟨dir, name, shape, follows⟩ := onward
        exact ⟨dir, name, shape, .here follows⟩
    | up =>
      have onward := ih ends
      cases place with
      | found loc => exact .up onward
      | vacant loc =>
        obtain ⟨dir, name, shape, follows⟩ := onward
        exact ⟨dir, name, shape, .up follows⟩
    | into name =>
      simp only [stroll, Walk.after] at ends
      cases there : entry t (cur ++ [name]) with
      | none =>
        simp only [there] at ends
        split at ends <;> cases ends
        rename_i last
        subst last
        exact ⟨cur, name, rfl, .missing there rfl⟩
      | some node =>
        cases node with
        | file content =>
          simp only [there] at ends
          split at ends <;> cases ends
          rename_i last
          subst last
          exact .file there rfl
        | dir =>
          simp only [there] at ends
          have onward := ih ends
          cases place with
          | found loc => exact .dir there onward
          | vacant loc =>
            obtain ⟨dir, other, shape, follows⟩ := onward
            exact ⟨dir, other, shape, .dir there follows⟩
        | link target =>
          simp only [there, Bool.true_eq_false, and_false, ↓reduceIte] at ends
          have onward := links _ _ _ ends
          cases place with
          | found loc => exact .link there onward
          | vacant loc =>
            obtain ⟨dir, other, shape, follows⟩ := onward
            exact ⟨dir, other, shape, .link there follows⟩

/-- **Walks follow.** A walk that follows links ends where following leads. -/
theorem walk_finds {budget : Nat} {cur : Loc N} {hops : List (Hop N)} {place : Place N}
    (ends : (walk t true budget cur hops).result = .ok place) : Finds t cur hops place := by
  induction budget generalizing cur hops place with
  | zero => exact stroll_finds (fun _ _ _ bad => by cases bad) ends
  | succ budget ih => exact stroll_finds (fun _ _ _ ended => ih ended) ends

/-- Directories are followed down to. -/
theorem follows_down {cur : Loc N} {names : List N} (ground : Grounded t (cur ++ names)) :
    Follows t cur (names.map .into) (cur ++ names) [] :=
  walk_finds (walk_down 0 ground)

theorem downNames_map (names : List N) : downNames (names.map Hop.into) = some names := by
  induction names with
  | nil => rfl
  | cons name names ih => simp [downNames, ih]

theorem downNames_append {xs ys : List (Hop N)} {names : List N} (down : downNames xs = some names) :
    downNames (xs ++ ys) = (downNames ys).map (names ++ ·) := by
  induction xs generalizing names with
  | nil =>
    cases down
    simp
  | cons hop xs ih =>
    cases hop with
    | here => exact ih down
    | up => cases down
    | into name =>
      obtain ⟨more, below, rfl⟩ := Option.map_eq_some_iff.mp down
      rw [List.cons_append, downNames, ih below, Option.map_map]
      rfl

/-- A longer route goes on from what its first part leads to: through a directory,
and from a file by adding names. -/
theorem Follows.onward {cur mid last : Loc N} {xs ys : List (Hop N)} {left : List N}
    (ground : Grounded t cur) (first : Follows t cur xs mid [])
    (whole : Follows t cur (xs ++ ys) last left) :
    (entry t mid = some .dir ∧ Follows t mid ys last left) ∨
      (∃ content, entry t mid = some (.file content)) ∧ last = mid ∧ downNames ys = some left := by
  generalize none_left : ([] : List N) = nothing at first
  induction first with
  | done cur => exact .inl ⟨ground.entry, whole⟩
  | here _ ih =>
    cases whole with
    | here whole => exact ih ground whole none_left
  | up _ ih =>
    cases whole with
    | up whole => exact ih ground.dropLast whole none_left
  | dir there _ ih =>
    rw [List.cons_append, follows_into, there] at whole
    exact ih (ground.concat there) whole none_left
  | @link cur _ name target rest _ there _ ih =>
    rw [List.cons_append, follows_into, there] at whole
    refine ih ?_ (by rw [List.append_assoc]; exact whole) none_left
    split
    · exact grounded_root t
    · exact ground
  | @file cur name content rest _ there down =>
    subst none_left
    rw [List.cons_append, follows_into, there] at whole
    obtain ⟨rfl, more⟩ := whole
    rw [downNames_append down, Option.map_eq_some_iff] at more
    obtain ⟨names, below, rfl⟩ := more
    exact .inr ⟨⟨content, there⟩, rfl, below⟩
  | missing free down => cases none_left

/-- The directory above one that is led to is led to. -/
theorem LeadsTo.up {start dir : Loc N} {hops : List (Hop N)} (base : Grounded t start)
    (leads : LeadsTo t start hops dir) : LeadsTo t start (hops ++ [.up]) dir.dropLast := by
  refine ⟨?_, (leads.grounded base).dropLast.entry⟩
  obtain ⟨left, -, split⟩ := @walk_append _ _ t true _ (List.cons_ne_nil Hop.up []) maxLinks _ hops base
  rw [split, Walk.andThen, leads.1]
  dsimp only
  rw [leads.2]
  cases left <;> rfl

/-! ## Below a root -/

/-- A directory that is reached through directories only, or a file in one. -/
def Standing (t : Tree N C) (root : Loc N) : Prop := Lands t true (.found root)

theorem standing_cases {root : Loc N} (standing : Standing t root) :
    Grounded t root ∨ ∃ dir name content, root = dir ++ [name] ∧ Grounded t dir ∧
      entry t root = some (.file content) := by
  rcases standing with ground | ⟨dir, name, shape, ground, ⟨content, isFile⟩ | ⟨bad, -⟩⟩
  · exact .inl ground
  · exact .inr ⟨dir, name, content, shape, ground, isFile⟩
  · cases bad

theorem standing_ne_link {root : Loc N} (standing : Standing t root) (target : Route N) :
    entry t root ≠ some (.link target) := by
  rcases standing_cases standing with ground | ⟨dir, name, content, -, -, isFile⟩
  · simp [ground.entry]
  · simp [isFile]

/-- The steps down to a place that stands lead there. -/
theorem Standing.follows {root : Loc N} (standing : Standing t root) :
    Follows t [] (root.map .into) root [] := by
  rcases standing_cases standing with ground | ⟨dir, name, content, rfl, ground, isFile⟩
  · exact @follows_down _ _ _ [] root ground
  · have holds : LeadsTo t [] (dir.map .into) dir :=
      ⟨@walk_down _ _ _ _ maxLinks [] _ ground, ground.entry⟩
    have ends := @walk_into _ _ _ true _ _ _ name (grounded_root t) holds (by simp [isFile])
    rw [placeAt, if_neg (by simp [isFile])] at ends
    rw [List.map_append]
    exact walk_finds ends

/-- What stands between the last place that exists and the names that are added:
the first of them is missing there, or that place is no directory. -/
theorem Follows.stops {cur last : Loc N} {hops : List (Hop N)} {left : List N}
    (ground : Grounded t cur) (follows : Follows t cur hops last left) :
    Grounded t last ∧ (∀ name more, left = name :: more → entry t (last ++ [name]) = none) ∨
      ∃ content, entry t last = some (.file content) := by
  induction follows with
  | done cur => exact .inl ⟨ground, nofun⟩
  | here _ ih => exact ih ground
  | up _ ih => exact ih ground.dropLast
  | dir there _ ih => exact ih (ground.concat there)
  | link there _ ih =>
    refine ih ?_
    split
    · exact grounded_root t
    · exact ground
  | @file cur name content rest _ there down => exact .inr ⟨content, there⟩
  | missing free down =>
    refine .inl ⟨ground, ?_⟩
    rintro name more ⟨⟩
    exact free

/-- Above a place that stands there are directories, and no links. -/
theorem Standing.above {root loc : Loc N} {name : N} (standing : Standing t root)
    (above : loc ++ [name] <+: root) :
    Grounded t loc ∧ Standing t (loc ++ [name]) := by
  rcases standing_cases standing with ground | ⟨dir, last, content, rfl, ground, isFile⟩
  · have next := ground.of_prefix above
    exact ⟨next.of_prefix (List.prefix_append _ _), .inl next⟩
  · rcases List.prefix_concat_iff.mp above with same | inside
    · obtain ⟨rfl, -⟩ := List.append_inj' same rfl
      rw [same]
      exact ⟨ground, standing⟩
    · have next := ground.of_prefix inside
      exact ⟨next.of_prefix (List.prefix_append _ _), .inl next⟩

theorem Standing.there {root : Loc N} (standing : Standing t root) : entry t root ≠ none := by
  rcases standing_cases standing with ground | ⟨dir, name, content, -, -, isFile⟩
  · simp [ground.entry]
  · simp [isFile]

/-- Adding names that do not exist never comes to a place that stands. -/
theorem Follows.inside_iff {cur root last : Loc N} {hops : List (Hop N)} {left : List N}
    (ground : Grounded t cur) (standing : Standing t root)
    (follows : Follows t cur hops last left) : root <+: last ++ left ↔ root <+: last := by
  refine ⟨fun inside => ?_, fun inside => inside.trans (List.prefix_append _ _)⟩
  rcases List.prefix_or_prefix_of_prefix inside (List.prefix_append last left) with below | above
  · exact below
  obtain ⟨added, rfl⟩ := above
  cases added with
  | nil => simp
  | cons name added =>
    obtain ⟨more, rest⟩ := (List.prefix_append_right_inj last).mp inside
    obtain ⟨isDir, stands⟩ := @Standing.above _ _ _ _ last name standing (by simp)
    rcases follows.stops ground with ⟨-, free⟩ | ⟨content, isFile⟩
    · exact absurd (free name (added ++ more) (by rw [← rest, List.cons_append])) stands.there
    · rw [isDir.entry] at isFile
      cases isFile

end Devit.Files
