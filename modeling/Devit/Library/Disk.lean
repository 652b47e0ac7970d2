import Mathlib.Logic.Function.Basic
import Devit.Library.Action
import Devit.Library.Files

/-! The calls that change a file tree. They fail only for the shape of the tree:
permissions, quotas and crashes are not part of this model. Each call comes with
what it can do, and with what no call does: a directory is never removed or
replaced. -/
namespace Devit.Files

variable {N C : Type}

/-- A tree with the caller's current directory, and a record of every location
that a call created, overwrote or removed, oldest first. -/
structure Disk (N C : Type) where
  tree : Tree N C
  cwd : Loc N
  touched : List (Loc N)

/-- The current directory is one, and so is all above it. -/
def Disk.Sound (d : Disk N C) : Prop := Grounded d.tree d.cwd

theorem Disk.Sound.base {d : Disk N C} (sound : d.Sound) (absolute : Bool) :
    Grounded d.tree (if absolute then [] else d.cwd) := by
  split
  · exact grounded_root d.tree
  · exact sound

/-- A disk that calls have worked on: the current directory is the same, and so
is everything that was a directory. -/
structure Later (d d' : Disk N C) : Prop where
  cwd : d'.cwd = d.cwd
  dirs : ∀ loc, entry d.tree loc = some .dir → entry d'.tree loc = some .dir

theorem Later.refl (d : Disk N C) : Later d d := ⟨rfl, fun _ h => h⟩

theorem Later.trans {a b c : Disk N C} (first : Later a b) (second : Later b c) : Later a c :=
  ⟨second.cwd.trans first.cwd, fun loc isDir => second.dirs loc (first.dirs loc isDir)⟩

theorem Later.sound {d d' : Disk N C} (later : Later d d') (sound : d.Sound) : d'.Sound := by
  intro above member
  rw [later.cwd] at member
  exact later.dirs above (sound above member)

/-- Where a route leads from the disk's current directory. -/
def Disk.resolve (d : Disk N C) (follow : Bool) (r : Route N) : Except Errno (Place N) :=
  Files.resolve d.tree follow d.cwd r

/-- The entry a route leads to. -/
def Disk.stat (d : Disk N C) (follow : Bool) (r : Route N) : Except Errno (Node N C) :=
  match d.resolve follow r with
  | .error e => .error e
  | .ok place =>
    match entry d.tree place.loc with
    | none => .error .notFound
    | some node => .ok node

theorem resolve_vacant {d : Disk N C} {follow : Bool} {r : Route N} {loc : Loc N}
    (sound : d.Sound) (leads : d.resolve follow r = .ok (.vacant loc)) : entry d.tree loc = none := by
  obtain ⟨dir, name, -, -, free⟩ := walk_lands (sound.base r.absolute) leads
  exact free

/-- A followed route ends at no link. -/
theorem resolve_follow {d : Disk N C} {r : Route N} {place : Place N} (sound : d.Sound)
    (leads : d.resolve true r = .ok place) (target : Route N) :
    entry d.tree place.loc ≠ some (.link target) := by
  have lands := walk_lands (sound.base r.absolute) leads
  intro isLink
  cases place with
  | vacant loc =>
    obtain ⟨dir, name, -, -, free⟩ := lands
    rw [Place.loc, free] at isLink
    cases isLink
  | found loc =>
    rw [Place.loc] at isLink
    rcases lands with there | ⟨_, _, -, -, ⟨content, isFile⟩ | ⟨bad, -⟩⟩
    · rw [there.entry] at isLink
      cases isLink
    · rw [isFile] at isLink
      cases isLink
    · cases bad

variable [DecidableEq N]

/-- The tree with one entry replaced. -/
def put (t : Tree N C) (loc : Loc N) (node : Option (Node N C)) : Tree N C :=
  Function.update t loc node

/-- The disk after an entry was replaced by a call. -/
def Disk.put (d : Disk N C) (loc : Loc N) (node : Option (Node N C)) : Disk N C :=
  { d with tree := Files.put d.tree loc node, touched := d.touched ++ [loc] }

/-- `mkdir(2)`. -/
def mkdir (r : Route N) : Action Errno (Disk N C) Unit := fun d =>
  match d.resolve false r with
  | .error e => (.error e, d)
  | .ok (.found _) => (.error .alreadyExists, d)
  | .ok (.vacant loc) => (.ok (), d.put loc (some .dir))

/-- `open(2)` for writing with `O_CREAT` and `O_TRUNC`: a link at the end is
followed, also one that leads to a free name. The file opened is returned. -/
def openTruncate (empty : C) (r : Route N) : Action Errno (Disk N C) (Loc N) := fun d =>
  match d.resolve true r with
  | .error e => (.error e, d)
  | .ok place =>
    match entry d.tree place.loc with
    | some .dir => (.error .isDirectory, d)
    | _ => (.ok place.loc, d.put place.loc (some (.file empty)))

/-- Writing the whole content of an opened file. -/
def writeAll (loc : Loc N) (content : C) : Action Errno (Disk N C) Unit := fun d =>
  (.ok (), d.put loc (some (.file content)))

/-- `unlink(2)`. -/
def unlink (r : Route N) : Action Errno (Disk N C) Unit := fun d =>
  match d.resolve false r with
  | .error e => (.error e, d)
  | .ok (.vacant _) => (.error .notFound, d)
  | .ok (.found loc) =>
    match entry d.tree loc with
    | some .dir => (.error .isDirectory, d)
    | _ => (.ok (), d.put loc none)

/-- `rename(2)` of something that is not a directory: neither name is followed,
and an entry with the new name is replaced. -/
def rename (old new : Route N) : Action Errno (Disk N C) Unit := fun d =>
  match d.resolve false old with
  | .error e => (.error e, d)
  | .ok (.vacant _) => (.error .notFound, d)
  | .ok (.found source) =>
    match entry d.tree source with
    | none => (.error .notFound, d)
    | some .dir => (.error .invalidInput, d)
    | some node =>
      match d.resolve false new with
      | .error e => (.error e, d)
      | .ok place =>
        if place.loc = source then (.ok (), d)
        else
          match entry d.tree place.loc with
          | some .dir => (.error .isDirectory, d)
          | _ => (.ok (), (d.put source none).put place.loc (some node))

/-! ## What each call can do -/

theorem entry_put (t : Tree N C) (loc other : Loc N) (node : Option (Node N C)) :
    entry (put t loc node) other =
      if other = [] then some .dir else if other = loc then node else entry t other := by
  unfold entry put Function.update
  by_cases root : other = []
  · simp [root]
  · by_cases same : other = loc
    · subst same
      simp [root]
    · simp [root, same]

theorem entry_put_self {t : Tree N C} {loc : Loc N} (node : Option (Node N C)) (below : loc ≠ []) :
    entry (put t loc node) loc = node := by
  simp [entry_put, below]

theorem entry_put_other {t : Tree N C} {loc other : Loc N} (node : Option (Node N C))
    (apart : other ≠ loc) : entry (put t loc node) other = entry t other := by
  rw [entry_put]
  split
  · rename_i root
    simp [entry, root]
  · rfl

theorem mkdir_cases (r : Route N) (d : Disk N C) :
    (∃ e, mkdir r d = (.error e, d)) ∨
      ∃ loc, d.resolve false r = .ok (.vacant loc) ∧ mkdir r d = (.ok (), d.put loc (some .dir)) := by
  unfold mkdir
  cases d.resolve false r with
  | error e => exact .inl ⟨e, rfl⟩
  | ok place =>
    cases place with
    | found loc => exact .inl ⟨_, rfl⟩
    | vacant loc => exact .inr ⟨loc, rfl, rfl⟩

theorem openTruncate_cases (empty : C) (r : Route N) (d : Disk N C) :
    (∃ e, openTruncate empty r d = (.error e, d)) ∨
      ∃ place, d.resolve true r = .ok place ∧ entry d.tree place.loc ≠ some .dir ∧
        openTruncate empty r d = (.ok place.loc, d.put place.loc (some (.file empty))) := by
  unfold openTruncate
  cases d.resolve true r with
  | error e => exact .inl ⟨e, rfl⟩
  | ok place =>
    dsimp only
    split
    · exact .inl ⟨_, rfl⟩
    · rename_i notDir
      exact .inr ⟨place, rfl, notDir, rfl⟩

theorem unlink_cases (r : Route N) (d : Disk N C) :
    (∃ e, unlink r d = (.error e, d)) ∨
      ∃ loc, d.resolve false r = .ok (.found loc) ∧ entry d.tree loc ≠ some .dir ∧
        unlink r d = (.ok (), d.put loc none) := by
  unfold unlink
  cases d.resolve false r with
  | error e => exact .inl ⟨e, rfl⟩
  | ok place =>
    cases place with
    | vacant loc => exact .inl ⟨_, rfl⟩
    | found loc =>
      dsimp only
      split
      · exact .inl ⟨_, rfl⟩
      · rename_i notDir
        exact .inr ⟨loc, rfl, notDir, rfl⟩

theorem rename_cases (old new : Route N) (d : Disk N C) :
    (∃ e, rename old new d = (.error e, d)) ∨
      ∃ source place node, d.resolve false old = .ok (.found source) ∧
        entry d.tree source = some node ∧ node ≠ .dir ∧ d.resolve false new = .ok place ∧
        (place.loc = source ∧ rename old new d = (.ok (), d) ∨
          place.loc ≠ source ∧ entry d.tree place.loc ≠ some .dir ∧
            rename old new d = (.ok (), (d.put source none).put place.loc (some node))) := by
  unfold rename
  cases d.resolve false old with
  | error e => exact .inl ⟨e, rfl⟩
  | ok first =>
    cases first with
    | vacant loc => exact .inl ⟨_, rfl⟩
    | found source =>
      dsimp only
      split
      · exact .inl ⟨_, rfl⟩
      · exact .inl ⟨_, rfl⟩
      · rename_i node notDir there
        cases d.resolve false new with
        | error e => exact .inl ⟨e, rfl⟩
        | ok place =>
          dsimp only
          have other : node ≠ .dir := fun same => notDir same
          by_cases same : place.loc = source
          · rw [if_pos same]
            exact .inr ⟨source, place, node, rfl, there, other, rfl, .inl ⟨same, rfl⟩⟩
          · rw [if_neg same]
            split
            · exact .inl ⟨_, rfl⟩
            · rename_i free
              exact .inr ⟨source, place, node, rfl, there, other, rfl, .inr ⟨same, free, rfl⟩⟩

/-! ## What no call does -/

theorem Later.put {d : Disk N C} {loc : Loc N} (node : Option (Node N C))
    (notDir : entry d.tree loc ≠ some .dir) : Later d (d.put loc node) := by
  refine ⟨rfl, fun other isDir => ?_⟩
  have apart : other ≠ loc := by
    rintro rfl
    exact notDir isDir
  rw [Disk.put, entry_put_other node apart]
  exact isDir

end Devit.Files
