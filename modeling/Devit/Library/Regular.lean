import Devit.Library.Directories
import Devit.Library.Following

/-! Trees of directories and regular files, without links. A path down from a
directory leads where its names say, if it leads anywhere, and what calls make in
such a tree keeps it one. -/
namespace Devit.FileSystem
open Files Path

/-- There are no links, and what stands anywhere stands in a directory. -/
def Regular (t : Tree Text Content) : Prop :=
  ∀ loc node, entry t loc = some node → (∀ target, node ≠ .link target) ∧ Grounded t loc.dropLast

/-- The content of the file at a location. -/
def fileAt (t : Tree Text Content) (loc : Loc Text) : Option Content :=
  match entry t loc with
  | some (.file content) => some content
  | _ => none

variable {d d' : Disk} {t t' : Tree Text Content}

theorem fileAt_eq_some {loc : Loc Text} {content : Content} :
    fileAt t loc = some content ↔ entry t loc = some (.file content) := by
  unfold fileAt
  cases entry t loc with
  | none => simp
  | some node => cases node <;> simp

theorem fileAt_congr {loc : Loc Text} (same : entry t' loc = entry t loc) :
    fileAt t' loc = fileAt t loc := by
  rw [fileAt, same, fileAt]

theorem fileAt_put {loc other : Loc Text} {content : Content} (below : loc ≠ []) :
    fileAt (put t loc (some (.file content))) other =
      if other = loc then some content else fileAt t other := by
  split
  · rename_i same
    rw [same, fileAt_eq_some]
    exact entry_put_self _ below
  · rename_i apart
    exact fileAt_congr (entry_put_other _ apart)

theorem Widened.fileAt (widened : Widened d d') (loc : Loc Text) :
    FileSystem.fileAt d'.tree loc = FileSystem.fileAt d.tree loc := by
  rcases widened.entry loc with kept | ⟨free, made⟩
  · exact fileAt_congr kept
  · rw [FileSystem.fileAt, FileSystem.fileAt, free, made]

/-! ## What keeps a tree regular -/

theorem Later.grounded (later : Later d d') {loc : Loc Text} (ground : Grounded d.tree loc) :
    Grounded d'.tree loc := fun above member => later.dirs above (ground above member)

theorem regular_put {loc : Loc Text} {node : Node Text Content} (regular : Regular d.tree)
    (plain : ∀ target, node ≠ .link target) (held : Grounded d.tree loc.dropLast)
    (notDir : entry d.tree loc ≠ some .dir) : Regular (d.put loc (some node)).tree := by
  have later : Later d (d.put loc (some node)) := Later.put _ notDir
  intro other found there
  rw [Disk.put, entry_put] at there
  split at there
  · rename_i top
    cases there
    rw [top]
    refine ⟨?_, grounded_root _⟩
    rintro target ⟨⟩
  · split at there
    · rename_i same
      cases there
      rw [same]
      exact ⟨plain, Later.grounded later held⟩
    · obtain ⟨kind, ground⟩ := regular other found there
      exact ⟨kind, Later.grounded later ground⟩

/-- The disk is one that calls can work on, and its tree is regular. -/
def Tidy (d : Disk) : Prop := d.Sound ∧ Regular d.tree

theorem keeps_mkdir (q : PathBuf) : Action.Keeps Tidy (atPath q mkdir) := by
  rintro d ⟨sound, regular⟩
  rcases mkdir_at_cases q d with ⟨e, failed⟩ | ⟨loc, vacant, made⟩
  · rw [failed]
    exact ⟨sound, regular⟩
  · rw [made]
    have free := lookup_vacant sound vacant
    obtain ⟨comps, name, dir, -, holds, rfl⟩ := holds_of_vacant sound vacant
    have notDir : entry d.tree (dir ++ [name]) ≠ some .dir := by
      rw [free]
      exact nofun
    refine ⟨(Later.put _ notDir).sound sound, regular_put regular nofun ?_ notDir⟩
    rw [List.dropLast_concat]
    exact LeadsTo.grounded holds (grounded_base sound q)

theorem keeps_ensureDir {I : Disk → Prop} (q : PathBuf) (made : Action.Keeps I (atPath q mkdir)) :
    Action.Keeps I (ensureDir q) := by
  intro d held
  have kept := made d held
  unfold ensureDir
  split
  · rename_i ran
    rw [ran] at kept
    exact kept
  · rename_i ran
    rw [ran] at kept
    split <;> exact kept

/-- What each `mkdir` keeps, making a directory with all above it keeps. -/
theorem keeps_createDirAllWithin {I : Disk → Prop} (made : ∀ q, Action.Keeps I (atPath q mkdir))
    (fuel : Nat) (q : PathBuf) : Action.Keeps I (createDirAllWithin fuel q) := by
  induction fuel generalizing q with
  | zero => exact Action.keeps_fail _
  | succ fuel ih =>
    intro d held
    have kept := made q d held
    rw [createDirAllWithin]
    dsimp only
    split
    · exact held
    · split
      · rename_i ran
        rw [ran] at kept
        exact kept
      · rename_i ran
        rw [ran] at kept
        split
        · split
          · exact kept
          · exact Action.keeps_bind (ih _) (fun _ => keeps_ensureDir q (made q)) _ kept
        · split <;> exact kept

theorem keeps_createDirAll (q : PathBuf) : Action.Keeps Tidy (createDirAll q) :=
  keeps_createDirAllWithin keeps_mkdir _ q

/-! ## Paths down from a directory -/

/-- Names are followed to where they say. -/
theorem follows_names (regular : Regular t) {cur last : Loc Text} {names left : List Text}
    (follows : Follows t cur (names.map .into) last left) : last ++ left = cur ++ names := by
  induction names generalizing cur with
  | nil =>
    cases follows
    simp
  | cons name names ih =>
    rw [List.map_cons, follows_into] at follows
    cases there : entry t (cur ++ [name]) with
    | none =>
      rw [there] at follows
      obtain ⟨rfl, more, down, rfl⟩ := follows
      rw [downNames_map, Option.some.injEq] at down
      rw [down]
    | some node =>
      rw [there] at follows
      cases node with
      | file content =>
        obtain ⟨rfl, down⟩ := follows
        rw [downNames_map, Option.some.injEq] at down
        rw [down, List.append_assoc, List.singleton_append]
      | dir =>
        rw [ih follows, List.append_assoc, List.singleton_append]
      | link target => exact absurd rfl ((regular _ _ there).1 target)

theorem leads_down {start mid : Loc Text} {xs : List (Hop Text)} {names : List Text}
    (base : Grounded t start) (leads : LeadsTo t start xs mid)
    (ground : Grounded t (mid ++ names)) :
    LeadsTo t start (xs ++ names.map .into) (mid ++ names) := by
  by_cases none_left : names = []
  · subst none_left
    simpa using leads
  · refine ⟨?_, ground.entry⟩
    have more : names.map Hop.into ≠ [] := by simpa using none_left
    obtain ⟨left, -, split⟩ := @walk_append _ _ t true _ more maxLinks _ xs base
    rw [split, Walk.andThen, leads.1]
    dsimp only
    rw [leads.2]
    exact walk_down left ground

theorem leads_down_only (regular : Regular t) {start mid dir : Loc Text} {xs : List (Hop Text)}
    {names : List Text} (base : Grounded t start) (leads : LeadsTo t start xs mid)
    (whole : LeadsTo t start (xs ++ names.map .into) dir) : dir = mid ++ names := by
  have first : Follows t start xs mid [] := walk_finds leads.1
  have all : Follows t start (xs ++ names.map .into) dir [] := walk_finds whole.1
  rcases first.onward base all with ⟨-, below⟩ | ⟨⟨content, isFile⟩, -⟩
  · rw [← follows_names regular below, List.append_nil]
  · rw [leads.2] at isFile
    cases isFile

/-- Replacing what no way goes through leaves the ways to directories open. -/
theorem opens_put {p : PathBuf} {dir loc : Loc Text} {node : Option (Node Text Content)}
    (blocked : ¬ Passable d.tree loc) (opens : Opens d p dir) : Opens (d.put loc node) p dir := by
  refine LeadsTo.congr opens fun other passable => ?_
  refine Function.update_of_ne ?_ _ _
  rintro rfl
  exact blocked passable

theorem Widened.opens (widened : Widened d d') {p : PathBuf} {dir : Loc Text}
    (opens : Opens d p dir) : Opens d' p dir := by
  induction widened with
  | refl => exact opens
  | make before free ih =>
    refine opens_put ?_ ih
    rintro (isDir | ⟨target, isLink⟩)
    · rw [free] at isDir
      cases isDir
    · rw [free] at isLink
      cases isLink

/-! ## Directories that were made -/

/-- What `mkdir` made is a directory that its path leads to. -/
theorem isDir_mkdir {q : PathBuf} (sound : d.Sound) (made : atPath q mkdir d = (.ok (), d')) :
    isDir d' q = true := by
  rcases mkdir_at_cases q d with ⟨e, failed⟩ | ⟨loc, vacant, ran⟩
  · rw [failed] at made
    cases made
  · rw [ran] at made
    cases made
    have free := lookup_vacant sound vacant
    obtain ⟨comps, name, dir, shape, holds, rfl⟩ := holds_of_vacant sound vacant
    have notDir : entry d.tree (dir ++ [name]) ≠ some .dir := by
      rw [free]
      exact nofun
    have later : Later d (d.put (dir ++ [name]) (some .dir)) := Later.put _ notDir
    have soundAfter := later.sound sound
    have blocked : ¬ Passable d.tree (dir ++ [name]) := by
      rintro (isDir | ⟨target, isLink⟩)
      · exact notDir isDir
      · rw [free] at isLink
        cases isLink
    have onward : LeadsTo (d.put (dir ++ [name]) (some .dir)).tree (base d q) (hops comps) dir := by
      rw [Holds, shape, List.dropLast_concat] at holds
      refine LeadsTo.congr holds fun other passable => Function.update_of_ne ?_ _ _
      rintro rfl
      exact blocked passable
    have start : Grounded (d.put (dir ++ [name]) (some .dir)).tree (base d q) :=
      grounded_base soundAfter q
    have ground : Grounded (d.put (dir ++ [name]) (some .dir)).tree (dir ++ [name]) :=
      (onward.grounded start).concat (entry_put_self _ (by simp))
    refine (isDir_iff soundAfter (text_ne_nil shape)).mpr ⟨dir ++ [name], ?_⟩
    have down := leads_down start onward ground
    rw [Opens, shape, hops_named]
    exact down

/-- A directory that was made with all above it is there. -/
theorem isDir_createDirAll {q : PathBuf} (sound : d.Sound) (filled : q.text ≠ [])
    (ran : createDirAll q d = (.ok (), d')) : isDir d' q = true := by
  rw [createDirAll, createDirAllWithin] at ran
  simp only [filled, ↓reduceIte] at ran
  cases made : atPath q mkdir d with
  | mk outcome mid =>
    rw [made] at ran
    cases outcome with
    | ok _ =>
      cases ran
      exact isDir_mkdir sound made
    | error e =>
      have widened : Widened d (atPath q mkdir d).2 := mkdir_at_widens sound
      rw [made] at widened
      dsimp only at ran
      split at ran
      · cases above : parent q with
        | none =>
          rw [above] at ran
          cases ran
        | some higher =>
          rw [above] at ran
          obtain ⟨_, below, first, last⟩ := Action.bind_eq_ok ran
          have wider : Widened mid (createDirAllWithin (components q).length higher mid).2 :=
            createDirAllWithin_widens (widened.later.sound sound)
          rw [first] at wider
          have soundBelow := wider.later.sound (widened.later.sound sound)
          unfold ensureDir at last
          split at last
          · rename_i there
            cases last
            exact isDir_mkdir soundBelow there
          · split at last
            · rename_i there
              cases last
              exact there
            · cases last
      · split at ran
        · rename_i there
          cases ran
          exact there
        · cases ran

/-! ## Paths below a directory -/

/-- The path spells these names below the root. -/
structure Below (root p : PathBuf) (names : List Text) : Prop where
  comps : components p = components root ++ names.map .normal
  absolute : isAbsolute p = isAbsolute root
  named : asksDir p = false

variable {root p : PathBuf} {top : Loc Text} {dir : List Text} {name : Text}

theorem Below.base (below : Below root p (dir ++ [name])) : base d p = base d root := by
  rw [FileSystem.base, FileSystem.base, below.absolute]

theorem hops_names (names : List Text) : hops (names.map .normal) = names.map .into := by
  rw [hops, List.filterMap_map]
  exact List.filterMap_eq_map' ▸ rfl

/-- **Paths below a directory.** In a regular tree such a path leads to its names,
if their directory is there. -/
theorem lookup_below {follow : Bool} {place : Place Text} (sound : d.Sound)
    (regular : Regular d.tree) (opens : Opens d root top) (below : Below root p (dir ++ [name])) :
    lookup d follow p = .ok place ↔
      Grounded d.tree (top ++ dir) ∧ place = placeAt d.tree (top ++ dir ++ [name]) := by
  have ground := grounded_base sound root
  have shape : components p = (components root ++ dir.map .normal) ++ [.normal name] := by
    rw [below.comps]
    simp
  have spelled : hops (components root ++ dir.map .normal) =
      hops (components root) ++ dir.map .into := by rw [hops_append, hops_names]
  have unlinked : ∀ target, entry d.tree (top ++ dir ++ [name]) ≠ some (.link target) :=
    fun target isLink => (regular _ _ isLink).1 target rfl
  constructor
  · intro leads
    have ends := leads
    rw [lookup_eq (text_ne_nil shape), shape, hops_named, below.named, if_neg Bool.false_ne_true,
      List.append_nil, spelled, below.base] at ends
    obtain ⟨mid, left, there, -⟩ := walk_into_ok ground ends
    obtain rfl := leads_down_only regular ground opens there
    refine ⟨there.grounded ground, ?_⟩
    rw [walk_into ground there fun _ => unlinked] at ends
    exact (Except.ok.inj ends).symm
  · rintro ⟨held, rfl⟩
    have holds : Holds d p (top ++ dir) := by
      rw [Holds, shape, List.dropLast_concat, spelled, below.base]
      exact leads_down ground opens held
    exact lookup_holds sound shape below.named holds fun _ => unlinked

/-- What exists below a directory is what stands there. -/
theorem exists_below (sound : d.Sound) (regular : Regular d.tree) (opens : Opens d root top)
    (below : Below root p (dir ++ [name])) :
    pathExists d p = true ↔ entry d.tree (top ++ dir ++ [name]) ≠ none := by
  constructor
  · intro there
    rw [pathExists, stat_eq] at there
    cases leads : lookup d true p with
    | error e => simp [leads, Except.isOk, Except.toBool] at there
    | ok place =>
      obtain ⟨-, rfl⟩ := (lookup_below sound regular opens below).mp leads
      intro free
      rw [leads] at there
      dsimp only at there
      rw [placeAt_loc, free] at there
      cases there
  · intro there
    obtain ⟨node, found⟩ := Option.ne_none_iff_exists'.mp there
    have held := (regular _ _ found).2
    rw [List.dropLast_concat] at held
    have leads : lookup d true p = .ok (placeAt d.tree (top ++ dir ++ [name])) :=
      (lookup_below sound regular opens below).mpr ⟨held, rfl⟩
    rw [pathExists, (stat_eq_ok leads).mpr (by rw [placeAt_loc]; exact found)]
    rfl

theorem stat_below {follow : Bool} {node : Node Text Content} (sound : d.Sound)
    (regular : Regular d.tree) (opens : Opens d root top) (below : Below root p (dir ++ [name])) :
    stat d follow p = .ok node ↔ entry d.tree (top ++ dir ++ [name]) = some node := by
  constructor
  · intro there
    cases leads : lookup d follow p with
    | error e => simp [stat_eq, leads] at there
    | ok place =>
      obtain ⟨-, rfl⟩ := (lookup_below sound regular opens below).mp leads
      have found := (stat_eq_ok leads).mp there
      rwa [placeAt_loc] at found
  · intro found
    have held := (regular _ _ found).2
    rw [List.dropLast_concat] at held
    have leads : lookup d follow p = .ok (placeAt d.tree (top ++ dir ++ [name])) :=
      (lookup_below sound regular opens below).mpr ⟨held, rfl⟩
    exact (stat_eq_ok leads).mpr (by rw [placeAt_loc]; exact found)

end Devit.FileSystem
