import Devit.Library.Disk
import Devit.Library.Path

/-! `std::fs` on Unix: the calls of `Devit.Files` at paths as Rust spells them.
Names are text, and a file's bytes are either valid UTF-8, kept as the text they
spell, or not. -/
namespace Devit.FileSystem
open Files Path

/-- The bytes of a file. -/
inductive Content where
  | utf8 (text : Text)
  /-- Bytes that are not valid UTF-8. -/
  | raw (bytes : List UInt8)
  deriving DecidableEq, Repr

abbrev Disk := Files.Disk Text Content

/-- What the kernel makes of one component. -/
def hop : Component → Option (Hop Text)
  | .rootDir => none
  | .curDir => none
  | .parentDir => some .up
  | .normal name => some (.into name)

/-- The steps of a list of components. -/
def hops (comps : List Component) : List (Hop Text) := comps.filterMap hop

/-- The route a path spells. A `.` on the way is no step, one at the end asks for
a directory as a slash there does, and the empty path leads nowhere. -/
def route (p : PathBuf) : Option (Route Text) :=
  if p.text = [] then none
  else some ⟨isAbsolute p, hops (components p) ++ if asksDir p then [.here] else []⟩

/-- A call on the route of a path. -/
def atPath {α : Type} (p : PathBuf) (call : Route Text → Action Errno Disk α) :
    Action Errno Disk α :=
  match route p with
  | none => .fail .notFound
  | some r => call r

/-- `fs::metadata` and, without following, `fs::symlink_metadata`. -/
def stat (d : Disk) (follow : Bool) (p : PathBuf) : Except Errno (Node Text Content) :=
  match route p with
  | none => .error .notFound
  | some r => d.stat follow r

/-- `Path::exists`. -/
def pathExists (d : Disk) (p : PathBuf) : Bool := (stat d true p).isOk

/-- `Path::is_dir`. -/
def isDir (d : Disk) (p : PathBuf) : Bool :=
  match stat d true p with
  | .ok .dir => true
  | _ => false

/-- `fs::read_to_string`. -/
def readToString (d : Disk) (p : PathBuf) : Except Errno Text :=
  match stat d true p with
  | .error e => .error e
  | .ok (.file (.utf8 text)) => .ok text
  | .ok (.file (.raw _)) => .error .invalidData
  | .ok _ => .error .isDirectory

/-- The absolute path of a location. -/
def absolute (loc : Loc Text) : PathBuf := ofComponents (.rootDir :: loc.map .normal)

/-- `fs::canonicalize`. -/
def canonicalize (d : Disk) (p : PathBuf) : Except Errno PathBuf :=
  match route p with
  | none => .error .notFound
  | some r =>
    match d.resolve true r with
    | .error e => .error e
    | .ok (.vacant _) => .error .notFound
    | .ok (.found loc) => .ok (absolute loc)

/-- `mkdir` that is content with a directory already there. -/
def ensureDir (p : PathBuf) : Action Errno Disk Unit := fun d =>
  match atPath p mkdir d with
  | (.ok (), d') => (.ok (), d')
  | (.error e, d') => if isDir d' p then (.ok (), d') else (.error e, d')

/-- `fs::create_dir_all`, with `fuel` at least the number of components: a
directory whose parent is missing is made after its parent. -/
def createDirAllWithin : Nat → PathBuf → Action Errno Disk Unit
  | 0, _ => .fail .notFound
  | fuel + 1, p => fun d =>
    if p.text = [] then (.ok (), d)
    else
      match atPath p mkdir d with
      | (.ok (), d') => (.ok (), d')
      | (.error e, d') =>
        if e = .notFound then
          match parent p with
          | none => (.error .invalidInput, d')
          | some above =>
            (createDirAllWithin fuel above >>= fun () => ensureDir p : Action Errno Disk Unit) d'
        else if isDir d' p then (.ok (), d')
        else (.error e, d')

/-- `fs::create_dir_all`. -/
def createDirAll (p : PathBuf) : Action Errno Disk Unit :=
  createDirAllWithin ((components p).length + 1) p

/-- `fs::remove_file`. -/
def removeFile (p : PathBuf) : Action Errno Disk Unit := atPath p unlink

/-- `fs::rename` of a file. -/
def renameFile (old new : PathBuf) : Action Errno Disk Unit :=
  atPath old fun source => atPath new fun target => rename source target

/-! ## Where paths lead -/

/-- The directory a path is taken from. -/
def base (d : Disk) (p : PathBuf) : Loc Text := if isAbsolute p then [] else d.cwd

/-- The path leads to a directory. -/
def Opens (d : Disk) (p : PathBuf) (dir : Loc Text) : Prop :=
  LeadsTo d.tree (base d p) (hops (components p)) dir

/-- All of the path but its last component leads to a directory. -/
def Holds (d : Disk) (p : PathBuf) (dir : Loc Text) : Prop :=
  LeadsTo d.tree (base d p) (hops (components p).dropLast) dir

/-- Where a path leads. -/
def lookup (d : Disk) (follow : Bool) (p : PathBuf) : Except Errno (Place Text) :=
  match route p with
  | none => .error .notFound
  | some r => d.resolve follow r

theorem grounded_base {d : Disk} (sound : d.Sound) (p : PathBuf) : Grounded d.tree (base d p) :=
  sound.base (isAbsolute p)

theorem lookup_eq {d : Disk} {follow : Bool} {p : PathBuf} (filled : p.text ≠ []) :
    lookup d follow p = (walk d.tree follow maxLinks (base d p)
      (hops (components p) ++ if asksDir p then [.here] else [])).result := by
  rw [lookup, route, if_neg filled]
  rfl

theorem stat_eq (d : Disk) (follow : Bool) (p : PathBuf) :
    stat d follow p = match lookup d follow p with
      | .error e => .error e
      | .ok place =>
        match entry d.tree place.loc with
        | none => .error .notFound
        | some node => .ok node := by
  unfold stat lookup
  cases route p with
  | none => rfl
  | some r =>
    dsimp only [Disk.stat]
    cases d.resolve follow r with
    | error e => rfl
    | ok place => dsimp only; cases entry d.tree place.loc <;> rfl

theorem hops_named (comps : List Component) (name : Text) :
    hops (comps ++ [.normal name]) = hops comps ++ [.into name] := by
  simp [hops, hop]

theorem hops_up (comps : List Component) : hops (comps ++ [.parentDir]) = hops comps ++ [.up] := by
  simp [hops, hop]

theorem text_ne_nil {p : PathBuf} {comps : List Component} {c : Component}
    (shape : components p = comps ++ [c]) : p.text ≠ [] := by
  intro empty
  have none : components p = [] := by
    obtain ⟨text⟩ := p
    subst empty
    rfl
  rw [none] at shape
  simp at shape

/-- A path that leads to anything but a directory ends in a name, and leads to
the entry with that name in the directory that holds it. -/
theorem lookup_named {d : Disk} {p : PathBuf} {comps : List Component} {name : Text}
    {place : Place Text} (sound : d.Sound) (shape : components p = comps ++ [.normal name])
    (leads : lookup d false p = .ok place) (other : entry d.tree place.loc ≠ some .dir) :
    asksDir p = false ∧ ∃ dir, Holds d p dir ∧ place = placeAt d.tree (dir ++ [name]) := by
  have ground := grounded_base sound p
  rw [lookup_eq (text_ne_nil shape), shape, hops_named] at leads
  cases asks : asksDir p with
  | true =>
    rw [asks, if_pos rfl] at leads
    obtain ⟨loc, rfl, isDir⟩ := walk_no_name ground (by simp) leads
    exact absurd isDir other
  | false =>
    rw [asks, if_neg Bool.false_ne_true, List.append_nil] at leads
    obtain ⟨dir, left, there, -⟩ := walk_into_ok ground leads
    refine ⟨rfl, dir, ?_, ?_⟩
    · rw [Holds, shape, List.dropLast_concat]
      exact there
    · rw [walk_into ground there (by simp)] at leads
      exact (Except.ok.inj leads).symm

/-- A path without a name at its end leads to a directory or nowhere. -/
theorem lookup_unnamed {d : Disk} {follow : Bool} {p : PathBuf} {place : Place Text}
    (sound : d.Sound) (unnamed : fileName p = none) (leads : lookup d follow p = .ok place) :
    entry d.tree place.loc = some .dir := by
  have ground := grounded_base sound p
  by_cases filled : p.text = []
  · rw [lookup, route, if_pos filled] at leads
    cases leads
  · rw [lookup_eq filled] at leads
    cases asks : asksDir p with
    | true =>
      rw [asks, if_pos rfl] at leads
      obtain ⟨loc, rfl, isDir⟩ := walk_no_name ground (by simp) leads
      exact isDir
    | false =>
      rw [asks, if_neg Bool.false_ne_true, List.append_nil] at leads
      obtain ⟨front, rest, shape, plain, first⟩ := components_shape p
      rcases List.eq_nil_or_concat rest with rfl | ⟨init, last, rfl⟩
      · have none : hops (components p) = [] := by
          rw [shape, List.append_nil]
          rcases first with ⟨rfl, -⟩ | ⟨rfl | rfl, -⟩ <;> rfl
        rw [none] at leads
        cases leads
        exact ground.entry
      · rw [List.concat_eq_append, ← List.append_assoc] at shape
        cases last with
        | rootDir =>
          have bad : Component.Plain .rootDir := plain _ (by simp)
          cases bad
        | curDir =>
          have bad : Component.Plain .curDir := plain _ (by simp)
          cases bad
        | parentDir =>
          rw [shape, hops_up] at leads
          obtain ⟨loc, rfl, isDir⟩ := walk_no_name ground (by simp) leads
          exact isDir
        | normal name =>
          rw [fileName, shape] at unnamed
          simp at unnamed

/-- A named path is held by the directory its other components lead to. -/
theorem lookup_holds {d : Disk} {follow : Bool} {p : PathBuf} {comps : List Component} {name : Text}
    {dir : Loc Text} (sound : d.Sound) (shape : components p = comps ++ [.normal name])
    (asks : asksDir p = false) (holds : Holds d p dir)
    (plain : follow = true → ∀ target, entry d.tree (dir ++ [name]) ≠ some (.link target)) :
    lookup d follow p = .ok (placeAt d.tree (dir ++ [name])) := by
  rw [Holds, shape, List.dropLast_concat] at holds
  rw [lookup_eq (text_ne_nil shape), shape, hops_named, asks, if_neg Bool.false_ne_true,
    List.append_nil, walk_into (grounded_base sound p) holds plain]

theorem lookup_follow {d : Disk} {p : PathBuf} {place : Place Text} (sound : d.Sound)
    (leads : lookup d true p = .ok place) (target : Route Text) :
    entry d.tree place.loc ≠ some (.link target) := by
  unfold lookup at leads
  cases spelled : route p with
  | none => simp [spelled] at leads
  | some r => exact resolve_follow sound (by simpa [spelled] using leads) target

/-- A file is found with links followed where it is found without. -/
theorem lookup_file {d : Disk} {p : PathBuf} {place : Place Text} {content : Content}
    (sound : d.Sound) (leads : lookup d false p = .ok place)
    (isFile : entry d.tree place.loc = some (.file content)) : lookup d true p = .ok place := by
  have other : entry d.tree place.loc ≠ some .dir := by
    rw [isFile]
    rintro ⟨⟩
  rcases fileName_cases p with unnamed | ⟨comps, name, shape⟩
  · exact absurd (lookup_unnamed sound unnamed leads) other
  · obtain ⟨asks, dir, holds, rfl⟩ := lookup_named sound shape leads other
    refine lookup_holds sound shape asks holds fun _ target => ?_
    rw [← placeAt_loc d.tree (dir ++ [name]), isFile]
    rintro ⟨⟩

theorem stat_eq_ok {d : Disk} {follow : Bool} {p : PathBuf} {place : Place Text}
    {node : Node Text Content} (leads : lookup d follow p = .ok place) :
    stat d follow p = .ok node ↔ entry d.tree place.loc = some node := by
  rw [stat_eq, leads]
  dsimp only
  cases entry d.tree place.loc with
  | none => simp
  | some there => simp

/-- A path opens the directory it is found to lead to. -/
theorem opens_iff {d : Disk} {p : PathBuf} {dir : Loc Text} (sound : d.Sound)
    (filled : p.text ≠ []) :
    Opens d p dir ↔ lookup d true p = .ok (.found dir) ∧ entry d.tree dir = some .dir := by
  have ground := grounded_base sound p
  rw [lookup_eq filled]
  cases asks : asksDir p with
  | false => rw [if_neg Bool.false_ne_true, List.append_nil]; rfl
  | true =>
    rw [if_pos rfl, walk_here_iff ground]
    constructor
    · intro opens
      exact ⟨⟨dir, opens, rfl⟩, opens.2⟩
    · rintro ⟨⟨other, opens, same⟩, -⟩
      cases same
      exact opens

theorem isDir_iff {d : Disk} {p : PathBuf} (sound : d.Sound) (filled : p.text ≠ []) :
    isDir d p = true ↔ ∃ dir, Opens d p dir := by
  unfold isDir
  rw [stat_eq]
  constructor
  · intro asked
    cases leads : lookup d true p with
    | error e => simp [leads] at asked
    | ok place =>
      cases there : entry d.tree place.loc with
      | none => simp [leads, there] at asked
      | some node =>
        cases node with
        | file content => simp [leads, there] at asked
        | link target => simp [leads, there] at asked
        | dir =>
          cases place with
          | found dir => exact ⟨dir, (opens_iff sound filled).mpr ⟨leads, there⟩⟩
          | vacant loc =>
            rw [lookup_eq filled] at leads
            obtain ⟨_, _, -, -, free⟩ := walk_lands (grounded_base sound p) leads
            rw [Place.loc, free] at there
            cases there
  · rintro ⟨dir, opens⟩
    obtain ⟨leads, isDir⟩ := (opens_iff sound filled).mp opens
    simp [leads, Place.loc, isDir]

/-! ## Calls at paths -/

theorem mkdir_at_cases (q : PathBuf) (d : Disk) :
    (∃ e, atPath q mkdir d = (.error e, d)) ∨
      ∃ loc, lookup d false q = .ok (.vacant loc) ∧
        atPath q mkdir d = (.ok (), d.put loc (some .dir)) := by
  unfold atPath lookup
  cases route q with
  | none => exact .inl ⟨_, rfl⟩
  | some r => exact mkdir_cases r d

theorem open_at_cases (empty : Content) (p : PathBuf) (d : Disk) :
    (∃ e, atPath p (openTruncate empty) d = (.error e, d)) ∨
      ∃ place, lookup d true p = .ok place ∧ entry d.tree place.loc ≠ some .dir ∧
        atPath p (openTruncate empty) d =
          (.ok place.loc, d.put place.loc (some (.file empty))) := by
  unfold atPath lookup
  cases route p with
  | none => exact .inl ⟨_, rfl⟩
  | some r => exact openTruncate_cases empty r d

theorem mkdir_at_vacant {q : PathBuf} {d : Disk} {loc : Loc Text}
    (vacant : lookup d false q = .ok (.vacant loc)) :
    atPath q mkdir d = (.ok (), d.put loc (some .dir)) := by
  unfold lookup at vacant
  unfold atPath
  cases way : route q with
  | none => simp [way] at vacant
  | some r =>
    simp only [way] at vacant
    simp only [mkdir, vacant]

theorem open_at_ok {empty : Content} {p : PathBuf} {d : Disk} {place : Place Text}
    (leads : lookup d true p = .ok place) (notDir : entry d.tree place.loc ≠ some .dir) :
    atPath p (openTruncate empty) d = (.ok place.loc, d.put place.loc (some (.file empty))) := by
  rcases open_at_cases empty p d with ⟨e, failed⟩ | ⟨other, leads', -, ran⟩
  · unfold lookup at leads
    unfold atPath at failed ⊢
    cases spelled : route p with
    | none => simp [spelled] at leads
    | some r =>
      simp only [spelled] at leads failed ⊢
      simp only [openTruncate, leads] at failed ⊢
  · rw [leads] at leads'
    cases leads'
    exact ran

theorem unlink_at_cases (p : PathBuf) (d : Disk) :
    (∃ e, removeFile p d = (.error e, d)) ∨
      ∃ loc, lookup d false p = .ok (.found loc) ∧ entry d.tree loc ≠ some .dir ∧
        removeFile p d = (.ok (), d.put loc none) := by
  unfold removeFile atPath lookup
  cases route p with
  | none => exact .inl ⟨_, rfl⟩
  | some r => exact unlink_cases r d

theorem unlink_at_found {p : PathBuf} {d : Disk} {loc : Loc Text}
    (found : lookup d false p = .ok (.found loc)) (notDir : entry d.tree loc ≠ some .dir) :
    removeFile p d = (.ok (), d.put loc none) := by
  unfold lookup at found
  unfold removeFile atPath
  cases way : route p with
  | none => simp [way] at found
  | some r =>
    simp only [way] at found
    simp only [unlink, found]

/-- A path whose entry was removed does not exist any more. -/
theorem pathExists_removed {d d' : Disk} {p : PathBuf} (sound : d.Sound)
    (ran : removeFile p d = (.ok (), d')) : pathExists d' p = false := by
  rcases unlink_at_cases p d with ⟨e, failed⟩ | ⟨loc, leads, notDir, removed⟩
  · rw [failed] at ran
    cases ran
  · rw [removed] at ran
    cases ran
    rcases fileName_cases p with unnamed | ⟨front, last, shape⟩
    · exact absurd (lookup_unnamed sound unnamed leads) notDir
    · obtain ⟨asks, dir, holds, found⟩ := lookup_named sound shape leads notDir
      have at_name : loc = dir ++ [last] := by
        have locs := congrArg Place.loc found
        rwa [placeAt_loc] at locs
      subst at_name
      have gone : entry (d.put (dir ++ [last]) none).tree (dir ++ [last]) = none :=
        entry_put_self _ (by simp)
      rw [Holds, shape, List.dropLast_concat] at holds
      have visits := walk_into_visits false last (grounded_base sound p) holds
      have nowhere : ∀ place, lookup (d.put (dir ++ [last]) none) true p = .ok place →
          entry (d.put (dir ++ [last]) none).tree place.loc = none := by
        intro place leads
        rw [lookup_eq (text_ne_nil shape), shape, hops_named, asks, if_neg Bool.false_ne_true,
          List.append_nil] at leads
        exact walk_removed (fun other apart => entry_put_other _ apart) gone visits leads
      rw [pathExists, stat_eq]
      cases leads : lookup (d.put (dir ++ [last]) none) true p with
      | error e => rfl
      | ok place =>
        dsimp only
        rw [nowhere place leads]
        rfl

theorem rename_at_cases (old new : PathBuf) (d : Disk) :
    (∃ e, renameFile old new d = (.error e, d)) ∨
      ∃ source place node, lookup d false old = .ok (.found source) ∧
        entry d.tree source = some node ∧ node ≠ .dir ∧ lookup d false new = .ok place ∧
        (place.loc = source ∧ renameFile old new d = (.ok (), d) ∨
          place.loc ≠ source ∧ entry d.tree place.loc ≠ some .dir ∧
            renameFile old new d = (.ok (), (d.put source none).put place.loc (some node))) := by
  unfold renameFile atPath lookup
  cases route old with
  | none => exact .inl ⟨_, rfl⟩
  | some r =>
    cases route new with
    | none => exact .inl ⟨_, rfl⟩
    | some r' => exact rename_cases r r' d

theorem rename_at_ok {old new : PathBuf} {d : Disk} {source : Loc Text} {place : Place Text}
    {node : Node Text Content} (from_old : lookup d false old = .ok (.found source))
    (there : entry d.tree source = some node) (other : node ≠ .dir)
    (to_new : lookup d false new = .ok place) (apart : place.loc ≠ source)
    (free : entry d.tree place.loc ≠ some .dir) :
    renameFile old new d = (.ok (), (d.put source none).put place.loc (some node)) := by
  unfold lookup at from_old to_new
  unfold renameFile atPath
  cases way : route old with
  | none => simp [way] at from_old
  | some r =>
    cases way' : route new with
    | none => simp [way'] at to_new
    | some r' =>
      simp only [way] at from_old
      simp only [way'] at to_new
      simp only [rename, from_old, there, to_new, if_neg apart]

end Devit.FileSystem
