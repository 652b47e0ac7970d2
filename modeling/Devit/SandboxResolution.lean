import Mathlib.Data.List.Infix
import Devit.BinaryAllowlist
import Devit.Library.Reaching
import Devit.Library.SystemPaths

/-! Paths resolved inside a sandbox directory: the path is normalized lexically, compared with
the root by components, and then walked from `/` down to see that it has no symbolic link. The
walk compares every directory it comes through with the root, also those above the root. -/
namespace Devit.ProcessUtils
open Files Path FileSystem

/-- `fs::symlink_metadata`, for any text. -/
def symlinkMetadata (d : Disk) (p : PathBuf) : Except Errno (Node Text Content) :=
  if taken p then stat d false p else .error .invalidInput

/-- `PathBuf::pop`. -/
def pop (path : PathBuf) : PathBuf := (parent path).getD path

def pushComponent (path : PathBuf) : Component → PathBuf
  | .rootDir => ⟨"/".toList⟩
  | .curDir => path
  | .parentDir => pop path
  | .normal part => pathJoin path ⟨part⟩

def normalizePath (path : PathBuf) : PathBuf :=
  let normalized := (components path).foldl pushComponent ⟨[]⟩
  if normalized.text = [] then ⟨".".toList⟩ else normalized

/-- System symlinks that are safe to allow. -/
def allowedSystemSymlinks : List Text :=
  ["/bin", "/sbin", "/lib", "/lib64", "/usr/bin", "/usr/sbin", "/usr/lib", "/usr/lib64", "/opt",
    "/var/lock", "/var/run", "/run", "/dev/stdin", "/dev/stdout", "/dev/stderr"].map String.toList

def escapes (path root : PathBuf) : SandboxError Errno :=
  .permissionDenied
    ("Path ".toList ++ path.text ++ " escapes sandbox ".toList ++ root.text)

def symlinkDetected (path : PathBuf) : SandboxError Errno :=
  .invalidInput ("Symlink detected in path: ".toList ++ path.text)

/-- What the walk says of the path it has come to. -/
def enforceAt (d : Disk) (root current : PathBuf) : Except (SandboxError Errno) Unit :=
  if pathStartsWith current root = false then .error (escapes current root)
  else
    match symlinkMetadata d current with
    | .ok (.link _) =>
      if pathStartsWith current root = false ∨ current.text ∈ allowedSystemSymlinks then .ok ()
      else .error (symlinkDetected current)
    | .ok _ => .ok ()
    | .error err => if err = .notFound then .ok () else .error (.system err)

def enforceFrom (d : Disk) (root : PathBuf) :
    PathBuf → List Component → Except (SandboxError Errno) Unit
  | _, [] => .ok ()
  | current, component :: rest =>
    let current := pushComponent current component
    if component = .rootDir then enforceFrom d root current rest
    else
      match enforceAt d root current with
      | .error err => .error err
      | .ok () => enforceFrom d root current rest

def enforceNoSymlinks (d : Disk) (root target : PathBuf) : Except (SandboxError Errno) Unit :=
  enforceFrom d root ⟨[]⟩ (components target)

/-- Canonicalise without following symlinks. -/
def canonicalizeWithNofollow (d : Disk) (path : PathBuf) : Except (SandboxError Errno) PathBuf :=
  let normalized := normalizePath path
  match enforceNoSymlinks d ⟨"/".toList⟩ normalized with
  | .error err => .error err
  | .ok () => .ok normalized

/-- Canonicalise `candidate` relative to `root`. -/
def canonicalizeWithinRoot (d : Disk) (root candidate : PathBuf) :
    Except (SandboxError Errno) PathBuf :=
  let rootNorm := normalizePath root
  let combined :=
    if isAbsolute candidate then normalizePath candidate
    else normalizePath (pathJoin rootNorm candidate)
  if pathStartsWith combined rootNorm = false then .error (escapes combined rootNorm)
  else
    match enforceNoSymlinks d rootNorm combined with
    | .error err => .error err
    | .ok () => .ok combined

/-! ## What it is for -/

/-- The names of a path from `/`, each `..` taken with the name before it. -/
def normalNames (p : PathBuf) : List Text := collapse (components p)

/-- The lexically normalized join of the root and a candidate. -/
def joined (root candidate : PathBuf) : PathBuf := cleanAbsolute (pathJoin root candidate)

/-- The join lies inside the root, name by name. -/
def Inside (root candidate : PathBuf) : Prop :=
  normalNames root <+: normalNames (pathJoin root candidate)

/-- There is a symbolic link there. -/
def linkAt (d : Disk) (loc : Loc Text) : Bool :=
  match symlinkMetadata d (absolute loc) with
  | .ok (.link _) => true
  | _ => false

/-- Below the root, the join has no symbolic links but the system's. -/
def Unlinked (d : Disk) (root candidate : PathBuf) : Prop :=
  ∀ loc, loc <+: normalNames (pathJoin root candidate) → (normalNames root).length < loc.length →
    linkAt d loc = true → (absolute loc).text ∈ allowedSystemSymlinks

/-- The components of the root are no links. -/
def RootPlain (d : Disk) (root : PathBuf) : Prop :=
  ∀ loc, loc <+: normalNames root → linkAt d loc = false

/-- The candidate is accepted exactly when it is inside, without links, as its normal form. -/
def Exact (d : Disk) (root candidate : PathBuf) : Prop :=
  ∀ p, canonicalizeWithinRoot d root candidate = .ok p ↔
    (Inside root candidate ∧ Unlinked d root candidate) ∧ p = joined root candidate

/-- What is there can be looked up, or nothing is there. -/
def answersAt (d : Disk) (loc : Loc Text) : Bool :=
  match symlinkMetadata d (absolute loc) with
  | .error err => decide (err = .notFound)
  | .ok _ => true

/-- No component of the join fails to be looked up. -/
def Answers (d : Disk) (root candidate : PathBuf) : Prop :=
  ∀ loc, loc <+: normalNames (pathJoin root candidate) → loc ≠ [] → answersAt d loc = true

variable {d : Disk} {root candidate : PathBuf}

/-! ## Normal forms -/

theorem pushComponent_absolute {names : List Text} {c : Component}
    (plain : ∀ name ∈ names, PlainName name) (plainC : c.Plain) :
    pushComponent (absolute names) c =
      absolute (collapse (.rootDir :: names.map .normal ++ [c])) := by
  rw [collapse_concat, collapse_names]
  cases c with
  | rootDir => cases plainC
  | curDir => cases plainC
  | normal name => exact pathJoin_absolute plain plainC
  | parentDir =>
    change (parent (absolute names)).getD (absolute names) = absolute names.dropLast
    rw [parent, (components_absolute plain).1]
    rcases List.eq_nil_or_concat names with rfl | ⟨init, last, rfl⟩
    · rfl
    · rw [List.concat_eq_append, List.dropLast_concat, List.map_append, ← List.cons_append,
        List.map_singleton, List.getLast?_concat, List.dropLast_concat]
      rfl

/-- The components of an absolute path are the root and plain ones. -/
theorem components_rooted {p : PathBuf} (rooted : isAbsolute p = true) :
    ∃ rest, components p = .rootDir :: rest ∧ ∀ c ∈ rest, c.Plain := by
  obtain ⟨front, rest, shape, plain, first⟩ := components_shape p
  have head := (isAbsolute_iff p).mp rooted
  rw [shape] at head
  rcases first with ⟨rfl, -⟩ | ⟨rfl | rfl, -⟩
  · exact ⟨rest, shape, plain⟩
  · cases head
  · cases rest with
    | nil => cases head
    | cons c rest =>
      cases head
      cases plain .rootDir List.mem_cons_self

theorem normalNames_plain (p : PathBuf) : ∀ name ∈ normalNames p, PlainName name :=
  collapse_plain fun _ member => mem_components_plain member

/-- Pushing the components one by one leaves the names that are not taken back. -/
theorem normalizePath_absolute {p : PathBuf} (rooted : isAbsolute p = true) :
    normalizePath p = absolute (normalNames p) := by
  obtain ⟨rest, shape, plain⟩ := components_rooted rooted
  have pushed : (components p).foldl pushComponent ⟨[]⟩ = absolute (normalNames p) := by
    rw [normalNames, shape]
    clear shape
    induction rest using List.reverseRecOn with
    | nil => rfl
    | append_singleton rest c ih =>
      have below := ih fun c member => plain c (List.mem_append_left _ member)
      have names : ∀ name ∈ collapse (.rootDir :: rest), PlainName name := by
        refine collapse_plain fun name member => ?_
        rcases List.mem_cons.mp member with bad | member
        · cases bad
        · exact plain _ (List.mem_append_left _ member)
      rw [← List.cons_append, List.foldl_concat, below,
        pushComponent_absolute names (plain c (by simp)), collapse_concat, collapse_concat,
        collapse_names]
  rw [normalizePath, pushed]
  exact if_neg (absolute_text _)

theorem collapse_append (front back : List Component) :
    collapse (front ++ back) = collapse (.rootDir :: (collapse front).map .normal ++ back) := by
  induction back using List.reverseRecOn with
  | nil => rw [List.append_nil, List.append_nil, collapse_names]
  | append_singleton back c ih =>
    rw [← List.append_assoc, ← List.append_assoc, collapse_concat, collapse_concat, ih]

/-- What the code compares with the root and walks through. -/
def combined (root candidate : PathBuf) : PathBuf :=
  if isAbsolute candidate then normalizePath candidate
  else normalizePath (pathJoin (normalizePath root) candidate)

/-- Normalizing the root first changes nothing. -/
theorem combined_eq (rooted : isAbsolute root = true) :
    combined root candidate = joined root candidate := by
  unfold combined joined cleanAbsolute
  cases relative : isAbsolute candidate with
  | true =>
    rw [if_pos rfl, normalizePath_absolute relative, pathJoin, if_pos relative]
    rfl
  | false =>
    have filled : root.text ≠ [] := by
      intro empty
      rw [isAbsolute, empty] at rooted
      cases rooted
    have plain := normalNames_plain root
    rw [if_neg Bool.false_ne_true, normalizePath_absolute rooted,
      normalizePath_absolute (isAbsolute_pathJoin (components_absolute plain).2 candidate),
      normalNames, components_pathJoin (absolute_text _) relative,
      components_pathJoin filled relative, (components_absolute plain).1,
      collapse_append (components root)]
    rfl

/-! ## The walk -/

/-- What the walk asks of a place it comes to. -/
def Passes (d : Disk) (root : PathBuf) (loc : Loc Text) : Prop :=
  pathStartsWith (absolute loc) root = true ∧
    (linkAt d loc = true → (absolute loc).text ∈ allowedSystemSymlinks) ∧
    answersAt d loc = true

theorem enforceAt_iff {loc : Loc Text} :
    enforceAt d root (absolute loc) = .ok () ↔ Passes d root loc := by
  unfold enforceAt Passes linkAt answersAt
  cases starts : pathStartsWith (absolute loc) root with
  | false => simp
  | true =>
    cases symlinkMetadata d (absolute loc) with
    | error err => by_cases missing : err = .notFound <;> simp [missing]
    | ok node => cases node <;> simp

/-- Every place on the way passes. -/
theorem enforceFrom_iff {root : PathBuf} {names done : List Text}
    (plain : ∀ name ∈ done ++ names, PlainName name) :
    enforceFrom d root (absolute done) (names.map .normal) = .ok () ↔
      ∀ loc, loc <+: done ++ names → done.length < loc.length → Passes d root loc := by
  induction names generalizing done with
  | nil =>
    rw [List.append_nil]
    exact ⟨fun _ loc within longer => absurd within.length_le (by omega), fun _ => rfl⟩
  | cons name names ih =>
    have next : pushComponent (absolute done) (.normal name) = absolute (done ++ [name]) :=
      pathJoin_absolute (fun other member => plain other (by simp [member]))
        (plain name (by simp))
    have shift : done ++ name :: names = done ++ [name] ++ names := by simp
    rw [shift] at plain ⊢
    have here : ∀ loc, loc <+: done ++ [name] ++ names → done.length < loc.length →
        loc = done ++ [name] ∨ (done ++ [name]).length < loc.length := by
      intro loc within longer
      rcases Nat.lt_or_ge (done ++ [name]).length loc.length with below | short
      · exact .inr below
      · rw [List.length_append, List.length_singleton] at short
        have size : loc.length = (done ++ [name]).length := by
          rw [List.length_append, List.length_singleton]
          omega
        exact .inl ((List.prefix_of_prefix_length_le within (List.prefix_append _ _)
          size.le).eq_of_length size)
    rw [List.map_cons, enforceFrom, if_neg (by simp), next]
    constructor
    · intro walked loc within longer
      cases at_name : enforceAt d root (absolute (done ++ [name])) with
      | error err => simp [at_name] at walked
      | ok done' =>
        simp only [at_name] at walked
        rcases here loc within longer with rfl | below
        · exact enforceAt_iff.mp at_name
        · exact (ih plain).mp walked loc within below
    · intro passes
      have first := enforceAt_iff.mpr (passes (done ++ [name]) (List.prefix_append _ _) (by simp))
      simp only [first]
      refine (ih plain).mpr fun loc within longer => passes loc within ?_
      rw [List.length_append, List.length_singleton] at longer
      omega

theorem enforceNoSymlinks_iff {root : PathBuf} {names : List Text}
    (plain : ∀ name ∈ names, PlainName name) :
    enforceNoSymlinks d root (absolute names) = .ok () ↔
      ∀ loc, loc <+: names → loc ≠ [] → Passes d root loc := by
  rw [enforceNoSymlinks, (components_absolute plain).1, enforceFrom, if_pos rfl]
  refine (@enforceFrom_iff d root names [] plain).trans ?_
  simp only [List.nil_append, List.length_nil, List.length_pos_iff]

/-- The candidate is resolved to its normal form where that is inside the root and every place
on the way to it passes. -/
theorem canonicalizeWithinRoot_iff (rooted : isAbsolute root = true) (p : PathBuf) :
    canonicalizeWithinRoot d root candidate = .ok p ↔
      (Inside root candidate ∧ ∀ loc, loc <+: normalNames (pathJoin root candidate) → loc ≠ [] →
        Passes d (absolute (normalNames root)) loc) ∧ p = joined root candidate := by
  have plain := normalNames_plain (pathJoin root candidate)
  have walked := @enforceNoSymlinks_iff d (absolute (normalNames root)) _ plain
  have starts := starts_absolute plain (normalNames_plain root)
  have whole : joined root candidate = absolute (normalNames (pathJoin root candidate)) := rfl
  unfold canonicalizeWithinRoot
  dsimp only
  rw [← combined, combined_eq rooted, normalizePath_absolute rooted, whole, ← walked, Inside,
    ← starts]
  cases pathStartsWith (absolute (normalNames (pathJoin root candidate)))
      (absolute (normalNames root)) with
  | false => simp
  | true =>
    cases enforceNoSymlinks d (absolute (normalNames root))
        (absolute (normalNames (pathJoin root candidate))) with
    | error err => simp
    | ok done => simp [eq_comm]

/-- Every place on the way is inside the root exactly when there is at most one name above. -/
theorem starts_along_iff {above names : List Text} (inside : above <+: names) :
    (∀ loc, loc <+: names → loc ≠ [] → above <+: loc) ↔ above.length ≤ 1 := by
  constructor
  · intro starts
    cases names with
    | nil => simp [List.prefix_nil.mp inside]
    | cons name names => exact (starts [name] ⟨names, rfl⟩ (by simp)).length_le
  · intro short loc within filled
    have long : 0 < loc.length := List.length_pos_iff.mpr filled
    exact List.prefix_of_prefix_length_le inside within (by omega)

/-- A root of two names or more takes no path at all: the first name on the way is above it. -/
theorem deep_root_refuses (rooted : isAbsolute root = true)
    (deep : 1 < (normalNames root).length) (p : PathBuf) :
    canonicalizeWithinRoot d root candidate ≠ .ok p := by
  intro resolved
  obtain ⟨⟨inside, passes⟩, -⟩ := (canonicalizeWithinRoot_iff rooted p).mp resolved
  refine absurd ((starts_along_iff inside).mp fun loc within filled => ?_) (by omega)
  exact (starts_absolute (fun name member => normalNames_plain _ name (within.subset member))
    (normalNames_plain root)).mp (passes loc within filled).1

/-- Without a root, the path is taken exactly where no component is a link or fails. -/
theorem canonicalizeWithNofollow_iff {path : PathBuf} (rooted : isAbsolute path = true)
    (p : PathBuf) :
    canonicalizeWithNofollow d path = .ok p ↔
      (∀ loc, loc <+: normalNames path → loc ≠ [] →
        (linkAt d loc = true → (absolute loc).text ∈ allowedSystemSymlinks) ∧
        answersAt d loc = true) ∧
      p = cleanAbsolute path := by
  have plain := normalNames_plain path
  have walked := @enforceNoSymlinks_iff d (absolute []) _ plain
  have under : ∀ loc, loc <+: normalNames path →
      pathStartsWith (absolute loc) (absolute []) = true := fun loc within =>
    (starts_absolute (fun name member => plain name (within.subset member)) (by simp)).mpr
      loc.nil_prefix
  have whole : cleanAbsolute path = absolute (normalNames path) := rfl
  have everywhere : (∀ loc, loc <+: normalNames path → loc ≠ [] → Passes d (absolute []) loc) ↔
      ∀ loc, loc <+: normalNames path → loc ≠ [] →
        (linkAt d loc = true → (absolute loc).text ∈ allowedSystemSymlinks) ∧
        answersAt d loc = true :=
    forall_congr' fun loc => forall_congr' fun within => forall_congr' fun _ =>
      and_iff_right (under loc within)
  rw [← everywhere, ← walked, whole, canonicalizeWithNofollow, normalizePath_absolute rooted]
  have slash : (⟨"/".toList⟩ : PathBuf) = absolute [] := rfl
  rw [slash]
  cases enforceNoSymlinks d (absolute []) (absolute (normalNames path)) with
  | error err => simp
  | ok done => simp [eq_comm]

/-- **Resolution is exact only under a root of at most one name.** A candidate that is outside
the root or comes through a link is refused; any other is accepted only where the root has at
most one name and every component of the path can be looked up or is missing. -/
theorem canonicalizeWithinRoot_exact_iff (d : Disk) {root : PathBuf} (candidate : PathBuf)
    (rooted : isAbsolute root = true) (own : RootPlain d root) :
    Exact d root candidate ↔
      (Inside root candidate ∧ Unlinked d root candidate →
        (normalNames root).length ≤ 1 ∧ Answers d root candidate) := by
  have starts : ∀ loc, loc <+: normalNames (pathJoin root candidate) →
      (pathStartsWith (absolute loc) (absolute (normalNames root)) = true ↔
        normalNames root <+: loc) := fun loc within =>
    starts_absolute (fun name member => normalNames_plain _ name (within.subset member))
      (normalNames_plain root)
  constructor
  · rintro agrees ⟨inside, unlinked⟩
    obtain ⟨⟨-, passes⟩, -⟩ := (canonicalizeWithinRoot_iff rooted _).mp
      ((agrees _).mpr ⟨⟨inside, unlinked⟩, rfl⟩)
    refine ⟨(starts_along_iff inside).mp fun loc within filled => ?_, fun loc within filled => ?_⟩
    · exact (starts loc within).mp (passes loc within filled).1
    · exact (passes loc within filled).2.2
  · intro meets p
    rw [canonicalizeWithinRoot_iff rooted]
    refine and_congr_left fun _ => and_congr_right fun inside => ?_
    constructor
    · intro passes loc within below linked
      have filled : loc ≠ [] := by
        rintro rfl
        exact absurd below (Nat.not_lt_zero _)
      exact (passes loc within filled).2.1 linked
    · intro unlinked loc within filled
      obtain ⟨short, answers⟩ := meets ⟨inside, unlinked⟩
      have under := (starts_along_iff inside).mpr short loc within filled
      refine ⟨(starts loc within).mpr under, fun linked => ?_, answers loc within filled⟩
      rcases Nat.lt_or_ge (normalNames root).length loc.length with below | above
      · exact unlinked loc within below linked
      · rw [← under.eq_of_length (Nat.le_antisymm under.length_le above),
          own _ (List.prefix_refl _)] at linked
        cases linked

/-- A disk with the directories `/srv` and `/srv/box`. -/
def boxDisk : Disk where
  tree := Files.put (Files.put (fun _ => none) ["srv".toList] (some .dir))
    ["srv".toList, "box".toList] (some .dir)
  cwd := []
  touched := []

/-- Under `/srv`, the directory `box` is taken. -/
theorem box_taken_in_srv : Exact boxDisk ⟨"/srv".toList⟩ ⟨"box/../box".toList⟩ := by
  have looked : ((normalNames ⟨"/srv".toList⟩).inits.all fun loc => !linkAt boxDisk loc) = true ∧
      ((normalNames (pathJoin ⟨"/srv".toList⟩ ⟨"box/../box".toList⟩)).inits.all fun loc =>
        answersAt boxDisk loc) = true ∧ (normalNames ⟨"/srv".toList⟩).length ≤ 1 := by
    decide +kernel
  obtain ⟨plain, answers, short⟩ := looked
  refine (canonicalizeWithinRoot_exact_iff boxDisk _ (by decide) fun loc within => ?_).mpr
    fun _ => ⟨short, fun loc within _ => ?_⟩
  · simpa using List.all_eq_true.mp plain loc ((List.mem_inits _ _).mpr within)
  · exact List.all_eq_true.mp answers loc ((List.mem_inits _ _).mpr within)

/-- Under `/srv/box`, a new name in it is refused: `/srv` is outside of `/srv/box`. -/
theorem srv_escapes_box :
    RootPlain boxDisk ⟨"/srv/box".toList⟩ ∧ Inside ⟨"/srv/box".toList⟩ ⟨"x".toList⟩ ∧
      Unlinked boxDisk ⟨"/srv/box".toList⟩ ⟨"x".toList⟩ ∧
      ¬ Exact boxDisk ⟨"/srv/box".toList⟩ ⟨"x".toList⟩ := by
  have looked : ((normalNames (pathJoin ⟨"/srv/box".toList⟩ ⟨"x".toList⟩)).inits.all fun loc =>
        !linkAt boxDisk loc) = true ∧
      (normalNames ⟨"/srv/box".toList⟩).isPrefixOf
        (normalNames (pathJoin ⟨"/srv/box".toList⟩ ⟨"x".toList⟩)) = true ∧
      (canonicalizeWithinRoot boxDisk ⟨"/srv/box".toList⟩ ⟨"x".toList⟩).isOk = false := by
    decide +kernel
  obtain ⟨plain, starts, refused⟩ := looked
  have inside : Inside ⟨"/srv/box".toList⟩ ⟨"x".toList⟩ := List.isPrefixOf_iff_prefix.mp starts
  have unlinked : ∀ loc, loc <+: normalNames (pathJoin ⟨"/srv/box".toList⟩ ⟨"x".toList⟩) →
      linkAt boxDisk loc = false := fun loc within => by
    simpa using List.all_eq_true.mp plain loc ((List.mem_inits _ _).mpr within)
  have clean : Unlinked boxDisk ⟨"/srv/box".toList⟩ ⟨"x".toList⟩ := fun loc within _ linked => by
    rw [unlinked loc within] at linked
    cases linked
  refine ⟨fun loc within => unlinked loc (within.trans inside), inside, clean, fun agrees => ?_⟩
  rw [(agrees _).mpr ⟨⟨inside, clean⟩, rfl⟩] at refused
  cases refused

end Devit.ProcessUtils
