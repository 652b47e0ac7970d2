import Devit.Library.Canonical
import Devit.Library.Directories
import Devit.Library.Following
import Devit.Library.Spelling

/-! Where a path would lead if what is missing of it were made, and what asking
whether it exists says about that. Existing paths, and free names in existing
directories, are seen as they are; a path whose parent is missing, and a name that
is a dangling link, are not. -/
namespace Devit.FileSystem
open Files Path

/-- Following the path leads there, with what does not exist of it added. -/
def Reaches (d : Disk) (p : PathBuf) (loc : Loc Text) : Prop :=
  ∃ last left, Follows d.tree (base d p) (hops (components p)) last left ∧ loc = last ++ left

/-- What a crate that cleans paths lexically makes of an absolute path. -/
def Cleans (clean : PathBuf → PathBuf) : Prop :=
  ∀ p, isAbsolute p = true → clean p = absolute (collapse (components p))

/-- The lexical normal form of an absolute path. -/
def cleanAbsolute (p : PathBuf) : PathBuf := absolute (collapse (components p))

theorem cleans_cleanAbsolute : Cleans cleanAbsolute := fun _ _ => rfl

/-! ## Paths by their names -/

theorem normal_injective : Function.Injective Component.normal := fun _ _ equal => by
  cases equal
  rfl

theorem ofComponents_names (names : List Text) :
    ofComponents (names.map .normal) = ⟨Text.join ['/'] names⟩ := by
  have texts : (names.map Component.normal).map Component.text = names := by
    rw [List.map_map]
    exact List.map_id names
  cases names with
  | nil => rfl
  | cons name names => exact congrArg (fun parts => PathBuf.mk (Text.join ['/'] parts)) texts

theorem starts_absolute {loc root : Loc Text} (plain : ∀ name ∈ loc, PlainName name)
    (plainRoot : ∀ name ∈ root, PlainName name) :
    pathStartsWith (absolute loc) (absolute root) = true ↔ root <+: loc := by
  rw [pathStartsWith, (components_absolute plain).1, (components_absolute plainRoot).1,
    List.isPrefixOf_iff_prefix, List.cons_prefix_cons]
  constructor
  · rintro ⟨-, rest, shape⟩
    obtain ⟨front, back, rfl, same, -⟩ := List.map_eq_append_iff.mp shape.symm
    rw [normal_injective.list_map same]
    exact List.prefix_append _ _
  · rintro ⟨rest, rfl⟩
    exact ⟨rfl, rest.map .normal, List.map_append.symm⟩

theorem components_name {name : Text} (plain : PlainName name) :
    components ⟨name⟩ = [.normal name] ∧ isAbsolute ⟨name⟩ = false := by
  have single : ∀ c ∈ [Component.normal name], c.Plain := by
    intro c member
    rw [List.mem_singleton.mp member]
    exact plain
  have spelled := @components_ofComponents [] _ single (by simp)
  simpa [ofComponents, Component.text, Text.join] using spelled

/-- A name joined to an absolute path. -/
theorem components_join_name {loc : Loc Text} {name : Text} (plain : ∀ name ∈ loc, PlainName name)
    (plainName : PlainName name) :
    components (pathJoin (absolute loc) ⟨name⟩) = components (absolute (loc ++ [name])) := by
  obtain ⟨spelled, relative⟩ := components_name plainName
  have whole : ∀ other ∈ loc ++ [name], PlainName other := by
    intro other member
    rcases List.mem_append.mp member with inside | last
    · exact plain other inside
    · rw [List.mem_singleton.mp last]
      exact plainName
  rw [components_pathJoin (absolute_text loc) relative, spelled, (components_absolute plain).1,
    (components_absolute whole).1]
  simp

/-- The text of an absolute path. -/
theorem absolute_spelled (names : Loc Text) :
    absolute names = ⟨'/' :: Text.join ['/'] names⟩ := by
  have texts : (names.map Component.normal).map Component.text = names := by
    rw [List.map_map]
    exact List.map_id names
  rw [absolute, ofComponents, texts]

/-- A name joined to an absolute path is spelled behind it. -/
theorem pathJoin_absolute {loc : Loc Text} {name : Text} (plain : ∀ name ∈ loc, PlainName name)
    (plainName : PlainName name) : pathJoin (absolute loc) ⟨name⟩ = absolute (loc ++ [name]) := by
  rw [pathJoin, if_neg (by simp [(components_name plainName).2]), absolute_spelled,
    absolute_spelled]
  rcases List.eq_nil_or_concat loc with rfl | ⟨init, last, rfl⟩
  · rfl
  · rw [List.concat_eq_append] at plain ⊢
    obtain ⟨filled, noSlash, -⟩ := plain last (by simp)
    have ends : (Text.join ['/'] (init ++ [last])).getLast? = last.getLast? :=
      join_getLast? init filled
    have other : ('/' :: Text.join ['/'] (init ++ [last])).getLast? ≠ some '/' := by
      have some_text : Text.join ['/'] (init ++ [last]) ≠ [] := by
        intro empty
        rw [empty] at ends
        exact filled (List.getLast?_eq_none_iff.mp ends.symm)
      rw [List.getLast?_cons_of_ne_nil some_text, ends]
      exact fun slash => noSlash (List.mem_of_getLast? slash)
    rw [if_neg (by simp [other]), @Text.join_append ['/'] (init ++ [last]) [name] (by simp) (by simp)]
    simp [Text.join]

/-- The names of a path are names. -/
theorem mem_components_plain {p : PathBuf} {name : Text} (member : .normal name ∈ components p) :
    PlainName name := by
  obtain ⟨front, rest, shape, plain, first⟩ := components_shape p
  rw [shape, List.mem_append] at member
  rcases member with inFront | inRest
  · rcases first with ⟨rfl, -⟩ | ⟨rfl | rfl, -⟩ <;> simp at inFront
  · exact plain _ inRest

theorem collapse_plain {comps : List Component}
    (plain : ∀ name, .normal name ∈ comps → PlainName name) :
    ∀ name ∈ collapse comps, PlainName name := by
  induction comps using List.reverseRecOn with
  | nil => simp [collapse]
  | append_singleton comps c ih =>
    have below := ih fun name member => plain name (List.mem_append_left _ member)
    rw [collapse_concat]
    cases c with
    | rootDir => exact below
    | curDir => exact below
    | parentDir => exact fun name member => below name (List.dropLast_subset _ member)
    | normal last =>
      intro name member
      rcases List.mem_append.mp member with inside | atEnd
      · exact below name inside
      · rw [List.mem_singleton.mp atEnd]
        exact plain last (by simp)

/-! ## What exists -/

/-- A path that exists leads to its canonical location. -/
theorem exists_found {d : Disk} {p : PathBuf} (sound : d.Sound) (there : pathExists d p = true) :
    ∃ loc, canonicalize d p = .ok (absolute loc) ∧ lookup d true p = .ok (.found loc) ∧
      Follows d.tree (base d p) (hops (components p)) loc [] ∧ Standing d.tree loc := by
  rw [pathExists, stat_eq] at there
  cases leads : lookup d true p with
  | error e => simp [leads, Except.isOk, Except.toBool] at there
  | ok place =>
    have filled : p.text ≠ [] := by
      intro empty
      rw [lookup, route, if_pos empty] at leads
      cases leads
    cases place with
    | vacant loc =>
      have ends := leads
      rw [lookup_eq filled] at ends
      obtain ⟨_, _, -, -, free⟩ := walk_lands (grounded_base sound p) ends
      simp [leads, Place.loc, free, Except.isOk, Except.toBool] at there
    | found loc =>
      refine ⟨loc, canonicalize_found leads, rfl, ?_, ?_⟩
      · have ends := leads
        rw [lookup_eq filled] at ends
        split at ends
        · obtain ⟨dir, opens, same⟩ := (walk_here_iff (grounded_base sound p)).mp ends
          cases same
          exact walk_finds opens.1
        · rw [List.append_nil] at ends
          exact walk_finds ends
      · have ends := leads
        rw [lookup_eq filled] at ends
        exact walk_lands (grounded_base sound p) ends

/-- A path that is found to lead somewhere exists. -/
theorem exists_of_leads {d : Disk} {p : PathBuf} {loc : Loc Text} (sound : d.Sound)
    (leads : lookup d true p = .ok (.found loc)) : pathExists d p = true := by
  have filled : p.text ≠ [] := by
    intro empty
    rw [lookup, route, if_pos empty] at leads
    cases leads
  have ends := leads
  rw [lookup_eq filled] at ends
  have stands : Standing d.tree loc := walk_lands (grounded_base sound p) ends
  obtain ⟨node, found⟩ := Option.ne_none_iff_exists'.mp stands.there
  rw [pathExists, (stat_eq_ok leads).mpr found]
  rfl

/-- A path that leads to a directory exists. -/
theorem exists_of_opens {d : Disk} {p : PathBuf} {dir : Loc Text} (sound : d.Sound)
    (filled : p.text ≠ []) (opens : Opens d p dir) : pathExists d p = true := by
  obtain ⟨leads, isDir⟩ := (opens_iff sound filled).mp opens
  rw [pathExists, (stat_eq_ok leads).mpr isDir]
  rfl

theorem asksDir_absolute {loc : Loc Text} {name : Text}
    (plain : ∀ other ∈ loc ++ [name], PlainName other) :
    asksDir (absolute (loc ++ [name])) = false := by
  have clean : ∀ c ∈ loc.map Component.normal ++ [.normal name], c.Plain := by
    intro c member
    obtain ⟨other, listed, rfl⟩ : ∃ other ∈ loc ++ [name], Component.normal other = c := by
      simpa [or_comm, eq_comm] using member
    exact plain other listed
  have ends := @asksDir_ofComponents [.rootDir] _ _ clean (.inl rfl)
  simpa [absolute] using ends

/-- A name in a directory that is no link leads to its place there. -/
theorem lookup_in {d : Disk} {loc mid : Loc Text} {name : Text} (sound : d.Sound)
    (plain : ∀ other ∈ loc ++ [name], PlainName other) (opens : Opens d (absolute loc) mid)
    (unlinked : ∀ target, entry d.tree (mid ++ [name]) ≠ some (.link target)) :
    lookup d true (absolute (loc ++ [name])) = .ok (placeAt d.tree (mid ++ [name])) := by
  obtain ⟨spelled, rooted⟩ := components_absolute plain
  have above := components_absolute fun other member => plain other (List.mem_append_left _ member)
  have shape : components (absolute (loc ++ [name])) =
      (.rootDir :: loc.map .normal) ++ [.normal name] := by simp [spelled]
  have holds : Holds d (absolute (loc ++ [name])) mid := by
    rw [Opens, base, above.2, above.1] at opens
    rw [Holds, base, rooted, shape, List.dropLast_concat]
    exact opens
  exact @lookup_holds _ true _ _ _ _ sound shape (asksDir_absolute plain) holds
    fun _ target => unlinked target

/-- What is in a directory, and is no link, is found by its name there. -/
theorem lookup_child {d : Disk} {loc mid : Loc Text} {name : Text} (sound : d.Sound)
    (plain : ∀ other ∈ loc ++ [name], PlainName other) (opens : Opens d (absolute loc) mid)
    (stands : Standing d.tree (mid ++ [name])) :
    lookup d true (absolute (loc ++ [name])) = .ok (.found (mid ++ [name])) := by
  rw [lookup_in sound plain opens (standing_ne_link stands), placeAt, if_neg stands.there]

theorem exists_of_found {d : Disk} {p : PathBuf} {loc : Loc Text}
    (leads : lookup d true p = .ok (.found loc)) (there : entry d.tree loc ≠ none) :
    pathExists d p = true := by
  obtain ⟨node, found⟩ := Option.ne_none_iff_exists'.mp there
  rw [pathExists, (stat_eq_ok leads).mpr found]
  rfl

/-- A place that stands is found by its own path. -/
theorem lookup_absolute {d : Disk} {loc : Loc Text} (sound : d.Sound)
    (plain : ∀ name ∈ loc, PlainName name) (standing : Standing d.tree loc) :
    lookup d true (absolute loc) = .ok (.found loc) := by
  rcases List.eq_nil_or_concat loc with rfl | ⟨dir, name, rfl⟩
  · exact ((opens_iff sound (absolute_text [])).mp (opens_absolute plain (grounded_root _))).1
  · rw [List.concat_eq_append] at plain standing ⊢
    obtain ⟨ground, -⟩ := standing.above List.prefix_rfl
    have opens := opens_absolute (fun other member => plain other (List.mem_append_left _ member)) ground
    exact lookup_child sound plain opens standing

theorem exists_absolute {d : Disk} {loc : Loc Text} (sound : d.Sound)
    (plain : ∀ name ∈ loc, PlainName name) (standing : Standing d.tree loc) :
    pathExists d (absolute loc) = true :=
  exists_of_found (lookup_absolute sound plain standing) standing.there

/-- A path with a parent is that parent and one more component. -/
theorem parent_absolute {p above : PathBuf} (rooted : isAbsolute p = true)
    (higher : parent p = some above) :
    isAbsolute above = true ∧ ∃ last, last.Plain ∧ components p = components above ++ [last] := by
  have spelled := parent_some higher
  obtain ⟨init, last, shape⟩ : ∃ init last, components p = init ++ [last] := by
    rcases List.eq_nil_or_concat (components p) with bare | ⟨init, last, shape⟩
    · simp [parent, bare] at higher
    · exact ⟨init, last, by rw [shape, List.concat_eq_append]⟩
  rw [shape, List.dropLast_concat] at spelled
  have filled : init ≠ [] := by
    rintro rfl
    have head := (isAbsolute_iff p).mp rooted
    rw [shape] at head
    cases head
    simp [parent, shape] at higher
  obtain ⟨same, absolute, plain⟩ := components_start shape filled
  rw [spelled, absolute, same]
  exact ⟨rooted, last, plain last (by simp), shape⟩

/-- **A name in an existing directory.** Where the parent exists and the path does
not, its name is where it is spelled, unless it is a dangling link. -/
theorem free_name_reached {d : Disk} {p above : PathBuf} {mid last : Loc Text} {name : Text}
    {left : List Text} (sound : d.Sound) (shape : components p = components above ++ [.normal name])
    (same_base : base d p = base d above) (leads : lookup d true above = .ok (.found mid))
    (first : Follows d.tree (base d above) (hops (components above)) mid [])
    (missing : pathExists d p = false)
    (follows : Follows d.tree (base d p) (hops (components p)) last left) :
    (∃ target, Opens d above mid ∧ entry d.tree (mid ++ [name]) = some (.link target)) ∨
      last ++ left = mid ++ [name] := by
  have filled : above.text ≠ [] := by
    intro empty
    rw [lookup, route, if_pos empty] at leads
    cases leads
  rw [same_base, shape, hops_named] at follows
  rcases first.onward (grounded_base sound above) follows with ⟨isDir, below⟩ | ⟨-, rfl, down⟩
  · have opens : Opens d above mid := (opens_iff sound filled).mpr ⟨leads, isDir⟩
    rw [Files.follows_into] at below
    cases there : entry d.tree (mid ++ [name]) with
    | none =>
      rw [there] at below
      obtain ⟨rfl, more, down, rfl⟩ := below
      cases down
      exact .inr rfl
    | some node =>
      rw [there] at below
      cases node with
      | file content =>
        obtain ⟨rfl, down⟩ := below
        cases down
        exact .inr (List.append_nil _)
      | link target => exact .inl ⟨target, opens, rfl⟩
      | dir =>
        have ends := @walk_into _ _ _ true _ _ _ name (grounded_base sound above) opens (by simp [there])
        rw [placeAt, if_neg (by simp [there])] at ends
        have whole : Opens d p (mid ++ [name]) := by
          refine ⟨?_, there⟩
          rw [same_base, shape, hops_named]
          exact ends
        rw [exists_of_opens sound (text_ne_nil shape) whole] at missing
        cases missing
  · cases down
    exact .inr rfl

end Devit.FileSystem
