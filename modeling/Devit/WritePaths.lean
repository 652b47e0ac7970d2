import Devit.Library.Search
import Devit.ToolPaths

/-! Where writes go. A path that a tool may write to is resolved before it is written, as far as
it exists; a write then follows the links that are left in it. A relative string should be
accepted as its absolute spelling under the root is. -/
namespace Devit.FileSystemContext
open Text Path FileSystem
open Files (Loc Hop Follows Standing Grounded entry)
open WorkspacePaths (Physical linkedSandbox linkedSandbox_sound linkedSandbox_spelled)
open ToolPaths (plainEnvironment sandboxContext)

section
variable (env : ToolEnvironment) (d : Disk) (sandbox : PathBuf) (allowed : List PathBuf)

/-- A write to what the string is resolved to goes to an allowed place, or nowhere. -/
def WritesInside (ctx : FileSystemContext) (s : Text) : Prop :=
  ∀ p, resolveWritePath env d ctx s = .ok p →
    ∀ loc, Reaches d p loc → AllowedPlace env d sandbox allowed loc

/-- A relative string is accepted exactly if its absolute spelling under the root is. -/
def SpellingsAgree (ctx : FileSystemContext) (s : Text) : Prop :=
  isAbsolute ⟨s⟩ = false →
    ((∃ p, resolveWritePath env d ctx s = .ok p) ↔
      ∃ p, resolveWritePath env d ctx (pathJoin ctx.rootPath ⟨s⟩).text = .ok p)

/-- A string that is refused whatever the disk is like. -/
def Refused (s : Text) : Prop :=
  Marked s ∨ Char.ofNat 0 ∈ s ∨ 4096 < PathSecurityContext.byteLength s

/-- The path ends in a name; of its parent the part that exists leads to `mid`, and `rest` is
left. -/
def EndsAt (p : PathBuf) (mid : Loc Text) (rest : List Text) (name : Text) : Prop :=
  ∃ above, parent p = some above ∧ fileName p = some name ∧ Physical d above mid rest

/-- Unless the first of the names is a link, they add to the place. A link leads, with the other
names, to an allowed place or nowhere. -/
def LinkInside (mid : Loc Text) (names : List Text) : Prop :=
  ∀ first more target, names = first :: more → entry d.tree mid = some .dir →
    entry d.tree (mid ++ [first]) = some (.link target) → ∀ last left,
      Follows d.tree (if target.absolute then [] else mid) (target.hops ++ more.map .into)
          last left →
        AllowedPlace env d sandbox allowed (last ++ left)

/-- An absolute string exists, or it is not in an allowed place, or no link of it that is
dangling leads out. -/
def AbsoluteWrites (p : PathBuf) : Prop :=
  present d p = true ∨ ∀ mid rest name, EndsAt d p mid rest name →
    AllowedPlace env d sandbox allowed (mid ++ rest) →
      LinkInside env d sandbox allowed mid (rest ++ [name])

/-- A relative string that exists is below the root, or in no allowed place; of one that does not
exist the parent is in an allowed place, and no link of it that is dangling leads out. -/
def RelativeWrites (root : Loc Text) (s : Text) : Prop :=
  let joined := pathJoin (absolute root) ⟨s⟩
  (present d joined = true ∧ ∀ loc, Leads d joined loc →
      (root <+: loc ∧ ¬ Marked joined.text ∨
        ¬ root <+: loc ∧ (Marked joined.text ∨ ¬ AllowedPlace env d sandbox allowed loc))) ∨
    (present d joined = false ∧ ((∃ name, .normal name ∈ components ⟨s⟩) ∨
        .parentDir ∉ components ⟨s⟩ → ¬ Refused joined.text ∧
      ∃ mid rest name, EndsAt d joined mid rest name ∧
        AllowedPlace env d sandbox allowed (mid ++ rest) ∧
          LinkInside env d sandbox allowed mid (rest ++ [name])))

/-- The writes that are safe, and the strings that are judged as their spellings. -/
def SafeWrite (root : Loc Text) (s : Text) : Prop :=
  Refused s ∨ isAbsolute ⟨s⟩ = true ∧ AbsoluteWrites env d sandbox allowed ⟨s⟩ ∨
    isAbsolute ⟨s⟩ = false ∧ RelativeWrites env d sandbox allowed root s

end

variable {env : ToolEnvironment} {d : Disk} {ctx : FileSystemContext} {sandbox : PathBuf}
  {allowed : List PathBuf} {root loc : Loc Text}

/-! ## Following what is left -/

/-- A larger place that starts with an allowed one is allowed. -/
theorem AllowedPlace.extend {more : List Text} (plain : ∀ name ∈ loc ++ more, PlainName name)
    (place : AllowedPlace env d sandbox allowed loc) :
    AllowedPlace env d sandbox allowed (loc ++ more) := by
  rcases place with ⟨root, leads, inside⟩ | temp | ⟨path, member, dir, leads, inside⟩
  · exact .inl ⟨root, leads, inside.trans (List.prefix_append _ _)⟩
  · refine .inr (.inl ?_)
    have plainLoc : ∀ name ∈ loc, PlainName name := fun name member =>
      plain name (List.mem_append_left _ member)
    rw [pathStartsWith, List.isPrefixOf_iff_prefix] at temp ⊢
    refine temp.trans ?_
    rw [(components_absolute plain).1, (components_absolute plainLoc).1, List.map_append]
    exact List.prefix_append _ _
  · exact .inr (.inr ⟨path, member, dir, leads, inside.trans (List.prefix_append _ _)⟩)

/-- The part of a path that exists, and the place it leads to. -/
theorem physical_follows {init rest : List Text} {mid : Loc Text} (sound : d.Sound)
    (plain : ∀ name ∈ init, PlainName name) (physical : Physical d (absolute init) mid rest) :
    ∃ found, init = found ++ rest ∧ Follows d.tree [] (found.map .into) mid [] ∧
      Standing d.tree mid ∧ lookup d true (absolute found) = .ok (.found mid) := by
  obtain ⟨found, shape, leads, -⟩ := physical
  rw [(components_absolute plain).1] at shape
  have same : init = found ++ rest := normal_injective.list_map (List.cons.inj shape).2
  have plainFound : ∀ name ∈ found, PlainName name := fun name member =>
    plain name (by rw [same]; exact List.mem_append_left _ member)
  obtain ⟨loc, -, leads', follows, standing⟩ := exists_found sound (exists_of_leads sound leads)
  rw [leads] at leads'
  cases leads'
  rw [base, (components_absolute plainFound).2, hops_absolute plainFound] at follows
  exact ⟨found, same, follows, standing, leads⟩

/-- Behind a directory that the path leads to, the first name that is left is none. -/
theorem physical_dir {init rest more : List Text} {mid : Loc Text} {first name : Text}
    (sound : d.Sound) (plain : ∀ name ∈ init, PlainName name)
    (physical : Physical d (absolute init) mid rest) (isDir : entry d.tree mid = some .dir)
    (names : rest ++ [name] = first :: more) (there : entry d.tree (mid ++ [first]) = some .dir) :
    more = [] := by
  cases rest with
  | nil =>
    cases names
    rfl
  | cons other rest =>
    obtain ⟨rfl, -⟩ := List.cons.inj names
    obtain ⟨found, shape, leads, missing⟩ := physical
    rw [(components_absolute plain).1] at shape
    have same : init = found ++ other :: rest :=
      normal_injective.list_map (List.cons.inj shape).2
    have plainNext : ∀ name ∈ found ++ [other], PlainName name := fun name member => by
      refine plain name ?_
      rw [same]
      rcases List.mem_append.mp member with inside | last
      · exact List.mem_append_left _ inside
      · cases List.mem_singleton.mp last
        exact List.mem_append_right _ List.mem_cons_self
    have opens : Opens d (absolute found) mid :=
      (opens_iff sound (absolute_text found)).mpr ⟨leads, isDir⟩
    have leadsOn := lookup_in sound plainNext opens (by simp [there])
    rw [Files.placeAt, if_neg (by simp [there])] at leadsOn
    have nowhere := missing [other] ⟨rest, rfl⟩ (List.cons_ne_nil _ _)
    rw [exists_of_leads sound leadsOn] at nowhere
    cases nowhere

/-- **What is left.** Names that do not exist lead, behind the place that does, to an allowed
place exactly if the first of them is no link that leads out. -/
theorem left_inside_iff {init rest : List Text} {mid : Loc Text} {name : Text}
    {xs : List (Hop Text)} (sound : d.Sound) (plain : ∀ other ∈ init, PlainName other)
    (plainName : PlainName name) (spelled : Spelled d)
    (physical : Physical d (absolute init) mid rest)
    (place : AllowedPlace env d sandbox allowed (mid ++ rest))
    (first : Follows d.tree [] xs mid []) :
    (∀ last left, Follows d.tree [] (xs ++ (rest ++ [name]).map .into) last left →
      AllowedPlace env d sandbox allowed (last ++ left)) ↔
        LinkInside env d sandbox allowed mid (rest ++ [name]) := by
  have plainPlace : ∀ other ∈ mid ++ rest ++ [name], PlainName other := by
    intro other member
    rcases List.mem_append.mp member with inside | last
    · exact physical_plain spelled plain physical other inside
    · cases List.mem_singleton.mp last
      exact plainName
  have whole : AllowedPlace env d sandbox allowed (mid ++ (rest ++ [name])) := by
    rw [← List.append_assoc]
    exact place.extend plainPlace
  constructor
  · intro inside first' more target shape isDir isLink last left follows
    refine inside last left (first.append isDir ?_)
    rw [shape, List.map_cons]
    exact .link isLink follows
  · intro inside last left follows
    rcases first.onward (Files.grounded_root d.tree) follows with ⟨isDir, below⟩ | ⟨-, rfl, down⟩
    · cases names : rest ++ [name] with
      | nil => exact absurd (congrArg List.length names) (by simp)
      | cons first' more =>
        rw [names] at below whole
        rw [List.map_cons, Files.follows_into] at below
        cases there : entry d.tree (mid ++ [first']) with
        | none =>
          rw [there] at below
          obtain ⟨rfl, others, down, rfl⟩ := below
          rw [Files.downNames_map] at down
          cases down
          exact whole
        | some node =>
          rw [there] at below
          cases node with
          | file content =>
            obtain ⟨rfl, down⟩ := below
            rw [Files.downNames_map] at down
            cases down
            rwa [List.append_assoc]
          | link target => exact inside first' more target names isDir there last left below
          | dir =>
            have alone := physical_dir sound plain physical isDir names there
            rw [alone] at below whole
            cases below
            rwa [List.append_nil]
    · rw [Files.downNames_map] at down
      cases down
      exact whole

/-- Where a path of these names leads. -/
theorem reaches_names {q : PathBuf} {names : List Text} (plain : ∀ name ∈ names, PlainName name)
    (same : components q = components (absolute names)) :
    Reaches d q loc ↔
      ∃ last left, Follows d.tree [] (names.map .into) last left ∧ loc = last ++ left := by
  have rooted : isAbsolute q = true := by
    rw [isAbsolute_iff, same, (components_absolute plain).1]
    rfl
  rw [Reaches, base, if_pos rooted, same, hops_absolute plain]

/-- A place that stands is reached by its own path only. -/
theorem reaches_standing {loc' : Loc Text} (plain : ∀ name ∈ loc, PlainName name)
    (standing : Standing d.tree loc) (reaches : Reaches d (absolute loc) loc') : loc' = loc := by
  obtain ⟨last, left, follows, rfl⟩ := (reaches_names plain rfl).mp reaches
  obtain ⟨rfl, rfl⟩ := follows.unique standing.follows
  exact List.append_nil _

theorem physical_unique {above : PathBuf} {mid mid' : Loc Text} {rest rest' : List Text}
    (sound : d.Sound) (physical : Physical d above mid rest)
    (physical' : Physical d above mid' rest') : mid = mid' ∧ rest = rest' := by
  obtain ⟨found, shape, leads, missing⟩ := physical
  obtain ⟨found', shape', leads', missing'⟩ := physical'
  have same : found ++ rest = found' ++ rest' :=
    normal_injective.list_map (List.cons.inj (shape.symm.trans shape')).2
  have apart : ∀ {front back more : List Text} {loc : Loc Text}, more <+: back → more ≠ [] →
      lookup d true (absolute (front ++ more)) = .ok (.found loc) →
      (∀ more, more <+: back → more ≠ [] → pathExists d (absolute (front ++ more)) = false) →
      False := by
    intro front back more loc inside filled leads missing
    have nowhere := missing more inside filled
    rw [exists_of_leads sound leads] at nowhere
    cases nowhere
  rcases List.append_eq_append_iff.mp same with ⟨more, rfl, behind⟩ | ⟨more, rfl, behind⟩
  · by_cases none_left : more = []
    · subst none_left
      rw [List.append_nil, leads] at leads'
      cases leads'
      exact ⟨rfl, behind⟩
    · exact (apart ⟨_, behind.symm⟩ none_left leads' missing).elim
  · by_cases none_left : more = []
    · subst none_left
      rw [List.append_nil, leads'] at leads
      cases leads
      exact ⟨rfl, behind.symm⟩
    · exact (apart ⟨_, behind.symm⟩ none_left leads missing').elim

/-! ## Absolute strings -/

theorem fileName_plain {p : PathBuf} {name : Text} (last : fileName p = some name) :
    PlainName name := by
  unfold fileName at last
  split at last
  · rename_i other ends
    cases last
    exact mem_components_plain (List.mem_of_getLast? ends)
  · cases last

/-- What a path that does not exist is resolved to. -/
theorem resolveMissing_ok {p q : PathBuf} {init : List Text} (sound : d.Sound)
    (spelled : Spelled d) (made : MadeFor d sandbox allowed root ctx)
    (plain : ∀ other ∈ init, PlainName other)
    (ran : resolveMissing env d ctx p (absolute init) = .ok q) :
    ∃ mid rest name, fileName p = some name ∧ Physical d (absolute init) mid rest ∧
      AllowedPlace env d sandbox allowed (mid ++ rest) ∧
        components q = components (absolute (mid ++ (rest ++ [name]))) := by
  obtain ⟨mid, rest, physical⟩ := WorkspacePaths.physical_exists sound plain
  obtain ⟨above, resolved, same⟩ := @canonicalizeAncestor_physical env _ _ _ _ sound spelled plain
    physical
  have plainPlace := physical_plain spelled plain physical
  rw [resolveMissing, resolved] at ran
  dsimp only [bind, Except.bind] at ran
  cases last : fileName p with
  | none =>
    rw [last] at ran
    cases ran
  | some name =>
    rw [last] at ran
    dsimp only at ran
    split at ran
    · rename_i yes
      cases ran
      have whole : ∀ other ∈ mid ++ rest ++ [name], PlainName other := by
        intro other member
        rcases List.mem_append.mp member with inside | atEnd
        · exact plainPlace other inside
        · cases List.mem_singleton.mp atEnd
          exact fileName_plain last
      refine ⟨mid, rest, name, rfl, physical, ?_, ?_⟩
      · exact (isPathAllowed_iff spelled made plainPlace same).mp yes
      · rw [← List.append_assoc]
        exact components_pushed whole same
    · cases ran

/-- **A missing path** is written inside exactly if no link in it leads out. -/
theorem missing_writes_iff {p : PathBuf} {init : List Text} (sound : d.Sound)
    (spelled : Spelled d) (made : MadeFor d sandbox allowed root ctx)
    (plain : ∀ other ∈ init, PlainName other) (higher : parent p = some (absolute init)) :
    (∀ q, resolveMissing env d ctx p (absolute init) = .ok q →
      ∀ loc, Reaches d q loc → AllowedPlace env d sandbox allowed loc) ↔
    ∀ mid rest name, EndsAt d p mid rest name → AllowedPlace env d sandbox allowed (mid ++ rest) →
      LinkInside env d sandbox allowed mid (rest ++ [name]) := by
  have judged : ∀ {q mid rest name}, fileName p = some name →
      Physical d (absolute init) mid rest → AllowedPlace env d sandbox allowed (mid ++ rest) →
      components q = components (absolute (mid ++ (rest ++ [name]))) →
      ((∀ loc, Reaches d q loc → AllowedPlace env d sandbox allowed loc) ↔
        LinkInside env d sandbox allowed mid (rest ++ [name])) := by
    intro q mid rest name last physical place same
    obtain ⟨found, -, -, standing, -⟩ := physical_follows sound plain physical
    rw [← left_inside_iff sound plain (fileName_plain last) spelled physical place
      standing.follows, ← List.map_append]
    have plainPlace : ∀ other ∈ mid ++ (rest ++ [name]), PlainName other := by
      intro other member
      rw [← List.append_assoc] at member
      rcases List.mem_append.mp member with inside | atEnd
      · exact physical_plain spelled plain physical other inside
      · cases List.mem_singleton.mp atEnd
        exact fileName_plain last
    constructor
    · exact fun inside last left follows =>
        inside _ ((reaches_names plainPlace same).mpr ⟨last, left, follows, rfl⟩)
    · rintro inside loc reaches
      obtain ⟨last, left, follows, rfl⟩ := (reaches_names plainPlace same).mp reaches
      exact inside last left follows
  constructor
  · rintro inside mid rest name ⟨above, higher', last, physical⟩ place
    cases higher.symm.trans higher'
    obtain ⟨q, ran⟩ := (@resolveMissing_iff env _ _ _ _ _ p _ sound spelled made plain).mpr
      ⟨name, mid, rest, last, physical, place⟩
    obtain ⟨mid', rest', name', last', physical', place', same⟩ :=
      resolveMissing_ok sound spelled made plain ran
    obtain ⟨rfl, rfl⟩ := physical_unique sound physical physical'
    cases last.symm.trans last'
    exact (judged last physical place same).mp (inside q ran)
  · intro inside q ran
    obtain ⟨mid, rest, name, last, physical, place, same⟩ :=
      resolveMissing_ok sound spelled made plain ran
    exact (judged last physical place same).mpr
      (inside mid rest name ⟨_, higher, last, physical⟩ place)

variable {s : Text}

theorem resolve_refused (refused : Refused s) : ¬ ∃ p, resolveWritePath env d ctx s = .ok p := by
  rintro ⟨p, ran⟩
  unfold resolveWritePath resolvePathInternal at ran
  split at ran
  · cases ran
  · rename_i clean
    split at ran
    · cases ran
    · rename_i noNul
      split at ran
      · cases ran
      · rename_i short
        rw [Bool.or_eq_true] at clean
        exact refused.elim clean fun other => other.elim noNul short

/-- The spelling of a string that is refused is refused. -/
theorem refused_joined (base : PathBuf) (refused : Refused s) :
    Refused (pathJoin base ⟨s⟩).text := by
  obtain ⟨front, shape⟩ := text_pathJoin base s
  rw [shape]
  have inside : ∀ pat : Text, contains pat s = true → contains pat (front ++ s) = true :=
    fun pat marked => contains_iff.mpr
      ((contains_iff.mp marked).trans (List.suffix_append front s).isInfix)
  rcases refused with (up | back) | nul | long
  · exact .inl (.inl (inside _ up))
  · exact .inl (.inr (inside _ back))
  · exact .inr (.inl (List.mem_append_right _ nul))
  · refine .inr (.inr ?_)
    simp only [PathSecurityContext.byteLength, List.map_append, List.sum_append] at long ⊢
    omega

theorem resolve_clean (clean : ¬ Refused s) : resolveWritePath env d ctx s =
    if isAbsolute ⟨s⟩ then resolveAbsolute env d ctx ⟨s⟩ else resolveRelative env d ctx ⟨s⟩ := by
  obtain ⟨unmarked, others⟩ := not_or.mp clean
  obtain ⟨noNul, short⟩ := not_or.mp others
  exact resolvePathInternal_clean unmarked noNul (Nat.not_lt.mp short)

theorem clean_of (clean : ¬ Refused s) : contains "../".toList s = false := by
  rw [← Bool.not_eq_true]
  exact fun up => clean (.inl (.inl up))

/-- A path that the system takes and that exists. -/
theorem present_leads {p : PathBuf} (sound : d.Sound) (there : present d p = true) :
    ∃ loc, Leads d p loc ∧ Standing d.tree loc := by
  rw [present, Bool.and_eq_true] at there
  obtain ⟨loc, -, leads, -, standing⟩ := exists_found sound there.2
  exact ⟨loc, ⟨there.1, leads⟩, standing⟩

theorem resolveAbsolute_present {p : PathBuf} (spelled : Spelled d)
    (made : MadeFor d sandbox allowed root ctx) (there : present d p = true) (leads : Leads d p loc)
    {q : PathBuf} : resolveAbsolute env d ctx p = .ok q ↔
      AllowedPlace env d sandbox allowed loc ∧ q = absolute loc := by
  rw [resolveAbsolute, if_pos there, realPath_iff.mpr ⟨loc, leads, rfl⟩,
    ← @isPathAllowed_iff env d ctx sandbox allowed root loc _ spelled made
      (leads.plain spelled) rfl]
  dsimp only
  split
  · rename_i yes
    exact ⟨fun same => ⟨yes, (Except.ok.inj same).symm⟩, fun both => congrArg _ both.2.symm⟩
  · rename_i no
    exact iff_of_false (fun bad => nomatch bad) fun both => no both.1

/-- **Absolute strings.** -/
theorem absolute_writes_iff (sound : d.Sound) (spelled : Spelled d)
    (made : MadeFor d sandbox allowed root ctx) (clean : ¬ Refused s)
    (rooted : isAbsolute ⟨s⟩ = true) :
    WritesInside env d sandbox allowed ctx s ↔ AbsoluteWrites env d sandbox allowed ⟨s⟩ := by
  rw [WritesInside, resolve_clean clean, if_pos rooted, AbsoluteWrites]
  by_cases there : present d ⟨s⟩ = true
  · refine iff_of_true (fun p ran loc reaches => ?_) (.inl there)
    obtain ⟨place, leads, standing⟩ := present_leads sound there
    obtain ⟨inside, rfl⟩ := (resolveAbsolute_present spelled made there leads).mp ran
    rwa [reaches_standing (leads.plain spelled) standing reaches]
  · rw [or_iff_right there, resolveAbsolute, if_neg there]
    cases higher : parent ⟨s⟩ with
    | none =>
      refine iff_of_true (fun p ran => nomatch ran) ?_
      rintro mid rest name ⟨above, higher', -⟩
      cases higher.symm.trans higher'
    | some above =>
      obtain ⟨init, plain, rfl⟩ := parent_names rooted (clean_of clean) higher
      exact missing_writes_iff sound spelled made plain higher

/-- Which absolute strings are accepted. -/
theorem absolute_accepted_iff (sound : d.Sound) (spelled : Spelled d)
    (made : MadeFor d sandbox allowed root ctx) (rooted : isAbsolute ⟨s⟩ = true) :
    (∃ p, resolveWritePath env d ctx s = .ok p) ↔ ¬ Refused s ∧
      ((present d ⟨s⟩ = true ∧ ∃ loc, Leads d ⟨s⟩ loc ∧ AllowedPlace env d sandbox allowed loc) ∨
        (present d ⟨s⟩ = false ∧ ∃ mid rest name, EndsAt d ⟨s⟩ mid rest name ∧
          AllowedPlace env d sandbox allowed (mid ++ rest))) := by
  by_cases clean : Refused s
  · exact iff_of_false (resolve_refused clean) fun both => both.1 clean
  · rw [and_iff_right clean, resolve_clean clean, if_pos rooted]
    cases there : present d ⟨s⟩ with
    | true =>
      obtain ⟨place, leads, -⟩ := present_leads sound there
      have resolved := fun q => @resolveAbsolute_present env d ctx sandbox allowed root place _
        spelled made there leads q
      simp only [resolved, true_and, Bool.true_eq_false, false_and, or_false]
      constructor
      · rintro ⟨p, inside, -⟩
        exact ⟨place, leads, inside⟩
      · rintro ⟨other, leads', inside⟩
        rw [leads.unique leads']
        exact ⟨_, inside, rfl⟩
    | false =>
      simp only [Bool.false_eq_true, false_and, true_and, false_or]
      rw [resolveAbsolute, there, if_neg Bool.false_ne_true]
      cases higher : parent ⟨s⟩ with
      | none =>
        refine iff_of_false (fun ⟨p, ran⟩ => nomatch ran) ?_
        rintro ⟨mid, rest, name, ⟨above, higher', -⟩, -⟩
        cases higher.symm.trans higher'
      | some above =>
        obtain ⟨init, plain, rfl⟩ := parent_names rooted (clean_of clean) higher
        dsimp only
        rw [resolveMissing_iff sound spelled made plain]
        constructor
        · rintro ⟨name, mid, rest, last, physical, place⟩
          exact ⟨mid, rest, name, ⟨_, higher, last, physical⟩, place⟩
        · rintro ⟨mid, rest, name, ⟨above, higher', last, physical⟩, place⟩
          cases higher.symm.trans higher'
          exact ⟨name, mid, rest, last, physical, place⟩

/-! ## Relative strings -/

/-- How a path of names ends. -/
theorem ends_names {p : PathBuf} {names mid rest : List Text} {name : Text}
    (plain : ∀ other ∈ names, PlainName other)
    (same : components p = components (absolute names)) :
    EndsAt d p mid rest name ↔
      ∃ init, names = init ++ [name] ∧ Physical d (absolute init) mid rest := by
  have higher : parent p = parent (absolute names) := by rw [parent, parent, same]
  have last : fileName p = fileName (absolute names) := by rw [fileName, fileName, same]
  rw [EndsAt, higher, last]
  rcases List.eq_nil_or_concat names with rfl | ⟨init, final, rfl⟩
  · refine iff_of_false ?_ (by simp)
    rintro ⟨above, none, -⟩
    cases none
  · rw [List.concat_eq_append] at plain ⊢
    rw [(last_of_absolute plain).1, (last_of_absolute plain).2]
    constructor
    · rintro ⟨above, ⟨⟩, ⟨⟩, physical⟩
      exact ⟨init, rfl, physical⟩
    · rintro ⟨init', shape, physical⟩
      obtain ⟨rfl, ends⟩ := List.append_inj' shape rfl
      cases ends
      exact ⟨_, rfl, rfl, physical⟩

/-- A path that ends in `..` ends in no name. -/
theorem not_ends_up {p : PathBuf} {comps : List Component} {mid : Loc Text} {rest : List Text}
    {name : Text} (up : components p = comps ++ [.parentDir]) : ¬ EndsAt d p mid rest name := by
  rintro ⟨above, -, last, -⟩
  rw [fileName, up, List.getLast?_concat] at last
  cases last

/-- Where a path of these names leads, by the part of it that exists. -/
theorem named_writes_iff {p : PathBuf} {names mid : Loc Text} {rest : List Text} {name : Text}
    (sound : d.Sound) (spelled : Spelled d) (plain : ∀ other ∈ names, PlainName other)
    (same : components p = components (absolute names)) (ends : EndsAt d p mid rest name)
    (place : AllowedPlace env d sandbox allowed (mid ++ rest)) {q : PathBuf}
    (same' : components q = components (absolute names)) :
    (∀ loc, Reaches d q loc → AllowedPlace env d sandbox allowed loc) ↔
      LinkInside env d sandbox allowed mid (rest ++ [name]) := by
  obtain ⟨init, rfl, physical⟩ := (ends_names plain same).mp ends
  have plainInit : ∀ other ∈ init, PlainName other :=
    fun other member => plain other (List.mem_append_left _ member)
  have plainName : PlainName name := plain name (by simp)
  obtain ⟨found, split, follows, -⟩ := physical_follows sound plainInit physical
  have whole : init ++ [name] = found ++ (rest ++ [name]) := by rw [split, List.append_assoc]
  rw [← left_inside_iff sound plainInit plainName spelled physical place follows, ← List.map_append,
    ← whole]
  simp only [reaches_names plain same']
  constructor
  · exact fun inside last left follows => inside _ ⟨last, left, follows, rfl⟩
  · rintro inside loc ⟨last, left, follows, rfl⟩
    exact inside last left follows

theorem resolveRelative_present (spelled : Spelled d) (made : MadeFor d sandbox allowed root ctx)
    (there : present d (pathJoin (absolute root) ⟨s⟩) = true)
    (leads : Leads d (pathJoin (absolute root) ⟨s⟩) loc) {q : PathBuf} :
    resolveRelative env d ctx ⟨s⟩ = .ok q ↔ root <+: loc ∧ q = absolute loc := by
  have starts := starts_absolute (leads.plain spelled) made.plain
  unfold resolveRelative
  simp only [made.path]
  rw [if_pos there, realPath_iff.mpr ⟨loc, leads, rfl⟩]
  dsimp only [bind, Except.bind]
  split
  · rename_i inside
    exact ⟨fun same => ⟨starts.mp inside, (Except.ok.inj same).symm⟩,
      fun both => congrArg _ both.2.symm⟩
  · rename_i outside
    exact iff_of_false (fun bad => nomatch bad) fun both => outside (starts.mpr both.1)

theorem resolveRelative_missing (made : MadeFor d sandbox allowed root ctx)
    (missing : present d (pathJoin (absolute root) ⟨s⟩) = false) {q : PathBuf} :
    resolveRelative env d ctx ⟨s⟩ = .ok q ↔
      manualResolve env ctx ⟨s⟩ = .ok q ∧ pathStartsWith q ctx.rootPath = true := by
  unfold resolveRelative
  rw [made.path]
  dsimp only
  rw [missing, if_neg Bool.false_ne_true]
  constructor
  · intro ran
    obtain ⟨other, resolved, ran⟩ := Except.bind_eq_ok ran
    split at ran
    · rename_i inside
      cases ran
      exact ⟨resolved, inside⟩
    · cases ran
  · rintro ⟨resolved, inside⟩
    rw [resolved]
    exact if_pos inside

/-- A relative string that exists. -/
theorem relative_present_iff {joined : PathBuf} (sound : d.Sound) (spelled : Spelled d)
    (made : MadeFor d sandbox allowed root ctx) (clean : ¬ Refused s)
    (relative : isAbsolute ⟨s⟩ = false) (spells : pathJoin (absolute root) ⟨s⟩ = joined)
    (there : present d joined = true) (leads : Leads d joined loc) :
    (WritesInside env d sandbox allowed ctx s ∧ SpellingsAgree env d ctx s) ↔
      (root <+: loc ∧ ¬ Marked joined.text ∨
        ¬ root <+: loc ∧ (Marked joined.text ∨ ¬ AllowedPlace env d sandbox allowed loc)) := by
  have ran : ∀ q, resolveWritePath env d ctx s = .ok q ↔ root <+: loc ∧ q = absolute loc := by
    intro q
    subst spells
    rw [resolve_clean clean, if_neg (by simp [relative]),
      resolveRelative_present spelled made there leads]
  obtain ⟨place, leads', standing⟩ := present_leads sound there
  cases leads'.unique leads
  have inside : WritesInside env d sandbox allowed ctx s := by
    intro q resolves at_loc reaches
    obtain ⟨below, rfl⟩ := (ran q).mp resolves
    rw [reaches_standing (leads.plain spelled) standing reaches]
    exact .inl ⟨root, made.leads, below⟩
  have refused_joined : ¬ Refused joined.text ↔ ¬ Marked joined.text := by
    have fits := leads.1
    rw [taken, Bool.and_eq_true, decide_eq_true_eq, decide_eq_true_eq] at fits
    refine not_congr ⟨?_, .inl⟩
    rintro (marked | nul | long)
    · exact marked
    · exact absurd nul fits.1
    · exact absurd fits.2 (by unfold PathSecurityContext.byteLength at long; omega)
  have rooted : isAbsolute joined = true := by
    rw [← spells]
    exact isAbsolute_pathJoin (components_absolute made.plain).2 _
  have accepted : (∃ q, resolveWritePath env d ctx joined.text = .ok q) ↔
      ¬ Marked joined.text ∧ AllowedPlace env d sandbox allowed loc := by
    rw [absolute_accepted_iff sound spelled made rooted, refused_joined]
    refine and_congr_right fun _ => ⟨?_, fun allowed => .inl ⟨there, loc, leads, allowed⟩⟩
    rintro (⟨-, other, leads', allowed⟩ | ⟨missing, -⟩)
    · rwa [leads.unique leads']
    · exact absurd (there.symm.trans missing) (by simp)
  rw [and_iff_right inside, SpellingsAgree, made.path, spells, accepted]
  simp only [relative, true_imp_iff, ran]
  by_cases below : root <+: loc
  · have allowed : AllowedPlace env d sandbox allowed loc := .inl ⟨root, made.leads, below⟩
    simp [below, allowed]
  · simp only [below, false_and, exists_false, false_or, not_false_eq_true, true_and]
    tauto

/-- A relative string that does not exist. -/
theorem relative_missing_iff {joined : PathBuf} (sound : d.Sound) (spelled : Spelled d)
    (made : MadeFor d sandbox allowed root ctx) (clean : ¬ Refused s)
    (relative : isAbsolute ⟨s⟩ = false) (spells : pathJoin (absolute root) ⟨s⟩ = joined)
    (missing : present d joined = false) :
    (WritesInside env d sandbox allowed ctx s ∧ SpellingsAgree env d ctx s) ↔
      ((∃ name, .normal name ∈ components ⟨s⟩) ∨ .parentDir ∉ components ⟨s⟩ →
        ¬ Refused joined.text ∧ ∃ mid rest name, EndsAt d joined mid rest name ∧
          AllowedPlace env d sandbox allowed (mid ++ rest) ∧
            LinkInside env d sandbox allowed mid (rest ++ [name])) := by
  have ran : ∀ q, resolveWritePath env d ctx s = .ok q ↔
      manualResolve env ctx ⟨s⟩ = .ok q ∧ pathStartsWith q ctx.rootPath = true := by
    intro q
    subst spells
    rw [resolve_clean clean, if_neg (by simp [relative]), resolveRelative_missing made missing]
  have byHand : (∃ q, resolveWritePath env d ctx s = .ok q) ↔
      ((∃ name, .normal name ∈ components ⟨s⟩) ∨ .parentDir ∉ components ⟨s⟩) := by
    simp only [ran]
    rw [manualResolve_iff made.path made.plain relative (clean_of clean)]
    tauto
  have rooted : isAbsolute joined = true := by
    rw [← spells]
    exact isAbsolute_pathJoin (components_absolute made.plain).2 _
  have accepted : (∃ q, resolveWritePath env d ctx joined.text = .ok q) ↔
      ¬ Refused joined.text ∧ ∃ mid rest name, EndsAt d joined mid rest name ∧
        AllowedPlace env d sandbox allowed (mid ++ rest) := by
    rw [absolute_accepted_iff sound spelled made rooted]
    simp [missing]
  have agree : SpellingsAgree env d ctx s ↔
      (((∃ name, .normal name ∈ components ⟨s⟩) ∨ .parentDir ∉ components ⟨s⟩) ↔
        ¬ Refused joined.text ∧ ∃ mid rest name, EndsAt d joined mid rest name ∧
          AllowedPlace env d sandbox allowed (mid ++ rest)) := by
    rw [SpellingsAgree, made.path, spells, accepted, byHand]
    simp [relative]
  obtain ⟨named, plainNamed, names | up⟩ := names_then_up relative (clean_of clean)
  · have plain : ∀ name ∈ root ++ named, PlainName name := by
      intro name member
      exact (List.mem_append.mp member).elim (made.plain name) (plainNamed name)
    have acceptable : (∃ name, .normal name ∈ components ⟨s⟩) ∨ .parentDir ∉ components ⟨s⟩ := by
      right
      intro up
      have kept : Component.parentDir ∈ named.map .normal :=
        names ▸ List.mem_filter.mpr ⟨up, by simp⟩
      simp at kept
    have same : components joined = components (absolute (root ++ named)) := by
      rw [← spells, components_pathJoin (absolute_text root) relative, names,
        (components_absolute made.plain).1, (components_absolute plain).1]
      simp
    let pushed := named.foldl (fun resolved name => pathJoin resolved ⟨name⟩) ctx.rootPath
    have pushed_eq : components pushed = components (absolute (root ++ named)) :=
      components_pushed plain (by rw [made.path])
    have resolved : manualResolve env ctx ⟨s⟩ = .ok pushed := by
      rw [manualResolve, manualResolve_skips, names, manualStep_names]
    have written : ∀ q, resolveWritePath env d ctx s = .ok q ↔ q = pushed := by
      intro q
      obtain ⟨other, ranOther⟩ := byHand.mpr acceptable
      have starts := (ran other).mp ranOther
      cases resolved.symm.trans starts.1
      rw [ran, resolved]
      constructor
      · exact fun both => (Except.ok.inj both.1).symm
      · rintro rfl
        exact ⟨rfl, starts.2⟩
    simp only [agree, acceptable, true_iff, true_imp_iff, WritesInside, written, forall_eq]
    constructor
    · rintro ⟨inside, clear, mid, rest, name, ends, place⟩
      exact ⟨clear, mid, rest, name, ends, place,
        (named_writes_iff sound spelled plain same ends place pushed_eq).mp inside⟩
    · rintro ⟨clear, mid, rest, name, ends, place, onlyInside⟩
      exact ⟨(named_writes_iff sound spelled plain same ends place pushed_eq).mpr onlyInside,
        clear, mid, rest, name, ends, place⟩
  · have upJoined : components joined =
        (components (absolute root) ++ named.map .normal) ++ [.parentDir] := by
      rw [← spells, components_pathJoin (absolute_text root) relative, up, List.append_assoc]
    rw [agree]
    simp only [not_ends_up upJoined, false_and, exists_false, and_false, iff_false]
    refine and_iff_right_of_imp fun refused q resolves => ?_
    exact absurd (byHand.mp ⟨q, resolves⟩) refused

/-- **Relative strings.** -/
theorem relative_writes_iff (sound : d.Sound) (spelled : Spelled d)
    (made : MadeFor d sandbox allowed root ctx) (clean : ¬ Refused s)
    (relative : isAbsolute ⟨s⟩ = false) :
    (WritesInside env d sandbox allowed ctx s ∧ SpellingsAgree env d ctx s) ↔
      RelativeWrites env d sandbox allowed root s := by
  unfold RelativeWrites
  generalize spells : pathJoin (absolute root) ⟨s⟩ = joined
  dsimp only
  cases there : present d joined with
  | false =>
    rw [relative_missing_iff sound spelled made clean relative spells there]
    simp
  | true =>
    obtain ⟨loc, leads, -⟩ := present_leads sound there
    rw [relative_present_iff sound spelled made clean relative spells there leads]
    have only : ∀ other, Leads d joined other ↔ other = loc :=
      fun other => ⟨fun leads' => leads'.unique leads, fun same => same ▸ leads⟩
    simp [only]

/-- **Writes.** A string is written inside and judged as its spelling exactly if it is safe. -/
theorem writes_safe_iff (sound : d.Sound) (spelled : Spelled d)
    (made : withAllowedPaths env d sandbox allowed = .ok ctx) :
    ∃ root, Leads d sandbox root ∧ ∀ s,
      (WritesInside env d sandbox allowed ctx s ∧ SpellingsAgree env d ctx s) ↔
        SafeWrite env d sandbox allowed root s := by
  obtain ⟨root, madeFor⟩ := withAllowedPaths_ok spelled made
  refine ⟨root, madeFor.leads, fun s => ?_⟩
  unfold SafeWrite
  by_cases clean : Refused s
  · refine iff_of_true ⟨fun p ran => ?_, fun relative => ?_⟩ (.inl clean)
    · exact absurd ⟨p, ran⟩ (resolve_refused clean)
    · exact iff_of_false (resolve_refused clean) (resolve_refused (refused_joined _ clean))
  · rw [or_iff_right clean]
    cases rooted : isAbsolute ⟨s⟩ with
    | true =>
      rw [absolute_writes_iff sound spelled madeFor clean rooted]
      simp [SpellingsAgree, rooted]
    | false => simp [relative_writes_iff sound spelled madeFor clean rooted]

/-! ## A link out of the sandbox -/

theorem eq_ok_of_toOption {e : Except McpError PathBuf} {p : PathBuf}
    (some_p : e.toOption = some p) : e = .ok p := by
  cases e with
  | error => cases some_p
  | ok q =>
    cases some_p
    rfl

theorem linkedContext_created : withAllowedPaths plainEnvironment linkedSandbox
    ⟨"/s".toList⟩ [] = .ok sandboxContext := by
  have real : realPath linkedSandbox ⟨"/s".toList⟩ = .ok ⟨"/s".toList⟩ := by decide +kernel
  rw [withAllowedPaths, real]
  rfl

/-- What exists in the sandbox is written there. -/
theorem writes_safe_sub : ∃ root, Leads linkedSandbox ⟨"/s".toList⟩ root ∧
    ((WritesInside plainEnvironment linkedSandbox ⟨"/s".toList⟩ [] sandboxContext "sub".toList ∧
      SpellingsAgree plainEnvironment linkedSandbox sandboxContext "sub".toList) ↔
      SafeWrite plainEnvironment linkedSandbox ⟨"/s".toList⟩ [] root "sub".toList) := by
  obtain ⟨root, leads, safe⟩ :=
    writes_safe_iff linkedSandbox_sound linkedSandbox_spelled linkedContext_created
  exact ⟨root, leads, safe "sub".toList⟩

/-- **A new file behind the link** is accepted as it is spelled, and is in `/etc`. Its absolute
spelling is refused. -/
theorem new_file_written_outside :
    withAllowedPaths plainEnvironment linkedSandbox ⟨"/s".toList⟩ [] = .ok sandboxContext ∧
      ¬ WritesInside plainEnvironment linkedSandbox ⟨"/s".toList⟩ [] sandboxContext
        "out/newfile".toList ∧
      ¬ SpellingsAgree plainEnvironment linkedSandbox sandboxContext "out/newfile".toList := by
  have resolved : resolveWritePath plainEnvironment linkedSandbox sandboxContext
      "out/newfile".toList = .ok ⟨"/s/out/newfile".toList⟩ :=
    eq_ok_of_toOption (by decide +kernel)
  refine ⟨linkedContext_created, fun inside => ?_, fun agree => ?_⟩
  · have reaches : Reaches linkedSandbox ⟨"/s/out/newfile".toList⟩
        ["etc".toList, "newfile".toList] := by
      refine ⟨["etc".toList], ["newfile".toList], ?_, rfl⟩
      exact .dir rfl (.link rfl (.dir rfl (.missing rfl rfl)))
    rcases inside _ resolved _ reaches with ⟨root, leads, below⟩ | temp | ⟨path, member, -⟩
    · have at_s : Leads linkedSandbox ⟨"/s".toList⟩ ["s".toList] :=
        ⟨by decide +kernel, by decide +kernel⟩
      cases leads.unique at_s
      exact absurd below (by decide)
    · exact absurd temp (by decide)
    · cases member
  · obtain ⟨p, accepted⟩ := (agree (by decide)).mp ⟨_, resolved⟩
    have refused : (resolveWritePath plainEnvironment linkedSandbox sandboxContext
        (pathJoin sandboxContext.rootPath ⟨"out/newfile".toList⟩).text).isOk = false := by
      decide +kernel
    rw [accepted] at refused
    cases refused

end Devit.FileSystemContext
