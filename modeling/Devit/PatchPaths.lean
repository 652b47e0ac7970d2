import Devit.PathSecurity
import Devit.Library.Reaching

/-! Whether a patch path that passes the checks stays in the repository. What exists
is checked by its canonical path and stays; so does a free name in an existing
directory. Where the parent is missing, or the name is a dangling link, only the
spelling of the path is checked, and then it stays where its links lead. -/
namespace Devit
open Text Path FileSystem
open Files (Loc Follows Standing Grounded entry)

namespace PatchPaths
open PathSecurityContext

/-- The checks are made for the repository at a location. -/
structure RootedAt (d : Disk) (ctx : PathSecurityContext) (root : Loc Text) : Prop where
  path : ctx.repoRoot = absolute root
  plain : ∀ name ∈ root, PlainName name
  stands : Standing d.tree root

/-- What is accepted reaches a place in the repository. -/
def StaysInside (clean : PathBuf → PathBuf) (ctx : PathSecurityContext) (d : Disk) (root : Loc Text)
    (path : PathBuf) : Prop :=
  ∀ accepted, validatePatchPath clean ctx d path = .ok accepted →
    ∀ loc, Reaches d (pathJoin ctx.repoRoot path) loc → root <+: loc

/-- Nothing in the text of the path forbids it. -/
def Considered (path : PathBuf) : Prop :=
  validateBasicPath path = .ok () ∧ isAbsolute path = false

/-- The path is judged without a look at where it leads: it does not exist, and
either its parent does not exist or a link in the repository has its name. -/
def Unseen (d : Disk) (root : Loc Text) (full : PathBuf) : Prop :=
  pathExists d full = false ∧ ∀ above, parent full = some above → pathExists d above = true →
    ∃ dir name target, Opens d above dir ∧ root <+: dir ∧ fileName full = some name ∧
      entry d.tree (dir ++ [name]) = some (.link target)

/-- The last place that exists on the way is in the repository. -/
def LeadsInside (d : Disk) (root : Loc Text) (full : PathBuf) : Prop :=
  ∀ last left, Follows d.tree (base d full) (hops (components full)) last left → root <+: last

variable {clean : PathBuf → PathBuf} {ctx : PathSecurityContext} {d : Disk} {root : Loc Text}
  {path : PathBuf}

/-- A new context is rooted at the location of the repository. -/
theorem create_rooted {repo : PathBuf} {allow : Bool} (sound : d.Sound) (spelled : Spelled d)
    (made : create d repo allow = .ok ctx) : ∃ root, RootedAt d ctx root := by
  unfold create at made
  cases found : canonicalize d repo with
  | error e => simp [found] at made
  | ok canonical =>
    simp only [found] at made
    cases made
    obtain ⟨loc, rfl, leads⟩ := canonicalize_ok found
    refine ⟨loc, rfl, lookup_plain spelled leads, ?_⟩
    have filled : repo.text ≠ [] := by
      intro empty
      rw [lookup, route, if_pos empty] at leads
      cases leads
    rw [lookup_eq filled] at leads
    exact Files.walk_lands (grounded_base sound repo) leads

/-! ## The joined path -/

theorem considered_clean (considered : Considered path) :
    contains "../".toList path.text = false := by
  have passed := considered.1
  unfold validateBasicPath at passed
  split at passed
  · cases passed
  · rename_i clean
    rw [Bool.not_eq_true, Bool.or_eq_false_iff] at clean
    exact clean.1

/-- A joined path spells the root, then names, and perhaps a `..` at the end. -/
theorem joined_components (rooted : RootedAt d ctx root) (considered : Considered path) :
    isAbsolute (pathJoin ctx.repoRoot path) = true ∧
    ∃ named : List Text, (∀ name ∈ named, PlainName name) ∧
      (components (pathJoin ctx.repoRoot path) = .rootDir :: (root ++ named).map .normal ∨
        components (pathJoin ctx.repoRoot path) =
          .rootDir :: (root ++ named).map .normal ++ [.parentDir]) := by
  have shape := components_absolute rooted.plain
  obtain ⟨named, plain, spelled⟩ := names_then_up considered.2 (considered_clean considered)
  rw [rooted.path]
  refine ⟨isAbsolute_pathJoin shape.2 path, named, plain, ?_⟩
  rw [components_pathJoin (absolute_text root) considered.2, shape.1]
  rcases spelled with names | up
  · rw [names]
    simp
  · rw [up]
    simp

/-- What joining a name to a canonical directory gives is judged by that directory. -/
theorem joined_name_starts (rooted : RootedAt d ctx root) {mid : Loc Text} {name : Text}
    (plain : ∀ other ∈ mid, PlainName other) (plainName : PlainName name) :
    pathStartsWith (pathJoin (absolute mid) ⟨name⟩) ctx.repoRoot = true ↔ root <+: mid ++ [name] := by
  have whole : ∀ other ∈ mid ++ [name], PlainName other := by
    intro other member
    rcases List.mem_append.mp member with inside | last
    · exact plain other inside
    · rw [List.mem_singleton.mp last]
      exact plainName
  rw [← starts_absolute whole rooted.plain, rooted.path, pathStartsWith,
    components_join_name plain plainName, pathStartsWith]

theorem fileName_plain {p : PathBuf} {name : Text} (named : fileName p = some name) :
    PlainName name := by
  rw [fileName] at named
  split at named
  · rename_i found same
    cases named
    exact mem_components_plain (List.mem_of_getLast? same)
  · cases named

/-! ## What is accepted -/

theorem accepted_iff (considered : Considered path) (other : same path ⟨"/dev/null".toList⟩ = false)
    (accepted : PathBuf) : validatePatchPath clean ctx d path = .ok accepted ↔
      safeCanonicalize clean ctx d (pathJoin ctx.repoRoot path) = .ok accepted ∧
        pathStartsWith accepted ctx.repoRoot = true := by
  rw [validatePatchPath, other, if_neg Bool.false_ne_true]
  constructor
  · intro passed
    obtain ⟨_, -, passed⟩ := Except.bind_eq_ok passed
    rw [if_neg (by simp [considered.2])] at passed
    obtain ⟨canonical, resolved, passed⟩ := Except.bind_eq_ok passed
    split at passed
    · rename_i below
      cases passed
      exact ⟨resolved, below⟩
    · cases passed
  · rintro ⟨resolved, below⟩
    rw [considered.1, considered.2, resolved]
    exact if_pos below

theorem not_considered (refused : ¬ Considered path) (other : same path ⟨"/dev/null".toList⟩ = false)
    (accepted : PathBuf) : validatePatchPath clean ctx d path ≠ .ok accepted := by
  intro passed
  rw [validatePatchPath, other, if_neg Bool.false_ne_true] at passed
  obtain ⟨_, basic, passed⟩ := Except.bind_eq_ok passed
  split at passed
  · cases passed
  · rename_i relative
    exact refused ⟨basic, by simpa using relative⟩

/-- What is resolved by hand from an absolute path is absolute. -/
theorem manual_absolute (cleans : Cleans clean) {full accepted : PathBuf}
    (rooted : isAbsolute full = true)
    (resolved : manualPathResolution clean ctx full = .ok accepted) :
    ∃ loc, (∀ name ∈ loc, PlainName name) ∧ accepted = absolute loc := by
  rw [manualPathResolution, if_pos rooted, cleans full rooted] at resolved
  cases resolved
  exact ⟨_, collapse_plain fun name member => mem_components_plain member, rfl⟩

/-- What is resolved from an absolute path is absolute. -/
theorem resolved_absolute (cleans : Cleans clean) (sound : d.Sound) (spelled : Spelled d)
    {full accepted : PathBuf} (rooted : isAbsolute full = true)
    (resolved : safeCanonicalize clean ctx d full = .ok accepted) :
    ∃ loc, (∀ name ∈ loc, PlainName name) ∧ accepted = absolute loc := by
  unfold safeCanonicalize at resolved
  split at resolved
  · rename_i there
    obtain ⟨loc, canonical, leads, -, -⟩ := exists_found sound there
    rw [canonical] at resolved
    cases resolved
    exact ⟨loc, lookup_plain spelled leads, rfl⟩
  · split at resolved
    · exact manual_absolute cleans rooted resolved
    · rename_i above higher
      split at resolved
      · rename_i there
        obtain ⟨mid, canonical, leads, -, -⟩ := exists_found sound there
        rw [canonical] at resolved
        dsimp only at resolved
        split at resolved
        · rename_i name named
          cases resolved
          have plain : ∀ other ∈ mid, PlainName other := lookup_plain spelled leads
          have plainName := fileName_plain named
          refine ⟨mid ++ [name], fun other member => ?_, pathJoin_absolute plain plainName⟩
          rcases List.mem_append.mp member with inside | last
          · exact plain other inside
          · rw [List.mem_singleton.mp last]
            exact plainName
        · exact manual_absolute cleans rooted resolved
      · exact manual_absolute cleans rooted resolved

/-- What is accepted is an absolute path. -/
theorem accepted_absolute (cleans : Cleans clean) (sound : d.Sound) (spelled : Spelled d)
    (rooted : RootedAt d ctx root) {accepted : PathBuf}
    (passed : validatePatchPath clean ctx d path = .ok accepted) :
    ∃ loc, (∀ name ∈ loc, PlainName name) ∧ accepted = absolute loc := by
  cases other : same path ⟨"/dev/null".toList⟩ with
  | true =>
    rw [validatePatchPath, other, if_pos rfl] at passed
    cases passed
    exact ⟨["dev".toList, "null".toList], by decide, rfl⟩
  | false =>
    by_cases considered : Considered path
    · obtain ⟨resolved, -⟩ := (accepted_iff considered other accepted).mp passed
      exact resolved_absolute cleans sound spelled (joined_components rooted considered).1 resolved
    · exact absurd passed (not_considered considered other accepted)

/-- What leads through the joined path starts at the top. -/
theorem base_full (rooted : RootedAt d ctx root) (considered : Considered path) :
    base d (pathJoin ctx.repoRoot path) = [] := by
  rw [base, (joined_components rooted considered).1, if_pos rfl]

/-- A path that is accepted stays inside exactly when it leads inside. -/
theorem stays_iff_leads (rooted : RootedAt d ctx root) (considered : Considered path)
    (accepted : ∃ q, validatePatchPath clean ctx d path = .ok q) :
    StaysInside clean ctx d root path ↔ LeadsInside d root (pathJoin ctx.repoRoot path) := by
  obtain ⟨q, passed⟩ := accepted
  have ground : Grounded d.tree (base d (pathJoin ctx.repoRoot path)) := by
    rw [base_full rooted considered]
    exact Files.grounded_root d.tree
  constructor
  · intro stays last left follows
    have inside := stays q passed _ ⟨last, left, follows, rfl⟩
    exact (follows.inside_iff ground rooted.stands).mp inside
  · rintro leads - - loc ⟨last, left, follows, rfl⟩
    exact (follows.inside_iff ground rooted.stands).mpr (leads last left follows)

/-! ## Paths that are looked at -/

theorem stays_of_exists (sound : d.Sound) (spelled : Spelled d) (rooted : RootedAt d ctx root)
    (considered : Considered path) (other : same path ⟨"/dev/null".toList⟩ = false)
    (there : pathExists d (pathJoin ctx.repoRoot path) = true) :
    StaysInside clean ctx d root path := by
  obtain ⟨found, canonical, leads, first, -⟩ := exists_found sound there
  rintro accepted passed loc ⟨last, left, follows, rfl⟩
  obtain ⟨resolved, below⟩ := (accepted_iff considered other accepted).mp passed
  rw [safeCanonicalize, if_pos there, canonical] at resolved
  cases resolved
  obtain ⟨rfl, rfl⟩ := first.unique follows
  have plain : ∀ name ∈ found, PlainName name := lookup_plain spelled leads
  rw [rooted.path, starts_absolute plain rooted.plain] at below
  rw [List.append_nil]
  exact below

/-- A path whose parent exists stays inside, but for a link with its name. -/
theorem stays_of_parent (sound : d.Sound) (spelled : Spelled d) (rooted : RootedAt d ctx root)
    (considered : Considered path) (other : same path ⟨"/dev/null".toList⟩ = false)
    (missing : pathExists d (pathJoin ctx.repoRoot path) = false) {above : PathBuf}
    (higher : parent (pathJoin ctx.repoRoot path) = some above) (there : pathExists d above = true)
    (unlinked : ¬ ∃ dir name target, Opens d above dir ∧ root <+: dir ∧
      fileName (pathJoin ctx.repoRoot path) = some name ∧
      entry d.tree (dir ++ [name]) = some (.link target)) :
    StaysInside clean ctx d root path := by
  obtain ⟨mid, canonical, leads, first, stands⟩ := exists_found sound there
  obtain ⟨absolute_full, -⟩ := joined_components rooted considered
  obtain ⟨absolute_above, last, plain, shape⟩ := parent_absolute absolute_full higher
  have same_base : base d (pathJoin ctx.repoRoot path) = base d above := by
    rw [base, base, absolute_full, absolute_above]
  rintro accepted passed loc ⟨place, left, follows, rfl⟩
  obtain ⟨resolved, below⟩ := (accepted_iff considered other accepted).mp passed
  cases last with
  | rootDir => cases plain
  | curDir => cases plain
  | normal name =>
    have named : fileName (pathJoin ctx.repoRoot path) = some name := by simp [fileName, shape]
    simp only [safeCanonicalize, missing, Bool.false_eq_true, ↓reduceIte, higher, there, canonical,
      named] at resolved
    cases resolved
    have plainMid : ∀ other ∈ mid, PlainName other := lookup_plain spelled leads
    rw [joined_name_starts rooted plainMid plain] at below
    rcases free_name_reached sound shape same_base leads first missing follows with linked | reached
    · obtain ⟨target, opens, isLink⟩ := linked
      rcases List.prefix_concat_iff.mp below with itself | inside
      · have notLink := Files.standing_ne_link rooted.stands target
        rw [itself] at notLink
        exact absurd isLink notLink
      · exact absurd ⟨mid, name, target, opens, inside, named, isLink⟩ unlinked
    · rw [reached]
      exact below
  | parentDir =>
    rw [same_base, shape, hops_up] at follows
    rcases first.onward (grounded_base sound above) follows with ⟨isDir, -⟩ | ⟨-, -, down⟩
    · have filled : above.text ≠ [] := by
        intro empty
        rw [lookup, route, if_pos empty] at leads
        cases leads
      have opens : Opens d above mid := (opens_iff sound filled).mpr ⟨leads, isDir⟩
      have whole : Opens d (pathJoin ctx.repoRoot path) mid.dropLast := by
        rw [Opens, same_base, shape, hops_up]
        exact opens.up (grounded_base sound above)
      rw [exists_of_opens sound (text_ne_nil shape) whole] at missing
      cases missing
    · cases down

/-! ## Paths judged by their spelling -/

/-- A path whose parent is missing is accepted for its names. -/
theorem spelling_accepted (cleans : Cleans clean) (sound : d.Sound) (rooted : RootedAt d ctx root)
    (considered : Considered path) (other : same path ⟨"/dev/null".toList⟩ = false)
    (missing : pathExists d (pathJoin ctx.repoRoot path) = false)
    (orphan : ∀ above, parent (pathJoin ctx.repoRoot path) = some above →
      pathExists d above = false) :
    ∃ q, validatePatchPath clean ctx d path = .ok q := by
  obtain ⟨absolute_full, named, plain, shape⟩ := joined_components rooted considered
  refine ⟨clean (pathJoin ctx.repoRoot path), (accepted_iff considered other _).mpr ⟨?_, ?_⟩⟩
  · have byHand : manualPathResolution clean ctx (pathJoin ctx.repoRoot path) =
        .ok (clean (pathJoin ctx.repoRoot path)) := if_pos absolute_full
    rw [safeCanonicalize, missing, if_neg Bool.false_ne_true, byHand]
    cases higher : parent (pathJoin ctx.repoRoot path) with
    | none => rfl
    | some above => simp [orphan above higher]
  · have names : ∀ name ∈ collapse (components (pathJoin ctx.repoRoot path)), PlainName name :=
      collapse_plain fun name member => mem_components_plain member
    have starts := starts_absolute names rooted.plain
    rw [← rooted.path] at starts
    rw [cleans _ absolute_full, starts]
    rcases shape with spelled | up
    · rw [spelled, collapse_names]
      exact List.prefix_append _ _
    · rw [up, collapse_concat, collapse_names]
      rcases List.eq_nil_or_concat named with rfl | ⟨init, last, rfl⟩
      · have above : parent (pathJoin ctx.repoRoot path) = some (absolute root) := by
          rw [parent, up, List.getLast?_concat, List.dropLast_concat, List.append_nil]
          rfl
        have nowhere := orphan _ above
        rw [exists_absolute sound rooted.plain rooted.stands] at nowhere
        cases nowhere
      · rw [List.concat_eq_append, ← List.append_assoc, List.dropLast_concat]
        exact List.prefix_append _ _

theorem unseen_accepted (cleans : Cleans clean) (sound : d.Sound) (spelled : Spelled d)
    (rooted : RootedAt d ctx root) (considered : Considered path)
    (other : same path ⟨"/dev/null".toList⟩ = false)
    (unseen : Unseen d root (pathJoin ctx.repoRoot path)) :
    ∃ q, validatePatchPath clean ctx d path = .ok q := by
  obtain ⟨missing, linked⟩ := unseen
  by_cases orphan : ∀ above, parent (pathJoin ctx.repoRoot path) = some above →
      pathExists d above = false
  · exact spelling_accepted cleans sound rooted considered other missing orphan
  · push Not at orphan
    obtain ⟨above, higher, there⟩ := orphan
    rw [ne_eq, Bool.not_eq_false] at there
    obtain ⟨dir, name, target, opens, inside, named, -⟩ := linked above higher there
    obtain ⟨mid, canonical, leads, -, -⟩ := exists_found sound there
    have filled : above.text ≠ [] := by
      intro empty
      rw [lookup, route, if_pos empty] at leads
      cases leads
    cases leads.symm.trans ((opens_iff sound filled).mp opens).1
    have plain : ∀ other ∈ dir, PlainName other := lookup_plain spelled leads
    have plainName := fileName_plain named
    refine ⟨pathJoin (absolute dir) ⟨name⟩, (accepted_iff considered other _).mpr ⟨?_, ?_⟩⟩
    · simp only [safeCanonicalize, missing, Bool.false_eq_true, ↓reduceIte, higher, there, canonical,
        named]
    · rw [joined_name_starts rooted plain plainName]
      exact inside.trans (List.prefix_append _ _)

/-- **Patch paths.** A path is only accepted where it stays in the repository, and
exactly then, if it is refused for its text, is looked at, or the last place that
exists on the way of its links is in the repository. -/
theorem patch_path_stays_iff (cleans : Cleans clean) (sound : d.Sound) (spelled : Spelled d)
    (rooted : RootedAt d ctx root) (other : same path ⟨"/dev/null".toList⟩ = false) :
    StaysInside clean ctx d root path ↔
      (Considered path → Unseen d root (pathJoin ctx.repoRoot path) →
        LeadsInside d root (pathJoin ctx.repoRoot path)) := by
  constructor
  · intro stays considered unseen
    have accepted := unseen_accepted cleans sound spelled rooted considered other unseen
    exact (stays_iff_leads rooted considered accepted).mp stays
  · intro leads
    by_cases considered : Considered path
    · by_cases there : pathExists d (pathJoin ctx.repoRoot path) = true
      · exact stays_of_exists sound spelled rooted considered other there
      · rw [Bool.not_eq_true] at there
        by_cases unseen : Unseen d root (pathJoin ctx.repoRoot path)
        · have accepted := unseen_accepted cleans sound spelled rooted considered other unseen
          exact (stays_iff_leads rooted considered accepted).mpr (leads considered unseen)
        · rw [Unseen, not_and] at unseen
          have seen := unseen there
          push Not at seen
          obtain ⟨above, higher, parentThere, unlinked⟩ := seen
          refine stays_of_parent sound spelled rooted considered other there higher parentThere ?_
          rintro ⟨dir, name, target, opens, inside, named, isLink⟩
          exact unlinked dir name target opens inside named isLink
    · intro accepted passed
      exact absurd passed (not_considered considered other accepted)

/-- A repository `/w` with a link `out` to the directory `/etc` and a dangling link
`new` to `/etc/cron`. -/
def linkedRepository : Disk where
  tree := Files.put (Files.put (Files.put (Files.put (fun _ => none) ["w".toList] (some .dir))
    ["etc".toList] (some .dir)) ["w".toList, "out".toList]
      (some (.link ⟨true, [.into "etc".toList]⟩)))
    ["w".toList, "new".toList] (some (.link ⟨true, [.into "etc".toList, .into "cron".toList]⟩))
  cwd := []
  touched := []

theorem linkedRepository_spelled : Spelled linkedRepository := by
  refine ⟨by simp [linkedRepository], ?_⟩
  refine named_put (named_put (named_put (named_put nofun nofun) nofun) ?_) ?_
  · rintro target ⟨⟩ name member
    cases List.mem_singleton.mp member
    decide
  · rintro target ⟨⟩ name member
    have listed : name = "etc".toList ∨ name = "cron".toList := by simpa using member
    rcases listed with rfl | rfl <;> decide

theorem linkedRepository_rooted : RootedAt linkedRepository ⟨⟨"/w".toList⟩, true⟩ ["w".toList] where
  path := rfl
  plain := by decide
  stands := by
    refine .inl fun above member => ?_
    rcases List.prefix_concat_iff.mp (show above <+: [] ++ ["w".toList] from member) with rfl | top
    · decide
    · rw [List.prefix_nil.mp top]
      rfl

/-- A new file at the top of the repository stays there. -/
theorem new_file_stays :
    StaysInside cleanAbsolute ⟨⟨"/w".toList⟩, true⟩ linkedRepository ["w".toList]
      ⟨"fresh".toList⟩ := by
  have sound : linkedRepository.Sound := Files.grounded_root _
  refine (patch_path_stays_iff cleans_cleanAbsolute sound linkedRepository_spelled
    linkedRepository_rooted (by decide)).mpr ?_
  rintro - ⟨-, linked⟩
  obtain ⟨dir, name, target, opens, -, named, isLink⟩ :=
    linked ⟨"/w".toList⟩ (by decide) (by decide +kernel)
  have opensRoot : Opens linkedRepository ⟨"/w".toList⟩ ["w".toList] :=
    ⟨by decide +kernel, by decide +kernel⟩
  cases Files.LeadsTo.unique opens opensRoot
  have fresh : fileName (pathJoin ⟨"/w".toList⟩ ⟨"fresh".toList⟩) = some "fresh".toList := by decide
  cases fresh.symm.trans named
  have free : entry linkedRepository.tree (["w".toList] ++ ["fresh".toList]) = none := by
    decide +kernel
  rw [free] at isLink
  cases isLink

/-- A path through the link whose parent is missing is accepted and leads to `/etc`,
and so is the dangling link. -/
theorem links_lead_out :
    create linkedRepository ⟨"/w".toList⟩ true = .ok ⟨⟨"/w".toList⟩, true⟩ ∧
      ¬ StaysInside cleanAbsolute ⟨⟨"/w".toList⟩, true⟩ linkedRepository ["w".toList]
        ⟨"out/sub/x".toList⟩ ∧
      ¬ StaysInside cleanAbsolute ⟨⟨"/w".toList⟩, true⟩ linkedRepository ["w".toList]
        ⟨"new".toList⟩ := by
  have w : entry linkedRepository.tree ["w".toList] = some .dir := by decide +kernel
  have etc : entry linkedRepository.tree ["etc".toList] = some .dir := by decide +kernel
  refine ⟨by decide +kernel, fun stays => ?_, fun stays => ?_⟩
  · have accepted : validatePatchPath cleanAbsolute ⟨⟨"/w".toList⟩, true⟩ linkedRepository
        ⟨"out/sub/x".toList⟩ = .ok ⟨"/w/out/sub/x".toList⟩ := by decide +kernel
    have way : hops (components ⟨"/w/out/sub/x".toList⟩) =
        [.into "w".toList, .into "out".toList, .into "sub".toList, .into "x".toList] := by decide
    have out : entry linkedRepository.tree ["w".toList, "out".toList] =
        some (.link ⟨true, [.into "etc".toList]⟩) := by decide +kernel
    have sub : entry linkedRepository.tree ["etc".toList, "sub".toList] = none := by decide +kernel
    have inside := stays _ accepted ["etc".toList, "sub".toList, "x".toList]
      ⟨["etc".toList], ["sub".toList, "x".toList], by
        rw [show pathJoin ⟨"/w".toList⟩ ⟨"out/sub/x".toList⟩ = ⟨"/w/out/sub/x".toList⟩ from rfl, way]
        exact .dir w (.link out (.dir etc (.missing sub rfl))), rfl⟩
    exact absurd inside (by decide)
  · have accepted : validatePatchPath cleanAbsolute ⟨⟨"/w".toList⟩, true⟩ linkedRepository
        ⟨"new".toList⟩ = .ok ⟨"/w/new".toList⟩ := by decide +kernel
    have way : hops (components ⟨"/w/new".toList⟩) = [.into "w".toList, .into "new".toList] := by
      decide
    have new : entry linkedRepository.tree ["w".toList, "new".toList] =
        some (.link ⟨true, [.into "etc".toList, .into "cron".toList]⟩) := by decide +kernel
    have cron : entry linkedRepository.tree ["etc".toList, "cron".toList] = none := by decide +kernel
    have inside := stays _ accepted ["etc".toList, "cron".toList]
      ⟨["etc".toList], ["cron".toList], by
        rw [show pathJoin ⟨"/w".toList⟩ ⟨"new".toList⟩ = ⟨"/w/new".toList⟩ from rfl, way]
        exact .dir w (.link new (.dir etc (.missing cron rfl))), rfl⟩
    exact absurd inside (by decide)

end PatchPaths

end Devit
