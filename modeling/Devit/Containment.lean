import Devit.Library.Footprint
import Devit.PatchAtomicity

/-! When everything a patch touches lies below the working directory. The checks
look at the components of a path and at the entry it leads to; the calls that
follow go wherever links on the way lead, and the temporary file is opened
through a link at its name. -/
namespace Devit
open Text Path FileSystem
open Files hiding Place

namespace Containment
open AtomicPatcher AtomicWrite PatchSections PatchAtomicity

variable {p : AtomicPatcher} {d : Disk} {root : Loc Text}

/-! ## Calls only add to what was touched -/

theorem grows_orIo {α : Type} {call : Action Errno Disk α} (inner : Grows call)
    (operation : String) (path : PathBuf) : Grows (orIo operation path call) := by
  intro d
  rw [orIo_snd]
  exact inner d

theorem grows_write (full : PathBuf) (content : Text) : Grows (writeFileAtomically full content) :=
  grows_bind (grows_orIo (grows_atPath (grows_openTruncate _) _) _ _) fun file =>
    grows_bind (grows_orIo (grows_writeAll file _) _ _) fun _ =>
      grows_orIo (grows_renameFile _ _) _ _

theorem grows_makeParents (full : PathBuf) : Grows (makeParents full) := by
  unfold makeParents
  split
  · exact grows_pure ()
  · exact grows_orIo (grows_createDirAll _) _ _

theorem grows_deleteAt (live : p.dryRun = false) (path : PathBuf) (stats : PatchStats) :
    Grows (deleteAt p path stats) := by
  intro d
  rw [deleteAt_eq live]
  split
  · exact grows_bind (grows_orIo (grows_atPath grows_unlink _) _ _) (fun _ => grows_pure _) d
  · exact .refl d

theorem grows_createAt (live : p.dryRun = false) (path : PathBuf) (hunks : List PatchHunk)
    (noTrailingNewline : Bool) (stats : PatchStats) :
    Grows (createAt p path hunks noTrailingNewline stats) := by
  rw [createAt_eq live]
  exact grows_bind (grows_makeParents _) fun _ => grows_bind (grows_lift _) fun content =>
    grows_bind (grows_write _ content) fun _ => grows_pure _

theorem grows_modifyAt (live : p.dryRun = false) (path : PathBuf) (hunks : List PatchHunk)
    (noTrailingNewline : Bool) (stats : PatchStats) :
    Grows (modifyAt p path hunks noTrailingNewline stats) := by
  intro d
  rw [modifyAt_eq live]
  exact grows_bind (grows_lift _)
    (fun content => grows_bind (grows_write _ content) fun _ => grows_pure _) d

theorem grows_section (live : p.dryRun = false) (stats : PatchStats) (file : FilePatch) :
    Grows (applyFilePatch p stats file) := by
  cases chosen : fileOp file with
  | none =>
    intro d
    obtain ⟨reason, refused⟩ := applyFilePatch_no_op chosen p stats d
    rw [refused]
    exact .refl d
  | some op =>
    rw [applyFilePatch_eq_perform chosen]
    cases op with
    | delete path => exact grows_deleteAt live path stats
    | create path => exact grows_createAt live path _ _ stats
    | modify path => exact grows_modifyAt live path _ _ stats

/-! ## One write -/

/-- A write goes to places below `root`: the file that is opened under the
temporary name, and the directory in which that name then replaces the file's. -/
structure WriteInside (root : Loc Text) (d : Disk) (full : PathBuf) : Prop where
  opened : ∀ place, lookup d true (tempPath full) = .ok place →
    entry d.tree place.loc ≠ some .dir → root <+: place.loc.dropLast
  replaced : ∀ place target, lookup d true (tempPath full) = .ok place →
    entry d.tree place.loc ≠ some .dir → lookup d false full = .ok target →
    entry d.tree target.loc ≠ some .dir → root <+: target.loc.dropLast

theorem tempName_ne (name : Text) : tempName name ≠ name := by
  intro same
  have spelled : name = (stem name ++ ".devit".toList) ++ (['.'] ++ "tmp".toList) := by
    conv_lhs => rw [← same]
    simp [tempName]
  obtain ⟨more, found⟩ := beforeLast_append ['.'] (stem name ++ ".devit".toList) "tmp".toList
  rw [← spelled] at found
  have longer : stem name = stem name ++ ".devit".toList ++ more := by
    conv_lhs => rw [stem, found]
    simp
  have lengths := congrArg List.length longer
  simp only [List.length_append, String.length_toList] at lengths
  have size : ".devit".length = 6 := rfl
  omega

/-- Writing a file leaves the ways to directories open. -/
theorem holds_written {full : PathBuf} {dir : Loc Text} {place : Files.Place Text} {content : Text}
    {q : PathBuf} (sound : d.Sound) (leads : lookup d true full = .ok place)
    (notDir : entry d.tree place.loc ≠ some .dir) (holds : Holds d q dir) :
    Holds (written d place.loc content) q dir := by
  refine LeadsTo.congr holds fun loc passable => ?_
  have apart : loc ≠ place.loc := by
    rintro rfl
    rcases passable with isDir | ⟨target, isLink⟩
    · exact notDir isDir
    · exact lookup_follow sound leads target isLink
  simp [written, Disk.put, put, Function.update, apart]

/-- Once the temporary file is open, the file is replaced unless it is a directory. -/
theorem write_replaces {full : PathBuf} {content : Text} {place target : Files.Place Text}
    (sound : d.Sound) (leads : lookup d true (tempPath full) = .ok place)
    (notDir : entry d.tree place.loc ≠ some .dir) (found : lookup d false full = .ok target)
    (free : entry d.tree target.loc ≠ some .dir) :
    ∃ d', writeFileAtomically full content d = (.ok (), d') := by
  rcases fileName_cases full with unnamed | ⟨comps, name, shape⟩
  · exact absurd (lookup_unnamed sound unnamed found) free
  · obtain ⟨asks, dir, holds, rfl⟩ := lookup_named sound shape found free
    rw [placeAt_loc] at free
    obtain ⟨temp, -, tempAsks⟩ := tempPath_spec shape
    have soundMid : (written d place.loc content).Sound := (written_later notDir).sound sound
    have holdsMid := @holds_written _ _ _ _ content _ sound leads notDir holds
    have tempMid := (holds_tempPath shape dir).mpr holdsMid
    have atFull := @lookup_holds _ false _ _ _ _ soundMid shape asks holdsMid (by simp)
    have atTemp := @lookup_holds _ false _ _ _ _ soundMid temp tempAsks tempMid (by simp)
    have there : ∃ node, entry (written d place.loc content).tree (dir ++ [tempName name]) = some node ∧
        node ≠ .dir := by
      by_cases here : dir ++ [tempName name] = place.loc
      · rw [here, written_entry notDir]
        refine ⟨_, rfl, ?_⟩
        rintro ⟨⟩
      · rw [written_other here]
        by_cases plain : ∀ target, entry d.tree (dir ++ [tempName name]) ≠ some (.link target)
        · have atOpen : lookup d true (tempPath full) = .ok (placeAt d.tree (dir ++ [tempName name])) :=
            lookup_holds sound temp tempAsks ((holds_tempPath shape dir).mpr holds) fun _ => plain
          rw [atOpen] at leads
          cases leads
          rw [placeAt_loc] at here
          exact absurd rfl here
        · push Not at plain
          obtain ⟨target, isLink⟩ := plain
          refine ⟨_, isLink, ?_⟩
          rintro ⟨⟩
    obtain ⟨node, there, other⟩ := there
    have freeMid : entry (written d place.loc content).tree (dir ++ [name]) ≠ some .dir := by
      by_cases here : dir ++ [name] = place.loc
      · rw [here, written_entry notDir]
        rintro ⟨⟩
      · rw [written_other here]
        exact free
    rw [placeAt, if_neg (by rw [there]; exact Option.some_ne_none _)] at atTemp
    have apart : dir ++ [name] ≠ dir ++ [tempName name] := by
      simpa using (tempName_ne name).symm
    have replaced := rename_at_ok atTemp there other atFull (by rwa [placeAt_loc])
      (by rwa [placeAt_loc])
    have opened := @open_at_ok (.utf8 []) _ _ _ leads notDir
    have second : orIo "write to temp file" (tempPath full) (writeAll place.loc (.utf8 content))
        (d.put place.loc (some (.file (.utf8 [])))) = (.ok (), written d place.loc content) := rfl
    unfold writeFileAtomically
    rw [Action.bind_of_ok (orIo_of_ok opened), Action.bind_of_ok second]
    exact ⟨_, orIo_of_ok replaced⟩

theorem write_opens {full : PathBuf} {content : Text} {place : Files.Place Text}
    (leads : lookup d true (tempPath full) = .ok place)
    (notDir : entry d.tree place.loc ≠ some .dir) :
    Grew (written d place.loc content) (writeFileAtomically full content d).2 := by
  have opened := @open_at_ok (.utf8 []) _ _ _ leads notDir
  have second : orIo "write to temp file" (tempPath full) (writeAll place.loc (.utf8 content))
      (d.put place.loc (some (.file (.utf8 [])))) = (.ok (), written d place.loc content) := rfl
  unfold writeFileAtomically
  rw [Action.bind_of_ok (orIo_of_ok opened), Action.bind_of_ok second]
  exact grows_orIo (grows_renameFile _ _) _ _ _

theorem grew_written (place : Loc Text) (content : Text) : Grew d (written d place content) :=
  (grew_put d place _).trans (grew_put _ place _)

theorem within_written {place : Loc Text} {content : Text} :
    Within root d (written d place content) ↔ root <+: place := by
  rw [written, within_split (grew_put d place _) (grew_put _ place _), within_put, within_put,
    and_self]

/-- A write stays below `root` exactly when the places it goes to are there. -/
theorem write_within_iff (sound : d.Sound) (isRoot : entry d.tree root = some .dir)
    (full : PathBuf) (content : Text) :
    Within root d (writeFileAtomically full content d).2 ↔ WriteInside root d full := by
  have apart {loc : Loc Text} (notDir : entry d.tree loc ≠ some .dir) : loc ≠ root := by
    rintro rfl
    exact notDir isRoot
  rcases write_cases sound full content with ⟨e, -, failed⟩ | ⟨opened, leads, notDir, outcome⟩
  · have closed : ∀ place, lookup d true (tempPath full) = .ok place →
        entry d.tree place.loc = some .dir := by
      intro place leads
      by_contra notDir
      have grown := (@write_opens _ _ content _ leads notDir).length_le
      rw [failed] at grown
      simp only [written, Disk.put, List.length_append, List.length_singleton] at grown
      omega
    rw [failed]
    refine ⟨fun _ => ⟨?_, ?_⟩, fun _ => .refl root d⟩
    · intro place leads notDir
      exact absurd (closed place leads) notDir
    · intro place target leads notDir
      exact absurd (closed place leads) notDir
  · have wrote : Within root d (written d opened.loc content) ↔ root <+: opened.loc.dropLast := by
      rw [within_written, prefix_dropLast_iff (apart notDir)]
    rcases outcome with
      ⟨e, -, failed⟩ | ⟨comps, name, dir, node, shape, asks, holds, there, other, free, done⟩
    · rw [failed, wrote]
      constructor
      · intro inside
        refine ⟨?_, ?_⟩
        · intro place leads' _
          rw [leads] at leads'
          cases leads'
          exact inside
        · intro place target _ _ found free
          obtain ⟨d', ran⟩ := @write_replaces _ _ content _ _ sound leads notDir found free
          rw [failed] at ran
          cases ran
      · intro inside
        exact inside.opened opened leads notDir
    · have freeFirst : entry d.tree (dir ++ [name]) ≠ some .dir := by
        by_cases here : dir ++ [name] = opened.loc
        · rw [here]
          exact notDir
        · rwa [written_other here] at free
      have atFull : lookup d false full = .ok (placeAt d.tree (dir ++ [name])) :=
        lookup_holds sound shape asks holds (by simp)
      have differ : dir ++ [name] ≠ dir ++ [tempName name] := by simpa using (tempName_ne name).symm
      rw [done, moved, if_neg differ]
      have moved_iff : Within root (written d opened.loc content)
          (((written d opened.loc content).put (dir ++ [tempName name]) none).put (dir ++ [name])
            (some node)) ↔ root <+: dir := by
        rw [within_split (grew_put _ _ _) (grew_put _ _ _), within_put, within_put,
          prefix_dropLast_iff (apart freeFirst), List.dropLast_concat, and_iff_right_iff_imp]
        exact fun below => below.trans (List.prefix_append dir _)
      rw [within_split (grew_written _ _) ((grew_put _ _ _).trans (grew_put _ _ _)), wrote, moved_iff]
      constructor
      · rintro ⟨inside, below⟩
        refine ⟨?_, ?_⟩
        · intro place leads' _
          rw [leads] at leads'
          cases leads'
          exact inside
        · intro place target _ _ found _
          rw [atFull] at found
          cases found
          rw [placeAt_loc, List.dropLast_concat]
          exact below
      · intro inside
        have below := inside.replaced opened _ leads notDir atFull (by rwa [placeAt_loc])
        rw [placeAt_loc, List.dropLast_concat] at below
        exact ⟨inside.opened opened leads notDir, below⟩

/-! ## One section -/

/-- The directories made for a new file are made below `root`. -/
def ParentsInside (root : Loc Text) (d : Disk) (full : PathBuf) : Prop :=
  ∀ above, parent full = some above → above.text ≠ [] → ∀ done here rest s,
    upTo above = done ++ here :: rest →
    Action.forEach (fun _ here => ensureDir here) () done d = (.ok (), s) →
    ∀ loc, lookup s false here = .ok (.vacant loc) → root <+: loc.dropLast

/-- The disk with all directories above a path made, when they can be. -/
def WithParents (d : Disk) (full : PathBuf) (s : Disk) : Prop :=
  match parent full with
  | none => s = d
  | some above => makeEach above d = (.ok (), s)

/-- The places a section acts on lie below `root`: what it deletes, if it is there
and no directory; what it writes, if its hunks fit; and what is made above a file
that it creates. -/
def SectionInside (root : Loc Text) (p : AtomicPatcher) (file : FilePatch) (d : Disk) : Prop :=
  match fileOp file with
  | none => True
  | some (.delete path) =>
    pathExists d (pathJoin p.workingDir path) = true →
      ∀ loc, lookup d false (pathJoin p.workingDir path) = .ok (.found loc) →
        entry d.tree loc ≠ some .dir → root <+: loc.dropLast
  | some (.create path) =>
    ParentsInside root d (pathJoin p.workingDir path) ∧
      ∀ s text, WithParents d (pathJoin p.workingDir path) s →
        createdText file.hunks file.noTrailingNewline = .ok text →
        WriteInside root s (pathJoin p.workingDir path)
  | some (.modify path) =>
    ∀ text, modifiedText d (pathJoin p.workingDir path) file.hunks file.noTrailingNewline =
        .ok text → WriteInside root d (pathJoin p.workingDir path)

theorem ensureDir_within_iff (sound : d.Sound) (isRoot : entry d.tree root = some .dir)
    (q : PathBuf) : Within root d (ensureDir q d).2 ↔
      ∀ loc, lookup d false q = .ok (.vacant loc) → root <+: loc.dropLast := by
  rcases mkdir_at_cases q d with ⟨e, failed⟩ | ⟨loc, leads, made⟩
  · have same : (ensureDir q d).2 = d := by
      simp only [ensureDir, failed]
      split <;> rfl
    rw [same]
    refine ⟨fun _ loc vacant => ?_, fun _ => .refl root d⟩
    rw [mkdir_at_vacant vacant] at failed
    cases failed
  · have same : (ensureDir q d).2 = d.put loc (some .dir) := by simp only [ensureDir, made]
    have apart : loc ≠ root := by
      rintro rfl
      rw [lookup_vacant sound leads] at isRoot
      cases isRoot
    rw [same, within_put, prefix_dropLast_iff apart]
    constructor
    · intro below other vacant
      rw [leads] at vacant
      cases vacant
      exact below
    · intro inside
      exact inside loc leads

theorem ensureEach_later (sound : d.Sound) (ps : List PathBuf) :
    Later d (Action.forEach (fun _ here => ensureDir here) () ps d).2 := by
  have keeps : Action.Keeps (fun s => Later d s)
      (Action.forEach (fun (_ : Unit) here => ensureDir here) () ps) :=
    Action.keeps_forEach (fun _ here _ s later =>
      later.trans (ensureDir_widens (later.sound sound)).later) ()
  exact keeps d (Later.refl d)

theorem makeParents_eq (sound : d.Sound) (full : PathBuf) :
    (∀ above, parent full = some above → (makeParents full d).2 = (makeEach above d).2) ∧
      ∀ s, makeParents full d = (.ok (), s) ↔ WithParents d full s := by
  unfold makeParents WithParents
  cases higher : parent full with
  | none =>
    refine ⟨by simp, fun s => ?_⟩
    simp [eq_comm]
  | some above =>
    obtain ⟨same, agree⟩ := createDirAll_eq (q := above) sound
    dsimp only
    refine ⟨fun other found => ?_, fun s => ?_⟩
    · cases found
      rw [orIo_snd, same]
    · constructor
      · intro ran
        have inner := orIo_ok ran
        rw [inner] at same agree
        exact Prod.ext (agree.mp rfl) same.symm
      · intro ran
        rw [ran] at same agree
        exact orIo_of_ok (Prod.ext (agree.mpr rfl) same)

theorem makeParents_within_iff (sound : d.Sound) (isRoot : entry d.tree root = some .dir)
    (full : PathBuf) :
    Within root d (makeParents full d).2 ↔ ParentsInside root d full := by
  unfold ParentsInside
  cases higher : parent full with
  | none =>
    have same : (makeParents full d).2 = d := by simp [makeParents, higher]
    rw [same]
    exact ⟨fun _ _ => by simp, fun _ => .refl root d⟩
  | some above =>
    rw [(makeParents_eq sound full).1 above higher]
    simp only [Option.some.injEq, forall_eq']
    by_cases filled : above.text = []
    · rw [makeEach, if_pos filled]
      exact ⟨fun _ some => absurd filled some, fun _ => .refl root d⟩
    · have step : ∀ (_ : Unit), ∀ here ∈ upTo above, Grows (ensureDir here) :=
        fun _ here _ => grows_ensureDir here
      rw [makeEach, if_neg filled, within_forEach step]
      have one : ∀ done s, Action.forEach (fun _ here => ensureDir here) () done d = (.ok (), s) →
          ∀ here, Within root s (ensureDir here s).2 ↔
            ∀ loc, lookup s false here = .ok (.vacant loc) → root <+: loc.dropLast := by
        intro done s ran here
        have later := ensureEach_later sound done
        rw [ran] at later
        exact ensureDir_within_iff (later.sound sound) (later.dirs root isRoot) here
      constructor
      · intro inside _ done here rest s shape ran
        exact (one done s ran here).mp (inside done here rest () s shape ran)
      · intro inside done here rest _ s shape ran
        exact (one done s ran here).mpr (inside filled done here rest s shape ran)

theorem removeFile_within_iff (isRoot : entry d.tree root = some .dir) (full : PathBuf) :
    Within root d (removeFile full d).2 ↔ ∀ loc, lookup d false full = .ok (.found loc) →
      entry d.tree loc ≠ some .dir → root <+: loc.dropLast := by
  rcases unlink_at_cases full d with ⟨e, failed⟩ | ⟨loc, leads, notDir, removed⟩
  · rw [failed]
    refine ⟨fun _ loc found notDir => ?_, fun _ => .refl root d⟩
    rw [unlink_at_found found notDir] at failed
    cases failed
  · have apart : loc ≠ root := by
      rintro rfl
      exact notDir isRoot
    rw [removed, within_put, prefix_dropLast_iff apart]
    constructor
    · intro below other found _
      rw [leads] at found
      cases found
      exact below
    · intro inside
      exact inside loc leads notDir

/-- A sequence whose second part touches nothing touches what its first part does. -/
theorem within_then_pure {ε α β : Type} {m : Action ε Disk α} (f : α → β) :
    Within root d ((m >>= fun a => pure (f a)) d).2 ↔ Within root d (m d).2 := by
  rw [Action.bind_apply]
  cases m d with
  | mk outcome d' => cases outcome <;> rfl

/-- **One section.** A section stays below `root` exactly when the places it acts
on are there. -/
theorem section_within_iff (live : p.dryRun = false) (sound : d.Sound)
    (isRoot : entry d.tree root = some .dir) (stats : PatchStats) (file : FilePatch) :
    Within root d (applyFilePatch p stats file d).2 ↔ SectionInside root p file d := by
  unfold SectionInside
  cases chosen : fileOp file with
  | none =>
    obtain ⟨reason, refused⟩ := applyFilePatch_no_op chosen p stats d
    rw [refused]
    exact ⟨fun _ => trivial, fun _ => .refl root d⟩
  | some op =>
    rw [applyFilePatch_eq_perform chosen]
    cases op with
    | delete path =>
      simp only [perform, deleteAt_eq live]
      split
      · rename_i present
        rw [within_then_pure, orIo_snd, removeFile_within_iff isRoot]
        exact ⟨fun inside _ => inside, fun inside => inside present⟩
      · rename_i absent
        exact ⟨fun _ present => absurd present absent, fun _ => .refl root d⟩
    | create path =>
      have writes : ∀ content, Grows (writeFileAtomically (pathJoin p.workingDir path) content >>=
          fun _ => pure (updateStatsFromHunks file.hunks
            { stats with filesCreated := stats.filesCreated + 1 })) :=
        fun content => grows_bind (grows_write _ content) fun _ => grows_pure _
      simp only [perform, createAt_eq live]
      rw [within_bind (grows_makeParents _) fun _ => grows_bind (grows_lift _) writes,
        makeParents_within_iff sound isRoot]
      refine and_congr_right fun _ => ?_
      have there : ∀ s, makeParents (pathJoin p.workingDir path) d = (.ok (), s) →
          s.Sound ∧ entry s.tree root = some .dir := by
        intro s made
        have later := (makeParents_widens sound (pathJoin p.workingDir path)).later
        rw [made] at later
        exact ⟨later.sound sound, later.dirs root isRoot⟩
      have each : ∀ s, makeParents (pathJoin p.workingDir path) d = (.ok (), s) → ∀ content,
          Within root s ((writeFileAtomically (pathJoin p.workingDir path) content >>= fun _ =>
            pure (updateStatsFromHunks file.hunks
              { stats with filesCreated := stats.filesCreated + 1 })) s).2 ↔
            WriteInside root s (pathJoin p.workingDir path) := by
        intro s made content
        rw [within_then_pure]
        exact write_within_iff (there s made).1 (there s made).2 _ content
      constructor
      · intro inside s text made built
        rw [← (makeParents_eq sound _).2 s] at made
        have onward := inside () s made
        rw [Action.bind_apply, Action.lift_apply, built] at onward
        exact (each s made text).mp onward
      · intro inside _ s made
        rw [Action.bind_apply, Action.lift_apply]
        cases built : createdText file.hunks file.noTrailingNewline with
        | error e => exact .refl root s
        | ok text =>
          exact (each s made text).mpr (inside s text (((makeParents_eq sound _).2 s).mp made) built)
    | modify path =>
      simp only [perform, modifyAt_eq live]
      rw [Action.bind_apply, Action.lift_apply]
      cases built : modifiedText d (pathJoin p.workingDir path) file.hunks
          file.noTrailingNewline with
      | error e => exact ⟨fun _ _ bad => (by cases bad), fun _ => .refl root d⟩
      | ok text =>
        dsimp only
        rw [within_then_pure, write_within_iff sound isRoot]
        exact ⟨fun inside _ _ => inside, fun inside => inside text rfl⟩

/-! ## Whole patches -/

/-- Everything the patch creates, overwrites or removes lies below `root`. -/
def Contained (root : Loc Text) (p : AtomicPatcher) (patchContent : Text) (d : Disk) : Prop :=
  Within root d (applyPatch p patchContent d).2

/-- Every section that is come to acts on places below `root`. -/
def StaysInside (root : Loc Text) (p : AtomicPatcher) (patchContent : Text) (d : Disk) : Prop :=
  ∀ parsed, PatchParser.fromDiff patchContent = .ok parsed →
    (validateSecurity p parsed d).1 = .ok () → ∀ stats file s,
    Reached p parsed.files d stats file s → SectionInside root p file s

theorem readFileLines_snd (full : PathBuf) (d : Disk) : (readFileLines full d).2 = d := by
  have looks : Action.Keeps (fun s => s = d)
      (orIo "read file" full fun s => (readToString s full, s)) := by
    rintro s rfl
    exact orIo_snd _ _ _ s
  exact Action.keeps_bind looks (fun raw => Action.keeps_pure _) d rfl

/-- A section of a dry run only looks. -/
theorem section_dry (dry : p.dryRun = true) (stats : PatchStats) (file : FilePatch) (d : Disk) :
    (applyFilePatch p stats file d).2 = d := by
  cases chosen : fileOp file with
  | none =>
    obtain ⟨reason, refused⟩ := applyFilePatch_no_op chosen p stats d
    rw [refused]
  | some op =>
    rw [applyFilePatch_eq_perform chosen]
    cases op with
    | delete path => simp [perform, deleteAt, dry, Action.bind_apply]
    | create path =>
      simp only [perform, createAt, dry, Bool.true_eq_false, ↓reduceIte]
      cases parent (pathJoin p.workingDir path) <;>
        cases buildNewContent file.hunks [] (!file.noTrailingNewline) <;>
          simp [Action.bind_apply]
    | modify path =>
      simp only [perform, modifyAt, dry, Bool.true_eq_false, ↓reduceIte]
      rw [Action.bind_apply, Action.read_apply]
      have after : ∀ originalLines trailingNewline, Action.Keeps (fun s => s = d)
          (Action.lift (buildNewContent file.hunks originalLines trailingNewline) >>= fun _ =>
            pure (updateStatsFromHunks file.hunks
              { stats with filesModified := stats.filesModified + 1 })) :=
        fun _ _ => Action.keeps_bind (Action.keeps_lift _) fun _ => Action.keeps_pure _
      cases pathExists d (pathJoin p.workingDir path) with
      | false => exact after _ _ d rfl
      | true =>
        have looks : Action.Keeps (fun s => s = d) (readFileLines (pathJoin p.workingDir path)) := by
          rintro s rfl
          exact readFileLines_snd _ s
        exact Action.keeps_bind looks (fun read => after _ _) d rfl

theorem dry_run_unchanged (dry : p.dryRun = true) (patchContent : Text) (d : Disk) :
    (applyPatch p patchContent d).2 = d := by
  rcases applyPatch_cases p patchContent d with ⟨e, refused, -⟩ | ⟨parsed, -, -, whole⟩
  · rw [refused]
  · rw [whole]
    have keeps : Action.Keeps (fun s => s = d) (runSections p parsed.files) := by
      refine Action.keeps_forEach (fun stats file _ s same => ?_) PatchStats.zero
      rw [section_dry dry]
      exact same
    exact keeps d rfl

/-- **Containment.** Everything a patch touches lies below the working directory
exactly when, unless it is a dry run, every section acts on places below it. -/
theorem contained_iff (sound : d.Sound) (opens : Opens d p.workingDir root) (patchContent : Text) :
    Contained root p patchContent d ↔ (p.dryRun = false → StaysInside root p patchContent d) := by
  have isRoot : entry d.tree root = some .dir := opens.2
  cases dry : p.dryRun with
  | true =>
    rw [Contained, dry_run_unchanged dry]
    exact ⟨fun _ bad => (by cases bad), fun _ => .refl root d⟩
  | false =>
    simp only [forall_const]
    unfold Contained StaysInside
    rcases applyPatch_cases p patchContent d with ⟨e, refused, stopped⟩ | ⟨parsed, read, checked, whole⟩
    · rw [refused]
      refine ⟨fun _ parsed read checked => ?_, fun _ => .refl root d⟩
      rw [stopped parsed read] at checked
      cases checked
    · rw [whole, runSections, within_forEach fun stats file _ => grows_section dry stats file]
      have one : ∀ stats file s, Reached p parsed.files d stats file s →
          (Within root s (applyFilePatch p stats file s).2 ↔ SectionInside root p file s) := by
        intro stats file s reached
        have later := reached_later dry sound reached
        exact section_within_iff dry (later.sound sound) (later.dirs root isRoot) stats file
      constructor
      · intro inside other same _ stats file s reached
        rw [read] at same
        cases same
        obtain ⟨done, rest, shape, ran⟩ := reached
        exact (one stats file s ⟨done, rest, shape, ran⟩).mp
          (inside done file rest stats s shape ran)
      · intro inside done file rest stats s shape ran
        have reached : Reached p parsed.files d stats file s := ⟨done, rest, shape, ran⟩
        exact (one stats file s reached).mpr
          (inside parsed read (by rw [checked]) stats file s reached)

/-- A patch that deletes the one file of a directory stays there. -/
theorem deleteOnly_contained :
    Contained ["w".toList] ⟨⟨"/w".toList⟩, false⟩ deleteOnly oneFileDisk := by
  have read : PatchParser.fromDiff deleteOnly = .ok ⟨[deletion]⟩ := by decide +kernel
  have opens : Opens oneFileDisk ⟨"/w".toList⟩ ["w".toList] :=
    ⟨by decide +kernel, by decide +kernel⟩
  refine (contained_iff oneFileDisk_sound opens deleteOnly).mpr fun _ => ?_
  intro parsed same _ stats file s reached
  rw [read] at same
  cases same
  obtain ⟨done, rest, shape, ran⟩ := reached
  cases done with
  | cons first done => simp at shape
  | nil =>
    have start : oneFileDisk = s := congrArg Prod.snd ran
    subst start
    cases (List.cons.inj shape).1
    intro _ loc found _
    have place : lookup oneFileDisk false ⟨"/w/a.txt".toList⟩ =
        .ok (.found ["w".toList, "a.txt".toList]) := by decide +kernel
    cases place.symm.trans found
    exact List.prefix_rfl

/-- A directory `/w` in which the name `out` is a link to the directory `/etc`. -/
def linkedDisk : Disk where
  tree := Files.put (Files.put (Files.put (fun _ => none) ["w".toList] (some .dir))
    ["etc".toList] (some .dir)) ["w".toList, "out".toList]
    (some (.link ⟨true, [.into "etc".toList]⟩))
  cwd := []
  touched := []

/-- A section that creates the file `out/evil`. -/
def createThroughLink : Text :=
  unlines ["--- /dev/null".toList, "+++ b/out/evil".toList, "@@ -0,0 +1 @@".toList, "+hi".toList]

/-- The path passes the checks, and the file is created in `/etc`. -/
theorem linked_directory_leads_out :
    Opens linkedDisk ⟨"/w".toList⟩ ["w".toList] ∧
      ¬ Contained ["w".toList] ⟨⟨"/w".toList⟩, false⟩ createThroughLink linkedDisk ∧
      (applyPatch ⟨⟨"/w".toList⟩, false⟩ createThroughLink linkedDisk).1.isOk = true ∧
      (applyPatch ⟨⟨"/w".toList⟩, false⟩ createThroughLink linkedDisk).2.tree
        ["etc".toList, "evil".toList] = some (.file (.utf8 "hi\n".toList)) := by
  have places : (applyPatch ⟨⟨"/w".toList⟩, false⟩ createThroughLink linkedDisk).2.touched =
      [["etc".toList, "evil.devit.tmp".toList], ["etc".toList, "evil.devit.tmp".toList],
        ["etc".toList, "evil.devit.tmp".toList], ["etc".toList, "evil".toList]] := by
    decide +kernel
  refine ⟨⟨by decide +kernel, by decide +kernel⟩, ?_, by decide +kernel, by decide +kernel⟩
  rintro ⟨fresh, all, inside⟩
  rw [places] at all
  have listed : ["etc".toList, "evil".toList] ∈ fresh := by
    have whole : _ = fresh := all
    rw [← whole]
    simp
  exact absurd (inside _ listed) (by decide)

end Containment

end Devit
