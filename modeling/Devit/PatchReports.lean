import Mathlib.Data.List.DropRight
import Devit.Library.EditScripts
import Devit.McpPatcher
import Devit.DryRun
import Devit.ParsedFiles
import Devit.PatchCorrectness
import Devit.PatchFrame

/-! Whether the report of the patch tool says what was done. The report is made from the
parsed patch alone, by a choice of its own: it takes a section that is marked both as new
and as deleted for a creation, which the patcher deletes, and it takes for granted that a
file was there or was not. -/
namespace Devit
open Text Path FileSystem
open Files hiding Place

namespace PatchReports
open AtomicPatcher AtomicWrite PatchSections PatchAtomicity PatchFrame McpPatcher PatchCorrectness
open HunkSplicing ParsedFiles DryRun

/-- The lines of a file's content. -/
def lineCount : Content → Nat
  | .utf8 text => (lines text).length
  | .raw bytes => bytes.count 10 + if bytes.getLast?.any (· ≠ 10) then 1 else 0

/-- The line without the carriage returns at its end. -/
def bare (line : Text) : Text := line.rdropWhile (· = '\r')

/-- What stood at a place and what stands there now, as an action with these numbers of
lines says. A file that is modified is made of its old lines by putting in and taking out
so many, as far as lines are told apart without what ends them. -/
inductive Effect (added removed : Nat) :
    FileAction → Option (Files.Node Text Content) → Option (Files.Node Text Content) → Prop where
  | created {new : Content} (own : added = lineCount new) (none_lost : removed = 0) :
      Effect added removed .created none (some (.file new))
  | deleted {old : Content} (none_made : added = 0) (own : removed = lineCount old) :
      Effect added removed .deleted (some (.file old)) none
  | modified {old new : Text} {ls : List Text} (script : Script (lines old) added removed ls)
      (now : (lines new).map bare = ls.map bare) :
      Effect added removed .modified (some (.file (.utf8 old))) (some (.file (.utf8 new)))

/-- The summary says what the section did: where its path leads, once the directories for it
are made, that is the effect. -/
def Describes (p : AtomicPatcher) (file : FilePatch) (summary : FileChangeSummary)
    (d d' : Disk) : Prop :=
  ∃ place, lookup (prepared p file d) false (pathJoin p.workingDir ⟨summary.path⟩) = .ok place ∧
    Effect summary.linesAdded summary.linesRemoved summary.action (entry d.tree place.loc)
      (entry d'.tree place.loc)

/-- Each section was done as its summary says. -/
def Told (p : AtomicPatcher) (files : List FilePatch) (summaries : List FileChangeSummary)
    (d : Disk) : Prop :=
  ∀ done file rest stats s next s', files = done ++ file :: rest →
    runSections p done d = (.ok stats, s) → applyFilePatch p stats file s = (.ok next, s') →
    ∃ summary, summaries[done.length]? = some summary ∧ Describes p file summary s s'

/-- The counters are those of the summaries. -/
structure Totals (stats : PatchStats) (summaries : List FileChangeSummary) : Prop where
  created : stats.filesCreated = summaries.countP (·.action = .created)
  modified : stats.filesModified = summaries.countP (·.action = .modified)
  deleted : stats.filesDeleted = summaries.countP (·.action = .deleted)
  added : stats.linesAdded = (summaries.map (·.linesAdded)).sum
  removed : stats.linesRemoved = (summaries.map (·.linesRemoved)).sum

/-- What the tool reports of a patch that it applies is what was done. -/
def Truthful (env : ToolEnvironment) (correlationId : Text) (p : AtomicPatcher) (diff : Text)
    (d : Disk) : Prop :=
  ∀ parsed stats summaries d', PatchParser.fromDiff diff = .ok parsed →
    McpPatcher.applyPatch env correlationId p diff d = (.ok (stats, summaries), d') →
    Told p parsed.files summaries d ∧ Totals stats summaries

/-! ## When it does -/

/-- The lines end in an empty one that the text does not show. -/
def Unshown (trailingNewline : Bool) (out : List Text) : Prop :=
  out.getLast? = some [] ∧ (trailingNewline = false ∨ out.length = 1)

/-- The lines with the hunks put in, the last one first. -/
def newLines (hunks : List PatchHunk) (old : List Text) : List Text :=
  hunks.foldr (fun hunk ls => ls.take (startIdx hunk) ++ newSide hunk.lines ++
    ls.drop (startIdx hunk + (oldSide hunk.lines).length)) old

/-- What the section finds is what its summary takes for granted. -/
def Apt (p : AtomicPatcher) (file : FilePatch) (d : Disk) : Prop :=
  match fileOp file with
  | none => False
  | some (.delete path) =>
    file.isNewFile = false ∧ (countLineChanges file).1 = 0 ∧
      ∃ place old, lookup d false (pathJoin p.workingDir path) = .ok place ∧
        entry d.tree place.loc = some (.file old) ∧ (countLineChanges file).2 = lineCount old
  | some (.create path) =>
    (countLineChanges file).2 = 0 ∧
      ¬ Unshown (!file.noTrailingNewline) (newLines file.hunks []) ∧
      ∀ place, lookup (prepared p file d) false (pathJoin p.workingDir path) = .ok place →
        entry d.tree place.loc = none
  | some (.modify path) =>
    ∀ place, lookup d false (pathJoin p.workingDir path) = .ok place →
      ∃ old, entry d.tree place.loc = some (.file (.utf8 old)) ∧
        ¬ Unshown (if file.noTrailingNewline then false else old.getLast? = some '\n')
          (newLines file.hunks (lines old))

/-- The lines that the counters leave out: those of files that are deleted. -/
def uncounted (file : FilePatch) : Nat :=
  match fileOp file with
  | some (.delete _) => (countLineChanges file).2
  | _ => 0

/-- The section finds what its summary takes for granted and meets no link at the temporary
name; what it deletes has no lines. -/
structure Plain (p : AtomicPatcher) (file : FilePatch) (d : Disk) : Prop where
  apt : Apt p file d
  free : TempFree p file d
  counted : uncounted file = 0

/-! ## What is written -/

variable {p : AtomicPatcher} {file : FilePatch} {d d' : Disk} {path : PathBuf}

theorem bare_chopCr (line : Text) : bare (chopCr line) = bare line := by
  unfold bare chopCr stripLast
  split
  · rename_i last
    obtain ⟨front, rfl⟩ := List.getLast?_eq_some_iff.mp last
    rw [Option.getD_some, List.dropLast_concat, List.rdropWhile_concat_pos _ _ _ (by simp)]
  · rfl

theorem map_bare_chopCr (ls : List Text) : (ls.map chopCr).map bare = ls.map bare := by
  rw [List.map_map]
  exact List.map_congr_left fun line _ => bare_chopCr line

/-- Joined lines are read back but for an empty last one. -/
theorem lines_join {out : List Text} (single : ∀ line ∈ out, '\n' ∉ line) :
    (out.getLast? = some [] → (lines (join ['\n'] out)).length < out.length) ∧
      (out.getLast? ≠ some [] → (lines (join ['\n'] out)).map bare = out.map bare) := by
  rcases List.eq_nil_or_concat out with rfl | ⟨front, last, rfl⟩
  · exact ⟨nofun, fun _ => rfl⟩
  · rw [List.concat_eq_append] at single ⊢
    rw [List.getLast?_concat, Text.lines_join front last single]
    refine ⟨fun empty => ?_, fun filled => ?_⟩
    · cases empty
      simp
    · have some_char : last ≠ [] := fun empty => filled (by rw [empty])
      rw [if_neg some_char, List.map_append, map_bare_chopCr, List.map_append]

/-- A written text shows all its lines unless they end in an empty one that it does not. -/
theorem lines_written {trailingNewline : Bool} {out : List Text}
    (single : ∀ line ∈ out, '\n' ∉ line) :
    (Unshown trailingNewline out →
        (lines (writtenText trailingNewline out)).length < out.length) ∧
      (¬ Unshown trailingNewline out →
        (lines (writtenText trailingNewline out)).map bare = out.map bare) := by
  unfold writtenText
  by_cases shown : trailingNewline = true ∧ join ['\n'] out ≠ []
  · rw [if_pos shown, unlines_of_join shown.2, lines_unlines single]
    refine ⟨?_, fun _ => map_bare_chopCr out⟩
    rintro ⟨last, flat | one⟩
    · rw [shown.1] at flat
      cases flat
    · obtain ⟨line, rfl⟩ := List.length_eq_one_iff.mp one
      cases last
      exact absurd rfl shown.2
  · have flat : out.getLast? = some [] → trailingNewline = false ∨ out.length = 1 := by
      intro last
      rw [not_and_or, not_not, Bool.not_eq_true] at shown
      refine shown.imp_right fun nothing => ?_
      rcases join_newline_eq_nil.mp nothing with rfl | rfl
      · cases last
      · rfl
    have joined := lines_join single
    rw [if_neg shown]
    exact ⟨fun hidden => joined.1 hidden.1, fun seen => joined.2 fun last => seen ⟨last, flat last⟩⟩

theorem script_lines (ls : List PatchLine) :
    Script (oldSide ls) (ls.countP fun line => !line.isOld) (ls.countP fun line => !line.isNew)
      (newSide ls) := by
  induction ls with
  | nil => exact .done
  | cons line ls ih =>
    cases line with
    | context text => simpa [PatchLine.isOld, PatchLine.isNew] using ih.cons text
    | add text =>
      have put := @Script.insert _ _ _ _ [] (newSide ls) text ih
      rw [newSide_add, oldSide_add, List.countP_cons, List.countP_cons]
      exact put
    | remove text =>
      have taken := @Script.delete _ (text :: oldSide ls) 0 0 [] (oldSide ls) text .done
      simpa [PatchLine.isOld, PatchLine.isNew, Nat.add_comm] using taken.trans ih

theorem applyHunks_eq_newLines {hunks : List PatchHunk} {old out : List Text}
    (ran : applyHunks hunks old = .ok out) : out = newLines hunks old := by
  induction hunks generalizing out with
  | nil =>
    cases ran
    rfl
  | cons hunk hunks ih =>
    obtain ⟨later, before, last⟩ := applyHunks_cons_ok ran
    obtain ⟨-, -, rfl⟩ := applyHunkToLines_ok_iff.mp last
    rw [ih before]
    rfl

/-- **Splicing.** The hunks put in and take out as many lines as they add and remove. -/
theorem script_hunks {hunks : List PatchHunk} {old out : List Text}
    (ran : applyHunks hunks old = .ok out) :
    Script old ((hunks.flatMap (·.lines)).countP fun line => !line.isOld)
      ((hunks.flatMap (·.lines)).countP fun line => !line.isNew) out := by
  induction hunks generalizing out with
  | nil =>
    cases ran
    exact .done
  | cons hunk hunks ih =>
    obtain ⟨later, before, last⟩ := applyHunks_cons_ok ran
    obtain ⟨-, ⟨rest, stands⟩, rfl⟩ := applyHunkToLines_ok_iff.mp last
    have behind : rest = later.drop (startIdx hunk + (oldSide hunk.lines).length) := by
      rw [← List.drop_drop, ← stands, List.drop_left]
    have whole : later = later.take (startIdx hunk) ++ oldSide hunk.lines ++ rest := by
      rw [List.append_assoc, stands, List.take_append_drop]
    have own := (script_lines hunk.lines).frame (later.take (startIdx hunk)) rest
    rw [← whole, behind] at own
    rw [List.flatMap_cons, List.countP_append, List.countP_append, Nat.add_comm,
      Nat.add_comm (hunk.lines.countP fun line => !line.isNew)]
    exact (ih before).trans own

/-! ## What is reported -/

theorem reported_modify (marked : Marked file) (chosen : fileOp file = some (.modify path)) :
    determineAction file = (path.text, .modified) := by
  unfold fileOp at chosen
  split at chosen
  · simp at chosen
  · rename_i kept
    split at chosen
    · simp at chosen
    · rename_i known
      obtain ⟨named, found, same⟩ := Option.map_eq_some_iff.mp chosen
      cases same
      have old : file.oldPath ≠ none := by
        intro none
        rw [none, Option.orElse_eq_orElse, Option.orElse_eq_or, Option.or_none] at found
        exact known (marked.created none (by rw [found]; rintro ⟨⟩))
      have new : file.newPath ≠ none := fun none => kept (marked.deleted none old)
      obtain ⟨named', there⟩ := Option.ne_none_iff_exists'.mp new
      obtain ⟨before, was⟩ := Option.ne_none_iff_exists'.mp old
      rw [there] at found
      cases found
      simp [determineAction, known, kept, there, was]

theorem reported_create (chosen : fileOp file = some (.create path)) :
    determineAction file = (path.text, .created) := by
  unfold fileOp at chosen
  split at chosen
  · simp at chosen
  · split at chosen
    · rename_i new
      obtain ⟨named, found, same⟩ := Option.map_eq_some_iff.mp chosen
      cases same
      simp [determineAction, new, found]
    · simp at chosen

theorem reported_delete (chosen : fileOp file = some (.delete path))
    (old : file.isNewFile = false) : determineAction file = (path.text, .deleted) := by
  unfold fileOp at chosen
  split at chosen
  · rename_i deleted
    obtain ⟨named, found, same⟩ := Option.map_eq_some_iff.mp chosen
    cases same
    simp [determineAction, old, deleted, found]
  · split at chosen <;> simp at chosen

theorem reported_new (new : file.isNewFile = true) : (determineAction file).2 = .created := by
  simp [determineAction, new]

variable {added removed : Nat} {before after : Option (Files.Node Text Content)}

theorem effect_created_iff : Effect added removed .created before after ↔
    before = none ∧ removed = 0 ∧ ∃ new, after = some (.file new) ∧ added = lineCount new := by
  constructor
  · intro effect
    cases effect with
    | created own none_lost => exact ⟨rfl, none_lost, _, rfl, own⟩
  · rintro ⟨rfl, none_lost, new, rfl, own⟩
    exact .created own none_lost

theorem effect_deleted_iff : Effect added removed .deleted before after ↔
    after = none ∧ added = 0 ∧ ∃ old, before = some (.file old) ∧ removed = lineCount old := by
  constructor
  · intro effect
    cases effect with
    | deleted none_made own => exact ⟨rfl, none_made, _, rfl, own⟩
  · rintro ⟨rfl, none_made, old, rfl, own⟩
    exact .deleted none_made own

theorem effect_modified_iff : Effect added removed .modified before after ↔
    ∃ old new ls, before = some (.file (.utf8 old)) ∧ after = some (.file (.utf8 new)) ∧
      Script (lines old) added removed ls ∧ (lines new).map bare = ls.map bare := by
  constructor
  · intro effect
    cases effect with
    | modified script now => exact ⟨_, _, _, rfl, rfl, script, now⟩
  · rintro ⟨old, new, ls, rfl, rfl, script, now⟩
    exact .modified script now

/-! ## Sections -/

variable {stats next : PatchStats}

theorem deleteAt_cases (live : p.dryRun = false)
    (ran : deleteAt p path stats d = (.ok next, d')) :
    (pathExists d (pathJoin p.workingDir path) = false ∧ d' = d) ∨
      ∃ loc, lookup d false (pathJoin p.workingDir path) = .ok (.found loc) ∧
        entry d.tree loc ≠ some .dir ∧ d' = d.put loc none := by
  rw [deleteAt_eq live] at ran
  split at ran
  · obtain ⟨_, mid, removed, done⟩ := Action.bind_eq_ok ran
    cases done
    rcases unlink_at_cases (pathJoin p.workingDir path) d with
      ⟨e, failed⟩ | ⟨loc, leads, other, gone⟩
    · rw [orIo_of_error failed] at removed
      cases removed
    · rw [orIo_of_ok gone] at removed
      cases removed
      exact .inr ⟨loc, leads, other, rfl⟩
  · rename_i absent
    cases ran
    exact .inl ⟨by simpa using absent, rfl⟩

/-- A file that a section deletes is gone. -/
theorem deleteAt_gone {place : Files.Place Text} {old : Content} (live : p.dryRun = false)
    (sound : d.Sound) (ran : deleteAt p path stats d = (.ok next, d'))
    (leads : lookup d false (pathJoin p.workingDir path) = .ok place)
    (isFile : entry d.tree place.loc = some (.file old)) : entry d'.tree place.loc = none := by
  rcases deleteAt_cases live ran with ⟨absent, -⟩ | ⟨loc, found, other, rfl⟩
  · rw [pathExists, (stat_eq_ok (lookup_file sound leads isFile)).mpr isFile] at absent
    cases absent
  · rw [leads] at found
    cases found
    refine entry_put_self _ ?_
    rintro rfl
    exact other rfl

theorem describes_delete (live : p.dryRun = false) (sound : d.Sound)
    (chosen : fileOp file = some (.delete path))
    (ran : applyFilePatch p stats file d = (.ok next, d')) :
    Describes p file (summaryOf file) d d' ↔ Apt p file d := by
  rw [applyFilePatch_eq_perform chosen] at ran
  simp only [Describes, Apt, prepared, chosen]
  cases new : file.isNewFile with
  | true =>
    -- A section that is new as well is reported to create, and deletes.
    refine iff_of_false ?_ (by simp)
    rintro ⟨place, -, effect⟩
    rw [summaryOf, reported_new new, effect_created_iff] at effect
    obtain ⟨nothing, -, made, there, -⟩ := effect
    rcases deleteAt_cases live ran with ⟨-, rfl⟩ | ⟨loc, -, -, rfl⟩
    · rw [nothing] at there
      cases there
    · rw [Disk.put, entry_put, nothing] at there
      split at there
      · cases there
      · split at there <;> cases there
  | false =>
    rw [summaryOf, reported_delete chosen new]
    simp only [effect_deleted_iff, true_and]
    constructor
    · rintro ⟨place, leads, -, none_made, old, isFile, own⟩
      exact ⟨none_made, place, old, leads, isFile, own⟩
    · rintro ⟨none_made, place, old, leads, isFile, own⟩
      exact ⟨place, leads, deleteAt_gone live sound ran leads isFile, none_made, old, isFile, own⟩

theorem single_lines {old out : List Text} (single : SingleLines file)
    (old_single : ∀ line ∈ old, '\n' ∉ line) (ran : applyHunks file.hunks old = .ok out) :
    ∀ line ∈ out, '\n' ∉ line := by
  intro line inside
  rcases mem_applyHunks ran inside with kept | ⟨hunk, member, new⟩
  · exact old_single line kept
  · obtain ⟨written, listed, rfl⟩ := List.mem_map.mp new
    exact single hunk member written (List.mem_of_mem_filter listed)

theorem describes_create (live : p.dryRun = false) (sound : d.Sound) (single : SingleLines file)
    (chosen : fileOp file = some (.create path))
    (ran : applyFilePatch p stats file d = (.ok next, d')) :
    Describes p file (summaryOf file) d d' ↔ Apt p file d ∧ TempFree p file d := by
  rw [applyFilePatch_eq_perform chosen, perform, createAt_eq live] at ran
  obtain ⟨_, ready, made, ran⟩ := Action.bind_eq_ok ran
  obtain ⟨text, mid, built, ran⟩ := Action.bind_eq_ok ran
  obtain ⟨_, after, wrote, done⟩ := Action.bind_eq_ok ran
  simp only [Action.lift_apply, Prod.mk.injEq] at built
  obtain ⟨built, rfl⟩ := built
  cases done
  obtain ⟨out, applied, rfl⟩ := buildNewContent_ok_iff.mp built
  have ready_sound : ready.Sound := by
    have widened := makeParents_widens sound (pathJoin p.workingDir path)
    rw [made] at widened
    exact widened.later.sound sound
  have shown := @lines_written (!file.noTrailingNewline) out
    (single_lines single (List.forall_mem_nil _) applied)
  have balance := (script_hunks applied).length
  rw [List.length_nil, Nat.zero_add] at balance
  have whole := applyHunks_eq_newLines applied
  simp only [Describes, Apt, TempFree, prepared, chosen, made]
  rw [summaryOf, reported_create chosen]
  simp only [effect_created_iff, countLineChanges]
  constructor
  · rintro ⟨place, leads, free, none_lost, new, isFile, own⟩
    obtain ⟨rfl, noLink⟩ := write_file ready_sound wrote leads isFile
    refine ⟨⟨none_lost, fun hidden => ?_, fun place' leads' => ?_⟩, noLink⟩
    · have fewer := shown.1 (whole ▸ hidden)
      rw [none_lost, own] at balance
      exact absurd balance fewer.ne'
    · rw [leads] at leads'
      cases leads'
      exact free
  · rintro ⟨⟨none_lost, seen, vacant⟩, noLink⟩
    obtain ⟨place, leads, isFile⟩ := (write_took_iff ready_sound wrote).mpr noLink
    refine ⟨place, leads, vacant place leads, none_lost, _, isFile, ?_⟩
    have same := congrArg List.length (shown.2 (whole ▸ seen))
    rw [List.length_map, List.length_map] at same
    rw [none_lost, Nat.add_zero] at balance
    exact balance.symm.trans same.symm

/-- The lines of a file that is there, or the failure to read them. -/
theorem currentLines_file {full : PathBuf} {place : Files.Place Text} {content : Content}
    (sound : d.Sound) (leads : lookup d false full = .ok place)
    (isFile : entry d.tree place.loc = some (.file content)) :
    currentLines d full = match content with
      | .utf8 text => .ok (lines text, text.getLast? = some '\n')
      | .raw _ => .error (.io "read file".toList (some full) .invalidData) := by
  have there : stat d true full = .ok (.file content) :=
    (stat_eq_ok (lookup_file sound leads isFile)).mpr isFile
  rw [currentLines, pathExists, readToString, there]
  cases content with
  | utf8 text => rfl
  | raw bytes => rfl

theorem describes_modify (live : p.dryRun = false) (sound : d.Sound) (marked : Marked file)
    (single : SingleLines file) (chosen : fileOp file = some (.modify path))
    (ran : applyFilePatch p stats file d = (.ok next, d')) :
    Describes p file (summaryOf file) d d' ↔ Apt p file d ∧ TempFree p file d := by
  rw [applyFilePatch_eq_perform chosen, perform, modifyAt_eq live] at ran
  obtain ⟨text, mid, built, ran⟩ := Action.bind_eq_ok ran
  obtain ⟨_, after, wrote, done⟩ := Action.bind_eq_ok ran
  simp only [Action.lift_apply, Prod.mk.injEq] at built
  obtain ⟨built, rfl⟩ := built
  cases done
  obtain ⟨⟨old, ended⟩, current, built⟩ := Except.bind_eq_ok built
  obtain ⟨out, applied, rfl⟩ := buildNewContent_ok_iff.mp built
  have script := script_hunks applied
  have whole := applyHunks_eq_newLines applied
  simp only [Describes, Apt, TempFree, prepared, chosen]
  rw [summaryOf, reported_modify marked chosen]
  simp only [effect_modified_iff, countLineChanges]
  constructor
  · rintro ⟨place, leads, was, new, ls, wasFile, isFile, listed, now⟩
    rw [currentLines_file sound leads wasFile] at current
    cases current
    obtain ⟨same_text, noLink⟩ := write_file sound wrote leads isFile
    cases same_text
    refine ⟨fun place' leads' => ?_, noLink⟩
    rw [leads] at leads'
    cases leads'
    refine ⟨was, wasFile, fun hidden => ?_⟩
    rw [← whole] at hidden
    have fewer := (lines_written (single_lines single (fun _ => not_mem_lines) applied)).1 hidden
    have same := congrArg List.length now
    rw [List.length_map, List.length_map] at same
    have balance := script.length
    have balance' := listed.length
    omega
  · rintro ⟨there, noLink⟩
    obtain ⟨place, leads, isFile⟩ := (write_took_iff sound wrote).mpr noLink
    obtain ⟨was, wasFile, seen⟩ := there place leads
    rw [currentLines_file sound leads wasFile] at current
    cases current
    rw [← whole] at seen
    exact ⟨place, leads, was, _, out, wasFile, isFile, script,
      (lines_written (single_lines single (fun _ => not_mem_lines) applied)).2 seen⟩

/-- **One section.** What is reported of a section that is applied is what it did exactly
when it found what the report takes for granted, and no link at the temporary name. -/
theorem describes_iff (live : p.dryRun = false) (sound : d.Sound)
    (formed : Marked file ∧ SingleLines file)
    (ran : applyFilePatch p stats file d = (.ok next, d')) :
    Describes p file (summaryOf file) d d' ↔ Apt p file d ∧ TempFree p file d := by
  cases chosen : fileOp file with
  | none =>
    obtain ⟨reason, refused⟩ := applyFilePatch_no_op chosen p stats d
    rw [refused] at ran
    cases ran
  | some op =>
    cases op with
    | delete path =>
      have free : TempFree p file d := by
        rw [TempFree, chosen]
        trivial
      rw [and_iff_left free]
      exact describes_delete live sound chosen ran
    | create path => exact describes_create live sound formed.2 chosen ran
    | modify path => exact describes_modify live sound formed.1 formed.2 chosen ran

/-! ## Counters -/

/-- A section that finds what its summary takes for granted counts as the summary does, but
for the lines that are left out. -/
theorem statsAfter_counts (marked : Marked file) (apt : Apt p file d) (stats : PatchStats) :
    ((statsAfter stats file).filesCreated =
        stats.filesCreated + if (summaryOf file).action = .created then 1 else 0) ∧
      ((statsAfter stats file).filesModified =
        stats.filesModified + if (summaryOf file).action = .modified then 1 else 0) ∧
      ((statsAfter stats file).filesDeleted =
        stats.filesDeleted + if (summaryOf file).action = .deleted then 1 else 0) ∧
      (statsAfter stats file).linesAdded = stats.linesAdded + (summaryOf file).linesAdded ∧
      (statsAfter stats file).linesRemoved + uncounted file =
        stats.linesRemoved + (summaryOf file).linesRemoved := by
  unfold Apt at apt
  unfold statsAfter uncounted summaryOf
  cases chosen : fileOp file with
  | none =>
    rw [chosen] at apt
    exact apt.elim
  | some op =>
    rw [chosen] at apt
    cases op with
    | delete path =>
      obtain ⟨old, none_made, -⟩ := apt
      simp [reported_delete chosen old, none_made]
    | create path => simp [reported_create chosen, updateStatsFromHunks, countLineChanges]
    | modify path => simp [reported_modify marked chosen, updateStatsFromHunks, countLineChanges]

/-- What each section adds to a counter, all of them add. -/
theorem foldl_counts {f : PatchStats → Nat} {one : FilePatch → Nat} {files : List FilePatch}
    (step : ∀ file ∈ files, ∀ stats, f (statsAfter stats file) = f stats + one file)
    (stats : PatchStats) : f (files.foldl statsAfter stats) = f stats + (files.map one).sum := by
  induction files generalizing stats with
  | nil => rfl
  | cons file files ih =>
    obtain ⟨first, step⟩ := List.forall_mem_cons.mp step
    rw [List.foldl_cons, ih step, first, List.map_cons, List.sum_cons, Nat.add_assoc]

theorem sum_actions (files : List FilePatch) (action : FileAction) :
    (files.map fun file => if (summaryOf file).action = action then 1 else 0).sum =
      (files.map summaryOf).countP (·.action = action) := by
  induction files with
  | nil => rfl
  | cons file files ih =>
    rw [List.map_cons, List.sum_cons, ih, List.map_cons, List.countP_cons, Nat.add_comm]
    simp only [decide_eq_true_eq]

/-- The lines removed of all sections, with those that the counters leave out. -/
theorem foldl_removed {files : List FilePatch}
    (step : ∀ file ∈ files, ∀ stats, (statsAfter stats file).linesRemoved + uncounted file =
      stats.linesRemoved + (summaryOf file).linesRemoved) (stats : PatchStats) :
    (files.foldl statsAfter stats).linesRemoved + (files.map uncounted).sum =
      stats.linesRemoved + (files.map fun file => (summaryOf file).linesRemoved).sum := by
  induction files generalizing stats with
  | nil => rfl
  | cons file files ih =>
    obtain ⟨first, step⟩ := List.forall_mem_cons.mp step
    have whole := ih step (statsAfter stats file)
    have own := first stats
    simp only [List.foldl_cons, List.map_cons, List.sum_cons]
    omega

/-- **Counters.** Where the sections find what their summaries take for granted, the counters
are those of the summaries exactly when no line is left out. -/
theorem totals_iff {files : List FilePatch}
    (apt : ∀ file ∈ files, Marked file ∧ ∃ d, Apt p file d) :
    Totals (files.foldl statsAfter PatchStats.zero) (files.map summaryOf) ↔
      ∀ file ∈ files, uncounted file = 0 := by
  have counts := fun file (member : file ∈ files) stats =>
    statsAfter_counts (apt file member).1 (apt file member).2.choose_spec stats
  have created := foldl_counts (f := (·.filesCreated))
    (fun file member stats => (counts file member stats).1) PatchStats.zero
  have modified := foldl_counts (f := (·.filesModified))
    (fun file member stats => (counts file member stats).2.1) PatchStats.zero
  have deleted := foldl_counts (f := (·.filesDeleted))
    (fun file member stats => (counts file member stats).2.2.1) PatchStats.zero
  have added := foldl_counts (f := (·.linesAdded))
    (fun file member stats => (counts file member stats).2.2.2.1) PatchStats.zero
  have removed := foldl_removed
    (fun file member stats => (counts file member stats).2.2.2.2) PatchStats.zero
  rw [sum_actions] at created modified deleted
  have start : PatchStats.zero.linesRemoved = 0 := rfl
  constructor
  · intro totals
    have told := totals.removed
    rw [List.map_map] at told
    have none_left : (files.map uncounted).sum = 0 := by
      rw [told, start, Nat.zero_add] at removed
      exact Nat.add_eq_left.mp removed
    rw [List.sum_eq_zero_iff_forall_eq_nat] at none_left
    exact fun file member => none_left _ (List.mem_map_of_mem member)
  · intro counted
    have none_left : (files.map uncounted).sum = 0 := by
      rw [List.sum_eq_zero_iff_forall_eq_nat]
      exact List.forall_mem_map.mpr counted
    refine ⟨created.trans (Nat.zero_add _), modified.trans (Nat.zero_add _),
      deleted.trans (Nat.zero_add _), added.trans ?_, ?_⟩
    · rw [List.map_map]
      exact Nat.zero_add _
    · rw [none_left, start, Nat.zero_add, Nat.add_zero] at removed
      rw [List.map_map]
      exact removed

/-! ## Whole patches -/

/-- **Summaries.** A run that applies all sections did what their summaries say exactly when
each found what its summary takes for granted, and no link at the temporary name. -/
theorem told_iff {files : List FilePatch} (live : p.dryRun = false) (sound : d.Sound)
    (formed : ∀ file ∈ files, Marked file ∧ SingleLines file)
    (ran : runSections p files d = (.ok stats, d')) :
    Told p files (files.map summaryOf) d ↔
      ∀ stats file s, Reached p files d stats file s → Apt p file s ∧ TempFree p file s := by
  constructor
  · rintro told before file s ⟨done, rest, shape, first⟩
    obtain ⟨before', s', after, s'', first', here⟩ := runSections_ok ran shape
    rw [first] at first'
    cases first'
    obtain ⟨summary, listed, describes⟩ := told done file rest before s after s'' shape first here
    have own : (files.map summaryOf)[done.length]? = some (summaryOf file) := by simp [shape]
    rw [own] at listed
    cases listed
    have later := reached_later live sound ⟨done, rest, shape, first⟩
    exact (describes_iff live (later.sound sound) (formed file (by simp [shape])) here).mp describes
  · intro plain done file rest before s after s' shape first here
    have reached : Reached p files d before file s := ⟨done, rest, shape, first⟩
    have later := reached_later live sound reached
    exact ⟨summaryOf file, by simp [shape],
      (describes_iff live (later.sound sound) (formed file (by simp [shape])) here).mpr
        (plain before file s reached)⟩

/-- A run that applies all sections comes to each. -/
theorem reached_of_mem {files : List FilePatch} (ran : runSections p files d = (.ok stats, d'))
    (member : file ∈ files) : ∃ before s, Reached p files d before file s := by
  obtain ⟨done, rest, shape⟩ := List.append_of_mem member
  obtain ⟨before, s, _, _, first, -⟩ := runSections_ok ran shape
  exact ⟨before, s, done, rest, shape, first⟩

theorem run_stats {files : List FilePatch} (live : p.dryRun = false)
    (ran : runSections p files d = (.ok stats, d')) :
    stats = files.foldl statsAfter PatchStats.zero := by
  obtain ⟨workingDir, dryRun⟩ := p
  cases live
  exact run_live_stats ran

/-- What the tool does with a patch that it applies. -/
theorem applied_ok {env : ToolEnvironment} {correlationId diff : Text}
    {summaries : List FileChangeSummary} {parsed : ParsedPatch}
    (read : PatchParser.fromDiff diff = .ok parsed)
    (ran : McpPatcher.applyPatch env correlationId p diff d = (.ok (stats, summaries), d')) :
    runSections p parsed.files d = (.ok stats, d') ∧ summaries = parsed.files.map summaryOf := by
  rw [McpPatcher.applyPatch, read] at ran
  dsimp only at ran
  split at ran
  · cases ran
  · split at ran
    · cases ran
    · split at ran
      · rename_i applied
        cases ran
        rcases applyPatch_cases p diff d with ⟨e, refused, -⟩ | ⟨other, same, -, whole⟩
        · rw [refused] at applied
          cases applied
        · rw [read] at same
          cases same
          rw [whole] at applied
          exact ⟨applied, rfl⟩
      · cases ran

/-- **Reports.** What the tool reports of a patch is what was done exactly when every section
finds what its summary takes for granted, meets no link at the temporary name, and deletes
no lines. -/
theorem truthful_iff (live : p.dryRun = false) (sound : d.Sound) (env : ToolEnvironment)
    (correlationId diff : Text) :
    Truthful env correlationId p diff d ↔
      ∀ parsed, PatchParser.fromDiff diff = .ok parsed →
        (McpPatcher.applyPatch env correlationId p diff d).1.isOk = true →
        ∀ stats file s, Reached p parsed.files d stats file s → Plain p file s := by
  constructor
  · intro truthful parsed read succeeds
    cases applied : McpPatcher.applyPatch env correlationId p diff d with
    | mk outcome d' =>
      rw [applied] at succeeds
      cases outcome with
      | error e => cases succeeds
      | ok reported =>
        obtain ⟨ran, listed⟩ := applied_ok read applied
        obtain ⟨told, totals⟩ := truthful parsed reported.1 reported.2 d' read applied
        rw [listed] at told totals
        have plain := (told_iff live sound (fromDiff_formed read) ran).mp told
        rw [run_stats live ran, totals_iff] at totals
        · intro before file s reached
          obtain ⟨done, rest, shape, -⟩ := id reached
          obtain ⟨apt, free⟩ := plain before file s reached
          exact ⟨apt, free, totals file (by simp [shape])⟩
        · intro file member
          obtain ⟨before, s, reached⟩ := reached_of_mem ran member
          exact ⟨(fromDiff_formed read file member).1, s, (plain before file s reached).1⟩
  · intro plain parsed stats summaries d' read applied
    obtain ⟨ran, rfl⟩ := applied_ok read applied
    have all := plain parsed read (by rw [applied]; rfl)
    refine ⟨(told_iff live sound (fromDiff_formed read) ran).mpr fun before file s reached =>
      ⟨(all before file s reached).apt, (all before file s reached).free⟩, ?_⟩
    rw [run_stats live ran, totals_iff]
    · intro file member
      obtain ⟨before, s, reached⟩ := reached_of_mem ran member
      exact (all before file s reached).counted
    · intro file member
      obtain ⟨before, s, reached⟩ := reached_of_mem ran member
      exact ⟨(fromDiff_formed read file member).1, s, (all before file s reached).apt⟩

/-- An environment in which nothing is installed. -/
def bareEnvironment : ToolEnvironment := ⟨⟨"/tmp".toList⟩, [], fun _ => [], fun _ => false, id⟩

/-- The replaced line is reported as it was replaced. -/
theorem replaceLine_truthful :
    Truthful bareEnvironment [] ⟨⟨"/w".toList⟩, false⟩ replaceLine oneFileDisk ∧
      (McpPatcher.applyPatch bareEnvironment [] ⟨⟨"/w".toList⟩, false⟩ replaceLine
        oneFileDisk).1.toOption =
        some (⟨1, 1, 1, 1, 0, 0⟩, [⟨"a.txt".toList, .modified, 1, 1, 1⟩]) := by
  refine ⟨(truthful_iff rfl oneFileDisk_sound _ _ _).mpr ?_, by decide +kernel⟩
  intro parsed read _ stats file s ⟨done, rest, shape, ran⟩
  rw [replaceLine_read] at read
  cases read
  cases done with
  | cons first done => simp at shape
  | nil =>
    cases ran
    cases shape
    refine ⟨?_, ?_, rfl⟩
    · intro place leads
      have own : lookup oneFileDisk false (pathJoin ⟨"/w".toList⟩ ⟨"a.txt".toList⟩) =
          .ok (.found ["w".toList, "a.txt".toList]) := by decide +kernel
      cases own.symm.trans leads
      refine ⟨"x\n".toList, by decide +kernel, ?_⟩
      rintro ⟨last, -⟩
      exact absurd last (by decide +kernel)
    · intro target isLink
      have nothing : stat oneFileDisk false (tempPath (pathJoin ⟨"/w".toList⟩ ⟨"a.txt".toList⟩)) =
          .error .notFound := by decide +kernel
      cases nothing.symm.trans isLink

/-- A section that is marked both as new and as deleted. -/
def markedBoth : Text :=
  unlines ["diff --git a/secret b/harmless".toList, "new file mode 100644".toList,
    "deleted file mode 100644".toList, "--- a/secret".toList, "+++ b/harmless".toList]

/-- Its one section. -/
def newAndDeleted : FilePatch where
  oldPath := some ⟨"secret".toList⟩
  newPath := some ⟨"harmless".toList⟩
  hunks := []
  isNewFile := true
  isDeletedFile := true
  oldMode := none
  newMode := none
  addsExecBit := false
  isBinary := false
  noTrailingNewline := false

/-- The tool reports that `harmless` is created, and `secret` is gone. -/
theorem reported_creation_deletes :
    PatchTargets.secretDisk.Sound ∧
      ¬ Truthful bareEnvironment [] ⟨⟨"/w".toList⟩, false⟩ markedBoth PatchTargets.secretDisk ∧
      (McpPatcher.applyPatch bareEnvironment [] ⟨⟨"/w".toList⟩, false⟩ markedBoth
        PatchTargets.secretDisk).1.toOption =
        some (⟨0, 0, 0, 0, 0, 1⟩, [⟨"harmless".toList, .created, 0, 0, 0⟩]) ∧
      fileAt PatchTargets.secretDisk ["w".toList, "secret".toList] = some (.utf8 "x\n".toList) ∧
      fileAt (McpPatcher.applyPatch bareEnvironment [] ⟨⟨"/w".toList⟩, false⟩ markedBoth
        PatchTargets.secretDisk).2 ["w".toList, "secret".toList] = none := by
  have reported : (McpPatcher.applyPatch bareEnvironment [] ⟨⟨"/w".toList⟩, false⟩ markedBoth
      PatchTargets.secretDisk).1.toOption =
      some (⟨0, 0, 0, 0, 0, 1⟩, [⟨"harmless".toList, .created, 0, 0, 0⟩]) := by decide +kernel
  refine ⟨Files.grounded_root _, fun truthful => ?_, reported, by decide +kernel,
    by decide +kernel⟩
  cases applied : McpPatcher.applyPatch bareEnvironment [] ⟨⟨"/w".toList⟩, false⟩ markedBoth
      PatchTargets.secretDisk with
  | mk outcome d' =>
    rw [applied] at reported
    cases outcome with
    | error e => cases reported
    | ok both =>
      cases reported
      have read : PatchParser.fromDiff markedBoth = .ok ⟨[newAndDeleted]⟩ := by decide +kernel
      have miscounted := (truthful _ _ _ d' read applied).2.created
      cases miscounted

end PatchReports

end Devit
