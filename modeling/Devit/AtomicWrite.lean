import Devit.AtomicPatcher

/-! Replacing a file through a temporary one. The temporary name is opened like
any file, so a link that stands there is written through, and it is the link that
is then renamed; otherwise the new content ends up under the file's own name. -/
namespace Devit
open Text Path FileSystem
open Files hiding Place

namespace AtomicWrite
open AtomicPatcher

/-- The temporary name next to a name. -/
def tempName (name : Text) : Text := stem name ++ '.' :: "devit.tmp".toList

theorem stem_start (name : Text) : stem name <+: name := by
  unfold stem
  split
  · exact List.prefix_rfl
  · exact List.prefix_rfl
  · rename_i found
    exact beforeLast_prefix found

theorem tempName_plain {name : Text} (noSlash : '/' ∉ name) :
    Component.Plain (.normal (tempName name)) := by
  have length : 10 ≤ (tempName name).length := by simp [tempName]
  refine ⟨?_, ?_, ?_, ?_⟩
  · intro empty
    rw [empty] at length
    cases length
  · intro slash
    rcases List.mem_append.mp slash with inStem | inEnd
    · exact noSlash ((stem_start name).subset inStem)
    · exact absurd inEnd (by decide)
  · intro dot
    rw [dot] at length
    exact absurd length (by decide)
  · intro dots
    rw [dots] at length
    exact absurd length (by decide)

theorem name_noSlash {p : PathBuf} {comps : List Component} {name : Text}
    (shape : components p = comps ++ [.normal name]) : '/' ∉ name := by
  obtain ⟨front, rest, whole, clean, first⟩ := components_shape p
  have member : Component.normal name ∈ front ++ rest := by rw [← whole, shape]; simp
  rcases List.mem_append.mp member with bad | inside
  · rcases first with ⟨rfl, -⟩ | ⟨rfl | rfl, -⟩ <;> simp at bad
  · exact (clean _ inside).2.1

/-- What is known of a file's temporary name. -/
theorem tempPath_spec {full : PathBuf} {comps : List Component} {name : Text}
    (shape : components full = comps ++ [.normal name]) :
    components (tempPath full) = comps ++ [.normal (tempName name)] ∧
      isAbsolute (tempPath full) = isAbsolute full ∧ asksDir (tempPath full) = false := by
  have named : fileName full = some name := by simp [fileName, shape]
  have spelled : tempPath full = ofComponents (comps ++ [.normal (tempName name)]) := by
    simp only [tempPath, withExtension, named, shape, List.dropLast_concat]
    rfl
  obtain ⟨same, absolute, asks, -⟩ :=
    components_sibling shape (tempName_plain (name_noSlash shape))
  rw [spelled]
  exact ⟨same, absolute, asks⟩

/-- The temporary file is held where the file is. -/
theorem holds_tempPath {d : Disk} {full : PathBuf} {comps : List Component} {name : Text}
    (shape : components full = comps ++ [.normal name]) (dir : Loc Text) :
    Holds d (tempPath full) dir ↔ Holds d full dir := by
  obtain ⟨temp, absolute, -⟩ := tempPath_spec shape
  simp only [Holds, base, temp, shape, absolute, List.dropLast_concat]

/-! ## The steps of a write -/

/-- The disk with the opened file written. -/
def written (d : Disk) (opened : Loc Text) (content : Text) : Disk :=
  (d.put opened (some (.file (.utf8 [])))).put opened (some (.file (.utf8 content)))

theorem written_entry {d : Disk} {opened : Loc Text} {content : Text}
    (notDir : entry d.tree opened ≠ some .dir) :
    entry (written d opened content).tree opened = some (.file (.utf8 content)) := by
  refine entry_put_self _ ?_
  rintro rfl
  exact notDir rfl

theorem written_other {d : Disk} {opened other : Loc Text} {content : Text}
    (apart : other ≠ opened) :
    entry (written d opened content).tree other = entry d.tree other := by
  simp only [written, Disk.put, entry_put_other _ apart]

theorem written_later {d : Disk} {opened : Loc Text} {content : Text}
    (notDir : entry d.tree opened ≠ some .dir) : Later d (written d opened content) := by
  refine (Later.put _ notDir).trans (Later.put _ ?_)
  have below : opened ≠ [] := by
    rintro rfl
    exact notDir rfl
  rw [Disk.put, entry_put_self _ below]
  rintro ⟨⟩

/-- Writing a file does not change which directories routes lead to. -/
theorem holds_of_written {d : Disk} {opened : Loc Text} {content : Text} {p : PathBuf}
    {dir : Loc Text} (notDir : entry d.tree opened ≠ some .dir)
    (holds : Holds (written d opened content) p dir) : Holds d p dir := by
  refine LeadsTo.congr holds fun loc passable => ?_
  have apart : loc ≠ opened := by
    rintro rfl
    rcases passable with isDir | ⟨target, isLink⟩
    · rw [written_entry notDir] at isDir
      cases isDir
    · rw [written_entry notDir] at isLink
      cases isLink
  simp [written, Disk.put, put, Function.update, apart]

/-- The disk with the temporary file put in the place of the file. -/
def moved (d : Disk) (temp target : Loc Text) (node : Node Text Content) : Disk :=
  if target = temp then d else (d.put temp none).put target (some node)

/-- **What a write does.** It fails before anything is opened; or it writes the
opened file and fails; or what is at the temporary name then replaces what is at
the file's own, both in the directory that holds the file. -/
theorem write_cases {d : Disk} (sound : d.Sound) (full : PathBuf) (content : Text) :
    (∃ e : DevItError, e.isIo = true ∧ writeFileAtomically full content d = (.error e, d)) ∨
    ∃ opened, lookup d true (tempPath full) = .ok opened ∧ entry d.tree opened.loc ≠ some .dir ∧
      ((∃ e : DevItError, e.isIo = true ∧
        writeFileAtomically full content d = (.error e, written d opened.loc content)) ∨
      ∃ comps name dir node, components full = comps ++ [.normal name] ∧ asksDir full = false ∧
        Holds d full dir ∧
        entry (written d opened.loc content).tree (dir ++ [tempName name]) = some node ∧
        node ≠ .dir ∧ entry (written d opened.loc content).tree (dir ++ [name]) ≠ some .dir ∧
        writeFileAtomically full content d = (.ok (),
          moved (written d opened.loc content) (dir ++ [tempName name]) (dir ++ [name]) node)) := by
  have write_eq : writeFileAtomically full content d =
      (orIo "create temp file" (tempPath full)
        (atPath (tempPath full) (openTruncate (.utf8 []))) >>= fun file =>
      orIo "write to temp file" (tempPath full) (writeAll file (.utf8 content)) >>= fun _ =>
      orIo "atomic rename" full (renameFile (tempPath full) full)) d := rfl
  rcases open_at_cases (.utf8 []) (tempPath full) d with ⟨e, failed⟩ | ⟨opened, leads, notDir, ran⟩
  · exact .inl ⟨_, rfl, write_eq.trans (Action.bind_of_error (orIo_of_error failed))⟩
  · refine .inr ⟨opened, leads, notDir, ?_⟩
    have second : orIo "write to temp file" (tempPath full) (writeAll opened.loc (.utf8 content))
        (d.put opened.loc (some (.file (.utf8 [])))) =
        (.ok (), written d opened.loc content) := rfl
    rw [write_eq, Action.bind_of_ok (orIo_of_ok ran), Action.bind_of_ok second]
    have soundMid : (written d opened.loc content).Sound := (written_later notDir).sound sound
    rcases rename_at_cases (tempPath full) full (written d opened.loc content) with
      ⟨e, failed⟩ | ⟨source, place, node, fromTemp, there, other, toFull, ends⟩
    · exact .inl ⟨_, rfl, orIo_of_error failed⟩
    · refine .inr ?_
      have free : entry (written d opened.loc content).tree place.loc ≠ some .dir := by
        rcases ends with ⟨same, -⟩ | ⟨-, free, -⟩
        · rw [same, there]
          simpa using other
        · exact free
      have sourceFree : entry (written d opened.loc content).tree (Place.found source).loc ≠
          some .dir := by
        rw [Files.Place.loc, there]
        simpa using other
      rcases fileName_cases full with unnamed | ⟨comps, name, shape⟩
      · exact absurd (lookup_unnamed soundMid unnamed toFull) free
      · obtain ⟨asks, dir, holds, rfl⟩ := lookup_named soundMid shape toFull free
        obtain ⟨-, dir', holds', at_temp⟩ :=
          lookup_named soundMid (tempPath_spec shape).1 fromTemp sourceFree
        have same : dir' = dir := LeadsTo.unique ((holds_tempPath shape dir').mp holds') holds
        subst same
        have source_eq : source = dir' ++ [tempName name] := by
          have locs := congrArg Files.Place.loc at_temp
          rwa [placeAt_loc] at locs
        subst source_eq
        rw [placeAt_loc] at free ends
        refine ⟨comps, name, dir', node, shape, asks, holds_of_written notDir holds, there, other,
          free, ?_⟩
        rcases ends with ⟨equal, kept⟩ | ⟨apart, -, replaced⟩
        · rw [orIo_of_ok kept, moved, if_pos equal]
        · rw [orIo_of_ok replaced, moved, if_neg apart]

theorem moved_entry {d : Disk} {temp target : Loc Text} {node : Node Text Content}
    (there : entry d.tree temp = some node) (below : target ≠ []) :
    entry (moved d temp target node).tree target = some node := by
  unfold moved
  split
  · rename_i same
    rw [same, there]
  · exact entry_put_self _ below

/-- What stands at the file's own name after a write is what stood at the temporary name
when it was written, which is the file that was opened unless a link was there. -/
theorem write_done {d d' : Disk} {full : PathBuf} {content : Text} (sound : d.Sound)
    (ran : writeFileAtomically full content d = (.ok (), d')) :
    ∃ opened temp place node, lookup d true (tempPath full) = .ok opened ∧
      entry d.tree opened.loc ≠ some .dir ∧ lookup d false (tempPath full) = .ok temp ∧
      lookup d false full = .ok place ∧
      entry (written d opened.loc content).tree temp.loc = some node ∧
      entry d'.tree place.loc = some node ∧
      ((∀ target, entry d.tree temp.loc ≠ some (.link target)) → opened = temp) := by
  rcases write_cases sound full content with ⟨e, -, failed⟩ | ⟨opened, leads, notDir, outcome⟩
  · rw [failed] at ran
    cases ran
  · rcases outcome with
      ⟨e, -, failed⟩ | ⟨comps, name, dir, node, shape, asks, holds, there, other, free, done⟩
    · rw [failed] at ran
      cases ran
    · rw [done] at ran
      cases ran
      obtain ⟨temp, -, tempAsks⟩ := tempPath_spec shape
      have tempHolds := (holds_tempPath shape dir).mpr holds
      have atFull : lookup d false full = .ok (placeAt d.tree (dir ++ [name])) :=
        lookup_holds sound shape asks holds (by simp)
      have atTemp : lookup d false (tempPath full) =
          .ok (placeAt d.tree (dir ++ [tempName name])) :=
        lookup_holds sound temp tempAsks tempHolds (by simp)
      refine ⟨opened, _, _, node, leads, notDir, atTemp, atFull, ?_, ?_, fun noLink => ?_⟩
      · rw [placeAt_loc]
        exact there
      · rw [placeAt_loc]
        exact moved_entry there (by simp)
      · rw [placeAt_loc] at noLink
        have opens : lookup d true (tempPath full) =
            .ok (placeAt d.tree (dir ++ [tempName name])) :=
          lookup_holds sound temp tempAsks tempHolds fun _ => noLink
        rw [opens] at leads
        cases leads
        rfl

/-- Where a file stands at the file's own name after a write, no link stood at the temporary
name. -/
theorem write_plain {d d' : Disk} {full : PathBuf} {content : Text} {place : Files.Place Text}
    {new : Content} (sound : d.Sound)
    (ran : writeFileAtomically full content d = (.ok (), d'))
    (found : lookup d false full = .ok place)
    (isFile : entry d'.tree place.loc = some (.file new)) :
    ∀ target, stat d false (tempPath full) ≠ .ok (.link target) := by
  intro target isLink
  obtain ⟨opened, temp, place', node, leads, -, atTemp, atFull, there, result, -⟩ :=
    write_done sound ran
  rw [found] at atFull
  cases atFull
  rw [result] at isFile
  cases isFile
  rw [stat_eq_ok atTemp] at isLink
  have apart : temp.loc ≠ opened.loc := by
    intro same
    exact lookup_follow sound leads target (same ▸ isLink)
  rw [written_other apart, isLink] at there
  cases there

/-- **What a write leaves.** After a write that succeeds, the file's own name
holds a file with the new content exactly when no link stood at the temporary
name. -/
theorem write_took_iff {d d' : Disk} {full : PathBuf} {content : Text} (sound : d.Sound)
    (ran : writeFileAtomically full content d = (.ok (), d')) :
    (∃ place, lookup d false full = .ok place ∧
      entry d'.tree place.loc = some (.file (.utf8 content))) ↔
      ∀ target, stat d false (tempPath full) ≠ .ok (.link target) := by
  constructor
  · rintro ⟨place, found, isFile⟩
    exact write_plain sound ran found isFile
  · intro noLink
    obtain ⟨opened, temp, place, node, leads, notDir, atTemp, atFull, there, result, plain⟩ :=
      write_done sound ran
    obtain rfl : opened = temp := plain fun target isLink =>
      noLink target ((stat_eq_ok atTemp).mpr isLink)
    rw [written_entry notDir] at there
    cases there
    exact ⟨place, atFull, result⟩

/-- A file that stands at its own name after a write holds the new content, and no link stood
at the temporary name. -/
theorem write_file {d d' : Disk} {full : PathBuf} {content : Text} {place : Files.Place Text}
    {new : Content} (sound : d.Sound)
    (ran : writeFileAtomically full content d = (.ok (), d'))
    (found : lookup d false full = .ok place)
    (isFile : entry d'.tree place.loc = some (.file new)) :
    new = .utf8 content ∧ ∀ target, stat d false (tempPath full) ≠ .ok (.link target) := by
  have noLink := write_plain sound ran found isFile
  obtain ⟨place', found', isFile'⟩ := (write_took_iff sound ran).mpr noLink
  rw [found] at found'
  cases found'
  rw [isFile] at isFile'
  cases isFile'
  exact ⟨rfl, noLink⟩

theorem write_error_io {d d' : Disk} {full : PathBuf} {content : Text} {e : DevItError}
    (sound : d.Sound) (ran : writeFileAtomically full content d = (.error e, d')) :
    e.isIo = true := by
  rcases write_cases sound full content with ⟨_, io, failed⟩ | ⟨_, -, -, outcome⟩
  · rw [failed] at ran
    cases ran
    exact io
  · rcases outcome with ⟨_, io, failed⟩ | ⟨_, _, _, _, -, -, -, -, -, -, done⟩
    · rw [failed] at ran
      cases ran
      exact io
    · rw [done] at ran
      cases ran

theorem moved_later {d : Disk} {temp target : Loc Text} {node : Node Text Content}
    (there : entry d.tree temp = some node) (other : node ≠ .dir)
    (free : entry d.tree target ≠ some .dir) : Later d (moved d temp target node) := by
  unfold moved
  split
  · exact Later.refl d
  · rename_i apart
    refine (Later.put none ?_).trans (Later.put _ ?_)
    · rw [there]
      simpa using other
    · rw [Disk.put, entry_put_other none apart]
      exact free

theorem write_later {d : Disk} (sound : d.Sound) (full : PathBuf) (content : Text) :
    Later d (writeFileAtomically full content d).2 := by
  rcases write_cases sound full content with ⟨_, -, failed⟩ | ⟨opened, -, notDir, outcome⟩
  · rw [failed]
    exact Later.refl d
  · rcases outcome with ⟨_, -, failed⟩ | ⟨_, _, _, _, -, -, -, there, other, free, done⟩
    · rw [failed]
      exact written_later notDir
    · rw [done]
      exact (written_later notDir).trans (moved_later there other free)

end AtomicWrite

end Devit
