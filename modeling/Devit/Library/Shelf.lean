import Devit.Library.Canonical
import Devit.Library.Regular

/-! A directory of files. What stands in it is given by a table of contents, apart from
directories; a file is written under another name and renamed, so a name has its old content
or the new one. -/
namespace Devit.FileSystem
open Files Path Text

/-- The path leads to a directory in which, apart from directories, stand these files. -/
structure Shelf (d : Disk) (dir : PathBuf) (top : Loc Text) (files : Text → Option Content) :
    Prop where
  sound : d.Sound
  filled : dir.text ≠ []
  opens : Opens d dir top
  entries : ∀ name, (entry d.tree (top ++ [name]) = some .dir ∧ files name = none) ∨
    entry d.tree (top ++ [name]) = (files name).map .file

variable {d d' : Disk} {dir : PathBuf} {top : Loc Text} {files : Text → Option Content}
  {name temp : Text} {content : Content}

theorem below_child (filled : dir.text ≠ []) (plain : PlainName name) :
    Below dir (pathJoin dir ⟨name⟩) [name] := by
  have clean : ∀ c ∈ [Component.normal name], c.Plain := by
    intro c member
    rw [List.mem_singleton.mp member]
    exact plain
  have spelled : components ⟨name⟩ = [.normal name] ∧ isAbsolute ⟨name⟩ = false :=
    @components_ofComponents [] _ clean (by simp)
  have relative := spelled.2
  have named : asksDir ⟨name⟩ = false := @asksDir_ofComponents [] [] _ clean (by simp)
  have listed : pieces ⟨name⟩ ≠ [] := by
    intro none
    have bare : components ⟨name⟩ = [] := by
      rw [components, relative, if_neg Bool.false_ne_true, none]
    rw [spelled.1] at bare
    cases bare
  refine ⟨?_, (pieces_pathJoin filled relative).2, ?_⟩
  · rw [components_pathJoin filled relative, spelled.1]
    rfl
  · rw [asksDir_pathJoin filled relative listed]
    exact named

/-- A path with a name below the directory leads to that name. -/
theorem Shelf.lookup (shelf : Shelf d dir top files) (follow : Bool) {p : PathBuf}
    (below : Below dir p [name]) :
    FileSystem.lookup d follow p = .ok (placeAt d.tree (top ++ [name])) := by
  have shape : components p = components dir ++ [.normal name] := below.comps
  have holds : Holds d p top := by
    rw [Holds, shape, List.dropLast_concat, @Below.base _ _ _ [] _ below]
    exact shelf.opens
  refine lookup_holds shelf.sound shape below.named holds fun _ target isLink => ?_
  rcases shelf.entries name with ⟨isDir, -⟩ | isFile
  · rw [isDir] at isLink
    cases isLink
  · rw [isFile] at isLink
    cases held : files name <;> rw [held] at isLink <;> cases isLink

theorem Shelf.stat (shelf : Shelf d dir top files) (follow : Bool) {p : PathBuf}
    (below : Below dir p [name]) {node : Node Text Content} :
    FileSystem.stat d follow p = .ok node ↔ entry d.tree (top ++ [name]) = some node := by
  rw [stat_eq_ok (shelf.lookup follow below), placeAt_loc]

theorem Shelf.stat_file (shelf : Shelf d dir top files) (follow : Bool) {p : PathBuf}
    (below : Below dir p [name]) :
    FileSystem.stat d follow p = .ok (.file content) ↔ files name = some content := by
  rw [shelf.stat follow below]
  rcases shelf.entries name with ⟨isDir, none⟩ | isFile
  · simp [isDir, none]
  · rw [isFile]
    cases files name <;> simp

/-- A name of the directory that no directory has. -/
theorem Shelf.free (shelf : Shelf d dir top files)
    (notDir : entry d.tree (top ++ [name]) ≠ some .dir) :
    entry d.tree (top ++ [name]) = (files name).map .file :=
  (shelf.entries name).resolve_left fun isDir => notDir isDir.1

/-- **One name.** Writing or removing a file changes the table at its name. -/
theorem Shelf.put (shelf : Shelf d dir top files)
    (notDir : entry d.tree (top ++ [name]) ≠ some .dir) (value : Option Content) :
    Shelf (d.put (top ++ [name]) (value.map .file)) dir top (Function.update files name value) := by
  have held := shelf.free notDir
  refine ⟨(Later.put _ notDir).sound shelf.sound, shelf.filled, opens_put ?_ shelf.opens, ?_⟩
  · rintro (isDir | ⟨target, isLink⟩)
    · exact notDir isDir
    · rw [held] at isLink
      cases there : files name <;> rw [there] at isLink <;> cases isLink
  · intro other
    by_cases same : other = name
    · subst same
      right
      rw [Disk.put, entry_put_self _ (by simp), Function.update_self]
    · have apart : top ++ [other] ≠ top ++ [name] := by simpa using same
      rw [Disk.put, entry_put_other _ apart, Function.update_of_ne same]
      exact shelf.entries other

/-! ## Calls -/

/-- **Removing** a file. -/
theorem Shelf.remove (shelf : Shelf d dir top files) {p : PathBuf} (below : Below dir p [name])
    (held : files name = some content) :
    removeFile p d = (.ok (), d.put (top ++ [name]) none) ∧
      Shelf (d.put (top ++ [name]) none) dir top (Function.update files name none) := by
  have isFile := (shelf.stat true below).mp ((shelf.stat_file true below).mpr held)
  have notDir : entry d.tree (top ++ [name]) ≠ some .dir := by
    rw [isFile]
    simp
  have found := shelf.lookup false below
  rw [placeAt, if_neg (by rw [isFile]; simp)] at found
  exact ⟨unlink_at_found found notDir, shelf.put notDir none⟩

/-- The disk after a file is written under another name and renamed. -/
def replaced (d : Disk) (temp loc : Loc Text) (empty content : Content) : Disk :=
  (((d.put temp (some (.file empty))).put temp (some (.file content))).put temp none).put loc
    (some (.file content))

/-- Writing under another name and renaming, where it succeeds. -/
theorem Shelf.replaces (shelf : Shelf d dir top files) {p q : PathBuf} (below : Below dir p [name])
    (below' : Below dir q [temp]) (apart : name ≠ temp) {empty : Content} {loc : Loc Text}
    {after : Disk} (opened : atPath q (openTruncate empty) d = (.ok loc, d'))
    (renamed : renameFile q p (d'.put loc (some (.file content))) = (.ok (), after)) :
    entry d.tree (top ++ [temp]) ≠ some .dir ∧ entry d.tree (top ++ [name]) ≠ some .dir ∧
      after = replaced d (top ++ [temp]) (top ++ [name]) empty content := by
  -- what is opened is the other name's file
  obtain ⟨notDir, rfl, rfl⟩ : entry d.tree (top ++ [temp]) ≠ some .dir ∧ loc = top ++ [temp] ∧
      d' = d.put (top ++ [temp]) (some (.file empty)) := by
    rcases open_at_cases empty q d with ⟨e, failed⟩ | ⟨place, leads, notDir, ran⟩
    · rw [failed] at opened
      cases opened
    · rw [ran] at opened
      cases opened
      rw [shelf.lookup true below'] at leads
      cases leads
      rw [placeAt_loc] at notDir ⊢
      exact ⟨notDir, rfl, rfl⟩
  have written : Shelf ((d.put (top ++ [temp]) (some (.file empty))).put (top ++ [temp])
      (some (.file content))) dir top (Function.update (Function.update files temp (some empty))
        temp content) := by
    refine (shelf.put notDir (some empty)).put ?_ (some content)
    rw [Disk.put, entry_put_self _ (by simp)]
    simp
  have there : entry ((d.put (top ++ [temp]) (some (.file empty))).put (top ++ [temp])
      (some (.file content))).tree (top ++ [temp]) = some (.file content) :=
    entry_put_self _ (by simp)
  rcases rename_at_cases q p ((d.put (top ++ [temp]) (some (.file empty))).put (top ++ [temp])
      (some (.file content))) with
    ⟨e, failed⟩ | ⟨source, place, node, fromTemp, held, -, toName, ends⟩
  · rw [failed] at renamed
    cases renamed
  · rw [written.lookup false below', placeAt, if_neg (by rw [there]; simp)] at fromTemp
    cases fromTemp
    rw [written.lookup false below] at toName
    cases toName
    rw [there] at held
    cases held
    rw [placeAt_loc] at ends
    have other : top ++ [name] ≠ top ++ [temp] := by simpa using apart
    obtain ⟨-, free, ran⟩ := ends.resolve_left fun same => other same.1
    rw [ran] at renamed
    cases renamed
    rw [Disk.put, entry_put_other _ other, Disk.put, entry_put_other _ other] at free
    exact ⟨notDir, free, rfl⟩

/-- **Writing** a file under another name first. -/
theorem Shelf.replace (shelf : Shelf d dir top files) (apart : name ≠ temp) {empty : Content}
    (tempFree : entry d.tree (top ++ [temp]) ≠ some .dir)
    (free : entry d.tree (top ++ [name]) ≠ some .dir) :
    Shelf (replaced d (top ++ [temp]) (top ++ [name]) empty content) dir top
      (Function.update (Function.update files temp none) name (some content)) := by
  have other : top ++ [name] ≠ top ++ [temp] := by simpa using apart
  have once := shelf.put tempFree (some empty)
  have twice := @Shelf.put _ _ _ _ temp once (by
    rw [Disk.put, entry_put_self _ (by simp)]
    simp) (some content)
  have emptied := @Shelf.put _ _ _ _ temp twice (by
    rw [Disk.put, entry_put_self _ (by simp)]
    simp) none
  rw [Function.update_idem, Function.update_idem] at emptied
  refine emptied.put ?_ (some content)
  rw [Disk.put, entry_put_other _ other, Disk.put, entry_put_other _ other, Disk.put,
    entry_put_other _ other]
  exact free

end Devit.FileSystem
