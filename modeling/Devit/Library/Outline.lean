import Devit.Library.Directories

/-! Trees with the same directories, links and files, whose files may hold other
contents: every path leads to the same place in both. What is written to files that
are there keeps a tree such, and a directory that can be made does not. -/
namespace Devit.Files

variable {N C : Type}

/-- The trees differ in what files hold only. -/
def Outline (t t' : Tree N C) : Prop :=
  ∀ loc, entry t' loc = entry t loc ∨
    ∃ old new, entry t loc = some (.file old) ∧ entry t' loc = some (.file new)

variable {t t' : Tree N C}

theorem Outline.refl (t : Tree N C) : Outline t t := fun _ => .inl rfl

theorem Outline.dir_iff (outline : Outline t t') (loc : Loc N) :
    entry t' loc = some .dir ↔ entry t loc = some .dir := by
  rcases outline loc with same | ⟨old, new, was, now⟩
  · rw [same]
  · rw [was, now]
    simp

theorem Outline.file_iff (outline : Outline t t') (loc : Loc N) :
    (∃ content, entry t' loc = some (.file content)) ↔
      ∃ content, entry t loc = some (.file content) := by
  rcases outline loc with same | ⟨old, new, was, now⟩
  · rw [same]
  · exact iff_of_true ⟨new, now⟩ ⟨old, was⟩

theorem Outline.grounded (outline : Outline t t') {loc : Loc N} (ground : Grounded t loc) :
    Grounded t' loc := fun above member => (outline.dir_iff above).mpr (ground above member)

/-- Writing a file that is there keeps the outline. -/
theorem Outline.put [DecidableEq N] {loc : Loc N} {old content : C} (outline : Outline t t')
    (there : entry t loc = some (.file old)) : Outline t (put t' loc (some (.file content))) := by
  intro other
  by_cases same : other = loc
  · subst same
    refine .inr ⟨old, content, there, entry_put_self _ ?_⟩
    rintro rfl
    cases there
  · rw [entry_put_other _ same]
    exact outline other

theorem stroll_outline {follow : Bool} {f g : Loc N → List (Hop N) → Walk N}
    (outline : Outline t t') (links : ∀ cur hops, g cur hops = f cur hops)
    (cur : Loc N) (hops : List (Hop N)) : stroll t' follow g cur hops = stroll t follow f cur hops := by
  induction hops generalizing cur with
  | nil => rfl
  | cons hop rest ih =>
    cases hop with
    | here => exact ih cur
    | up => exact ih cur.dropLast
    | into name =>
      simp only [stroll]
      rcases outline (cur ++ [name]) with same | ⟨old, new, was, now⟩
      · rw [same]
        cases entry t (cur ++ [name]) with
        | none => rfl
        | some node =>
          cases node with
          | file content => rfl
          | dir => simp only [ih]
          | link target => simp only [links]
      · rw [was, now]

/-- Trees with one outline give the same walks. -/
theorem walk_outline (outline : Outline t t') (follow : Bool) (budget : Nat) (cur : Loc N)
    (hops : List (Hop N)) : walk t' follow budget cur hops = walk t follow budget cur hops := by
  induction budget generalizing cur hops with
  | zero => exact stroll_outline outline (fun _ _ => rfl) cur hops
  | succ budget ih => exact stroll_outline outline ih cur hops

end Devit.Files

namespace Devit.FileSystem
open Files Path

/-- A disk on which files that were there have been written. -/
structure Overlaid (d s : Disk) : Prop where
  cwd : s.cwd = d.cwd
  outline : Outline d.tree s.tree

variable {d s : Disk}

theorem Overlaid.refl (d : Disk) : Overlaid d d := ⟨rfl, .refl _⟩

theorem Overlaid.sound (overlaid : Overlaid d s) (sound : d.Sound) : s.Sound := by
  rw [Disk.Sound, overlaid.cwd]
  exact overlaid.outline.grounded sound

theorem Overlaid.put {loc : Loc Text} {old content : Content} (overlaid : Overlaid d s)
    (there : entry d.tree loc = some (.file old)) : Overlaid d (s.put loc (some (.file content))) :=
  ⟨overlaid.cwd, overlaid.outline.put there⟩

/-- A path leads to the same place. -/
theorem Overlaid.lookup (overlaid : Overlaid d s) (follow : Bool) (p : PathBuf) :
    FileSystem.lookup s follow p = FileSystem.lookup d follow p := by
  unfold FileSystem.lookup
  cases route p with
  | none => rfl
  | some r =>
    dsimp only
    unfold Disk.resolve Files.resolve Route.walk
    rw [overlaid.cwd, walk_outline overlaid.outline]

theorem isDir_eq_true {p : PathBuf} :
    isDir d p = true ↔ ∃ place, lookup d true p = .ok place ∧ entry d.tree place.loc = some .dir := by
  unfold isDir
  rw [stat_eq]
  cases lookup d true p with
  | error e => simp
  | ok place =>
    cases there : entry d.tree place.loc with
    | none => simp [there]
    | some node => cases node <;> simp [there]

theorem Overlaid.isDir_iff (overlaid : Overlaid d s) (p : PathBuf) :
    isDir s p = true ↔ isDir d p = true := by
  simp only [isDir_eq_true, overlaid.lookup, overlaid.outline.dir_iff]

/-! ## When nothing is made -/

/-- No directory on the way to a path is missing where it could be made. -/
def Unmakeable (d : Disk) (q : PathBuf) : Prop :=
  ∀ here ∈ upTo q, ∀ loc, FileSystem.lookup d false here ≠ .ok (.vacant loc)

theorem Overlaid.unmakeable_iff (overlaid : Overlaid d s) (q : PathBuf) :
    Unmakeable s q ↔ Unmakeable d q := by
  simp only [Unmakeable, overlaid.lookup]

theorem mkdir_at_unchanged {q : PathBuf} (stays : (atPath q mkdir d).2 = d) (loc : Loc Text)
    (sound : d.Sound) : lookup d false q ≠ .ok (.vacant loc) := by
  intro vacant
  rw [mkdir_at_vacant vacant] at stays
  have now : entry (d.put loc (some .dir)).tree loc = some .dir :=
    entry_put_self _ (ne_root_of_free (lookup_vacant sound vacant))
  rw [show d.put loc (some .dir) = d from stays, lookup_vacant sound vacant] at now
  cases now

theorem unmakeable_empty {q : PathBuf} (empty : q.text = []) : Unmakeable d q := by
  obtain ⟨text⟩ := q
  cases empty
  intro here member loc
  cases List.mem_singleton.mp (show here ∈ [⟨[]⟩] from member)
  exact nofun

/-- **Making nothing.** The call makes no directory exactly if none can be made on the way. -/
theorem createDirAllWithin_unchanged_iff {fuel : Nat} {q : PathBuf} (sound : d.Sound)
    (enough : (components q).length < fuel) :
    (createDirAllWithin fuel q d).2 = d ↔ Unmakeable d q := by
  induction fuel generalizing q with
  | zero => exact absurd enough (Nat.not_lt_zero _)
  | succ fuel ih =>
    rw [createDirAllWithin]
    by_cases empty : q.text = []
    · simp only [empty, ↓reduceIte, true_iff]
      exact unmakeable_empty empty
    · simp only [empty, ↓reduceIte]
      rcases mkdir_at_cases q d with ⟨e, failed⟩ | ⟨loc, vacant, made⟩
      · have own : ∀ loc, lookup d false q ≠ .ok (.vacant loc) := fun loc =>
          mkdir_at_unchanged (by rw [failed]) loc sound
        simp only [failed]
        by_cases missing : e = .notFound
        · simp only [missing, ↓reduceIte]
          cases higher : parent q with
          | none =>
            simp only [true_iff]
            intro here member
            rw [upTo, parent_none higher] at member
            cases List.mem_singleton.mp member
            exact own
          | some above =>
            have shorter := Nat.lt_of_lt_of_le (parent_shorter higher) (Nat.le_of_lt_succ enough)
            have way : Unmakeable d q ↔ Unmakeable d above := by
              unfold Unmakeable
              rw [upTo_parent higher]
              split
              · rename_i bare
                refine iff_of_true ?_ (unmakeable_empty bare)
                intro here member
                cases List.mem_singleton.mp member
                exact own
              · refine ⟨fun all here member => all here (List.mem_append_left _ member), ?_⟩
                intro all here member
                rcases List.mem_append.mp member with inside | last
                · exact all here inside
                · cases List.mem_singleton.mp last
                  exact own
            rw [way, ← ih shorter]
            have widened : Widened d (createDirAllWithin fuel above d).2 :=
              createDirAllWithin_widens sound
            dsimp only
            rw [Action.bind_apply]
            cases ran : createDirAllWithin fuel above d with
            | mk outcome mid =>
              rw [ran] at widened
              cases outcome with
              | error e => exact Iff.rfl
              | ok _ =>
                dsimp only
                constructor
                · intro stays
                  rcases widened.unchanged_or_made with same | ⟨loc, free, isDir⟩
                  · exact same
                  · have later : Widened mid (ensureDir q mid).2 :=
                      ensureDir_widens (widened.later.sound sound)
                    have kept := later.later.dirs loc isDir
                    rw [stays, free] at kept
                    cases kept
                · intro same
                  rw [same, ensureDir, failed]
                  dsimp only
                  split <;> rfl
        · rw [if_neg missing]
          refine iff_of_true (by split <;> rfl) ?_
          intro here member loc vacant
          rcases List.mem_append.mp member with above | last
          · obtain ⟨init, more, shape, some, longer, rfl⟩ := mem_above above
            rw [mkdir_past_vacant sound shape some longer vacant] at failed
            cases failed
            exact missing rfl
          · cases List.mem_singleton.mp last
            exact own loc vacant
      · refine iff_of_false ?_ fun all => all q (by simp [upTo]) loc vacant
        intro stays
        refine mkdir_at_unchanged ?_ loc sound vacant
        rw [made] at stays ⊢
        exact stays

theorem createDirAll_unchanged_iff {q : PathBuf} (sound : d.Sound) :
    (createDirAll q d).2 = d ↔ Unmakeable d q :=
  createDirAllWithin_unchanged_iff sound (Nat.lt_succ_self _)

end Devit.FileSystem
