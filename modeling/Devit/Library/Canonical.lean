import Devit.Library.FileSystem

/-! Canonical paths: the absolute path of a location, with the names that lead
there. It leads back to the location, and is its own canonical path. -/
namespace Devit.FileSystem
open Files Path

/-- A name as a directory can hold it. -/
def PlainName (name : Text) : Prop := Component.Plain (.normal name)

instance (name : Text) : Decidable (PlainName name) :=
  inferInstanceAs (Decidable (name ≠ [] ∧ '/' ∉ name ∧ name ≠ ['.'] ∧ name ≠ ['.', '.']))

/-- Every link of the disk, and its current directory, is spelled with such names. -/
def Spelled (d : Disk) : Prop := (∀ name ∈ d.cwd, PlainName name) ∧ Named PlainName d.tree

/-- A tree stays spelled with names when an entry is put in that is. -/
theorem named_put {t : Tree Text Content} {P : Text → Prop} (named : Named P t) {loc : Loc Text}
    {node : Option (Node Text Content)}
    (own : ∀ target, node = some (.link target) → ∀ name, Hop.into name ∈ target.hops → P name) :
    Named P (put t loc node) := by
  intro other target isLink
  unfold put at isLink
  by_cases same : other = loc
  · rw [same, Function.update_self] at isLink
    exact own target isLink
  · rw [Function.update_of_ne same] at isLink
    exact named other target isLink

/-- The paths have the same components, and so lead to the same place in every tree. -/
theorem opens_of_same {p q : PathBuf} (equal : same p q = true)
    (absolute : isAbsolute p = isAbsolute q) (d : Disk) (dir : Loc Text) :
    Opens d p dir ↔ Opens d q dir := by
  have comps : components p = components q := by simpa [same] using equal
  rw [Opens, Opens, base, base, comps, absolute]

/-- Two equal paths are both absolute or both relative. -/
theorem isAbsolute_of_same {p q : PathBuf} (equal : same p q = true) :
    isAbsolute p = isAbsolute q := by
  have comps : components p = components q := by simpa [same] using equal
  have roots := (isAbsolute_iff p).trans ((by rw [comps]) : _ ↔ _) |>.trans (isAbsolute_iff q).symm
  exact Bool.eq_iff_iff.mpr roots

theorem components_absolute {loc : Loc Text} (plain : ∀ name ∈ loc, PlainName name) :
    components (absolute loc) = .rootDir :: loc.map .normal ∧ isAbsolute (absolute loc) = true := by
  have clean : ∀ c ∈ loc.map Component.normal, c.Plain := by
    intro c member
    obtain ⟨name, listed, rfl⟩ := List.mem_map.mp member
    exact plain name listed
  obtain ⟨spelled, root⟩ := @components_ofComponents [.rootDir] _ clean (.inl rfl)
  exact ⟨spelled, root.trans (by simp)⟩

theorem hops_absolute {loc : Loc Text} (plain : ∀ name ∈ loc, PlainName name) :
    hops (components (absolute loc)) = loc.map .into := by
  rw [(components_absolute plain).1, hops, List.filterMap_cons, hop]
  simp only [List.filterMap_map]
  exact List.filterMap_eq_map' ▸ rfl

theorem absolute_text (loc : Loc Text) : (absolute loc).text ≠ [] := nofun

theorem opens_absolute {d : Disk} {loc : Loc Text} (plain : ∀ name ∈ loc, PlainName name)
    (ground : Grounded d.tree loc) : Opens d (absolute loc) loc := by
  refine ⟨?_, ground.entry⟩
  rw [base, (components_absolute plain).2, hops_absolute plain]
  exact @walk_down _ _ _ _ maxLinks [] _ ground

/-- The names a path leads to are names. -/
theorem lookup_plain {d : Disk} {follow : Bool} {p : PathBuf} {place : Place Text}
    (spelled : Spelled d) (leads : lookup d follow p = .ok place) :
    ∀ name ∈ place.loc, PlainName name := by
  by_cases filled : p.text = []
  · rw [lookup, route, if_pos filled] at leads
    cases leads
  · rw [lookup_eq filled] at leads
    obtain ⟨front, rest, shape, plain, first⟩ := components_shape p
    have fronts : ∀ name, Component.normal name ∉ front := by
      rcases first with ⟨rfl, -⟩ | ⟨rfl | rfl, -⟩ <;> simp
    refine walk_names spelled.2 ?_ ?_ leads
    · unfold base
      split
      · simp
      · exact spelled.1
    · intro name member
      rcases List.mem_append.mp member with inside | atEnd
      · obtain ⟨c, listed, made⟩ := List.mem_filterMap.mp inside
        cases c with
        | rootDir => cases made
        | curDir => cases made
        | parentDir => cases made
        | normal other =>
          cases made
          rw [shape] at listed
          exact plain _ ((List.mem_append.mp listed).resolve_left (fronts _))
      · split at atEnd <;> simp at atEnd

theorem canonicalize_ok {d : Disk} {p c : PathBuf} (ran : canonicalize d p = .ok c) :
    ∃ loc, c = absolute loc ∧ lookup d true p = .ok (.found loc) := by
  unfold canonicalize at ran
  unfold lookup
  cases way : route p with
  | none => simp [way] at ran
  | some r =>
    simp only [way] at ran ⊢
    cases leads : d.resolve true r with
    | error e => simp [leads] at ran
    | ok place =>
      cases place with
      | vacant loc => simp [leads] at ran
      | found loc =>
        simp only [leads] at ran
        cases ran
        exact ⟨loc, rfl, rfl⟩

theorem canonicalize_found {d : Disk} {p : PathBuf} {loc : Loc Text}
    (leads : lookup d true p = .ok (.found loc)) : canonicalize d p = .ok (absolute loc) := by
  unfold lookup at leads
  unfold canonicalize
  cases way : route p with
  | none => simp [way] at leads
  | some r =>
    simp only [way] at leads ⊢
    rw [leads]

/-- The canonical path of a directory. -/
theorem canonicalize_opens {d : Disk} {p : PathBuf} {loc : Loc Text} (sound : d.Sound)
    (filled : p.text ≠ []) (opens : Opens d p loc) : canonicalize d p = .ok (absolute loc) :=
  canonicalize_found ((opens_iff sound filled).mp opens).1

/-- **Canonical directories.** A canonical path that is a directory is reached
through directories, and is the path of the location it was found at. -/
theorem canonical_dir {d : Disk} {p c : PathBuf} (sound : d.Sound) (spelled : Spelled d)
    (ran : canonicalize d p = .ok c) (there : isDir d c = true) :
    ∃ loc, c = absolute loc ∧ (∀ name ∈ loc, PlainName name) ∧ Grounded d.tree loc := by
  obtain ⟨loc, rfl, leads⟩ := canonicalize_ok ran
  have plain : ∀ name ∈ loc, PlainName name := lookup_plain spelled leads
  refine ⟨loc, rfl, plain, ?_⟩
  obtain ⟨dir, opens⟩ := (isDir_iff sound (absolute_text loc)).mp there
  have filled : p.text ≠ [] := by
    intro empty
    rw [lookup, route, if_pos empty] at leads
    cases leads
  rw [lookup_eq filled] at leads
  rcases walk_lands (grounded_base sound p) leads with ground | ⟨above, name, rfl, ground, isFile⟩
  · exact ground
  · obtain ⟨content, isFile⟩ := isFile.resolve_right (by simp)
    have holds : LeadsTo d.tree [] (above.map .into) above :=
      ⟨@walk_down _ _ _ _ maxLinks [] _ ground, ground.entry⟩
    rw [Opens, base, (components_absolute plain).2, hops_absolute plain, List.map_append] at opens
    have ends := @walk_into _ _ _ true _ _ _ name (grounded_root d.tree) holds
      (by simp [isFile])
    have same := ends.symm.trans opens.1
    rw [placeAt, if_neg (by simp [isFile])] at same
    cases same
    exact absurd (isFile.symm.trans opens.2) (by simp)

end Devit.FileSystem
