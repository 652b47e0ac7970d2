import Mathlib.Data.List.Infix
import Devit.Library.FileSystem
import Devit.Library.Footprint

/-! Making a directory with all that is missing above it. The call only adds
directories at free names, and none exactly when the directory is there. It goes
up from the directory wanted until a name is found, and does what making sure of
each directory from the top does. -/
namespace Devit.FileSystem
open Files Path

/-- A disk after directories were made at free names. -/
inductive Widened : Disk → Disk → Prop where
  | refl (d : Disk) : Widened d d
  | make {d d' : Disk} {loc : Loc Text} (before : Widened d d') (free : entry d'.tree loc = none) :
      Widened d (d'.put loc (some .dir))

theorem Widened.trans {a b c : Disk} (first : Widened a b) (second : Widened b c) :
    Widened a c := by
  induction second with
  | refl => exact first
  | make before free ih => exact .make ih free

theorem Widened.later {d d' : Disk} (widened : Widened d d') : Later d d' := by
  induction widened with
  | refl => exact Later.refl d
  | make before free ih => exact ih.trans (Later.put _ (by rw [free]; exact nofun))

theorem ne_root_of_free {t : Tree Text Content} {loc : Loc Text} (free : entry t loc = none) :
    loc ≠ [] := by
  rintro rfl
  cases free

/-- What stands at a location stays, or a directory was made there. -/
theorem Widened.entry {d d' : Disk} (widened : Widened d d') (loc : Loc Text) :
    Files.entry d'.tree loc = Files.entry d.tree loc ∨
      Files.entry d.tree loc = none ∧ Files.entry d'.tree loc = some .dir := by
  induction widened with
  | refl => exact .inl rfl
  | @make d' made before free ih =>
    by_cases same : loc = made
    · subst same
      refine .inr ⟨?_, entry_put_self _ (ne_root_of_free free)⟩
      rcases ih with kept | ⟨-, isDir⟩
      · rw [← kept, free]
      · rw [free] at isDir
        cases isDir
    · rw [Disk.put, entry_put_other _ same]
      exact ih

/-- Nothing was made, or a directory is where there was nothing. -/
theorem Widened.unchanged_or_made {d d' : Disk} (widened : Widened d d') :
    d' = d ∨ ∃ loc, Files.entry d.tree loc = none ∧ Files.entry d'.tree loc = some .dir := by
  cases widened with
  | refl => exact .inl rfl
  | @make d' made before free =>
    have now : Files.entry (d'.put made (some .dir)).tree made = some .dir :=
      entry_put_self _ (ne_root_of_free free)
    rcases (Widened.make before free).entry made with kept | made
    · rcases before.entry made with same | ⟨-, isDir⟩
      · rw [kept, ← same, free] at now
        cases now
      · rw [free] at isDir
        cases isDir
    · exact .inr ⟨_, made⟩

theorem lookup_vacant {d : Disk} {follow : Bool} {p : PathBuf} {loc : Loc Text} (sound : d.Sound)
    (leads : lookup d follow p = .ok (.vacant loc)) : entry d.tree loc = none := by
  unfold lookup at leads
  cases spelled : route p with
  | none => simp [spelled] at leads
  | some r => exact resolve_vacant sound (by simpa [spelled] using leads)

theorem mkdir_at_widens {q : PathBuf} {d : Disk} (sound : d.Sound) :
    Widened d (atPath q mkdir d).2 := by
  rcases mkdir_at_cases q d with ⟨e, failed⟩ | ⟨loc, leads, made⟩
  · rw [failed]
    exact .refl d
  · rw [made]
    exact .make (.refl d) (lookup_vacant sound leads)

theorem ensureDir_widens {q : PathBuf} {d : Disk} (sound : d.Sound) :
    Widened d (ensureDir q d).2 := by
  have made : Widened d (atPath q mkdir d).2 := mkdir_at_widens sound
  unfold ensureDir
  cases ran : atPath q mkdir d with
  | mk outcome d' =>
    rw [ran] at made
    cases outcome with
    | ok _ => exact made
    | error e =>
      dsimp only
      split <;> exact made

theorem createDirAllWithin_widens {fuel : Nat} {q : PathBuf} {d : Disk} (sound : d.Sound) :
    Widened d (createDirAllWithin fuel q d).2 := by
  induction fuel generalizing q d with
  | zero => exact .refl d
  | succ fuel ih =>
    have made : Widened d (atPath q mkdir d).2 := mkdir_at_widens sound
    rw [createDirAllWithin]
    dsimp only
    split
    · exact .refl d
    · cases ran : atPath q mkdir d with
      | mk outcome d' =>
        rw [ran] at made
        have soundMid : d'.Sound := made.later.sound sound
        cases outcome with
        | ok _ => exact made
        | error e =>
          dsimp only
          split
          · cases parent q with
            | none => exact made
            | some above =>
              have higher : Widened d' (createDirAllWithin fuel above d').2 := ih soundMid
              dsimp only
              rw [Action.bind_apply]
              cases first : createDirAllWithin fuel above d' with
              | mk outcome mid =>
                rw [first] at higher
                cases outcome with
                | error e => exact made.trans higher
                | ok _ =>
                  exact (made.trans higher).trans
                    (ensureDir_widens (higher.later.sound soundMid))
          · split <;> exact made

/-! ## When nothing is made -/

theorem lookup_nofollow {d : Disk} {p : PathBuf} {loc : Loc Text}
    (leads : lookup d true p = .ok (.found loc)) : ∃ there, lookup d false p = .ok (.found there) := by
  unfold lookup at leads ⊢
  cases spelled : route p with
  | none => simp [spelled] at leads
  | some r =>
    simp only [spelled] at leads ⊢
    obtain ⟨other, ends, rfl | ⟨there, target, rfl, -⟩⟩ := walk_nofollow leads
    · exact ⟨loc, ends⟩
    · exact ⟨there, ends⟩

theorem filled_of_isDir {d : Disk} {q : PathBuf} (there : isDir d q = true) : q.text ≠ [] := by
  intro empty
  rw [isDir, stat, route, if_pos empty] at there
  cases there

theorem mkdir_at_dir {d : Disk} {q : PathBuf} (sound : d.Sound) (there : isDir d q = true) :
    atPath q mkdir d = (.error .alreadyExists, d) := by
  obtain ⟨dir, opens⟩ := (isDir_iff sound (filled_of_isDir there)).mp there
  obtain ⟨loc, found⟩ := lookup_nofollow ((opens_iff sound (filled_of_isDir there)).mp opens).1
  unfold lookup at found
  unfold atPath
  cases spelled : route q with
  | none => simp [spelled] at found
  | some r =>
    simp only [spelled] at found
    simp only [mkdir, found]

/-- A directory that is there is left as it is. -/
theorem createDirAll_there {d : Disk} {q : PathBuf} (sound : d.Sound) (there : isDir d q = true) :
    createDirAll q d = (.ok (), d) := by
  rw [createDirAll, createDirAllWithin]
  simp only [filled_of_isDir there, ↓reduceIte, mkdir_at_dir sound there, reduceCtorEq, there]

/-- A call that made nothing and succeeded found the directory. -/
theorem isDir_of_createDirAll {d : Disk} {q : PathBuf} (sound : d.Sound)
    (ran : createDirAll q d = (.ok (), d)) : q.text = [] ∨ isDir d q = true := by
  by_cases empty : q.text = []
  · exact .inl empty
  · right
    rw [createDirAll, createDirAllWithin] at ran
    simp only [empty, ↓reduceIte] at ran
    rcases mkdir_at_cases q d with ⟨e, failed⟩ | ⟨loc, leads, made⟩
    · simp only [failed] at ran
      split at ran
      · cases above : parent q with
        | none => simp [above] at ran
        | some higher =>
          simp only [above] at ran
          obtain ⟨_, mid, first, last⟩ := Action.bind_eq_ok ran
          have widened : Widened d mid := by
            have all : Widened d (createDirAllWithin (components q).length higher d).2 :=
              createDirAllWithin_widens sound
            rwa [first] at all
          have soundMid := widened.later.sound sound
          unfold ensureDir at last
          rcases mkdir_at_cases q mid with ⟨e', failed⟩ | ⟨loc, leads, made⟩
          · simp only [failed] at last
            split at last
            · rename_i there
              cases last
              exact there
            · cases last
          · simp only [made, Prod.mk.injEq, true_and] at last
            have free := lookup_vacant soundMid leads
            have now : entry (mid.put loc (some .dir)).tree loc = some .dir :=
              entry_put_self _ (ne_root_of_free free)
            rw [last] at now
            rw [widened.later.dirs loc now] at free
            cases free
      · split at ran
        · rename_i there
          exact there
        · cases ran
    · simp only [made, Prod.mk.injEq, true_and] at ran
      have free := lookup_vacant sound leads
      have now : entry (d.put loc (some .dir)).tree loc = some .dir :=
        entry_put_self _ (ne_root_of_free free)
      rw [ran, free] at now
      cases now

/-! ## What is touched -/

theorem grows_atPath {α : Type} {call : Route Text → Action Errno Disk α}
    (inner : ∀ r, Grows (call r)) (p : PathBuf) : Grows (atPath p call) := by
  unfold atPath
  split
  · exact grows_fail _
  · exact inner _

theorem grows_renameFile (old new : PathBuf) : Grows (renameFile old new) :=
  grows_atPath (fun source => grows_atPath (fun target => grows_rename source target) new) old

theorem grows_ensureDir (q : PathBuf) : Grows (ensureDir q) := by
  intro d
  have early : Grew d (atPath q mkdir d).2 := grows_atPath grows_mkdir q d
  unfold ensureDir
  split
  · rename_i ran
    rw [ran] at early
    exact early
  · rename_i ran
    rw [ran] at early
    split <;> exact early

/-! ## From the top down

The call starts at the directory wanted and goes up while a name is missing. What
it does is to make sure of each directory on the way, from the top. -/

/-- A path and all that is above it, from the top. -/
def upTo (q : PathBuf) : List PathBuf :=
  (components q).dropLast.inits.tail.map ofComponents ++ [q]

/-- `mkdir -p`. -/
def makeEach (q : PathBuf) : Action Errno Disk Unit :=
  if q.text = [] then pure () else Action.forEach (fun _ here => ensureDir here) () (upTo q)

theorem parent_none {q : PathBuf} (top : parent q = none) : (components q).dropLast = [] := by
  obtain ⟨front, rest, shape, plain, first⟩ := components_shape q
  rcases List.eq_nil_or_concat rest with rfl | ⟨init, last, rfl⟩
  · rw [shape, List.append_nil]
    rcases first with ⟨rfl, -⟩ | ⟨rfl | rfl, -⟩ <;> rfl
  · rw [List.concat_eq_append] at shape plain
    have clean := plain last (by simp)
    rw [parent, shape, ← List.append_assoc, List.getLast?_concat] at top
    cases last with
    | rootDir => cases clean
    | curDir => cases clean
    | parentDir => cases top
    | normal name => cases top

theorem parent_some {q above : PathBuf} (higher : parent q = some above) :
    above = ofComponents (components q).dropLast := by
  unfold parent at higher
  split at higher
  · cases higher
  · cases higher
  · exact (Option.some.inj higher).symm

/-- A path with components has a spelling, and one without has none. -/
theorem ofComponents_text {q : PathBuf} {init more : List Component}
    (shape : components q = init ++ more) : (ofComponents init).text = [] ↔ init = [] := by
  constructor
  · intro empty
    by_contra filled
    obtain ⟨spelled, -, -⟩ := components_start shape filled
    obtain ⟨front, last, ends⟩ := List.eq_nil_or_concat init |>.resolve_left filled
    rw [List.concat_eq_append] at ends
    exact text_ne_nil (spelled.trans ends) empty
  · rintro rfl
    rfl

private theorem inits_concat (init : List Component) (last : Component) :
    (init ++ [last]).inits.tail = init.inits.tail ++ [init ++ [last]] := by
  rw [List.inits_append]
  cases init <;> simp

/-- The way to a path is the way to its parent and the path itself. -/
theorem upTo_parent {q above : PathBuf} (higher : parent q = some above) :
    upTo q = (if above.text = [] then [] else upTo above) ++ [q] := by
  have spelled := parent_some higher
  have cut : components q = (components q).dropLast ++ (components q).drop
      ((components q).length - 1) := by
    rw [List.dropLast_eq_take, List.take_append_drop]
  rw [upTo]
  congr 1
  rcases List.eq_nil_or_concat (components q).dropLast with none | ⟨init, last, shape⟩
  · rw [none] at spelled ⊢
    subst spelled
    rfl
  · rw [List.concat_eq_append] at shape
    rw [shape] at spelled cut
    obtain ⟨inside, -, -⟩ := components_start cut (by simp)
    have some : above.text ≠ [] := by
      rw [spelled]
      exact fun empty => by simpa using (ofComponents_text cut).mp empty
    rw [if_neg some, upTo, shape, spelled, inside, inits_concat, List.dropLast_concat,
      List.map_append]
    rfl

theorem makeEach_parent {q above : PathBuf} (higher : parent q = some above) (filled : q.text ≠ []) :
    makeEach q = makeEach above >>= fun _ => ensureDir q := by
  have once : (fun (_ : Unit) => Action.forEach (fun _ here => ensureDir here) () [q]) =
      fun _ => ensureDir q := by
    funext _ d
    rw [Action.forEach_cons, Action.bind_apply]
    cases ensureDir q d with
    | mk outcome d' => cases outcome <;> rfl
  rw [makeEach, if_neg filled, upTo_parent higher, Action.forEach_append, once, makeEach]
  congr 1
  split <;> rfl

theorem mem_above {comps : List Component} {here : PathBuf}
    (member : here ∈ comps.dropLast.inits.tail.map ofComponents) :
    ∃ init more, comps = init ++ more ∧ init ≠ [] ∧ more ≠ [] ∧ here = ofComponents init := by
  obtain ⟨init, listed, rfl⟩ := List.mem_map.mp member
  have le : init <+: comps.dropLast := (List.mem_inits _ _).mp (List.mem_of_mem_tail listed)
  have filled : init ≠ [] := by
    rintro rfl
    cases below : comps.dropLast with
    | nil => simp [below] at listed
    | cons c cs => simp [below] at listed
  obtain ⟨more, split⟩ := le
  have some : comps ≠ [] := by
    rintro rfl
    exact filled (List.append_eq_nil_iff.mp split).1
  refine ⟨init, more ++ [comps.getLast some], ?_, filled, by simp, rfl⟩
  rw [← List.append_assoc, split, List.dropLast_append_getLast]

theorem hops_append (xs ys : List Component) : hops (xs ++ ys) = hops xs ++ hops ys :=
  List.filterMap_append

theorem hops_plain {comps : List Component} (plain : ∀ c ∈ comps, c.Plain) (filled : comps ≠ []) :
    hops comps ≠ [] := by
  cases comps with
  | nil => exact absurd rfl filled
  | cons c cs =>
    have clean := plain c List.mem_cons_self
    cases c with
    | rootDir => cases clean
    | curDir => cases clean
    | parentDir => simp [hops, hop]
    | normal name => simp [hops, hop]

theorem base_prefix {d : Disk} {q : PathBuf} {init more : List Component}
    (shape : components q = init ++ more) (filled : init ≠ []) :
    base d (ofComponents init) = base d q := by
  rw [base, base, (components_start shape filled).2.1]

/-- Everything above a place that routes lead to is a directory. -/
theorem isDir_above {d : Disk} {q : PathBuf} {init more : List Component} {ys : List (Hop Text)}
    {dir : Loc Text} (sound : d.Sound) (shape : components q = init ++ more) (filled : init ≠ [])
    (leads : LeadsTo d.tree (base d q) (hops init ++ ys) dir) :
    isDir d (ofComponents init) = true := by
  obtain ⟨mid, inside⟩ := leads.above (grounded_base sound q)
  have spelled := (ofComponents_text shape).not.mpr filled
  refine (isDir_iff sound spelled).mpr ⟨mid, ?_⟩
  rw [Opens, base_prefix shape filled, (components_start shape filled).1]
  exact inside

theorem ensureDir_there {d : Disk} {q : PathBuf} (sound : d.Sound) (there : isDir d q = true) :
    ensureDir q d = (.ok (), d) := by
  simp only [ensureDir, mkdir_at_dir sound there, there, ↓reduceIte]

theorem ensureDir_failed {d : Disk} {q : PathBuf} {e : Errno}
    (failed : atPath q mkdir d = (.error e, d)) (absent : isDir d q = false) :
    ensureDir q d = (.error e, d) := by
  simp only [ensureDir, failed, absent, Bool.false_eq_true, ↓reduceIte]

private theorem ensureAll_there {d : Disk} {ps : List PathBuf} (sound : d.Sound)
    (there : ∀ here ∈ ps, isDir d here = true) :
    Action.forEach (fun _ here => ensureDir here) () ps d = (.ok (), d) := by
  induction ps with
  | nil => rfl
  | cons here ps ih =>
    rw [Action.forEach_cons, Action.bind_of_ok (ensureDir_there sound (there here List.mem_cons_self))]
    exact ih fun other member => there other (List.mem_cons_of_mem _ member)

/-- Where no directory can be made and one is missing, nothing is changed. -/
private theorem ensureAll_blocked {d : Disk} {ps : List PathBuf} (sound : d.Sound)
    (none : ∀ here ∈ ps, ∃ e, atPath here mkdir d = (.error e, d))
    (missing : ∃ here ∈ ps, isDir d here = false) :
    ∃ e, Action.forEach (fun _ here => ensureDir here) () ps d = (.error e, d) := by
  induction ps with
  | nil => simp at missing
  | cons here ps ih =>
    rw [Action.forEach_cons]
    cases there : isDir d here with
    | true =>
      rw [Action.bind_of_ok (ensureDir_there sound there)]
      refine ih (fun other member => none other (List.mem_cons_of_mem _ member)) ?_
      obtain ⟨other, member, absent⟩ := missing
      rcases List.mem_cons.mp member with rfl | member
      · rw [there] at absent
        cases absent
      · exact ⟨other, member, absent⟩
    | false =>
      obtain ⟨e, failed⟩ := none here List.mem_cons_self
      exact ⟨e, Action.bind_of_error (ensureDir_failed failed there)⟩

/-- A missing name is looked up in the directory that is to hold it. -/
theorem holds_of_vacant {d : Disk} {q : PathBuf} {loc : Loc Text} (sound : d.Sound)
    (vacant : lookup d false q = .ok (.vacant loc)) :
    ∃ comps name dir, components q = comps ++ [.normal name] ∧ Holds d q dir ∧
      loc = dir ++ [name] := by
  have notDir : entry d.tree (Place.vacant loc).loc ≠ some .dir := by
    rw [Place.loc, lookup_vacant sound vacant]
    exact (Option.some_ne_none _).symm
  rcases fileName_cases q with unnamed | ⟨comps, name, ends⟩
  · exact absurd (lookup_unnamed sound unnamed vacant) notDir
  · obtain ⟨-, dir, holds, at_name⟩ := lookup_named sound ends vacant notDir
    refine ⟨comps, name, dir, ends, holds, ?_⟩
    have locs := congrArg Place.loc at_name
    rwa [placeAt_loc] at locs

/-- A path beyond a missing name is not found. -/
theorem mkdir_past_vacant {d : Disk} {q : PathBuf} {init more : List Component} {loc : Loc Text}
    (sound : d.Sound) (shape : components q = init ++ more) (filled : init ≠ []) (longer : more ≠ [])
    (vacant : lookup d false (ofComponents init) = .ok (.vacant loc)) :
    atPath q mkdir d = (.error .notFound, d) := by
  obtain ⟨inside, -, plain⟩ := components_start shape filled
  have free := lookup_vacant sound vacant
  obtain ⟨comps, name, dir, ends, holds, same⟩ := holds_of_vacant sound vacant
  have named : init = comps ++ [.normal name] := inside.symm.trans ends
  rw [Holds, ends, List.dropLast_concat, base_prefix shape filled] at holds
  have stops : (walk d.tree true maxLinks (base d q) (hops init)).result =
      .ok (.vacant loc) := by
    rw [named, hops_named, walk_into (grounded_base sound q) holds, ← same, placeAt, if_pos free]
    intro _ target
    rw [← same, free]
    exact (Option.some_ne_none _).symm
  obtain ⟨front, last, tail⟩ := List.eq_nil_or_concat more |>.resolve_left longer
  rw [List.concat_eq_append] at tail
  have spelled : q.text ≠ [] := text_ne_nil (shape.trans (by rw [tail, ← List.append_assoc]))
  have more_hops : hops more ++ (if asksDir q then [Hop.here] else []) ≠ [] := by
    simp [hops_plain plain longer]
  have lost : lookup d false q = .error .notFound := by
    rw [lookup_eq spelled, shape, hops_append, List.append_assoc]
    exact walk_past_vacant (grounded_base sound q) more_hops stops
  unfold lookup at lost
  unfold atPath
  cases way : route q with
  | none => rfl
  | some r =>
    simp only [way] at lost
    simp only [mkdir, lost]

theorem above_there {d : Disk} {q : PathBuf} {dir : Loc Text} (sound : d.Sound)
    (holds : Holds d q dir) :
    ∀ here ∈ (components q).dropLast.inits.tail.map ofComponents, isDir d here = true := by
  intro here member
  obtain ⟨init, more, shape, filled, longer, rfl⟩ := mem_above member
  rw [Holds, shape, List.dropLast_append_of_ne_nil longer, hops_append] at holds
  exact isDir_above sound shape filled holds

theorem holds_of_isDir {d : Disk} {q : PathBuf} (sound : d.Sound) (there : isDir d q = true) :
    ∃ dir, Holds d q dir := by
  obtain ⟨dir, opens⟩ := (isDir_iff sound (filled_of_isDir there)).mp there
  rcases List.eq_nil_or_concat (components q) with none | ⟨init, last, shape⟩
  · rw [Opens, none] at opens
    refine ⟨dir, ?_⟩
    rw [Holds, none]
    exact opens
  · rw [List.concat_eq_append] at shape
    rw [Opens, shape, hops_append] at opens
    obtain ⟨mid, above⟩ := opens.above (grounded_base sound q)
    refine ⟨mid, ?_⟩
    rw [Holds, shape, List.dropLast_concat]
    exact above

theorem parent_shorter {q above : PathBuf} (higher : parent q = some above) :
    (components above).length < (components q).length := by
  have spelled := parent_some higher
  have some : components q ≠ [] := by
    intro none
    rw [parent, none] at higher
    cases higher
  by_cases top : (components q).dropLast = []
  · rw [spelled, top]
    exact List.length_pos_iff.mpr some
  · have cut := (List.dropLast_append_getLast some).symm
    rw [spelled, (components_start cut top).1, List.length_dropLast]
    exact Nat.sub_lt (List.length_pos_iff.mpr some) Nat.one_pos

/-- **From the top down.** Making a directory with all that is missing above it makes sure of each
directory on the way from the top: the same is done, with the same success. -/
theorem createDirAllWithin_eq {fuel : Nat} {q : PathBuf} {d : Disk} (sound : d.Sound)
    (enough : (components q).length < fuel) :
    (createDirAllWithin fuel q d).2 = (makeEach q d).2 ∧
      ((createDirAllWithin fuel q d).1 = .ok () ↔ (makeEach q d).1 = .ok ()) := by
  induction fuel generalizing q d with
  | zero => exact absurd enough (Nat.not_lt_zero _)
  | succ fuel ih =>
    by_cases filled : q.text = []
    · simp [createDirAllWithin, makeEach, filled]
    · have listed : makeEach q d = Action.forEach (fun _ here => ensureDir here) () (upTo q) d := by
        rw [makeEach, if_neg filled]
      rw [createDirAllWithin]
      simp only [filled, ↓reduceIte]
      rcases mkdir_at_cases q d with ⟨e, failed⟩ | ⟨loc, leads, made⟩
      · simp only [failed]
        by_cases missing : e = .notFound
        · subst missing
          simp only [↓reduceIte]
          cases higher : parent q with
          | none =>
            have absent : isDir d q = false := by
              by_contra there
              rw [mkdir_at_dir sound (by simpa using there)] at failed
              cases failed
            rw [listed, upTo, parent_none higher]
            simp [Action.forEach_cons, Action.bind_apply, ensureDir_failed failed absent]
          | some above =>
            have shorter := Nat.lt_of_lt_of_le (parent_shorter higher) (Nat.le_of_lt_succ enough)
            obtain ⟨same, agree⟩ := ih sound shorter (q := above) (d := d)
            rw [makeEach_parent higher filled]
            simp only [Action.bind_apply]
            cases one : createDirAllWithin fuel above d with
            | mk outcome mid =>
              cases two : makeEach above d with
              | mk outcome' mid' =>
                rw [one, two] at same agree
                dsimp only at same agree
                subst same
                cases outcome with
                | ok _ =>
                  rw [agree.mp rfl]
                  exact ⟨rfl, Iff.rfl⟩
                | error e =>
                  cases outcome' with
                  | ok _ => cases agree.mpr rfl
                  | error e' => exact ⟨rfl, by simp⟩
        · rw [if_neg missing, listed]
          cases there : isDir d q with
          | true =>
            obtain ⟨dir, holds⟩ := holds_of_isDir sound there
            have all : ∀ here ∈ upTo q, isDir d here = true := by
              intro here member
              rcases List.mem_append.mp member with above | last
              · exact above_there sound holds here above
              · rw [List.mem_singleton.mp last]
                exact there
            rw [ensureAll_there sound all]
            exact ⟨rfl, Iff.rfl⟩
          | false =>
            have none : ∀ here ∈ upTo q, ∃ e, atPath here mkdir d = (.error e, d) := by
              intro here member
              rcases List.mem_append.mp member with above | last
              · obtain ⟨init, more, shape, some, longer, rfl⟩ := mem_above above
                rcases mkdir_at_cases (ofComponents init) d with other | ⟨loc, vacant, -⟩
                · exact other
                · rw [mkdir_past_vacant sound shape some longer vacant] at failed
                  cases failed
                  exact absurd rfl missing
              · rw [List.mem_singleton.mp last]
                exact ⟨e, failed⟩
            obtain ⟨e', stopped⟩ := ensureAll_blocked sound none ⟨q, by simp [upTo], there⟩
            rw [stopped]
            simp
      · obtain ⟨comps, name, dir, -, holds, -⟩ := holds_of_vacant sound leads
        rw [listed, upTo, Action.forEach_append,
          Action.bind_of_ok (ensureAll_there sound (above_there sound holds))]
        simp [Action.forEach_cons, Action.bind_apply, ensureDir, made]

theorem createDirAll_eq {q : PathBuf} {d : Disk} (sound : d.Sound) :
    (createDirAll q d).2 = (makeEach q d).2 ∧
      ((createDirAll q d).1 = .ok () ↔ (makeEach q d).1 = .ok ()) :=
  createDirAllWithin_eq sound (Nat.lt_succ_self _)

theorem grows_createDirAllWithin (fuel : Nat) (q : PathBuf) : Grows (createDirAllWithin fuel q) := by
  induction fuel generalizing q with
  | zero => exact grows_fail _
  | succ fuel ih =>
    intro d
    have early : Grew d (atPath q mkdir d).2 := grows_atPath grows_mkdir q d
    rw [createDirAllWithin]
    dsimp only
    split
    · exact .refl d
    · split
      · rename_i ran
        rw [ran] at early
        exact early
      · rename_i ran
        rw [ran] at early
        split
        · split
          · exact early
          · exact early.trans (grows_bind (ih _) (fun _ => grows_ensureDir q) _)
        · split <;> exact early

theorem grows_createDirAll (q : PathBuf) : Grows (createDirAll q) := grows_createDirAllWithin _ q

end Devit.FileSystem
