import Devit.Library.Splices
import Devit.PatchCorrectness

/-! Hunks are made in the reverse of their order, each at the line of the file it names. In
the order of the file that is where its lines still stand. In another order it is where they
stand only if the hunks made before it, nearer to the top, leave as many lines as they take. -/
namespace Devit
open Text

namespace HunkOrders
open AtomicPatcher HunkSplicing PatchCorrectness Splices

/-- The first line behind those that a hunk expects. -/
def stop (hunk : PatchHunk) : Nat := startIdx hunk + (oldSide hunk.lines).length

/-- What a hunk does to the lines of the file. -/
def edit (hunk : PatchHunk) : Edit Text := ⟨startIdx hunk, stop hunk, newSide hunk.lines⟩

/-- Every context and removed line of a hunk is the line of the file that its header and its
offset name. -/
structure Stands (original : List Text) (hunk : PatchHunk) : Prop where
  inside : stop hunk ≤ original.length
  same : ∀ k line, (oldSide hunk.lines)[k]? = some line → original[startIdx hunk + k]? = some line

/-- The hunks come in the order of the file and do not overlap. -/
def InOrder (hunks : List PatchHunk) : Prop := hunks.Pairwise fun h g => stop h ≤ startIdx g

/-- The lines with the range of each hunk replaced by the lines it leaves. -/
def spliced (hunks : List PatchHunk) (original : List Text) : List Text :=
  perform (hunks.map edit) 0 original

/-- No two hunks overlap, and those that come before a hunk in the file and behind it in the
list leave as many lines as they take. -/
def InPlace : List PatchHunk → Prop
  | [] => True
  | h :: hs => (∀ g ∈ hs, stop h ≤ startIdx g ∨ stop g ≤ startIdx h) ∧
      Balanced ((hs.filter fun g => ¬ stop h ≤ startIdx g).map edit) ∧ InPlace hs

/-- The hunks in the order of the file. -/
def arrange : List PatchHunk → List PatchHunk
  | [] => []
  | h :: hs => (arrange hs).filter (fun g => ¬ stop h ≤ startIdx g) ++
      h :: (arrange hs).filter fun g => stop h ≤ startIdx g

variable {hunk : PatchHunk} {hunks : List PatchHunk} {original lines out : List Text}

/-! ## One hunk -/

theorem start_le_stop (hunk : PatchHunk) : startIdx hunk ≤ stop hunk := Nat.le_add_right ..

theorem same_iff_prefix : (∀ k line, (oldSide hunk.lines)[k]? = some line →
    original[startIdx hunk + k]? = some line) ↔
      oldSide hunk.lines <+: original.drop (startIdx hunk) := by
  rw [List.prefix_iff_getElem?]
  constructor
  · intro same k bound
    rw [List.getElem?_drop]
    exact same k _ (List.getElem?_eq_getElem bound)
  · intro ahead k line found
    obtain ⟨bound, rfl⟩ := List.getElem?_eq_some_iff.mp found
    rw [← List.getElem?_drop]
    exact ahead k bound

/-- A hunk stands where its range holds what it expects. -/
theorem stands_iff : Stands original hunk ↔ stop hunk ≤ original.length ∧
    (original.drop (startIdx hunk)).take (oldSide hunk.lines).length = oldSide hunk.lines := by
  rw [eq_comm, ← List.prefix_iff_eq_take, ← same_iff_prefix]
  exact ⟨fun stands => ⟨stands.inside, stands.same⟩, fun stands => ⟨stands.1, stands.2⟩⟩

theorem applyHunkToLines_iff : applyHunkToLines lines hunk = .ok out ↔
    Stands lines hunk ∧ out = splice lines (edit hunk) := by
  rw [applyHunkToLines_ok_iff, ← same_iff_prefix, ← and_assoc, List.append_assoc]
  exact and_congr_left' ⟨fun stands => ⟨stands.1, stands.2⟩, fun stands =>
    ⟨stands.inside, stands.same⟩⟩

theorem Stands.ranges (stands : ∀ h ∈ hunks, Stands original h) :
    Ranges (hunks.map edit) original.length := by
  intro e member
  obtain ⟨h, listed, rfl⟩ := List.mem_map.mp member
  exact ⟨start_le_stop h, (stands h listed).inside⟩

/-! ## The order of the file -/

theorem InOrder.ascending (ordered : InOrder hunks) : Ascending (hunks.map edit) :=
  List.pairwise_map.mpr ordered

theorem filter_split {α : Type} {p : α → Prop} [DecidablePred p] {l : List α}
    (kept : l.Pairwise fun a b => p a → p b) :
    l.filter (fun a => ¬ p a) ++ l.filter (fun a => p a) = l := by
  induction l with
  | nil => rfl
  | cons a l ih =>
    obtain ⟨first, later⟩ := List.pairwise_cons.mp kept
    by_cases holds : p a
    · have all : ∀ b ∈ l, p b := fun b member => first b member holds
      have every : l.filter (fun b => p b) = l :=
        List.filter_eq_self.mpr fun b member => decide_eq_true (all b member)
      simpa [holds, every] using all
    · simpa [holds] using ih later

theorem arrange_perm (hunks : List PatchHunk) : (arrange hunks).Perm hunks := by
  induction hunks with
  | nil => exact .refl _
  | cons h hs ih =>
    have split := List.filter_append_perm (fun g => decide (stop h ≤ startIdx g)) (arrange hs)
    have turned : ((arrange hs).filter (fun g => ¬ stop h ≤ startIdx g) ++
        (arrange hs).filter fun g => stop h ≤ startIdx g).Perm (arrange hs) := by
      refine List.perm_append_comm.trans ?_
      simpa only [decide_not] using split
    exact List.perm_middle.trans ((turned.trans ih).cons h)

/-- What is in place can be put in the order of the file. -/
theorem InPlace.arranged (inPlace : InPlace hunks) : InOrder (arrange hunks) := by
  induction hunks with
  | nil => exact List.Pairwise.nil
  | cons h hs ih =>
    obtain ⟨apart, -, later⟩ := inPlace
    have ordered := ih later
    have member {g : PatchHunk} (listed : g ∈ arrange hs) : g ∈ hs :=
      (arrange_perm hs).mem_iff.mp listed
    have before {g : PatchHunk} (listed : g ∈ arrange hs) (early : ¬ stop h ≤ startIdx g) :
        stop g ≤ startIdx h := (apart g (member listed)).resolve_left early
    refine List.pairwise_append.mpr ⟨ordered.filter _, List.pairwise_cons.mpr
      ⟨fun g listed => ?_, ordered.filter _⟩, fun g listed f rest => ?_⟩
    · simpa using (List.mem_filter.mp listed).2
    · obtain ⟨listed, early⟩ := List.mem_filter.mp listed
      have ends := before listed (by simpa using early)
      rcases List.mem_cons.mp rest with rfl | rest
      · exact ends
      · have late : stop h ≤ startIdx f := by simpa using (List.mem_filter.mp rest).2
        exact ends.trans ((start_le_stop h).trans late)

theorem InOrder.split (ordered : InOrder hunks) (h : PatchHunk) :
    hunks.filter (fun g => ¬ stop h ≤ startIdx g) ++ hunks.filter (fun g => stop h ≤ startIdx g) =
      hunks :=
  filter_split (ordered.imp fun {a _} ends late => late.trans ((start_le_stop a).trans ends))

theorem InOrder.inPlace (ordered : InOrder hunks) : InPlace hunks ∧ arrange hunks = hunks := by
  induction hunks with
  | nil => exact ⟨trivial, rfl⟩
  | cons h hs ih =>
    obtain ⟨first, later⟩ := List.pairwise_cons.mp ordered
    obtain ⟨inPlace, same⟩ := ih later
    have none : hs.filter (fun g => ¬ stop h ≤ startIdx g) = [] :=
      List.filter_eq_nil_iff.mpr fun g member => by simpa using first g member
    have every : hs.filter (fun g => stop h ≤ startIdx g) = hs :=
      List.filter_eq_self.mpr fun g member => decide_eq_true (first g member)
    refine ⟨⟨fun g member => .inl (first g member), ?_, inPlace⟩, ?_⟩
    · rw [none]
      rfl
    · rw [arrange, same, none, every]
      rfl

/-- Another hunk comes between those of the others that end before it and those that begin
behind it. -/
theorem InPlace.between (inPlace : InPlace hunks)
    (apart : ∀ g ∈ hunks, stop hunk ≤ startIdx g ∨ stop g ≤ startIdx hunk) :
    ∃ before after, arrange hunks = before ++ after ∧
      arrange (hunk :: hunks) = before ++ hunk :: after ∧
      (∀ b ∈ before, stop b ≤ startIdx hunk) ∧ (∀ a ∈ after, stop hunk ≤ startIdx a) ∧
      (Balanced (before.map edit) ↔
        Balanced ((hunks.filter fun g => ¬ stop hunk ≤ startIdx g).map edit)) := by
  refine ⟨_, _, (inPlace.arranged.split hunk).symm, rfl, fun b member => ?_, fun a member => ?_,
    balanced_perm (((arrange_perm hunks).filter _).map edit)⟩
  · obtain ⟨listed, early⟩ := List.mem_filter.mp member
    exact (apart b ((arrange_perm hunks).mem_iff.mp listed)).resolve_left (by simpa using early)
  · simpa using (List.mem_filter.mp member).2

/-! ## All hunks -/

/-- A hunk between others that are in place finds the lines of the file. -/
theorem stands_between {before after : List PatchHunk} (ordered : InOrder (before ++ after))
    (stands : ∀ g ∈ before ++ after, Stands original g)
    (ended : ∀ b ∈ before, stop b ≤ startIdx hunk)
    (later : ∀ a ∈ after, stop hunk ≤ startIdx a) (balanced : Balanced (before.map edit)) :
    Stands (spliced (before ++ after) original) hunk ↔ Stands original hunk := by
  have ascending := ordered.ascending
  have ranges := Stands.ranges stands
  have ended' : ∀ e ∈ before.map edit, e.hi ≤ (edit hunk).lo := List.forall_mem_map.mpr ended
  have later' : ∀ e ∈ after.map edit, (edit hunk).hi ≤ e.lo := List.forall_mem_map.mpr later
  rw [List.map_append] at ascending ranges
  have width : (edit hunk).hi - (edit hunk).lo = (oldSide hunk.lines).length :=
    Nat.add_sub_cancel_left ..
  have reach := inside_between ascending ranges (start_le_stop hunk) ended' later' balanced
  have kept := kept_between ascending ranges (start_le_stop hunk) ended' later' balanced
  rw [width] at kept
  rw [spliced, List.map_append, stands_iff, stands_iff]
  constructor
  · rintro ⟨inside, same⟩
    exact ⟨reach.mp inside, (kept (reach.mp inside)).symm.trans same⟩
  · rintro ⟨inside, same⟩
    exact ⟨reach.mpr inside, (kept inside).trans same⟩

/-- **Hunks in place.** They are accepted exactly if all stand in the file, and each is made
there. -/
theorem applyHunks_iff (inPlace : InPlace hunks) : applyHunks hunks original = .ok out ↔
    (∀ h ∈ hunks, Stands original h) ∧ out = spliced (arrange hunks) original := by
  induction hunks generalizing out with
  | nil =>
    have nothing : spliced (arrange []) original = original := perform_nil 0 original
    rw [nothing]
    exact ⟨fun ran => ⟨List.forall_mem_nil _, (Except.ok.inj ran).symm⟩, fun made =>
      congrArg Except.ok made.2.symm⟩
  | cons h hs ih =>
    obtain ⟨apart, balanced, later⟩ := inPlace
    have ordered := later.arranged
    obtain ⟨before, after, split, whole, ended, behind, even⟩ := later.between apart
    have even := even.mpr balanced
    have listed {g : PatchHunk} : g ∈ before ++ after ↔ g ∈ hs := by
      rw [← split]
      exact (arrange_perm hs).mem_iff
    rw [split] at ordered
    have step (stands : ∀ g ∈ hs, Stands original g) :
        applyHunkToLines (spliced (arrange hs) original) h = .ok out ↔
          Stands original h ∧ out = spliced (arrange (h :: hs)) original := by
      have stands' : ∀ g ∈ before ++ after, Stands original g := fun g member =>
        stands g (listed.mp member)
      have ranges := Stands.ranges stands'
      have ascending := ordered.ascending
      rw [List.map_append] at ranges ascending
      rw [applyHunkToLines_iff, split, stands_between ordered stands' ended behind even]
      refine and_congr_right fun there => ?_
      have made := splice_between (e := edit h) ascending ranges (start_le_stop h)
        (List.forall_mem_map.mpr ended) (List.forall_mem_map.mpr behind) even there.inside
      rw [whole, spliced, spliced, List.map_append, made, List.map_append, List.map_cons]
    constructor
    · intro ran
      obtain ⟨mid, first, last⟩ := applyHunks_cons_ok ran
      obtain ⟨stands, rfl⟩ := (ih later).mp first
      obtain ⟨own, made⟩ := (step stands).mp last
      exact ⟨List.forall_mem_cons.mpr ⟨own, stands⟩, made⟩
    · rintro ⟨stands, made⟩
      obtain ⟨own, stands⟩ := List.forall_mem_cons.mp stands
      rw [applyHunks, (ih later).mpr ⟨stands, rfl⟩]
      exact (step stands).mpr ⟨own, made⟩

/-! ## In the order of the file -/

/-- A line that stands is within the file. -/
theorem stands_of_same (filled : oldSide hunk.lines ≠ [])
    (same : ∀ k line, (oldSide hunk.lines)[k]? = some line →
      original[startIdx hunk + k]? = some line) : Stands original hunk := by
  refine ⟨?_, same⟩
  have some_lines := List.length_pos_iff.mpr filled
  have last := same _ _ (List.getElem?_eq_getElem (Nat.sub_one_lt some_lines.ne'))
  obtain ⟨bound, -⟩ := List.getElem?_eq_some_iff.mp last
  unfold stop
  omega

theorem startIdx_eq (hunk : PatchHunk) : startIdx hunk = hunk.oldStart - 1 := by
  unfold startIdx
  split <;> omega

/-- **Ordered hunks.** Hunks in the order of the file that do not overlap, with a context or
removed line each, are accepted exactly if all those lines are the lines of the file they are
numbered by. The lines that are written are then those of the file with each hunk's range
replaced. -/
theorem ordered_hunks_iff (trailingNewline : Bool)
    (ascending : hunks.Pairwise fun h g =>
      h.oldStart - 1 + (oldSide h.lines).length ≤ g.oldStart - 1)
    (filled : ∀ h ∈ hunks, oldSide h.lines ≠ []) :
    ((∃ text, buildNewContent hunks original trailingNewline = .ok text) ↔
      ∀ h ∈ hunks, ∀ k line, (oldSide h.lines)[k]? = some line →
        original[h.oldStart - 1 + k]? = some line) ∧
    ∀ text, buildNewContent hunks original trailingNewline = .ok text →
      text = writtenText trailingNewline (spliced hunks original) := by
  have ordered : InOrder hunks := by
    refine ascending.imp fun {h g} ends => ?_
    rw [stop, startIdx_eq, startIdx_eq]
    exact ends
  obtain ⟨inPlace, same⟩ := ordered.inPlace
  have accepted := fun out => @applyHunks_iff hunks original out inPlace
  rw [same] at accepted
  refine ⟨⟨?_, fun stands => ?_⟩, fun text built => ?_⟩
  · rintro ⟨text, built⟩ h member k line found
    obtain ⟨out, ran, -⟩ := buildNewContent_ok_iff.mp built
    rw [← startIdx_eq]
    exact (((accepted out).mp ran).1 h member).same k line found
  · have all : ∀ h ∈ hunks, Stands original h := by
      intro h member
      refine stands_of_same (filled h member) fun k line found => ?_
      rw [startIdx_eq]
      exact stands h member k line found
    exact ⟨_, buildNewContent_ok_iff.mpr ⟨_, (accepted _).mpr ⟨all, rfl⟩, rfl⟩⟩
  · obtain ⟨out, ran, rfl⟩ := buildNewContent_ok_iff.mp built
    rw [((accepted out).mp ran).2]

/-- Two hunks for a file of five lines. -/
def twoHunks : List PatchHunk :=
  [⟨1, 1, 1, 2, [.remove "a".toList, .add "x".toList, .add "y".toList], false⟩,
    ⟨4, 2, 5, 1, [.context "d".toList, .remove "e".toList], false⟩]

theorem twoHunks_spliced :
    (∃ text, buildNewContent twoHunks
      ["a".toList, "b".toList, "c".toList, "d".toList, "e".toList] true = .ok text) ∧
    spliced twoHunks ["a".toList, "b".toList, "c".toList, "d".toList, "e".toList] =
      ["x".toList, "y".toList, "b".toList, "c".toList, "d".toList] := by
  refine ⟨(ordered_hunks_iff true (by decide) (by decide)).1.mpr fun h member => ?_, by decide⟩
  rw [← startIdx_eq, same_iff_prefix]
  revert h
  decide

end HunkOrders

end Devit
