import Devit.HunkOrders

/-! What the patcher promises by accepting hunks in any order. If they are in place, they
stand in the file and are made there. If some hunk is not, there are texts of the same shape
that are accepted although the hunk matches lines that other hunks moved or wrote. -/
namespace Devit
open Text

namespace HunkAcceptance
open AtomicPatcher HunkSplicing PatchCorrectness Splices HunkOrders

/-- What is accepted stands in the file, and is made there range by range. -/
def Sound (original : List Text) (hunks : List PatchHunk) (trailingNewline : Bool) : Prop :=
  ∀ text, buildNewContent hunks original trailingNewline = .ok text →
    (∀ h ∈ hunks, Stands original h) ∧
    ∃ arranged, arranged.Perm hunks ∧ InOrder arranged ∧
      text = writtenText trailingNewline (spliced arranged original)

/-- Hunks at the same lines, with context, added and removed lines in the same places, whose
texts may be others. -/
def SameShape (hunks others : List PatchHunk) : Prop :=
  List.Forall₂ (fun h g => h.oldStart = g.oldStart ∧
    h.lines.map (fun line => (line.isOld, line.isNew)) =
      g.lines.map fun line => (line.isOld, line.isNew)) hunks others

variable {hunk : PatchHunk} {hunks others : List PatchHunk} {original out : List Text}

theorem sound_of_inPlace (inPlace : InPlace hunks) (trailingNewline : Bool) :
    Sound original hunks trailingNewline := by
  intro text built
  obtain ⟨out, ran, rfl⟩ := buildNewContent_ok_iff.mp built
  obtain ⟨stands, rfl⟩ := (applyHunks_iff inPlace).mp ran
  exact ⟨stands, arrange hunks, arrange_perm hunks, inPlace.arranged, rfl⟩

/-! ## Shapes -/

/-- Where a hunk begins and ends and how many lines it leaves. -/
def size (hunk : PatchHunk) : Nat × Nat × Nat :=
  (startIdx hunk, stop hunk, (newSide hunk.lines).length)

theorem oldSide_length (ls : List PatchLine) :
    (oldSide ls).length = (ls.map fun line => (line.isOld, line.isNew)).countP (·.1) := by
  rw [oldSide, List.length_map, List.countP_map, List.countP_eq_length_filter]
  rfl

theorem newSide_length (ls : List PatchLine) :
    (newSide ls).length = (ls.map fun line => (line.isOld, line.isNew)).countP (·.2) := by
  rw [newSide, List.length_map, List.countP_map, List.countP_eq_length_filter]
  rfl

theorem SameShape.size (shape : SameShape hunks others) : hunks.map size = others.map size := by
  induction shape with
  | nil => rfl
  | @cons h g hs gs same rest ih =>
    obtain ⟨start, kinds⟩ := same
    have begins : startIdx h = startIdx g := by rw [startIdx, startIdx, start]
    have sizes : HunkAcceptance.size h = HunkAcceptance.size g := by
      rw [HunkAcceptance.size, HunkAcceptance.size, stop, stop, begins, oldSide_length,
        oldSide_length, newSide_length, newSide_length, kinds]
    rw [List.map_cons, List.map_cons, sizes, ih]

theorem balanced_edits (hs : List PatchHunk) : Balanced (hs.map edit) ↔
    ((hs.map size).map (·.2.2)).sum = ((hs.map size).map fun s => s.2.1 - s.1).sum := by
  rw [Splices.Balanced, List.map_map, List.map_map, List.map_map, List.map_map]
  rfl

/-- Being in place is a matter of the sizes. -/
theorem inPlace_congr (same : hunks.map size = others.map size) :
    InPlace hunks ↔ InPlace others := by
  induction hunks generalizing others with
  | nil =>
    obtain rfl : others = [] := List.map_eq_nil_iff.mp same.symm
    exact Iff.rfl
  | cons h hs ih =>
    cases others with
    | nil => cases same
    | cons g gs =>
      obtain ⟨here, rest⟩ := List.cons.inj same
      have begins : startIdx h = startIdx g := congrArg (·.1) here
      have ends : stop h = stop g := congrArg (·.2.1) here
      have apart (ks : List PatchHunk) : (∀ k ∈ ks, stop h ≤ startIdx k ∨ stop k ≤ startIdx h) ↔
          ∀ s ∈ ks.map size, stop h ≤ s.1 ∨ s.2.1 ≤ startIdx h :=
        (List.forall_mem_map (f := size)
          (P := fun s => stop h ≤ s.1 ∨ s.2.1 ≤ startIdx h)).symm
      have early (ks : List PatchHunk) : (ks.filter fun k => ¬ stop h ≤ startIdx k).map size =
          (ks.map size).filter fun s => ¬ stop h ≤ s.1 :=
        (List.filter_map (f := size) (p := fun s => ¬ stop h ≤ s.1)).symm
      rw [InPlace, InPlace, ← begins, ← ends, apart, apart, balanced_edits, balanced_edits, early,
        early, rest, ih rest]

/-! ## Texts that are accepted -/

/-- A file whose lines all differ. -/
def fresh (n : Nat) : List Text := (List.range n).map (List.replicate · 'x')

theorem fresh_getElem {n k : Nat} {line : Text} : (fresh n)[k]? = some line ↔
    k < n ∧ line = List.replicate k 'x' := by
  unfold fresh
  rw [List.getElem?_map]
  by_cases bound : k < n
  · simp [bound, eq_comm]
  · simp [bound]

/-- All that is added is the same line, which is none of the file. -/
def Marked (hunk : PatchHunk) : Prop := ∀ line, .add line ∈ hunk.lines → line = ['+']

theorem fill_lines {ls : List PatchLine} {rest : List Text}
    (room : (oldSide ls).length ≤ rest.length) : ∃ filled : List PatchLine,
      ls.map (fun line => (line.isOld, line.isNew)) =
        filled.map (fun line => (line.isOld, line.isNew)) ∧
      oldSide filled <+: rest ∧ ∀ line, .add line ∈ filled → line = ['+'] := by
  induction ls generalizing rest with
  | nil => exact ⟨[], rfl, List.nil_prefix, nofun⟩
  | cons line ls ih =>
    have here {kind : Text → PatchLine}
        (old : ∀ text ls, oldSide (kind text :: ls) = text :: oldSide ls)
        (is_kind : ∃ text, line = kind text) (no_add : ∀ text other, kind text ≠ .add other)
        (same : ∀ text other, ((kind text).isOld, (kind text).isNew) =
          ((kind other).isOld, (kind other).isNew)) :
        ∃ filled : List PatchLine, (line :: ls).map (fun line => (line.isOld, line.isNew)) =
            filled.map (fun line => (line.isOld, line.isNew)) ∧
          oldSide filled <+: rest ∧ ∀ line, .add line ∈ filled → line = ['+'] := by
      obtain ⟨text, rfl⟩ := is_kind
      rw [old, List.length_cons] at room
      cases rest with
      | nil => simp at room
      | cons first rest =>
        obtain ⟨filled, kinds, ahead, marked⟩ := @ih rest (by simpa using room)
        refine ⟨kind first :: filled, ?_, ?_, fun added member => ?_⟩
        · rw [List.map_cons, List.map_cons, kinds, same]
        · rw [old]
          exact List.cons_prefix_cons.mpr ⟨rfl, ahead⟩
        · rcases List.mem_cons.mp member with is_first | member
          · exact absurd is_first.symm (no_add first added)
          · exact marked added member
    cases line with
    | context text => exact here oldSide_context ⟨text, rfl⟩ nofun fun _ _ => rfl
    | remove text => exact here oldSide_remove ⟨text, rfl⟩ nofun fun _ _ => rfl
    | add text =>
      obtain ⟨filled, kinds, ahead, marked⟩ := ih room
      refine ⟨.add ['+'] :: filled, ?_, ahead, fun added member => ?_⟩
      · rw [List.map_cons, List.map_cons, kinds]
        rfl
      · rcases List.mem_cons.mp member with is_first | member
        · exact PatchLine.add.inj is_first
        · exact marked added member

/-- A file that is long enough takes hunks of every shape. -/
theorem exists_accepted {n : Nat} (room : (hunks.map stop).sum ≤ n) :
    ∃ filled out, SameShape hunks filled ∧ (∀ g ∈ filled, Marked g) ∧
      applyHunks filled (fresh n) = .ok out := by
  have narrow (hs : List PatchHunk) :
      (hs.flatMap fun h => oldSide h.lines).length ≤ (hs.map stop).sum := by
    induction hs with
    | nil => exact Nat.le_refl _
    | cons h hs ih =>
      rw [List.flatMap_cons, List.length_append, List.map_cons, List.sum_cons, stop]
      omega
  induction hunks with
  | nil => exact ⟨[], fresh n, .nil, List.forall_mem_nil _, rfl⟩
  | cons h hs ih =>
    rw [List.map_cons, List.sum_cons] at room
    obtain ⟨filled, later, shape, marked, ran⟩ := ih (by omega)
    have counted := applyHunks_length ran
    have length : (fresh n).length = n := by simp [fresh]
    have sizes : (filled.map stop).sum = (hs.map stop).sum := by
      have same := congrArg (fun sizes => (sizes.map (·.2.1)).sum) shape.size
      simpa [List.map_map, size, Function.comp_def] using same.symm
    have taken := narrow filled
    have wide : stop h ≤ later.length := by omega
    unfold stop at wide
    obtain ⟨ls, kinds, ahead, added⟩ := @fill_lines h.lines (later.drop (startIdx h)) (by
      rw [List.length_drop]
      omega)
    have stands : Stands later { h with lines := ls } := by
      refine ⟨?_, same_iff_prefix.mpr ahead⟩
      have same : (oldSide ls).length = (oldSide h.lines).length := by
        rw [oldSide_length, oldSide_length, kinds]
      change startIdx h + (oldSide ls).length ≤ later.length
      omega
    refine ⟨{ h with lines := ls } :: filled, splice later (edit { h with lines := ls }),
      .cons ⟨rfl, kinds⟩ shape, List.forall_mem_cons.mpr ⟨added, marked⟩, ?_⟩
    rw [applyHunks, ran]
    exact applyHunkToLines_iff.mpr ⟨stands, rfl⟩

/-! ## What they tell -/

theorem mem_newSide {ls : List PatchLine} {line : Text} (member : line ∈ newSide ls) :
    line ∈ oldSide ls ∨ .add line ∈ ls := by
  obtain ⟨item, listed, rfl⟩ := List.mem_map.mp member
  obtain ⟨inside, new⟩ := List.mem_filter.mp listed
  cases item with
  | context text =>
    exact .inl (List.mem_map.mpr ⟨.context text, List.mem_filter.mpr ⟨inside, rfl⟩, rfl⟩)
  | add text => exact .inr inside
  | remove text => cases new

/-- A line that a hunk leaves is the added one or a line of its range. -/
theorem marked_newSide {n : Nat} (marked : Marked hunk) (stands : Stands (fresh n) hunk)
    {line : Text} (member : line ∈ newSide hunk.lines) :
    line = ['+'] ∨ ∃ k, startIdx hunk ≤ k ∧ k < stop hunk ∧ line = List.replicate k 'x' := by
  rcases mem_newSide member with old | added
  · obtain ⟨k, bound, rfl⟩ := List.mem_iff_getElem.mp old
    have there := stands.same k _ (List.getElem?_eq_getElem bound)
    refine .inr ⟨startIdx hunk + k, Nat.le_add_right .., ?_, (fresh_getElem.mp there).2⟩
    unfold stop
    omega
  · exact .inl (marked line added)

theorem replicate_ne_plus (k : Nat) : List.replicate k 'x' ≠ ['+'] := by
  intro same
  have inside : '+' ∈ List.replicate k 'x' := by
    rw [same]
    exact List.mem_singleton.mpr rfl
  exact absurd (List.eq_of_mem_replicate inside) (by decide)

theorem replicate_inj {k l : Nat} (same : List.replicate k 'x' = List.replicate l 'x') : k = l := by
  have sizes := congrArg List.length same
  rwa [List.length_replicate, List.length_replicate] at sizes

theorem not_mem_take (n s : Nat) : List.replicate s 'x' ∉ (fresh n).take s := by
  intro member
  obtain ⟨k, found⟩ := List.mem_iff_getElem?.mp member
  rw [List.getElem?_take] at found
  split at found
  · have same := replicate_inj (fresh_getElem.mp found).2
    omega
  · cases found

theorem not_mem_drop (n s : Nat) : List.replicate s 'x' ∉ (fresh n).drop (s + 1) := by
  intro member
  obtain ⟨k, found⟩ := List.mem_iff_getElem?.mp member
  rw [List.getElem?_drop] at found
  have same := replicate_inj (fresh_getElem.mp found).2
  omega

/-- What is made of some of the lines holds no other line of the file. -/
theorem not_mem_perform {n s gap : Nat} {xs : List Text} {hs : List PatchHunk}
    (marked : ∀ h ∈ hs, Marked h) (stands : ∀ h ∈ hs, Stands (fresh n) h)
    (elsewhere : ∀ h ∈ hs, stop h ≤ s ∨ s < startIdx h) (absent : List.replicate s 'x' ∉ xs) :
    List.replicate s 'x' ∉ perform (hs.map edit) gap xs := by
  intro member
  rcases mem_perform member with kept | ⟨e, listed, new⟩
  · exact absent kept
  · obtain ⟨h, inside, rfl⟩ := List.mem_map.mp listed
    rcases marked_newSide (marked h inside) (stands h inside) new with
      plus | ⟨k, begins, ends, same⟩
    · exact replicate_ne_plus s plus
    · obtain rfl := replicate_inj same
      rcases elsewhere h inside with before | after <;> omega

/-- Where such texts are accepted and stand in the file, without overlapping, they are in
place. -/
theorem inPlace_of_accepted {n : Nat} (marked : ∀ h ∈ hunks, Marked h)
    (filled : ∀ h ∈ hunks, oldSide h.lines ≠ []) (stands : ∀ h ∈ hunks, Stands (fresh n) h)
    (apart : hunks.Pairwise fun h g => stop h ≤ startIdx g ∨ stop g ≤ startIdx h)
    (ran : applyHunks hunks (fresh n) = .ok out) : InPlace hunks := by
  induction hunks generalizing out with
  | nil => trivial
  | cons h hs ih =>
    obtain ⟨later, first, last⟩ := applyHunks_cons_ok ran
    obtain ⟨own_apart, apart⟩ := List.pairwise_cons.mp apart
    obtain ⟨own_stands, stands⟩ := List.forall_mem_cons.mp stands
    obtain ⟨own_filled, filled⟩ := List.forall_mem_cons.mp filled
    have inPlace := ih (List.forall_mem_cons.mp marked).2 filled stands apart first
    obtain ⟨before, after, split, -, ended, behind, even⟩ := inPlace.between own_apart
    refine ⟨own_apart, even.mp ?_, inPlace⟩
    obtain ⟨-, rfl⟩ := (applyHunks_iff inPlace).mp first
    obtain ⟨reads, -⟩ := applyHunkToLines_iff.mp last
    -- the first line that the hunk expects is the line of the file with its number
    obtain ⟨line, rest, expects⟩ := List.exists_cons_of_ne_nil own_filled
    have in_file := own_stands.same 0 line (by rw [expects]; rfl)
    have in_later := reads.same 0 line (by rw [expects]; rfl)
    obtain ⟨inside, rfl⟩ := fresh_getElem.mp in_file
    rw [Nat.add_zero] at in_later inside
    have listed {g : PatchHunk} : g ∈ before ++ after ↔ g ∈ hs := by
      rw [← split]
      exact (arrange_perm hs).mem_iff
    have members : ∀ g ∈ before ++ after, Marked g ∧ Stands (fresh n) g := fun g member =>
      ⟨(List.forall_mem_cons.mp marked).2 g (listed.mp member), stands g (listed.mp member)⟩
    have nonempty : startIdx h < stop h := by
      rw [stop, expects, List.length_cons]
      omega
    have ordered := inPlace.arranged
    rw [split] at ordered
    have ascending := ordered.ascending
    have ranges := Stands.ranges fun g member => (members g member).2
    rw [List.map_append] at ascending ranges
    have length : (fresh n).length = n := by simp [fresh]
    obtain ⟨shape, sums⟩ := perform_between (s := startIdx h) ascending ranges
      (List.forall_mem_map.mpr ended)
      (List.forall_mem_map.mpr fun a member => (start_le_stop h).trans (behind a member)) (by omega)
    rw [spliced, split, List.map_append, shape] at in_later
    rcases Nat.lt_trichotomy (perform (before.map edit) 0 ((fresh n).take (startIdx h))).length
      (startIdx h) with short | same | long
    · obtain ⟨k, behind_front⟩ : ∃ k, startIdx h =
          (perform (before.map edit) 0 ((fresh n).take (startIdx h))).length + (k + 1) :=
        ⟨startIdx h - (perform (before.map edit) 0 ((fresh n).take (startIdx h))).length - 1,
          by omega⟩
      have head := @perform_before _ (after.map edit) (startIdx h) 1 ((fresh n).drop (startIdx h))
        (List.forall_mem_map.mpr fun a member => nonempty.trans_le (behind a member))
        (by rw [List.length_drop]; omega)
      have one : (((fresh n).drop (startIdx h)).take 1).length = 1 := by
        rw [List.length_take, List.length_drop]
        omega
      have there : List.replicate (startIdx h) 'x' ∈ perform (after.map edit) (startIdx h + 1)
          ((fresh n).drop (startIdx h + 1)) := by
        rw [List.getElem?_append_right short.le, head, List.getElem?_append_right (by omega),
          List.drop_drop] at in_later
        exact List.mem_of_getElem? in_later
      refine absurd there (not_mem_perform
        (fun a member => (members a (List.mem_append_right _ member)).1)
        (fun a member => (members a (List.mem_append_right _ member)).2)
        (fun a member => .inr (nonempty.trans_le (behind a member))) (not_mem_drop n _))
    · unfold Splices.Balanced
      omega
    · rw [List.getElem?_append_left long] at in_later
      refine absurd (List.mem_of_getElem? in_later) (not_mem_perform
        (fun b member => (members b (List.mem_append_left _ member)).1)
        (fun b member => (members b (List.mem_append_left _ member)).2)
        (fun b member => .inl (ended b member)) (not_mem_take n _))

/-! ## Acceptance -/

/-- **Acceptance.** Hunks with a context or removed line each are sound to accept, whatever
texts of their shape they and the file hold, exactly if they are in place; hunks in place
without such lines are sound to accept as well. -/
theorem acceptance_sound_iff (hunks : List PatchHunk) :
    (InPlace hunks → ∀ original trailingNewline, Sound original hunks trailingNewline) ∧
    ((∀ h ∈ hunks, oldSide h.lines ≠ []) →
      ((∀ original others trailingNewline, SameShape hunks others →
        Sound original others trailingNewline) ↔ InPlace hunks)) := by
  refine ⟨fun inPlace original => sound_of_inPlace inPlace, fun filled => ⟨fun sound => ?_,
    fun inPlace original others trailingNewline shape => ?_⟩⟩
  · obtain ⟨others, out, shape, marked, ran⟩ :=
      @exists_accepted hunks _ (Nat.le_refl _)
    obtain ⟨stands, arranged, perm, ordered, -⟩ := sound _ others true shape _
      (buildNewContent_ok_iff.mpr ⟨out, ran, rfl⟩)
    have apart : others.Pairwise fun h g => stop h ≤ startIdx g ∨ stop g ≤ startIdx h :=
      (perm.pairwise_iff fun {h g} apart => apart.symm).mp (ordered.imp Or.inl)
    rw [inPlace_congr shape.size]
    refine inPlace_of_accepted marked (fun g member empty => ?_) stands apart ran
    -- a hunk of the same shape expects a line as well
    have sized : size g ∈ hunks.map size := by
      rw [shape.size]
      exact List.mem_map_of_mem member
    obtain ⟨h, listed, same⟩ := List.mem_map.mp sized
    refine filled h listed (List.eq_nil_of_length_eq_zero ?_)
    have begins : startIdx h = startIdx g := congrArg (·.1) same
    have ends : stop h = stop g := congrArg (·.2.1) same
    rw [stop, stop, begins, empty, List.length_nil] at ends
    omega
  · exact sound_of_inPlace ((inPlace_congr shape.size).mp inPlace) trailingNewline

theorem twoHunks_sound : Sound ["a".toList, "b".toList, "c".toList, "d".toList, "e".toList]
    twoHunks true :=
  (acceptance_sound_iff twoHunks).1 (InOrder.inPlace (by unfold InOrder; decide)).1 _ true

/-- Two hunks for one line: the one that is made first puts a line in front of it. -/
def sameLine : List PatchHunk :=
  [⟨1, 1, 1, 0, [.remove "new".toList], false⟩,
    ⟨1, 1, 1, 2, [.add "new".toList, .context "old".toList], false⟩]

/-- The other one then removes that line, which the file does not have. -/
theorem sameLine_accepted :
    buildNewContent sameLine ["old".toList] true = .ok "old\n".toList ∧
      ¬ Stands ["old".toList] ⟨1, 1, 1, 0, [.remove "new".toList], false⟩ ∧
      ¬ Sound ["old".toList] sameLine true := by
  have built : buildNewContent sameLine ["old".toList] true = .ok "old\n".toList := by
    decide +kernel
  have elsewhere : ¬ Stands ["old".toList] ⟨1, 1, 1, 0, [.remove "new".toList], false⟩ := by
    intro stands
    have there := stands.same 0 "new".toList rfl
    revert there
    decide
  refine ⟨built, elsewhere, fun sound => elsewhere ?_⟩
  exact (sound _ built).1 _ (List.mem_cons_self ..)

end HunkAcceptance

end Devit
