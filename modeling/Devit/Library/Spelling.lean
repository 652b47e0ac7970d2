import Mathlib.Data.List.Induction
import Devit.Library.Path

/-! The spellings of a path. Slashes may be repeated and `.` put in anywhere without
naming another file; comparing paths sees no difference but that of a `.` in front. -/
namespace Devit.Path
open Text

/-- The pieces of a path that are not `.`. -/
def names (p : PathBuf) : List Text := (pieces p).filter (· ≠ ['.'])

/-- Two paths are the same up to `.` and repeated slashes. -/
structure Respelled (p q : PathBuf) : Prop where
  rooted : isAbsolute p = isAbsolute q
  named : names p = names q

/-- Whether a relative path starts with a `.`. -/
def dotted (p : PathBuf) : Bool := !isAbsolute p && (pieces p).head? == some ['.']

/-- What stands before the names among the components of a path. -/
def front (p : PathBuf) : List Component :=
  if isAbsolute p then [.rootDir] else if dotted p then [.curDir] else []

variable {p q : PathBuf}

theorem Respelled.refl (p : PathBuf) : Respelled p p := ⟨rfl, rfl⟩

theorem Respelled.symm (same : Respelled p q) : Respelled q p := ⟨same.rooted.symm, same.named.symm⟩

theorem components_eq (p : PathBuf) : components p = front p ++ (names p).map component := by
  unfold components front names dotted
  cases isAbsolute p with
  | true => rfl
  | false =>
    cases pieces p with
    | nil => rfl
    | cons first rest =>
      by_cases dot : first = ['.']
      · simp [dot]
      · simp [dot]

/-- Spellings that agree on a `.` in front are equal as paths. -/
theorem Respelled.same_components (same : Respelled p q) (dots : dotted p = dotted q) :
    components p = components q := by
  rw [components_eq, components_eq, same.named, front, front, same.rooted, dots]

/-- The last name of a path does not depend on its spelling. -/
theorem Respelled.same_fileName (same : Respelled p q) : fileName p = fileName q := by
  unfold fileName
  rw [components_eq p, components_eq q, same.named]
  rcases List.eq_nil_or_concat ((names q).map component) with bare | ⟨init, last, shape⟩
  · rw [bare]
    unfold front
    cases isAbsolute p <;> cases isAbsolute q <;> cases dotted p <;> cases dotted q <;> rfl
  · rw [shape, List.concat_eq_append, ← List.append_assoc, ← List.append_assoc,
      List.getLast?_concat, List.getLast?_concat]

theorem Respelled.same_extension (same : Respelled p q) : extension p = extension q := by
  unfold extension
  rw [same.same_fileName]

/-! ## Going up in a path -/

/-- What is left of the names of an absolute path when each `..` takes away the name
before it. -/
def collapse (comps : List Component) : List Text :=
  comps.foldl (fun kept c =>
    match c with
    | .normal name => kept ++ [name]
    | .parentDir => kept.dropLast
    | _ => kept) []

theorem collapse_concat (comps : List Component) (c : Component) :
    collapse (comps ++ [c]) = match c with
      | .normal name => collapse comps ++ [name]
      | .parentDir => (collapse comps).dropLast
      | _ => collapse comps := by
  rw [collapse, List.foldl_concat]
  cases c <;> rfl

theorem collapse_names (names : List Text) :
    collapse (.rootDir :: names.map .normal) = names := by
  induction names using List.reverseRecOn with
  | nil => rfl
  | append_singleton names name ih =>
    rw [List.map_append, ← List.cons_append, List.map_singleton, collapse_concat, ih]

theorem contains_middle (pat before after : Text) :
    contains pat (before ++ (pat ++ after)) = true := by
  have starts := startsWith_append pat after
  induction before with
  | nil =>
    cases whole : pat ++ after with
    | nil =>
      rw [whole] at starts
      simpa [contains] using starts
    | cons c cs =>
      rw [whole] at starts
      simp [contains, starts]
  | cons c before ih => simp [contains, ih]

/-- Where `../` is nowhere in the text, only the last piece may be a `..`. -/
theorem up_only_last {s : Text} (clean : contains "../".toList s = false) {init : List Text}
    {last : Text} (cut : splitOn (· == '/') s = init ++ [last]) : ['.', '.'] ∉ init := by
  intro member
  obtain ⟨before, after, rfl⟩ := List.append_of_mem member
  have whole := join_splitOn '/' s
  have parts : before ++ ['.', '.'] :: after ++ [last] =
      (before ++ [['.', '.']]) ++ (after ++ [last]) := by simp
  rw [cut, parts, join_append (by simp) (by simp)] at whole
  have ends : ∃ front, join ['/'] (before ++ [['.', '.']]) = front ++ ['.', '.'] := by
    by_cases first : before = []
    · subst first
      exact ⟨[], rfl⟩
    · exact ⟨_, join_append first (by simp)⟩
  obtain ⟨front, shape⟩ := ends
  have found := contains_middle ['.', '.', '/'] front (join ['/'] (after ++ [last]))
  have spelled : front ++ (['.', '.', '/'] ++ join ['/'] (after ++ [last])) = s := by
    rw [← whole, shape]
    simp
  rw [spelled] at found
  rw [show "../".toList = ['.', '.', '/'] from rfl, found] at clean
  cases clean

private theorem component_not_curDir (piece : Text) : component piece ≠ .curDir := by
  unfold component
  split <;> exact nofun

theorem map_component_names {kept : List Text} (named : ['.', '.'] ∉ kept) :
    kept.map component = kept.map .normal := by
  refine List.map_congr_left fun name member => ?_
  rw [component, if_neg]
  rintro rfl
  exact named member

/-- Behind a `.` in front a relative path has only its names. -/
theorem undotted_components {p : PathBuf} (relative : isAbsolute p = false) :
    (components p).filter (· ≠ .curDir) = (names p).map component := by
  have kept : ((names p).map component).filter (· ≠ .curDir) = (names p).map component := by
    refine List.filter_eq_self.mpr fun c member => ?_
    obtain ⟨piece, -, rfl⟩ := List.mem_map.mp member
    simpa using component_not_curDir piece
  rw [components_eq, List.filter_append, kept]
  unfold front
  rw [relative]
  cases dotted p <;> rfl

/-- A path without `../` spells names, and perhaps a `..` after them. -/
theorem names_up_last {p : PathBuf} (clean : contains "../".toList p.text = false) :
    ∃ named : List Text, (∀ name ∈ named, Component.Plain (.normal name)) ∧
      ((names p).map component = named.map .normal ∨
        (names p).map component = named.map .normal ++ [.parentDir]) := by
  obtain ⟨init, last, cut⟩ : ∃ init last, splitOn (· == '/') p.text = init ++ [last] := by
    rcases List.eq_nil_or_concat (splitOn (· == '/') p.text) with bare | ⟨init, last, shape⟩
    · exact absurd bare (splitOn_ne_nil _ _)
    · exact ⟨init, last, by rw [shape, List.concat_eq_append]⟩
  have noUp := up_only_last clean cut
  have kept : ∀ name ∈ names p, name ≠ ['.', '.'] → Component.Plain (.normal name) := by
    intro name member notUp
    obtain ⟨listed, notDot⟩ := List.mem_filter.mp member
    obtain ⟨filled, noSlash⟩ := mem_pieces listed
    exact ⟨filled, noSlash, by simpa using notDot, notUp⟩
  have shape : names p = (init.filter (· ≠ [])).filter (· ≠ ['.']) ++
      ([last].filter (· ≠ [])).filter (· ≠ ['.']) := by
    rw [names, pieces, cut, List.filter_append, List.filter_append]
  have noUpKept : ['.', '.'] ∉ (init.filter (· ≠ [])).filter (· ≠ ['.']) := fun member =>
    noUp (List.mem_filter.mp (List.mem_filter.mp member).1).1
  by_cases up : last = ['.', '.']
  · refine ⟨(init.filter (· ≠ [])).filter (· ≠ ['.']), fun name member => ?_, .inr ?_⟩
    · refine kept name (by rw [shape]; exact List.mem_append_left _ member) ?_
      rintro rfl
      exact noUpKept member
    · rw [shape, up, List.map_append, map_component_names noUpKept]
      rfl
  · have named : ['.', '.'] ∉ names p := by
      rw [shape, List.mem_append, not_or]
      refine ⟨noUpKept, fun member => up ?_⟩
      have listed := (List.mem_filter.mp (List.mem_filter.mp member).1).1
      exact (List.mem_singleton.mp listed).symm
    refine ⟨names p, fun name member => kept name member ?_, .inl (map_component_names named)⟩
    rintro rfl
    exact named member

/-- A relative path without `../` spells names, and perhaps a `..` after them. -/
theorem names_then_up {p : PathBuf} (relative : isAbsolute p = false)
    (clean : contains "../".toList p.text = false) :
    ∃ named : List Text, (∀ name ∈ named, Component.Plain (.normal name)) ∧
      ((components p).filter (· ≠ .curDir) = named.map .normal ∨
        (components p).filter (· ≠ .curDir) = named.map .normal ++ [.parentDir]) := by
  rw [undotted_components relative]
  exact names_up_last clean

/-- An absolute path without `../` spells names, and perhaps a `..` after them. -/
theorem rooted_then_up {p : PathBuf} (rooted : isAbsolute p = true)
    (clean : contains "../".toList p.text = false) :
    ∃ named : List Text, (∀ name ∈ named, Component.Plain (.normal name)) ∧
      (components p = .rootDir :: named.map .normal ∨
        components p = .rootDir :: named.map .normal ++ [.parentDir]) := by
  obtain ⟨named, plain, spelled⟩ := names_up_last clean
  rw [components_eq, front, rooted, if_pos rfl, List.singleton_append]
  refine ⟨named, plain, spelled.imp (congrArg _) fun up => ?_⟩
  rw [up, List.cons_append]

/-! ## Paths written from their names -/

/-- The absolute path of some names, each after one slash. -/
def spell (names : List Text) : Text := names.flatMap ('/' :: ·)

/-- A name ends here. -/
def Ends (rest : Text) : Prop := rest = [] ∨ ∃ more, rest = '/' :: more

theorem spell_append (above below : List Text) :
    spell (above ++ below) = spell above ++ spell below :=
  List.flatMap_append

theorem spell_ends (names : List Text) : Ends (spell names) := by
  cases names with
  | nil => exact .inl rfl
  | cons name names => exact .inr ⟨_, rfl⟩

theorem Ends.append {rest more : Text} (ends : Ends rest) (ends' : Ends more) :
    Ends (rest ++ more) := by
  rcases ends with rfl | ⟨tail, rfl⟩
  · exact ends'
  · exact .inr ⟨_, rfl⟩

/-- Two names that end are equal where the texts are. -/
theorem names_eq_of_ends {a b rest more : Text} (noSlash : '/' ∉ a) (noSlash' : '/' ∉ b)
    (ends : Ends rest) (ends' : Ends more) (same : a ++ rest = b ++ more) :
    a = b ∧ rest = more := by
  have shorter : ∀ {a b rest more : Text}, '/' ∉ b → Ends rest → a ++ rest = b ++ more →
      ∀ {gap : Text}, b = a ++ gap → gap = [] := by
    rintro a b rest more clean ends same gap rfl
    rw [List.append_assoc, List.append_cancel_left_eq] at same
    cases gap with
    | nil => rfl
    | cons c gap =>
      rcases ends with rfl | ⟨tail, rfl⟩
      · cases same
      · cases same
        simp at clean
  rcases List.append_eq_append_iff.mp same with ⟨gap, longer, -⟩ | ⟨gap, longer, -⟩
  · obtain rfl := shorter noSlash' ends same longer
    rw [List.append_nil] at longer
    subst longer
    exact ⟨rfl, List.append_cancel_left same⟩
  · obtain rfl := shorter noSlash ends' same.symm longer
    rw [List.append_nil] at longer
    subst longer
    exact ⟨rfl, List.append_cancel_left same⟩

/-- A path lies in a directory if it is written as the directory, and the directory's last name
ends there. -/
theorem prefix_iff_spell {dir names : List Text} (clean : ∀ name ∈ dir, '/' ∉ name)
    (clean' : ∀ name ∈ names, '/' ∉ name) :
    dir <+: names ↔ ∃ rest, spell names = spell dir ++ rest ∧ Ends rest := by
  constructor
  · rintro ⟨below, rfl⟩
    exact ⟨spell below, spell_append dir below, spell_ends below⟩
  · rintro ⟨rest, same, ends⟩
    induction dir generalizing names with
    | nil => exact List.nil_prefix
    | cons d dir ih =>
      cases names with
      | nil => cases same
      | cons n names =>
        simp only [spell, List.flatMap_cons, List.cons_append, List.cons.injEq, true_and,
          List.append_assoc] at same
        obtain ⟨rfl, below⟩ := names_eq_of_ends (clean' n List.mem_cons_self)
          (clean d List.mem_cons_self) (spell_ends names) ((spell_ends dir).append ends) same
        refine List.cons_prefix_cons.mpr ⟨rfl, ih ?_ ?_ below⟩
        · exact fun name member => clean name (List.mem_cons_of_mem _ member)
        · exact fun name member => clean' name (List.mem_cons_of_mem _ member)

theorem spell_eq {names : List Text} (filled : names ≠ []) :
    (⟨spell names⟩ : PathBuf) = ofComponents (.rootDir :: names.map .normal) := by
  have joined : ∀ names : List Text, names ≠ [] →
      spell names = '/' :: join ['/'] (names.map (Component.text ∘ .normal)) := by
    intro names
    induction names with
    | nil => exact fun absent => absurd rfl absent
    | cons name names ih =>
      intro _
      cases names with
      | nil => exact congrArg ('/' :: ·) (List.append_nil name)
      | cons next names =>
        have below := ih (List.cons_ne_nil _ _)
        rw [spell, List.flatMap_cons, ← spell, below]
        simp [join, Component.text]
  rw [joined names filled, ofComponents, List.map_map]

/-- A path written from plain names has these. -/
theorem components_spell {names : List Text} (filled : names ≠ [])
    (plain : ∀ name ∈ names, Component.Plain (.normal name)) :
    components ⟨spell names⟩ = .rootDir :: names.map .normal := by
  rw [spell_eq filled]
  refine (@components_ofComponents [.rootDir] _ (fun c member => ?_) (.inl rfl)).1
  obtain ⟨name, inside, rfl⟩ := List.mem_map.mp member
  exact plain name inside

end Devit.Path
