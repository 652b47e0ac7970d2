import Devit.Library.Text

/-! Unix paths as Rust's `std::path` reads them. A path keeps its spelling;
`components` is what comparing two paths looks at, and `pieces` is what the
kernel walks, where `.` and a trailing slash still count. -/
namespace Devit

/-- `std::path::PathBuf` on Unix, by its spelling. -/
structure PathBuf where
  text : Text
  deriving DecidableEq, Repr

namespace Path
open Text

/-- `std::path::Component`. -/
inductive Component where
  | rootDir
  | curDir
  | parentDir
  | normal (name : Text)
  deriving DecidableEq, Repr

/-- The names between slashes. -/
def pieces (p : PathBuf) : List Text := (splitOn (· == '/') p.text).filter (· ≠ [])

/-- `Path::is_absolute`. -/
def isAbsolute (p : PathBuf) : Bool := startsWith ['/'] p.text

/-- One piece that is not a dropped `.`. -/
def component (piece : Text) : Component :=
  if piece = ['.', '.'] then .parentDir else .normal piece

/-- `Path::components`: repeated slashes go, and so does `.` except in front of
a relative path. -/
def components (p : PathBuf) : List Component :=
  if isAbsolute p then .rootDir :: ((pieces p).filter (· ≠ ['.'])).map component
  else
    match pieces p with
    | [] => []
    | first :: rest =>
      (if first = ['.'] then .curDir else component first) ::
        (rest.filter (· ≠ ['.'])).map component

/-- `PartialEq for Path`: paths are equal when their components are. -/
def same (p q : PathBuf) : Bool := components p == components q

/-- The spelling of one component. -/
def Component.text : Component → Text
  | .rootDir => ['/']
  | .curDir => ['.']
  | .parentDir => ['.', '.']
  | .normal name => name

/-- The path with the given components: `Components::as_path`, up to repeated
separators. -/
def ofComponents : List Component → PathBuf
  | .rootDir :: rest => ⟨'/' :: join ['/'] (rest.map Component.text)⟩
  | comps => ⟨join ['/'] (comps.map Component.text)⟩

/-- `Path::join`: an absolute path replaces the base. -/
def pathJoin (base p : PathBuf) : PathBuf :=
  if isAbsolute p then p
  else if base.text = [] ∨ base.text.getLast? = some '/' then ⟨base.text ++ p.text⟩
  else ⟨base.text ++ '/' :: p.text⟩

/-- `Path::parent`. -/
def parent (p : PathBuf) : Option PathBuf :=
  match (components p).getLast? with
  | none => none
  | some .rootDir => none
  | some _ => some (ofComponents (components p).dropLast)

/-- `Path::file_name`. -/
def fileName (p : PathBuf) : Option Text :=
  match (components p).getLast? with
  | some (.normal name) => some name
  | _ => none

/-- `Path::file_stem` of a file name: what precedes its last dot, unless that is
the name's first character. -/
def stem (name : Text) : Text :=
  match beforeLast ['.'] name with
  | none => name
  | some [] => name
  | some before => before

/-- `Path::extension`: what follows the last dot of the file name, unless that is the
name's first character. -/
def extension (p : PathBuf) : Option Text :=
  (fileName p).bind fun name =>
    match beforeLast ['.'] name with
    | none => none
    | some [] => none
    | some before => some (name.drop (before.length + 1))

/-- `Path::with_extension` for a nonempty extension. -/
def withExtension (p : PathBuf) (ext : Text) : PathBuf :=
  match fileName p with
  | none => p
  | some name =>
    ofComponents ((components p).dropLast ++ [.normal (stem name ++ '.' :: ext)])

/-- Whether the path ends in a slash or in a `.`, and so must be a directory. -/
def asksDir (p : PathBuf) : Bool :=
  p.text.getLast? == some '/' || (pieces p).getLast? == some ['.']

/-- `Path::starts_with`: by whole components. -/
def pathStartsWith (p base : PathBuf) : Bool := (components base).isPrefixOf (components p)

/-- `Path::strip_prefix`. -/
def pathStripPrefix (p base : PathBuf) : Option PathBuf :=
  if pathStartsWith p base then
    some (ofComponents ((components p).drop (components base).length))
  else none

/-! ## Spelling components back -/

/-- A component that may stand anywhere in a path but at its root. -/
def Component.Plain : Component → Prop
  | .parentDir => True
  | .normal name => name ≠ [] ∧ '/' ∉ name ∧ name ≠ ['.'] ∧ name ≠ ['.', '.']
  | _ => False

theorem Component.Plain.text_clean {c : Component} (plain : c.Plain) :
    c.text ≠ [] ∧ '/' ∉ c.text ∧ c.text ≠ ['.'] := by
  cases c with
  | rootDir => cases plain
  | curDir => cases plain
  | parentDir => decide
  | normal name => exact ⟨plain.1, plain.2.1, plain.2.2.1⟩

theorem component_text {c : Component} (plain : c.Plain) : component c.text = c := by
  cases c with
  | rootDir => cases plain
  | curDir => cases plain
  | parentDir => rfl
  | normal name => exact if_neg plain.2.2.2

theorem mem_pieces {p : PathBuf} {piece : Text} (member : piece ∈ pieces p) :
    piece ≠ [] ∧ '/' ∉ piece := by
  have inside := List.mem_filter.mp member
  refine ⟨by simpa using inside.2, fun slash => ?_⟩
  exact absurd (splitOn_clean inside.1 '/' slash) (by decide)

private theorem component_plain {p : PathBuf} {piece : Text} (member : piece ∈ pieces p)
    (other : piece ≠ ['.']) : (component piece).Plain := by
  obtain ⟨filled, clean⟩ := mem_pieces member
  unfold component
  split
  · trivial
  · rename_i notUp
    exact ⟨filled, clean, other, notUp⟩

/-- A path's components: at most one of `/` and `.` in front, and plain ones. -/
theorem components_shape (p : PathBuf) : ∃ front rest, components p = front ++ rest ∧
    (∀ c ∈ rest, c.Plain) ∧ (front = [.rootDir] ∧ isAbsolute p = true ∨
      (front = [.curDir] ∨ front = []) ∧ isAbsolute p = false) := by
  have plain (ps : List Text) (inside : ∀ piece ∈ ps, piece ∈ pieces p) :
      ∀ c ∈ (ps.filter (· ≠ ['.'])).map component, c.Plain := by
    intro c member
    obtain ⟨piece, kept, rfl⟩ := List.mem_map.mp member
    obtain ⟨listed, other⟩ := List.mem_filter.mp kept
    exact component_plain (inside piece listed) (by simpa using other)
  unfold components
  split
  · rename_i root
    exact ⟨[.rootDir], _, rfl, plain _ fun _ h => h, .inl ⟨rfl, root⟩⟩
  · rename_i relative
    rw [Bool.not_eq_true] at relative
    cases shape : pieces p with
    | nil => exact ⟨[], [], rfl, by simp, .inr ⟨.inr rfl, relative⟩⟩
    | cons first rest =>
      have others := plain rest fun piece member => by rw [shape]; exact List.mem_cons_of_mem _ member
      dsimp only
      split
      · exact ⟨[.curDir], _, rfl, others, .inr ⟨.inl rfl, relative⟩⟩
      · rename_i other
        refine ⟨[], _, rfl, ?_, .inr ⟨.inr rfl, relative⟩⟩
        intro c member
        rcases List.mem_cons.mp member with rfl | member
        · exact component_plain (by rw [shape]; exact List.mem_cons_self) other
        · exact others c member

private theorem join_cons_cons (part next : Text) (rest : List Text) :
    join ['/'] (part :: next :: rest) = part ++ '/' :: join ['/'] (next :: rest) := by
  simp [join]

/-- Cutting a joined text gives its parts back. -/
theorem splitOn_join {parts : List Text} (clean : ∀ part ∈ parts, part ≠ [] ∧ '/' ∉ part) :
    (splitOn (· == '/') (join ['/'] parts)).filter (· ≠ []) = parts := by
  induction parts with
  | nil => rfl
  | cons part parts ih =>
    obtain ⟨filled, noSlash⟩ := clean part List.mem_cons_self
    have whole : splitOn (· == '/') part = [part] := by
      refine splitOn_whole fun c member => ?_
      simp only [beq_eq_false_iff_ne]
      rintro rfl
      exact noSlash member
    cases parts with
    | nil => simp [join, whole, filled]
    | cons next rest =>
      have below := ih fun other member => clean other (List.mem_cons_of_mem _ member)
      have cut : splitOn (· == '/') (part ++ '/' :: join ['/'] (next :: rest)) =
          splitOn (· == '/') part ++ splitOn (· == '/') (join ['/'] (next :: rest)) :=
        splitOn_append rfl part _
      rw [join_cons_cons, cut, whole, List.filter_append, below]
      simp [filled]

private theorem filter_texts {cs : List Component} (plain : ∀ c ∈ cs, c.Plain) :
    (cs.map Component.text).filter (· ≠ ['.']) = cs.map Component.text := by
  refine List.filter_eq_self.mpr fun text member => ?_
  obtain ⟨c, listed, rfl⟩ := List.mem_map.mp member
  simpa using (plain c listed).text_clean.2.2

private theorem map_component_text {cs : List Component} (plain : ∀ c ∈ cs, c.Plain) :
    (cs.map Component.text).map component = cs := by
  rw [List.map_map]
  exact (List.map_congr_left fun c member => component_text (plain c member)).trans (List.map_id cs)

private theorem texts_clean {cs : List Component} (plain : ∀ c ∈ cs, c.Plain) :
    ∀ text ∈ cs.map Component.text, text ≠ [] ∧ '/' ∉ text := by
  intro text member
  obtain ⟨c, listed, rfl⟩ := List.mem_map.mp member
  exact ⟨(plain c listed).text_clean.1, (plain c listed).text_clean.2.1⟩

private theorem pieces_absolute {cs : List Component} (plain : ∀ c ∈ cs, c.Plain) :
    pieces (ofComponents (.rootDir :: cs)) = cs.map Component.text := by
  have cut := splitOn_join (texts_clean plain)
  unfold pieces ofComponents
  simpa [splitOn] using cut

private theorem ofComponents_relative {cs : List Component} (noRoot : cs.head? ≠ some .rootDir) :
    ofComponents cs = ⟨join ['/'] (cs.map Component.text)⟩ := by
  cases cs with
  | nil => rfl
  | cons c cs =>
    cases c with
    | rootDir => exact absurd rfl noRoot
    | curDir => rfl
    | parentDir => rfl
    | normal name => rfl

private theorem join_slash_ne {text : Text} {parts : List Text} (filled : text ≠ [])
    (noSlash : '/' ∉ text) : isAbsolute ⟨join ['/'] (text :: parts)⟩ = false := by
  cases text with
  | nil => exact absurd rfl filled
  | cons c cs =>
    have other : '/' ≠ c := fun same => noSlash (same ▸ List.mem_cons_self)
    cases parts <;> exact startsWith_head_ne other

/-- The path with given components has those components. -/
theorem components_ofComponents {front rest : List Component} (plain : ∀ c ∈ rest, c.Plain)
    (shape : front = [.rootDir] ∨ front = [.curDir] ∨ front = []) :
    components (ofComponents (front ++ rest)) = front ++ rest ∧
      isAbsolute (ofComponents (front ++ rest)) = decide (front = [.rootDir]) := by
  rcases shape with rfl | rfl | rfl
  · have root : isAbsolute (ofComponents ([.rootDir] ++ rest)) = true := startsWith_append ['/'] _
    refine ⟨?_, by simpa using root⟩
    have below := pieces_absolute plain
    simp only [List.cons_append, List.nil_append] at root ⊢
    rw [components, if_pos root, below, filter_texts plain, map_component_text plain]
  · have texts : ∀ text ∈ (Component.curDir :: rest).map Component.text, text ≠ [] ∧ '/' ∉ text := by
      intro text member
      rcases List.mem_cons.mp member with rfl | member
      · decide
      · exact texts_clean plain text member
    have spelled : ofComponents ([.curDir] ++ rest) =
        ⟨join ['/'] (['.'] :: rest.map Component.text)⟩ := ofComponents_relative (by simp)
    have relative : isAbsolute (ofComponents ([.curDir] ++ rest)) = false := by
      rw [spelled]
      exact join_slash_ne (by decide) (by decide)
    have listed : pieces (ofComponents ([.curDir] ++ rest)) = ['.'] :: rest.map Component.text := by
      rw [spelled, pieces]
      exact splitOn_join texts
    refine ⟨?_, by simpa using relative⟩
    rw [components, relative, listed]
    simp only [Bool.false_eq_true, ↓reduceIte]
    rw [filter_texts plain, map_component_text plain]
    rfl
  · simp only [List.nil_append]
    cases rest with
    | nil => exact ⟨rfl, rfl⟩
    | cons c cs =>
      have first := plain c List.mem_cons_self
      have others : ∀ d ∈ cs, d.Plain := fun d member => plain d (List.mem_cons_of_mem _ member)
      have spelled : ofComponents (c :: cs) = ⟨join ['/'] ((c :: cs).map Component.text)⟩ := by
        refine ofComponents_relative ?_
        rintro ⟨⟩
        cases first
      have relative : isAbsolute (ofComponents (c :: cs)) = false := by
        rw [spelled]
        exact join_slash_ne first.text_clean.1 first.text_clean.2.1
      have listed : pieces (ofComponents (c :: cs)) = (c :: cs).map Component.text := by
        rw [spelled, pieces]
        exact splitOn_join (texts_clean plain)
      refine ⟨?_, by simpa using relative⟩
      rw [components, relative, listed]
      simp only [Bool.false_eq_true, ↓reduceIte, List.map_cons, first.text_clean.2.2]
      rw [filter_texts others, map_component_text others, component_text first]

/-- A path spelled from the first components of another has these. -/
theorem components_start {p : PathBuf} {init more : List Component}
    (shape : components p = init ++ more) (filled : init ≠ []) :
    components (ofComponents init) = init ∧ isAbsolute (ofComponents init) = isAbsolute p ∧
      ∀ c ∈ more, c.Plain := by
  obtain ⟨front, rest, whole, clean, first⟩ := components_shape p
  have fronts : front = [.rootDir] ∨ front = [.curDir] ∨ front = [] := by
    rcases first with ⟨root, -⟩ | ⟨relative, -⟩
    · exact .inl root
    · exact .inr relative
  have absolute : isAbsolute p = decide (front = [.rootDir]) := by
    rcases first with ⟨rfl, yes⟩ | ⟨rfl | rfl, no⟩
    · simpa using yes
    · simpa using no
    · simpa using no
  obtain ⟨inside, rfl, rfl⟩ : ∃ inside, init = front ++ inside ∧ rest = inside ++ more := by
    rw [whole] at shape
    rcases List.append_eq_append_iff.mp shape with ⟨mid, rfl, same⟩ | ⟨mid, rfl, rfl⟩
    · exact ⟨mid, rfl, same⟩
    · rcases first with ⟨single, -⟩ | ⟨single | single, -⟩
      · obtain ⟨-, rfl⟩ := List.append_eq_singleton_iff.mp single |>.resolve_left (by simp [filled])
        exact ⟨[], by simp, rfl⟩
      · obtain ⟨-, rfl⟩ := List.append_eq_singleton_iff.mp single |>.resolve_left (by simp [filled])
        exact ⟨[], by simp, rfl⟩
      · exact absurd (List.append_eq_nil_iff.mp single).1 filled
  obtain ⟨spelled, root⟩ := components_ofComponents
    (fun c member => clean c (List.mem_append_left _ member)) fronts
  exact ⟨spelled, root.trans absolute.symm, fun c member => clean c (List.mem_append_right _ member)⟩

/-! ## Joining -/

theorem isAbsolute_iff (p : PathBuf) : isAbsolute p = true ↔ (components p).head? = some .rootDir := by
  obtain ⟨front, rest, shape, plain, first⟩ := components_shape p
  rw [shape]
  rcases first with ⟨rfl, root⟩ | ⟨rfl | rfl, relative⟩
  · simp [root]
  · simp [relative]
  · rw [relative, List.nil_append]
    refine ⟨fun bad => (by cases bad), fun head => ?_⟩
    have clean := plain _ (List.mem_of_mem_head? (Option.mem_def.mpr head))
    cases clean

private theorem pieces_slash (front back : Text) :
    pieces ⟨front ++ '/' :: back⟩ = pieces ⟨front⟩ ++ pieces ⟨back⟩ := by
  unfold pieces
  rw [splitOn_append rfl, List.filter_append]

/-- The names of a joined path are the names of its parts. -/
theorem pieces_pathJoin {p q : PathBuf} (filled : p.text ≠ []) (relative : isAbsolute q = false) :
    pieces (pathJoin p q) = pieces p ++ pieces q ∧ isAbsolute (pathJoin p q) = isAbsolute p := by
  unfold pathJoin
  rw [relative, if_neg Bool.false_ne_true]
  have head : ∀ more, isAbsolute ⟨p.text ++ more⟩ = isAbsolute p := by
    intro more
    obtain ⟨c, cs, shape⟩ := List.exists_cons_of_ne_nil filled
    rw [isAbsolute, isAbsolute, shape, List.cons_append, startsWith_cons, startsWith_cons]
    rfl
  split
  · rename_i ends
    refine ⟨?_, head _⟩
    have slash := ends.resolve_left filled
    obtain ⟨front, shape⟩ : ∃ front, p.text = front ++ ['/'] := by
      rcases List.eq_nil_or_concat p.text with none | ⟨front, last, shape⟩
      · exact absurd none filled
      · rw [List.concat_eq_append] at shape
        rw [shape, List.getLast?_concat] at slash
        cases slash
        exact ⟨front, shape⟩
    have left : pieces p = pieces ⟨front⟩ := by
      have cut := pieces_slash front []
      rw [← shape] at cut
      exact cut.trans (List.append_nil _)
    rw [left, shape, List.append_assoc, List.singleton_append]
    exact pieces_slash front q.text
  · exact ⟨pieces_slash p.text q.text, head _⟩

theorem isAbsolute_pathJoin {p : PathBuf} (root : isAbsolute p = true) (q : PathBuf) :
    isAbsolute (pathJoin p q) = true := by
  obtain ⟨rest, shape⟩ := startsWith_iff.mp root
  unfold pathJoin
  split
  · assumption
  · rw [shape]
    split <;> exact startsWith_append ['/'] _

private theorem component_ne_curDir (piece : Text) : component piece ≠ .curDir := by
  unfold component
  split <;> exact nofun

/-- Joining a relative path puts its components behind those of the base. -/
theorem components_pathJoin {p q : PathBuf} (filled : p.text ≠ []) (relative : isAbsolute q = false) :
    components (pathJoin p q) = components p ++ (components q).filter (· ≠ .curDir) := by
  obtain ⟨listed, absolute⟩ := pieces_pathJoin filled relative
  have keep : ∀ ps : List Text, (ps.map component).filter (· ≠ .curDir) = ps.map component := by
    intro ps
    refine List.filter_eq_self.mpr fun c member => ?_
    obtain ⟨piece, -, rfl⟩ := List.mem_map.mp member
    simpa using component_ne_curDir piece
  have right : (components q).filter (· ≠ .curDir) = ((pieces q).filter (· ≠ ['.'])).map component := by
    unfold components
    rw [relative, if_neg Bool.false_ne_true]
    cases pieces q with
    | nil => rfl
    | cons first rest =>
      by_cases dot : first = ['.']
      · subst dot
        exact keep _
      · have other : component first ≠ .curDir := component_ne_curDir first
        simp only [dot, ↓reduceIte, List.filter_cons, other, ne_eq, not_false_eq_true, decide_true,
          List.map_cons]
        exact congrArg _ (keep _)
  rw [right, components, absolute, listed, List.filter_append, List.map_append]
  unfold components
  cases rel : isAbsolute p with
  | true => rfl
  | false =>
    simp only [Bool.false_eq_true, ↓reduceIte]
    cases shape : pieces p with
    | cons first rest => simp
    | nil =>
      obtain ⟨c, cs, text⟩ := List.exists_cons_of_ne_nil filled
      obtain ⟨head, tail, cut⟩ := List.exists_cons_of_ne_nil (splitOn_ne_nil (· == '/') cs)
      have other : (c == '/') = false := by
        rw [beq_eq_false_iff_ne]
        rintro rfl
        have root : isAbsolute p = true := by
          rw [isAbsolute, text]
          exact startsWith_append ['/'] cs
        rw [root] at rel
        cases rel
      rw [pieces, text, splitOn, other] at shape
      simp [cut] at shape

theorem asksDir_pathJoin {p q : PathBuf} (filled : p.text ≠ []) (relative : isAbsolute q = false)
    (some_piece : pieces q ≠ []) : asksDir (pathJoin p q) = asksDir q := by
  have some_text : q.text ≠ [] := by
    intro empty
    rw [pieces, empty] at some_piece
    exact some_piece rfl
  have ends : (pathJoin p q).text.getLast? = q.text.getLast? := by
    unfold pathJoin
    rw [relative, if_neg Bool.false_ne_true]
    split
    · exact List.getLast?_append_of_ne_nil _ some_text
    · rw [List.getLast?_append_of_ne_nil _ (by simp), List.getLast?_cons_of_ne_nil some_text]
  rw [asksDir, asksDir, ends, (pieces_pathJoin filled relative).1,
    List.getLast?_append_of_ne_nil _ some_piece]

/-! ## A neighbour of a path -/

/-- A path ends in a name or has none. -/
theorem fileName_cases (p : PathBuf) :
    fileName p = none ∨ ∃ comps name, components p = comps ++ [.normal name] := by
  rcases List.eq_nil_or_concat (components p) with empty | ⟨comps, last, shape⟩
  · left
    simp [fileName, empty]
  · rw [List.concat_eq_append] at shape
    cases last with
    | normal name => exact .inr ⟨comps, name, shape⟩
    | rootDir => left; simp [fileName, shape]
    | curDir => left; simp [fileName, shape]
    | parentDir => left; simp [fileName, shape]

theorem join_getLast? (parts : List Text) {last : Text} (filled : last ≠ []) :
    (join ['/'] (parts ++ [last])).getLast? = last.getLast? := by
  induction parts with
  | nil => rfl
  | cons part parts ih =>
    have some_char : join ['/'] (parts ++ [last]) ≠ [] := by
      intro empty
      rw [empty] at ih
      exact filled (List.getLast?_eq_none_iff.mp ih.symm)
    obtain ⟨next, rest, shape⟩ : ∃ next rest, parts ++ [last] = next :: rest :=
      List.exists_cons_of_ne_nil (by simp)
    rw [shape] at ih some_char
    rw [List.cons_append, shape, join_cons_cons, List.getLast?_append_of_ne_nil _ (by simp),
      List.getLast?_cons_of_ne_nil some_char, ih]

/-- A path spelled from components ends in its last one. -/
theorem asksDir_ofComponents {front init : List Component} {last : Component}
    (plain : ∀ c ∈ init ++ [last], c.Plain)
    (shape : front = [.rootDir] ∨ front = [.curDir] ∨ front = []) :
    asksDir (ofComponents (front ++ (init ++ [last]))) = false := by
  have clean := (plain last (by simp)).text_clean
  have noSlash : last.text.getLast? ≠ some '/' := fun slash => clean.2.1 (List.mem_of_getLast? slash)
  have decide_false : ∀ (q : PathBuf) (parts : List Text), q.text.getLast? = last.text.getLast? →
      pieces q = parts ++ [last.text] → asksDir q = false := by
    intro q parts ends listed
    simp [asksDir, ends, listed, noSlash, clean.2.2]
  have texts : (init ++ [last]).map Component.text = init.map Component.text ++ [last.text] := by simp
  rcases shape with rfl | rfl | rfl
  · refine decide_false _ (init.map Component.text) ?_ ((pieces_absolute plain).trans texts)
    have some_char : join ['/'] (init.map Component.text ++ [last.text]) ≠ [] := by
      intro empty
      have ends := join_getLast? (init.map Component.text) clean.1
      rw [empty] at ends
      exact clean.1 (List.getLast?_eq_none_iff.mp ends.symm)
    simp only [List.cons_append, List.nil_append, ofComponents, texts]
    rw [List.getLast?_cons_of_ne_nil some_char, join_getLast? _ clean.1]
  · have spelled : ofComponents ([.curDir] ++ (init ++ [last])) =
        ⟨join ['/'] (['.'] :: init.map Component.text ++ [last.text])⟩ := by
      rw [ofComponents_relative (by simp)]
      simp [Component.text]
    refine decide_false _ (['.'] :: init.map Component.text) ?_ ?_
    · rw [spelled]
      exact join_getLast? _ clean.1
    · rw [spelled, pieces]
      refine splitOn_join fun text member => ?_
      rw [List.cons_append, ← texts] at member
      rcases List.mem_cons.mp member with rfl | member
      · decide
      · exact texts_clean plain text member
  · have spelled : ofComponents ([] ++ (init ++ [last])) =
        ⟨join ['/'] (init.map Component.text ++ [last.text])⟩ := by
      rw [ofComponents_relative, List.nil_append, texts]
      intro root
      have member := List.mem_of_mem_head? (Option.mem_def.mpr root)
      cases plain _ member
    refine decide_false _ (init.map Component.text) ?_ ?_
    · rw [spelled]
      exact join_getLast? _ clean.1
    · rw [spelled, pieces, ← texts]
      exact splitOn_join (texts_clean plain)

/-- A path with another name at its end has the same components in front. -/
theorem components_sibling {p : PathBuf} {comps : List Component} {name other : Text}
    (shape : components p = comps ++ [.normal name]) (plain : Component.Plain (.normal other)) :
    components (ofComponents (comps ++ [.normal other])) = comps ++ [.normal other] ∧
      isAbsolute (ofComponents (comps ++ [.normal other])) = isAbsolute p ∧
      asksDir (ofComponents (comps ++ [.normal other])) = false ∧ components (ofComponents comps) = comps ∧ isAbsolute (ofComponents comps) = isAbsolute p := by
  obtain ⟨front, rest, whole, clean, first⟩ := components_shape p
  obtain ⟨init, rfl⟩ : ∃ init, rest = init ++ [.normal name] := by
    rcases List.eq_nil_or_concat rest with rfl | ⟨init, last, rfl⟩
    · rw [whole, List.append_nil] at shape
      rcases first with ⟨rfl, -⟩ | ⟨rfl | rfl, -⟩
      · have bad := List.append_inj_right' (show [] ++ [Component.rootDir] = _ from shape) rfl
        simp at bad
      · have bad := List.append_inj_right' (show [] ++ [Component.curDir] = _ from shape) rfl
        simp at bad
      · simp at shape
    · rw [List.concat_eq_append, ← List.append_assoc] at whole
      rw [whole] at shape
      obtain ⟨-, same⟩ := List.append_inj' shape rfl
      exact ⟨init, by rw [List.concat_eq_append, same]⟩
  rw [whole, ← List.append_assoc] at shape
  obtain ⟨rfl, -⟩ := List.append_inj' shape rfl
  have cleanInit : ∀ c ∈ init, c.Plain := fun c member => clean c (by simp [member])
  have cleanOther : ∀ c ∈ init ++ [.normal other], c.Plain := by
    intro c member
    rcases List.mem_append.mp member with member | member
    · exact cleanInit c member
    · rw [List.mem_singleton.mp member]
      exact plain
  have fronts : front = [.rootDir] ∨ front = [.curDir] ∨ front = [] := by
    rcases first with ⟨root, -⟩ | ⟨relative, -⟩
    · exact .inl root
    · exact .inr relative
  have absolute : isAbsolute p = decide (front = [.rootDir]) := by
    rcases first with ⟨rfl, yes⟩ | ⟨rfl | rfl, no⟩
    · simpa using yes
    · simpa using no
    · simpa using no
  rw [List.append_assoc, absolute]
  obtain ⟨spelled, root⟩ := components_ofComponents cleanOther fronts
  obtain ⟨spelledInit, rootInit⟩ := components_ofComponents cleanInit fronts
  exact ⟨spelled, root, asksDir_ofComponents cleanOther fronts, spelledInit, rootInit⟩

end Path

end Devit
