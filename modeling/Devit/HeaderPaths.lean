import Devit.DiffSections

/-! The paths that a section names in its headers. The prefix of a side is stripped as often
as it is found, so a path below a directory that is called like the prefix loses that
directory as well, and the patch is made in another file. -/
namespace Devit
open Text

namespace HeaderPaths
open PatchParser DiffSections

/-! ## Stripping a prefix -/

theorem go_length_le (pat : Text) (fuel : Nat) (s : Text) :
    (trimStartMatches.go pat fuel s).length ≤ s.length := by
  induction fuel generalizing s with
  | zero => exact Nat.le_refl _
  | succ fuel ih =>
    rw [trimStartMatches.go]
    cases found : stripPrefix pat s with
    | none => exact Nat.le_refl _
    | some rest =>
      rw [stripPrefix_eq_some found, List.length_append]
      exact (ih rest).trans (Nat.le_add_left ..)

theorem trimStartMatches_length_le (pat s : Text) : (trimStartMatches pat s).length ≤ s.length :=
  go_length_le pat s.length s

/-- Fuel beyond the length of the text makes no difference. -/
theorem go_fuel {pat : Text} (filled : pat ≠ []) {fuel : Nat} {s : Text}
    (enough : s.length ≤ fuel) :
    trimStartMatches.go pat fuel s = trimStartMatches pat s := by
  have some_char := List.length_pos_iff.mpr filled
  unfold trimStartMatches
  induction fuel using Nat.strongRecOn generalizing s with
  | ind fuel ih =>
    cases fuel with
    | zero => rw [Nat.le_zero.mp enough]
    | succ fuel =>
      cases size : s.length with
      | zero =>
        obtain rfl := List.eq_nil_of_length_eq_zero size
        cases pat with
        | nil => exact absurd rfl filled
        | cons c cs => rfl
      | succ n =>
        rw [trimStartMatches.go, trimStartMatches.go]
        cases found : stripPrefix pat s with
        | none => rfl
        | some rest =>
          have shorter := congrArg List.length (stripPrefix_eq_some found)
          rw [List.length_append] at shorter
          have more := @ih fuel (by omega) rest (by omega)
          have less := @ih n (by omega) rest (by omega)
          exact more.trans less.symm

/-- Behind one prefix the stripping goes on. -/
theorem trimStartMatches_append {pat : Text} (filled : pat ≠ []) (s : Text) :
    trimStartMatches pat (pat ++ s) = trimStartMatches pat s := by
  have some_char := List.length_pos_iff.mpr filled
  obtain ⟨n, size⟩ : ∃ n, (pat ++ s).length = n + 1 :=
    ⟨pat.length - 1 + s.length, by rw [List.length_append]; omega⟩
  have rest : s.length ≤ n := by
    rw [List.length_append] at size
    omega
  rw [trimStartMatches, size, trimStartMatches.go, stripPrefix_append]
  exact go_fuel filled rest

theorem trimStartMatches_eq_self {pat : Text} (filled : pat ≠ []) {s : Text} :
    trimStartMatches pat s = s ↔ startsWith pat s = false := by
  constructor
  · intro same
    by_contra starts
    obtain ⟨rest, rfl⟩ := startsWith_iff.mp (by simpa using starts)
    rw [trimStartMatches_append filled] at same
    have sizes := congrArg List.length same
    have shorter := trimStartMatches_length_le pat rest
    have some_char := List.length_pos_iff.mpr filled
    rw [List.length_append] at sizes
    omega
  · intro other
    have none : stripPrefix pat s = none := by
      rw [startsWith] at other
      simpa using other
    unfold trimStartMatches
    cases s with
    | nil => rfl
    | cons c cs => rw [List.length_cons, trimStartMatches.go, none]

/-! ## The headers of a section -/

/-- The path on a header line: what is behind a tab is cut, and the prefix is stripped. -/
theorem headerPath_label {side : Char} (not_slash : side ≠ '/') (not_tab : side ≠ '\t')
    (a b c d : Char) (p : Text) :
    headerPath [side, '/'] (a :: b :: c :: d :: side :: '/' :: p) =
      some ⟨trimStartMatches [side, '/'] (p.takeWhile (· ≠ '\t'))⟩ := by
  have cut : ((a :: b :: c :: d :: side :: '/' :: p).drop 4).takeWhile (· ≠ '\t') =
      [side, '/'] ++ p.takeWhile (· ≠ '\t') := by
    simp [not_tab]
  have some_path : [side, '/'] ++ p.takeWhile (· ≠ '\t') ≠ "/dev/null".toList := by
    intro same
    exact not_slash (List.cons.inj same).1
  rw [headerPath, cut]
  simp only [if_neg some_path]
  rw [trimStartMatches_append (List.cons_ne_nil _ _)]

/-- The path comes back exactly if it has no tab and does not begin with the prefix. -/
theorem label_round_trip {side : Char} {p : Text} :
    trimStartMatches [side, '/'] (p.takeWhile (· ≠ '\t')) = p ↔
      startsWith [side, '/'] p = false ∧ '\t' ∉ p := by
  constructor
  · intro same
    have short := trimStartMatches_length_le [side, '/'] (p.takeWhile (· ≠ '\t'))
    have whole : (p.takeWhile (· ≠ '\t')) = p := by
      refine (List.takeWhile_prefix _).eq_of_length_le ?_
      calc p.length = (trimStartMatches [side, '/'] (p.takeWhile (· ≠ '\t'))).length := by rw [same]
        _ ≤ _ := short
    rw [whole] at same
    refine ⟨(trimStartMatches_eq_self (List.cons_ne_nil _ _)).mp same, fun tab => ?_⟩
    have all := List.takeWhile_eq_self_iff.mp whole '\t' tab
    simp at all
  · rintro ⟨other, no_tab⟩
    have whole : (p.takeWhile (· ≠ '\t')) = p := by
      refine List.takeWhile_eq_self_iff.mpr fun c member => ?_
      simp only [ne_eq, decide_not, Bool.not_eq_true', decide_eq_false_iff_not]
      rintro rfl
      exact no_tab member
    rw [whole, trimStartMatches_eq_self (List.cons_ne_nil _ _)]
    exact other

/-- **Paths.** A section whose headers are `--- a/p` and `+++ b/p` is read with the path `p`
on both sides exactly if `p` is not below a directory `a` or `b` and has no tab. -/
theorem paths_round_trip_iff {total : Nat} {front body after : List Text} {p : Text}
    {file : FilePatch} (passed : ∀ line ∈ front, PassedOver line)
    (hunks : ∀ line, body.head? = some line → startsWith "@@".toList line = true)
    (read : parseFilePatch total
      (front ++ ("--- a/".toList ++ p) :: ("+++ b/".toList ++ p) :: body) = .ok (file, after)) :
    (file.oldPath = some ⟨p⟩ ∧ file.newPath = some ⟨p⟩) ↔
      startsWith "a/".toList p = false ∧ startsWith "b/".toList p = false ∧ '\t' ∉ p := by
  have labels : ∀ line ∈ front ++ ["--- a/".toList ++ p, "+++ b/".toList ++ p],
      PassedOver line := by
    intro line member
    rcases List.mem_append.mp member with inside | label
    · exact passed line inside
    · rcases List.mem_cons.mp label with rfl | label
      · exact passed_label '-' (.inl rfl) _
      · obtain rfl := List.mem_singleton.mp label
        exact passed_label '+' (.inr rfl) _
  have split : front ++ ("--- a/".toList ++ p) :: ("+++ b/".toList ++ p) :: body =
      front ++ ["--- a/".toList ++ p, "+++ b/".toList ++ p] ++ body := by simp
  rw [parseFilePatch_eq, split, parseFrom_front labels] at read
  obtain ⟨⟨h, left⟩, header, read⟩ := Except.bind_eq_ok read
  obtain ⟨⟨own, behind⟩, -, read⟩ := Except.bind_eq_ok read
  cases read
  have stopped : h = readFront .empty (front ++ ["--- a/".toList ++ p, "+++ b/".toList ++ p]) := by
    cases body with
    | nil =>
      cases header
      rfl
    | cons line rest =>
      rw [parseHeader_hunk (hunks line rfl)] at header
      cases header
      rfl
  have old : h.oldPath =
      some ⟨trimStartMatches "a/".toList (p.takeWhile (· ≠ '\t'))⟩ := by
    rw [stopped, readFront, List.foldl_append]
    have named := @headerPath_label 'a' (by decide) (by decide) '-' '-' '-' ' ' p
    exact congrArg (· <|> _) named
  have new : h.newPath =
      some ⟨trimStartMatches "b/".toList (p.takeWhile (· ≠ '\t'))⟩ := by
    rw [stopped, readFront, List.foldl_append]
    have named := @headerPath_label 'b' (by decide) (by decide) '+' '+' '+' ' ' p
    exact congrArg (· <|> _) named
  rw [fileOf, old, new, Option.some.injEq, Option.some.injEq, PathBuf.mk.injEq, PathBuf.mk.injEq]
  exact (and_congr (@label_round_trip 'a' p) (@label_round_trip 'b' p)).trans
    ⟨fun ⟨⟨old, no_tab⟩, new, _⟩ => ⟨old, new, no_tab⟩,
      fun ⟨old, new, no_tab⟩ => ⟨⟨old, no_tab⟩, new, no_tab⟩⟩

/-- A section that changes one line. -/
def changeOf (p : Text) : List Text :=
  ["diff --git a/x b/x".toList, "--- a/".toList ++ p, "+++ b/".toList ++ p, "@@ -1 +1 @@".toList,
    "-old".toList, "+new".toList]

theorem plain_path_kept : ∃ file after,
    parseFilePatch 6 (changeOf "src/lib.rs".toList) = .ok (file, after) ∧
      file.oldPath = some ⟨"src/lib.rs".toList⟩ ∧ file.newPath = some ⟨"src/lib.rs".toList⟩ := by
  obtain ⟨⟨file, after⟩, read⟩ :
      ∃ read, parseFilePatch 6 (changeOf "src/lib.rs".toList) = .ok read := ⟨_, rfl⟩
  refine ⟨file, after, read, (@paths_round_trip_iff _ ["diff --git a/x b/x".toList] _ _ _ _
    (fun line member => ?_) ?_ read).mpr (by decide)⟩
  · rw [List.mem_singleton.mp member]
    exact passed_section_line _
  · rintro line ⟨⟩
    rfl

/-- The file `a/x` is taken for the file `x` on the old side, and `b/x` for `x` on the new
one. -/
theorem prefix_directory_lost :
    (∃ file after, parseFilePatch 6 (changeOf "a/x".toList) = .ok (file, after) ∧
      file.oldPath = some ⟨"x".toList⟩ ∧ file.newPath = some ⟨"a/x".toList⟩) ∧
    ∃ file after, parseFilePatch 6 (changeOf "b/x".toList) = .ok (file, after) ∧
      file.oldPath = some ⟨"b/x".toList⟩ ∧ file.newPath = some ⟨"x".toList⟩ :=
  ⟨⟨_, _, rfl, by decide +kernel, by decide +kernel⟩,
    _, _, rfl, by decide +kernel, by decide +kernel⟩

end HeaderPaths

end Devit
