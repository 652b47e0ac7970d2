import Devit.ThinkingTags

/-! What the parser of thinking tags puts out, measured against the text that came in. Every
tag that it takes out is noted with the number of characters between it and the tag before, so
that the text without these tags can be told from the text alone. All of it is put out, but for
what stands before an opening tag that is the first tag of all. -/
namespace Devit.ThinkingTags
open Text ThinkingTagParser

/-- The text of the segments, one after the other. -/
def texts (segments : List ParsedSegment) : Text :=
  segments.flatMap fun
    | .thinking text => text
    | .content text => text

/-- Where a turn takes a tag out of the buffer. -/
def tagPlace (parser : ThinkingTagParser) : Option (Nat × Nat) :=
  if parser.inThinking then findClose parser.buffer
  else (findOpen parser.buffer).or (findClose parser.buffer)

/-- The tags that the loop takes out, each with the number of characters behind the last tag
and with its length, where so many characters were put out behind the last tag; and how many
then are. -/
def loopTags : Nat → Nat → ThinkingTagParser → List (Nat × Nat) × Nat
  | 0, since, _ => ([], since)
  | fuel + 1, since, parser =>
    match tagPlace parser with
    | none => ([], since + (texts parser.turn.1.1).length)
    | some (place, length) =>
      let (later, last) := loopTags fuel 0 parser.turn.1.2
      ((since + place, length) :: later, last)

/-- The tags that are taken out while a chunk is fed. -/
def feedTags (since : Nat) (parser : ThinkingTagParser) (content : Text) : List (Nat × Nat) × Nat :=
  let parser := { parser with buffer := parser.buffer ++ content }
  loopTags (parser.buffer.length + 1) since parser

/-- The tags that are taken out of all chunks. -/
def allTags : Nat → ThinkingTagParser → List Text → List (Nat × Nat)
  | _, _, [] => []
  | since, parser, chunk :: chunks =>
    (feedTags since parser chunk).1 ++
      allTags (feedTags since parser chunk).2 (parser.feed chunk).2 chunks

/-- The tags that a new parser recognises in a text that comes in chunks. -/
def recognised (chunks : List Text) : List (Nat × Nat) := allTags 0 .new chunks

/-- A text, and the text without the tags that are noted. -/
inductive Without : List (Nat × Nat) → Text → Text → Prop where
  | plain (text : Text) : Without [] text text
  | tag (member : tag ∈ openTags ++ closeTags) (later : Without tags rest out) :
      Without ((before.length, tag.length) :: tags) (before ++ (tag ++ rest)) (before ++ out)

/-- No text is lost: what is put out is the text without the tags that are recognised. -/
def Accounts (chunks : List Text) : Prop :=
  Without (recognised chunks) chunks.flatten (texts (feedAll .new chunks))

/-- With the first chunk that brings a tag there is an opening tag, and the one that is found
stands behind other text; some text without a tag came before. -/
def PrefacedBehind (buffer : Text) (chunks : List Text) : Prop :=
  ∃ done chunk rest, chunks = done ++ chunk :: rest ∧
    Free (openTags ++ closeTags) (buffer ++ done.flatten) ∧
    ∃ place length, findOpen (buffer ++ done.flatten ++ chunk) = some (place, length) ∧ place ≠ 0

def Prefaced (chunks : List Text) : Prop := PrefacedBehind [] chunks

variable {parser : ThinkingTagParser}

theorem texts_append (first second : List ParsedSegment) :
    texts (first ++ second) = texts first ++ texts second :=
  List.flatMap_append

theorem texts_segmentOf {kind : Text → ParsedSegment} (kinds : kind = .thinking ∨ kind = .content)
    (text : Text) : texts (segmentOf kind text) = text := by
  unfold segmentOf
  split
  · rename_i empty
    rw [empty]
    rfl
  · rcases kinds with rfl | rfl
    · exact List.append_nil text
    · exact List.append_nil text

/-- What a turn takes out of the buffer without putting it out. -/
def dropped (parser : ThinkingTagParser) : Text :=
  if parser.inThinking ∨ parser.seenAnyTag then []
  else
    match findOpen parser.buffer with
    | some (place, _) => parser.buffer.take place
    | none => []

/-- A pattern that is found lies there. -/
theorem findAny_found {tags : List Text} {buffer : Text} {place length : Nat}
    (filled : ∀ tag ∈ tags, tag ≠ []) (found : findAny tags buffer = some (place, length)) :
    ∃ before tag after, tag ∈ tags ∧ buffer = before ++ (tag ++ after) ∧
      place = before.length ∧ length = tag.length := by
  obtain ⟨tag, member, here⟩ := List.exists_of_findSome?_eq_some found
  obtain ⟨start, first, same⟩ := Option.map_eq_some_iff.mp here
  cases same
  have fits := find_fits (filled tag member) first
  obtain ⟨after, shape⟩ := startsWith_iff.mp (find_found first)
  refine ⟨buffer.take place, tag, after, member, ?_, ?_, rfl⟩
  · rw [← shape, List.take_append_drop]
  · rw [List.length_take]
    omega

/-- A tag is taken out of the buffer: what is before it is put out or dropped. -/
structure TakesOut (parser : ThinkingTagParser) (place length : Nat) : Prop where
  goes : parser.turn.2 = true
  seen : parser.turn.1.2.seenAnyTag = true
  parts : ∃ before tag after, tag ∈ openTags ++ closeTags ∧
    parser.buffer = before ++ (tag ++ after) ∧ place = before.length ∧ length = tag.length ∧
    dropped parser ++ texts parser.turn.1.1 = before ∧ parser.turn.1.2.buffer = after

/-- No tag is taken out: the buffer is put out up to what is kept. -/
structure Rests (parser : ThinkingTagParser) : Prop where
  stops : parser.turn.2 = false
  inThinking : parser.turn.1.2.inThinking = parser.inThinking
  seen : parser.turn.1.2.seenAnyTag = parser.seenAnyTag
  parts : texts parser.turn.1.1 ++ parser.turn.1.2.buffer = parser.buffer
  kept : dropped parser = []

theorem Rests.of_flushed {kind : Text → ParsedSegment} (kinds : kind = .thinking ∨ kind = .content)
    (turned : parser.turn = (parser.flushed kind, false)) (kept : dropped parser = []) :
    Rests parser := by
  have parts : (parser.flushed kind).2.inThinking = parser.inThinking ∧
      (parser.flushed kind).2.seenAnyTag = parser.seenAnyTag ∧
      texts (parser.flushed kind).1 ++ (parser.flushed kind).2.buffer = parser.buffer := by
    unfold flushed
    split
    · exact ⟨rfl, rfl,
        (congrArg (· ++ _) (texts_segmentOf kinds _)).trans (splitBytes_append _ _)⟩
    · exact ⟨rfl, rfl, rfl⟩
  obtain ⟨inThinking, seen, whole⟩ := parts
  exact ⟨by rw [turned], by rw [turned, inThinking], by rw [turned, seen], by rw [turned, whole],
    kept⟩

theorem TakesOut.of_taken {tags : List Text} {place length : Nat} {next : Bool}
    {kind : Option (Text → ParsedSegment)} (filled : ∀ tag ∈ tags, tag ≠ [])
    (among : tags ⊆ openTags ++ closeTags)
    (found : findAny tags parser.buffer = some (place, length))
    (turned : parser.turn = (parser.taken kind next (place, length), true))
    (kept : (∃ segment, (segment = .thinking ∨ segment = .content) ∧ kind = some segment ∧
        dropped parser = []) ∨ kind = none ∧ dropped parser = parser.buffer.take place) :
    TakesOut parser place length := by
  obtain ⟨before, tag, after, member, shape, rfl, rfl⟩ := findAny_found filled found
  refine ⟨by rw [turned], by rw [turned, taken], before, tag, after, among member, shape, rfl, rfl,
    ?_, ?_⟩
  · rw [turned, taken]
    rcases kept with ⟨segment, kinds, rfl, none⟩ | ⟨rfl, all⟩
    · rw [none, List.nil_append, Option.map_some, Option.getD_some, texts_segmentOf kinds, shape,
        List.take_left]
    · rw [all, shape, List.take_left]
      exact List.append_nil before
  · rw [turned, taken, shape, ← List.append_assoc, ← List.length_append, List.drop_left]

/-- Before the first tag, all of the buffer is kept. -/
theorem turn_waits {buffer : Text} (none : tagPlace ⟨false, false, buffer⟩ = none) :
    turn ⟨false, false, buffer⟩ = (([], ⟨false, false, buffer⟩), false) := by
  obtain ⟨opened, closed⟩ : findOpen buffer = .none ∧ findClose buffer = .none :=
    Option.or_eq_none_iff.mp none
  simp only [turn, opened, closed, Bool.false_eq_true, if_false]

theorem turn_rests (none : tagPlace parser = none) : Rests parser := by
  obtain ⟨inThinking, seen, buffer⟩ := parser
  cases inThinking with
  | true =>
    have closed : findClose buffer = .none := none
    exact .of_flushed (.inl rfl) (by simp only [turn, closed, if_true]) rfl
  | false =>
    obtain ⟨opened, closed⟩ : findOpen buffer = .none ∧ findClose buffer = .none :=
      Option.or_eq_none_iff.mp none
    cases seen with
    | true =>
      refine .of_flushed (.inr rfl) ?_ rfl
      simp only [turn, opened, closed, Bool.false_eq_true, if_false, if_true]
    | false =>
      have turned := turn_waits none
      refine ⟨by rw [turned], by rw [turned], by rw [turned], by rw [turned]; rfl, ?_⟩
      simp only [dropped, opened, Bool.false_eq_true, or_self, if_false]

theorem turn_takes {place length : Nat} (found : tagPlace parser = some (place, length)) :
    TakesOut parser place length := by
  obtain ⟨inThinking, seen, buffer⟩ := parser
  cases inThinking with
  | true =>
    have closed : findClose buffer = some (place, length) := found
    have turned : turn ⟨true, seen, buffer⟩ =
        (taken ⟨true, seen, buffer⟩ (some .thinking) false (place, length), true) := by
      simp only [turn, closed, if_true]
    exact .of_taken closeTags_filled (List.subset_append_right _ _) closed turned
      (.inl ⟨_, .inl rfl, rfl, rfl⟩)
  | false =>
    have either : (findOpen buffer).or (findClose buffer) = some (place, length) := found
    cases opened : findOpen buffer with
    | some first =>
      rw [opened] at either
      cases either
      have turned : turn ⟨false, seen, buffer⟩ = (taken ⟨false, seen, buffer⟩
          (if seen then some .content else none) true (place, length), true) := by
        simp only [turn, opened, Bool.false_eq_true, if_false]
      refine .of_taken openTags_filled (List.subset_append_left _ _) opened turned ?_
      cases seen with
      | true => exact .inl ⟨_, .inr rfl, rfl, rfl⟩
      | false =>
        exact .inr ⟨rfl, by simp only [dropped, opened, Bool.false_eq_true, or_self, if_false]⟩
    | none =>
      rw [opened, Option.none_or] at either
      have turned : turn ⟨false, seen, buffer⟩ =
          (taken ⟨false, seen, buffer⟩ (some .thinking) false (place, length), true) := by
        simp only [turn, opened, either, Bool.false_eq_true, if_false]
      refine .of_taken closeTags_filled (List.subset_append_right _ _) either turned
        (.inl ⟨_, .inl rfl, rfl, ?_⟩)
      simp only [dropped, opened]
      split <;> rfl

theorem dropped_seen (seen : parser.seenAnyTag = true) : dropped parser = [] :=
  if_pos (.inr seen)

/-! ## Runs -/

/-- **The loop.** The text that was put out behind the last tag, the buffer and all that is to
come are, without the tags, what the loop drops and puts out and what is left. -/
theorem loop_conserves {fuel : Nat} (enough : parser.buffer.length < fuel) (sent : Text) :
    ∃ front back, (loopTags fuel sent.length parser).2 = back.length ∧
      front ++ back = sent ++ (dropped parser ++ texts (loop fuel parser).1) ∧
      ∀ tags future out, Without tags (back ++ ((loop fuel parser).2.buffer ++ future)) out →
        Without ((loopTags fuel sent.length parser).1 ++ tags)
          (sent ++ (parser.buffer ++ future)) (front ++ out) := by
  induction fuel generalizing parser sent with
  | zero => omega
  | succ fuel ih =>
    rw [loopTags, loop]
    cases found : tagPlace parser with
    | none =>
      obtain ⟨stops, -, -, parts, kept⟩ := turn_rests found
      simp only [stops, Bool.false_eq_true, if_false, kept, List.nil_append]
      refine ⟨[], sent ++ texts parser.turn.1.1, by rw [List.length_append], rfl, ?_⟩
      intro tags future out later
      rw [← parts, List.append_assoc, ← List.append_assoc sent]
      exact later
    | some found_at =>
      obtain ⟨place, length⟩ := found_at
      obtain ⟨goes, seen, before, tag, after, member, shape, rfl, rfl, out, left⟩ :=
        turn_takes found
      have shorter : parser.turn.1.2.buffer.length < fuel := by
        rcases turn_goes parser with ⟨-, less⟩ | ⟨stops, -⟩
        · omega
        · rw [goes] at stops
          cases stops
      obtain ⟨front, back, counted, whole, rest⟩ := ih shorter []
      simp only [goes, if_true]
      refine ⟨sent ++ before ++ front, back, counted, ?_, ?_⟩
      · rw [dropped_seen seen, List.nil_append, List.nil_append] at whole
        rw [texts_append, ← out, List.append_assoc, whole]
        simp only [List.append_assoc]
      · intro tags future text later
        have behind : Without (((sent ++ before).length, tag.length) :: _)
            (sent ++ before ++ (tag ++ _)) (sent ++ before ++ _) :=
          .tag member (rest tags future text later)
        rw [List.length_append, List.nil_append, left] at behind
        rw [shape]
        simpa only [List.append_assoc, List.cons_append, List.length_nil] using behind

/-- A turn does not forget that a tag was seen, nor the tag that it takes out. -/
theorem turn_seen (seen : parser.seenAnyTag = true ∨ tagPlace parser ≠ none) :
    parser.turn.1.2.seenAnyTag = true := by
  cases found : tagPlace parser with
  | none =>
    obtain ⟨-, -, same, -, -⟩ := turn_rests found
    exact same.trans (seen.resolve_right fun some => some found)
  | some place => exact (turn_takes found).seen

theorem loop_last {fuel : Nat} : (loop (fuel + 1) parser).2 =
    if parser.turn.2 then (loop fuel parser.turn.1.2).2 else parser.turn.1.2 := by
  rw [loop]
  cases goes : parser.turn.2 with
  | true => simp only [goes, if_true]
  | false => simp only [goes, Bool.false_eq_true, if_false]

theorem loop_kept {fuel : Nat} (seen : parser.seenAnyTag = true) :
    (loop fuel parser).2.seenAnyTag = true := by
  induction fuel generalizing parser with
  | zero => exact seen
  | succ fuel ih =>
    have kept := turn_seen (.inl seen)
    rw [loop_last]
    split
    · exact ih kept
    · exact kept

theorem loop_seen {fuel : Nat} (seen : parser.seenAnyTag = true ∨ tagPlace parser ≠ none) :
    (loop (fuel + 1) parser).2.seenAnyTag = true := by
  have kept := turn_seen seen
  rw [loop_last]
  split
  · exact loop_kept kept
  · exact kept

/-- The parser with a chunk in its buffer. -/
def fed (parser : ThinkingTagParser) (chunk : Text) : ThinkingTagParser :=
  { parser with buffer := parser.buffer ++ chunk }

/-- **A chunk.** What the text behind the last tag, the buffer and the chunk come to. -/
theorem feed_conserves (parser : ThinkingTagParser) (chunk sent : Text) :
    ∃ front back, (feedTags sent.length parser chunk).2 = back.length ∧
      front ++ back = sent ++ (dropped (fed parser chunk) ++ texts (parser.feed chunk).1) ∧
      ∀ tags future out, Without tags (back ++ ((parser.feed chunk).2.buffer ++ future)) out →
        Without ((feedTags sent.length parser chunk).1 ++ tags)
          (sent ++ (parser.buffer ++ chunk ++ future)) (front ++ out) :=
  @loop_conserves (fed parser chunk) _ (Nat.lt_succ_self _) sent

theorem feed_seen {chunk : Text}
    (seen : parser.seenAnyTag = true ∨ tagPlace (fed parser chunk) ≠ none) :
    (parser.feed chunk).2.seenAnyTag = true :=
  @loop_seen (fed parser chunk) _ seen

theorem texts_flush (parser : ThinkingTagParser) : texts parser.flush = parser.buffer := by
  rw [flush]
  refine texts_segmentOf ?_ _
  split
  · exact .inl rfl
  · exact .inr rfl

/-- **Behind the first tag.** All text is put out. -/
theorem feedAll_seen (chunks : List Text) (seen : parser.seenAnyTag = true) (sent : Text) :
    Without (allTags sent.length parser chunks) (sent ++ (parser.buffer ++ chunks.flatten))
      (sent ++ texts (feedAll parser chunks)) := by
  induction chunks generalizing parser sent with
  | nil =>
    rw [List.flatten_nil, List.append_nil, feedAll, texts_flush]
    exact .plain _
  | cons chunk chunks ih =>
    obtain ⟨front, back, counted, whole, rest⟩ := feed_conserves parser chunk sent
    have later := rest _ _ _ (ih (feed_seen (.inl seen)) back)
    have kept : dropped (fed parser chunk) = [] := dropped_seen seen
    rw [kept, List.nil_append] at whole
    rw [← List.append_assoc front, whole] at later
    rw [allTags, counted, List.flatten_cons, feedAll, texts_append]
    simpa only [List.append_assoc] using later

theorem free_of_no_place {buffer : Text} {seen : Bool}
    (none : tagPlace ⟨false, seen, buffer⟩ = none) : Free (openTags ++ closeTags) buffer := by
  obtain ⟨opened, closed⟩ := Option.or_eq_none_iff.mp none
  intro tag member
  rcases List.mem_append.mp member with first | second
  · exact findAny_eq_none openTags_filled opened tag first
  · exact findAny_eq_none closeTags_filled closed tag second

theorem no_place_of_free {buffer : Text} {seen : Bool}
    (free : Free (openTags ++ closeTags) buffer) : tagPlace ⟨false, seen, buffer⟩ = none :=
  Option.or_eq_none_iff.mpr ⟨findAny_free (free.of_subset (List.subset_append_left _ _)),
    findAny_free (free.of_subset (List.subset_append_right _ _))⟩

theorem dropped_iff {buffer : Text} : dropped ⟨false, false, buffer⟩ ≠ [] ↔
    ∃ place length, findOpen buffer = some (place, length) ∧ place ≠ 0 := by
  cases opened : findOpen buffer with
  | none => simp [dropped, opened]
  | some found =>
    obtain ⟨place, length⟩ := found
    obtain ⟨before, tag, after, -, shape, rfl, rfl⟩ := findAny_found openTags_filled opened
    have front : dropped ⟨false, false, buffer⟩ = before := by
      simp only [dropped, opened, Bool.false_eq_true, or_self, if_false]
      rw [shape, List.take_left]
    rw [front]
    simp [List.length_eq_zero_iff]

theorem prefacedBehind_cons {buffer chunk : Text} {chunks : List Text}
    (free : Free (openTags ++ closeTags) buffer) :
    PrefacedBehind buffer (chunk :: chunks) ↔
      dropped ⟨false, false, buffer ++ chunk⟩ ≠ [] ∨ PrefacedBehind (buffer ++ chunk) chunks := by
  constructor
  · rintro ⟨done, first, rest, shape, clean, found⟩
    cases done with
    | nil =>
      cases shape
      rw [List.flatten_nil, List.append_nil] at found
      exact .inl (dropped_iff.mpr found)
    | cons start done =>
      cases shape
      rw [List.flatten_cons, ← List.append_assoc] at clean found
      exact .inr ⟨done, first, rest, rfl, clean, found⟩
  · rintro (lost | ⟨done, first, rest, rfl, clean, found⟩)
    · refine ⟨[], chunk, chunks, rfl, ?_, ?_⟩
      · rwa [List.flatten_nil, List.append_nil]
      · rw [List.flatten_nil, List.append_nil]
        exact dropped_iff.mp lost
    · refine ⟨chunk :: done, first, rest, rfl, ?_⟩
      rw [List.flatten_cons, ← List.append_assoc]
      exact ⟨clean, found⟩

/-- **Before the first tag.** Nothing is put out before it; what is not put out at all is what
stands before an opening one. -/
theorem feedAll_unseen {chunks : List Text} {buffer : Text}
    (free : Free (openTags ++ closeTags) buffer) :
    ∃ lost, (lost ≠ [] ↔ PrefacedBehind buffer chunks) ∧
      Without (allTags 0 ⟨false, false, buffer⟩ chunks) (buffer ++ chunks.flatten)
        (lost ++ texts (feedAll ⟨false, false, buffer⟩ chunks)) := by
  induction chunks generalizing buffer with
  | nil =>
    refine ⟨[], ⟨fun some => absurd rfl some, fun ⟨_, _, _, shape, _⟩ => by simp at shape⟩, ?_⟩
    rw [List.flatten_nil, List.append_nil, feedAll, texts_flush]
    exact .plain _
  | cons chunk chunks ih =>
    have split := @prefacedBehind_cons _ chunk chunks free
    rw [allTags, feedAll, List.flatten_cons, ← List.append_assoc]
    cases found : tagPlace (fed ⟨false, false, buffer⟩ chunk) with
    | none =>
      obtain ⟨lost, exactly, rest⟩ := ih (free_of_no_place found)
      have quiet : turn (fed ⟨false, false, buffer⟩ chunk) =
          (([], fed ⟨false, false, buffer⟩ chunk), false) := turn_waits found
      have waits : feed ⟨false, false, buffer⟩ chunk = ([], fed ⟨false, false, buffer⟩ chunk) := by
        change loop (_ + 1) (fed ⟨false, false, buffer⟩ chunk) = _
        simp only [loop, quiet, Bool.false_eq_true, if_false]
      have untagged : feedTags 0 ⟨false, false, buffer⟩ chunk = ([], 0) := by
        change loopTags (_ + 1) 0 (fed ⟨false, false, buffer⟩ chunk) = _
        simp only [loopTags, found, quiet]
        rfl
      rw [waits, untagged]
      refine ⟨lost, ?_, rest⟩
      rw [split, exactly, or_iff_right]
      exact fun some => some (turn_rests found).kept
    | some place =>
      obtain ⟨front, back, counted, whole, rest⟩ := feed_conserves ⟨false, false, buffer⟩ chunk []
      have seen : (feed ⟨false, false, buffer⟩ chunk).2.seenAnyTag = true :=
        feed_seen (.inr (by rw [found]; exact Option.some_ne_none _))
      have later := rest _ _ _ (feedAll_seen chunks seen back)
      rw [← List.append_assoc front, whole] at later
      refine ⟨dropped (fed ⟨false, false, buffer⟩ chunk), ?_, ?_⟩
      · rw [split, fed, or_iff_left]
        rintro ⟨done, -, -, -, clean, -⟩
        have none := @no_place_of_free _ false
          (clean.within (List.prefix_append (buffer ++ chunk) done.flatten).isInfix)
        cases none.symm.trans found
      · rw [← counted] at later
        rw [texts_append]
        simpa only [List.append_assoc, List.nil_append, List.length_nil] using later

/-- A text is without its tags in one way. -/
theorem Without.unique {tags : List (Nat × Nat)} {text out out' : Text}
    (first : Without tags text out) (second : Without tags text out') : out = out' := by
  induction first generalizing out' with
  | plain text =>
    cases second
    rfl
  | @tag tag tags rest out before member later ih =>
    generalize gap : before.length = size at second
    generalize shape : before ++ (tag ++ rest) = text at second
    generalize long : tag.length = length at second
    cases second with
    | @tag tag' _ rest' out' before' member' later' =>
      obtain ⟨rfl, behind⟩ := List.append_inj shape gap
      obtain ⟨rfl, rfl⟩ := List.append_inj behind long
      rw [ih later']

/-- **Nothing is lost** exactly where the first chunk with a tag does not bring an opening tag
behind other text. -/
theorem feedAll_accounts_iff (chunks : List Text) : Accounts chunks ↔ ¬ Prefaced chunks := by
  obtain ⟨lost, exactly, rest⟩ := @feedAll_unseen chunks [] (by decide)
  rw [List.nil_append] at rest
  constructor
  · intro accounts prefaced
    have same := accounts.unique rest
    exact exactly.mpr prefaced (List.self_eq_append_left.mp same)
  · intro bare
    have nothing : lost = [] := not_not.mp fun some => bare (exactly.mp some)
    rw [nothing, List.nil_append] at rest
    exact rest

/-- The text before the first tag is dropped. -/
theorem preface_dropped : feedAll .new ["Hi <think>a</think>b".toList] =
      [.thinking ['a'], .content ['b']] ∧ ¬ Accounts ["Hi <think>a</think>b".toList] := by
  have shown : feedAll .new ["Hi <think>a</think>b".toList] =
      [.thinking ['a'], .content ['b']] := by decide +kernel
  have tags : recognised ["Hi <think>a</think>b".toList] = [(3, 7), (1, 8)] := by decide +kernel
  refine ⟨shown, fun accounts => ?_⟩
  rw [Accounts, shown, tags] at accounts
  have parts : ["Hi <think>a</think>b".toList].flatten =
      "Hi ".toList ++ ("<think>".toList ++ (['a'] ++ ("</think>".toList ++ ['b']))) := by decide
  have whole := @Without.tag "<think>".toList _ _ _ "Hi ".toList (by decide)
    (@Without.tag "</think>".toList _ _ _ ['a'] (by decide) (.plain ['b']))
  rw [← parts] at whole
  exact absurd (accounts.unique whole) (by decide)

end Devit.ThinkingTags
