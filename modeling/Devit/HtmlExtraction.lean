import Devit.Library.Search
import Devit.Library.Utf8

/-! The text of a page. A page is sanitized as a whole, or its title, paragraphs and code
blocks are taken out; the result, and each code block, is cut behind a fixed number of bytes,
which panics inside a character. -/
namespace Devit
open Text

/-- What a compiled expression does: the matches replaced, the first group of the first match
and of all matches, and the matches themselves. -/
structure HtmlRegex where
  replaceAll : Text → Text → Text
  captures : Text → Option (Option Text)
  capturesIter : Text → List (Option Text)
  findIter : Text → List Text

/-- The regular expressions, and the arithmetic of scores in floating point: the density of a
paragraph from the length of its text and of its links, whether that is more than 0.3, and the
quality of a text from its length and its paragraphs. -/
structure HtmlCrates where
  compile : Text → Option HtmlRegex
  Score : Type
  density : Nat → Nat → Score
  dense : Score → Bool
  quality : Nat → List Score → Score

structure ArticleContent (crates : HtmlCrates) where
  text : Text
  title : Option Text
  qualityScore : crates.Score
  hasCode : Bool
  paragraphCount : Nat

namespace HtmlExtraction

def maxText : Nat := 100000

/-- `text[..100_000]` and `truncate`, for a text that is longer. -/
def cut (text : Text) : Option Text :=
  if byteLen text > maxText then sliceTo maxText text else some text

/-- Replacements of literals, one after the other. -/
def replaceEach (pairs : List (String × String)) (text : Text) : Text :=
  pairs.foldl (fun out (old, new) => replace old.toList new.toList out) text

def basicEntities : List (String × String) :=
  [("&amp;", "&"), ("&lt;", "<"), ("&gt;", ">"), ("&quot;", "\""), ("&#39;", "'")]

def decodeEntities (text : Text) : Text :=
  replaceEach (basicEntities ++ [("&nbsp;", " "), ("&#x27;", "'"), ("&#x2F;", "/")]) text

def scriptPatterns : List String :=
  ["(?is)<script[^>]*>.*?</script>", "(?is)<style[^>]*>.*?</style>",
    "(?is)<noscript[^>]*>.*?</noscript>"]

def boilerplatePatterns : List String :=
  ["(?is)<nav[^>]*>.*?</nav>", "(?is)<header[^>]*>.*?</header>", "(?is)<footer[^>]*>.*?</footer>",
    "(?is)<aside[^>]*>.*?</aside>", "(?is)<menu[^>]*>.*?</menu>",
    "(?is)<div[^>]*class=\"[^\"]*(?:sidebar|menu|nav|footer|header|ad|advertisement|banner|" ++
      "popup|modal|cookie)[^\"]*\"[^>]*>.*?</div>"]

def contentPatterns : List String :=
  ["(?is)<article[^>]*>(.*?)</article>", "(?is)<main[^>]*>(.*?)</main>",
    "(?is)<[^>]+role\\s*=\\s*[\"']main[\"'][^>]*>(.*?)</[^>]+>",
    "(?is)<div[^>]*class=\"[^\"]*(?:content|post|entry|article)[^\"]*\"[^>]*>(.*?)</div>"]

def paragraphPatterns : List String :=
  ["(?is)<p[^>]*>(.*?)</p>", "(?is)<li[^>]*>(.*?)</li>", "(?is)<h[1-6][^>]*>(.*?)</h[1-6]>",
    "(?is)<blockquote[^>]*>(.*?)</blockquote>"]

section
variable (crates : HtmlCrates)

/-- The matches of a pattern replaced, if it compiles. -/
def replaceAll (pattern new : String) (text : Text) : Text :=
  match crates.compile pattern.toList with
  | some re => re.replaceAll text new.toList
  | none => text

def removeEach (patterns : List String) (text : Text) : Text :=
  patterns.foldl (fun out pattern => replaceAll crates pattern "" out) text

/-- The first group of the first match. -/
def firstGroup (pattern : String) (text : Text) : Option (Option Text) :=
  (crates.compile pattern.toList).bind fun re => re.captures text

/-- The first group of each match. -/
def groups (pattern : String) (text : Text) : List Text :=
  match crates.compile pattern.toList with
  | some re => (re.capturesIter text).filterMap id
  | none => []

/-! ## sanitize_html_to_text -/

/-- A page without its scripts, tags and entities, before it is cut. -/
def sanitized (html : Text) : Text :=
  let out := removeEach crates scriptPatterns html
  let out := replaceAll crates "(?i) on[a-zA-Z]+\\s*=\\s*(\\\"[^\\\"]*\\\"|'[^']*')" "" out
  let out := replaceAll crates "(?i)href\\s*=\\s*\\\"\\s*javascript:[^\\\"]*\\\"" "href=\"#\"" out
  let out := replaceAll crates "(?is)<[^>]+>" "" out
  replaceAll crates "\\s+" " " (replaceEach basicEntities out)

/-- Nothing where the cut panics. -/
def sanitizeHtmlToText (html : Text) : Option Text := cut (sanitized crates html)

/-! ## extract_article_content -/

def stripTags (html : Text) : Text := decodeEntities (replaceAll crates "<[^>]+>" "" html)

def extractTitle (html : Text) : Option Text :=
  let title := (firstGroup crates "(?is)<title[^>]*>(.*?)</title>" html).map fun group =>
    trim (decodeEntities (group.getD []))
  let heading := (firstGroup crates "(?is)<h1[^>]*>(.*?)</h1>" html).map fun group =>
    trim (stripTags crates (group.getD []))
  (title.filter fun title => title ≠ []) <|>
    heading.filter fun title => title ≠ [] ∧ byteLen title < 200

def findMainContent (html : Text) : Option Text :=
  contentPatterns.findSome? fun pattern =>
    (firstGroup crates pattern html).join.filter fun content => byteLen content > 200

structure ScoredParagraph where
  text : Text
  score : crates.Score

def calculateTextDensity (html text : Text) : crates.Score :=
  let links := groups crates "(?is)<a[^>]*>(.*?)</a>" html
  crates.density text.length (links.map fun link => (stripTags crates link).length).sum

def extractQualityParagraphs (html : Text) : List (ScoredParagraph crates) :=
  paragraphPatterns.flatMap fun pattern =>
    (groups crates pattern html).filterMap fun raw =>
      let text := trim (stripTags crates raw)
      if byteLen text < 20 then none
      else
        let score := calculateTextDensity crates raw text
        if crates.dense score then some ⟨text, score⟩ else none

/-- The main content without navigation, from which the parts are taken. -/
def cleanContent (html : Text) : Text :=
  let out := removeEach crates scriptPatterns html
  let content := (findMainContent crates out).getD
    ((firstGroup crates "(?is)<body[^>]*>(.*?)</body>" out).join.getD out)
  removeEach crates boilerplatePatterns content

/-- The blocks of code, as they stand in the page. -/
def preBlocks (html : Text) : List Text :=
  match crates.compile "(?is)<pre[^>]*>.*?</pre>".toList with
  | some re => re.findIter (cleanContent crates html)
  | none => []

/-- A block of code between fences. -/
def fenced (code : Text) : Text := "\n```\n".toList ++ trim code ++ "\n```\n".toList

/-- The parts of the text, with a block of code unless one of them has it. -/
def addBlock (parts : List Text) (block : Text) : List Text :=
  if parts.any fun part => contains (trim block) part then parts else parts ++ [block]

/-- The text before it is cut; nothing where a block of code panics. -/
def articleText (html : Text) : Option Text := do
  let blocks ← (preBlocks crates html).mapM fun block =>
    (sanitizeHtmlToText crates block).map fenced
  let title := (extractTitle crates html).map fun title => "# ".toList ++ title ++ ['\n']
  let paragraphs := (extractQualityParagraphs crates (cleanContent crates html)).map
    ScoredParagraph.text
  let parts := title.toList ++ paragraphs.filter fun text => text ≠ []
  some (join "\n\n".toList (blocks.foldl addBlock parts))

/-- Nothing where a cut panics. -/
def extractArticleContent (html : Text) : Option (ArticleContent crates) := do
  let whole ← articleText crates html
  let paragraphs := extractQualityParagraphs crates (cleanContent crates html)
  let text ← cut whole
  some {
    text := text
    title := extractTitle crates html
    qualityScore := crates.quality whole.length (paragraphs.map ScoredParagraph.score)
    hasCode := preBlocks crates html ≠ []
    paragraphCount := paragraphs.length }

end

/-! ## Cuts -/

/-- A text that is short enough, or has a character end where it is cut. -/
def Cuttable (text : Text) : Prop := byteLen text ≤ maxText ∨ IsBoundary maxText text

/-- The text is returned, or the beginning of it that is allowed. -/
def Bounded (whole : Text) (result : Option Text) : Prop :=
  ∃ out, result = some out ∧ byteLen out ≤ maxText ∧ out <+: whole

theorem cut_bounded {text out : Text} (done : cut text = some out) :
    byteLen out ≤ maxText ∧ out <+: text := by
  unfold cut at done
  split at done
  · obtain ⟨inside, size⟩ := sliceTo_eq_some done
    exact ⟨Nat.le_of_eq size, inside⟩
  · rename_i short
    cases done
    exact ⟨Nat.not_lt.mp short, List.prefix_refl _⟩

theorem cut_isSome {text : Text} : (cut text).isSome = true ↔ Cuttable text := by
  unfold cut Cuttable
  split
  · rename_i long
    rw [sliceTo_isSome, or_iff_right (Nat.not_le.mpr long)]
  · rename_i short
    exact iff_of_true rfl (.inl (Nat.not_lt.mp short))

/-- **One cut.** -/
theorem cut_bounded_iff {text : Text} : Bounded text (cut text) ↔ Cuttable text := by
  rw [← cut_isSome, Option.isSome_iff_exists]
  exact ⟨fun ⟨out, done, _⟩ => ⟨out, done⟩, fun ⟨out, done⟩ => ⟨out, done, cut_bounded done⟩⟩

variable {crates : HtmlCrates} {html : Text}

theorem articleText_isSome : (articleText crates html).isSome = true ↔
    ∀ block ∈ preBlocks crates html, Cuttable (sanitized crates block) := by
  have blocks : (((preBlocks crates html).mapM fun block =>
      (sanitizeHtmlToText crates block).map fenced).isSome = true) ↔
        ∀ block ∈ preBlocks crates html, Cuttable (sanitized crates block) := by
    rw [mapM_isSome]
    refine forall₂_congr fun block _ => ?_
    rw [Option.isSome_map, sanitizeHtmlToText, cut_isSome]
  rw [← blocks, articleText]
  cases (preBlocks crates html).mapM fun block =>
    (sanitizeHtmlToText crates block).map fenced <;> rfl

/-- The article is returned with its text, or the beginning of it that is allowed. -/
def ArticleBounded (crates : HtmlCrates) (html : Text) : Prop :=
  ∃ whole content, articleText crates html = some whole ∧
    extractArticleContent crates html = some content ∧
      byteLen content.text ≤ maxText ∧ content.text <+: whole

theorem article_bounded_iff : ArticleBounded crates html ↔
    (∀ block ∈ preBlocks crates html, Cuttable (sanitized crates block)) ∧
      ∀ whole, articleText crates html = some whole → Cuttable whole := by
  rw [← articleText_isSome]
  constructor
  · rintro ⟨whole, content, built, extracted, -⟩
    refine ⟨by rw [built]; rfl, fun other same => ?_⟩
    cases built.symm.trans same
    rw [← cut_isSome]
    rw [extractArticleContent, built] at extracted
    simp only [Option.bind_eq_bind, Option.bind_some] at extracted
    obtain ⟨text, done, -⟩ := Option.bind_eq_some_iff.mp extracted
    rw [done]
    rfl
  · rintro ⟨some_text, cuttable⟩
    obtain ⟨whole, built⟩ := Option.isSome_iff_exists.mp some_text
    obtain ⟨text, done⟩ := Option.isSome_iff_exists.mp (cut_isSome.mpr (cuttable whole built))
    obtain ⟨short, inside⟩ := cut_bounded done
    have extracted : ∃ content, extractArticleContent crates html = some content ∧
        content.text = text := by
      rw [extractArticleContent, built]
      simp only [Option.bind_eq_bind, Option.bind_some, done]
      exact ⟨_, rfl, rfl⟩
    obtain ⟨content, extracted, rfl⟩ := extracted
    exact ⟨whole, content, built, extracted, short, inside⟩

/-- **Extraction.** A page is sanitized to a text that is bounded exactly if a character ends at
the bound or the text is shorter; an article is extracted so exactly if that holds of each of
its blocks of code and of its text. -/
theorem extraction_bounded_iff (crates : HtmlCrates) (html : Text) :
    (Bounded (sanitized crates html) (sanitizeHtmlToText crates html) ↔
      Cuttable (sanitized crates html)) ∧
    (ArticleBounded crates html ↔
      (∀ block ∈ preBlocks crates html, Cuttable (sanitized crates block)) ∧
        ∀ whole, articleText crates html = some whole → Cuttable whole) :=
  ⟨cut_bounded_iff, article_bounded_iff⟩

/-! ## A page that is cut inside a character -/

/-- Regular expressions on a page without tags and spaces, which match nothing. -/
def plainCrates : HtmlCrates where
  compile _ := some ⟨fun text _ => text, fun _ => none, fun _ => [], fun _ => []⟩
  Score := Unit
  density _ _ := ()
  dense _ := true
  quality _ _ := ()

/-- One byte, and many characters of two bytes. -/
def accents (n : Nat) : Text := 'a' :: List.replicate n 'é'

theorem byteLen_accents (n : Nat) : byteLen (accents n) = 1 + 2 * n := by
  have wide : 'é'.utf8Size = 2 := by decide
  have narrow : 'a'.utf8Size = 1 := by decide
  rw [accents, byteLen_cons, narrow]
  induction n with
  | zero => rfl
  | succ n ih =>
    rw [List.replicate_succ, byteLen_cons, wide]
    omega

/-- The text has no end of a character behind an even number of bytes. -/
theorem accents_boundary {n k : Nat} (boundary : IsBoundary k (accents n)) : k = 0 ∨ k % 2 = 1 := by
  obtain ⟨front, back, shape, size⟩ := boundary
  cases front with
  | nil => exact .inl size.symm
  | cons c front =>
    obtain ⟨rfl, rest⟩ := List.cons.inj shape
    obtain ⟨-, same, -⟩ := List.append_eq_replicate_iff.mp rest.symm
    rw [same] at size
    have whole := byteLen_accents front.length
    rw [accents, size] at whole
    omega

theorem sanitized_accents (n : Nat) : sanitized plainCrates (accents n) = accents n := by
  have kept : ∀ pairs : List (String × String), (∀ pair ∈ pairs, '&' ∈ pair.1.toList) →
      replaceEach pairs (accents n) = accents n := by
    intro pairs entities
    induction pairs with
    | nil => rfl
    | cons pair pairs ih =>
      obtain ⟨old, new⟩ := pair
      have absent : contains old.toList (accents n) = false := by
        rw [← Bool.not_eq_true, contains_iff]
        intro inside
        have member := inside.subset (entities (old, new) List.mem_cons_self)
        rcases List.mem_cons.mp member with same | later
        · exact absurd same (by decide)
        · exact absurd (List.eq_of_mem_replicate later) (by decide)
      have later := ih fun other member => entities other (List.mem_cons_of_mem _ member)
      rw [replaceEach, List.foldl_cons]
      dsimp only
      rw [replace_absent absent]
      exact later
  exact kept basicEntities (by decide)

/-- A page of `a` and fifty thousand accents panics. -/
theorem accents_panic :
    sanitizeHtmlToText plainCrates (accents 50000) = none ∧
      ¬ Bounded (sanitized plainCrates (accents 50000))
        (sanitizeHtmlToText plainCrates (accents 50000)) := by
  have panics : sanitizeHtmlToText plainCrates (accents 50000) = none := by
    rw [sanitizeHtmlToText, sanitized_accents, ← Option.not_isSome_iff_eq_none, cut_isSome]
    rintro (short | boundary)
    · rw [byteLen_accents] at short
      exact absurd short (by decide)
    · exact absurd (accents_boundary boundary) (by decide)
  refine ⟨panics, ?_⟩
  rintro ⟨out, same, -⟩
  rw [panics] at same
  cases same

end HtmlExtraction

end Devit
