import Devit.FetchUrl

/-! What a robots file says, and what is read off it. A file is groups of agents with rules;
the longest rule that matches decides, and of two equal ones the one that allows. The reader
keeps the rules behind the last agent only, and lets any rule that allows decide. -/
namespace Devit
open Text

namespace RobotsGroups
open FetchUrl (RobotsPolicy RobotsRules fieldValue readRule bestRule robotsPolicyFor toLowercase)

structure Rule where
  allow : Bool
  path : Text

/-- What a line of the file says. -/
inductive Record where
  | agent (name : Text)
  | rule (rule : Rule)

/-- A line without its comment; the case of the letters of its field does not matter. -/
def recordOf (raw : Text) : Option Record :=
  let line := trim (raw.takeWhile (· ≠ '#'))
  let low := toLowercase line
  if startsWith "user-agent:".toList low then some (.agent (fieldValue line))
  else if startsWith "allow:".toList low then some (.rule ⟨true, fieldValue line⟩)
  else if startsWith "disallow:".toList low then some (.rule ⟨false, fieldValue line⟩)
  else none

def records (robots : Text) : List Record := (lines robots).filterMap recordOf

/-- Agents that are named one behind the other, and the rules behind them. -/
structure Group where
  others : List Text
  last : Text
  rules : List Rule

def Group.agents (group : Group) : List Text := group.others ++ [group.last]

/-- The rules before the first agent, and the groups. -/
def split : List Record → List Rule × List Group
  | [] => ([], [])
  | .rule rule :: rest => (rule :: (split rest).1, (split rest).2)
  | .agent name :: rest =>
    match split rest with
    | ([], group :: groups) => ([], { group with others := name :: group.others } :: groups)
    | (rules, groups) => ([], ⟨[], name, rules⟩ :: groups)

def groups (robots : Text) : List Group := (split (records robots)).2

def isStar (agent : Text) : Bool := toLowercase agent = ['*']

/-- The rules for all agents. -/
def starRules (groups : List Group) : List Rule :=
  (groups.filter fun group => group.agents.any isStar).flatMap Group.rules

/-- The rules of the groups whose last agent stands for all. -/
def lastRules (groups : List Group) : List Rule :=
  (groups.filter fun group => isStar group.last).flatMap Group.rules

/-- An empty rule matches nothing. -/
def Rule.Matches (path : Text) (rule : Rule) : Prop :=
  rule.path ≠ [] ∧ startsWith rule.path path = true

instance (path : Text) (rule : Rule) : Decidable (rule.Matches path) :=
  inferInstanceAs (Decidable (_ ∧ _))

/-- A rule that matches forbids the path, and each one that allows it is shorter. -/
def Forbidden (path : Text) (rules : List Rule) : Prop :=
  ∃ d ∈ rules, (d.allow = false ∧ d.Matches path) ∧
    ∀ a ∈ rules, a.allow = true → a.Matches path → a.path.length < d.path.length

instance (path : Text) (rules : List Rule) : Decidable (Forbidden path rules) :=
  inferInstanceAs (Decidable (∃ d ∈ rules, _))

/-- What the file says of a path. -/
def longestRule (path robots : Text) : RobotsPolicy :=
  if Forbidden path (starRules (groups robots)) then .disallow else .allow

/-- A rule forbids the path, and none that allows it matches, nor is empty. -/
def Refused (path : Text) (rules : List Rule) : Prop :=
  (∃ d ∈ rules, d.allow = false ∧ d.Matches path) ∧
    ∀ a ∈ rules, a.allow = true → a.path ≠ [] ∧ ¬ a.Matches path

/-- Where the longest rule forbids the path, a rule of a group whose last agent stands for all
does, and none of these allows it or is an empty one that allows; elsewhere none of these
forbids it, or one of these allows it or is an empty one that allows. -/
structure Consistent (path : Text) (groups : List Group) : Prop where
  forbidden : Forbidden path (starRules groups) → Refused path (lastRules groups)
  allowed : ¬ Forbidden path (starRules groups) → ¬ Refused path (lastRules groups)

/-! ## What the reader keeps -/

/-- The rules that the reader keeps. -/
def kept : Bool → List Record → List Rule
  | _, [] => []
  | _, .agent name :: rest => kept (isStar name) rest
  | inStar, .rule rule :: rest => if inStar then rule :: kept inStar rest else kept inStar rest

def pathsOf (allow : Bool) (rules : List Rule) : List Text :=
  (rules.filter fun rule => rule.allow = allow).map Rule.path

theorem lastRules_cons (group : Group) (groups : List Group) :
    lastRules (group :: groups) =
      (if isStar group.last then group.rules else []) ++ lastRules groups := by
  rw [lastRules, List.filter_cons]
  split
  · rw [List.flatMap_cons, lastRules]
  · rw [List.nil_append, lastRules]

/-- The reader keeps the rules behind the last agent of a group. -/
theorem kept_eq (inStar : Bool) (records : List Record) :
    kept inStar records =
      (if inStar then (split records).1 else []) ++ lastRules (split records).2 := by
  induction records generalizing inStar with
  | nil => cases inStar <;> rfl
  | cons record rest ih =>
    cases record with
    | rule rule =>
      rw [kept, ih]
      cases inStar <;> rfl
    | agent name =>
      rw [kept, ih, split]
      rcases split rest with ⟨lead, following⟩
      cases lead with
      | nil =>
        cases following with
        | nil => simp [lastRules_cons]
        | cons group following => simp [lastRules_cons]
      | cons rule lead => simp [lastRules_cons]

theorem readRule_eq (rules : RobotsRules) (raw : Text) :
    readRule rules raw =
      match recordOf raw with
      | some (.agent name) => { rules with inStar := isStar name }
      | some (.rule rule) =>
        if rules.inStar then
          if rule.allow then { rules with allows := rules.allows ++ [rule.path] }
          else { rules with disallows := rules.disallows ++ [rule.path] }
        else rules
      | none => rules := by
  unfold readRule recordOf
  dsimp only
  generalize trim (raw.takeWhile (· ≠ '#')) = line
  by_cases empty : line = []
  · rw [empty]
    rfl
  rw [if_neg empty]
  by_cases agent : startsWith "user-agent:".toList (toLowercase line) = true
  · rw [if_pos agent, if_pos agent]
    rfl
  rw [if_neg agent, if_neg agent]
  by_cases allow : startsWith "allow:".toList (toLowercase line) = true
  · rw [if_pos allow, if_pos allow]
    cases rules.inStar <;> rfl
  rw [if_neg allow, if_neg allow]
  by_cases disallow : startsWith "disallow:".toList (toLowercase line) = true
  · rw [if_pos disallow, if_pos disallow]
    cases rules.inStar <;> rfl
  rw [if_neg disallow, if_neg disallow]
  cases rules.inStar <;> rfl

theorem reads_kept (raws : List Text) (rules : RobotsRules) :
    (raws.foldl readRule rules).allows =
        rules.allows ++ pathsOf true (kept rules.inStar (raws.filterMap recordOf)) ∧
      (raws.foldl readRule rules).disallows =
        rules.disallows ++ pathsOf false (kept rules.inStar (raws.filterMap recordOf)) := by
  induction raws generalizing rules with
  | nil => simp [kept, pathsOf]
  | cons raw raws ih =>
    rw [List.foldl_cons, (ih _).1, (ih _).2, readRule_eq]
    cases found : recordOf raw with
    | none => simp [found]
    | some record =>
      rw [List.filterMap_cons_some found]
      cases record with
      | agent name => exact ⟨rfl, rfl⟩
      | rule rule =>
        obtain ⟨allow, path⟩ := rule
        obtain ⟨inStar, allows, disallows⟩ := rules
        cases inStar <;> cases allow <;> simp [kept, pathsOf]

/-! ## What it decides -/

theorem bestRule_isSome (path : Text) (rules : List Text) :
    (bestRule path rules).isSome = true ↔ ∃ rule ∈ rules, startsWith rule path = true := by
  have general : ∀ best : Option Text, (rules.foldl (fun best rule =>
      if startsWith rule path ∧ best.all (fun b => byteLen b < byteLen rule) then some rule
      else best) best).isSome = true ↔
        best.isSome = true ∨ ∃ rule ∈ rules, startsWith rule path = true := by
    induction rules with
    | nil => simp
    | cons rule rules ih =>
      intro best
      rw [List.foldl_cons, ih]
      by_cases here : startsWith rule path = true
      · cases best with
        | none => simp [here]
        | some b => split <;> simp
      · simp [here]
  exact (general none).trans (by simp)

theorem mem_pathsOf {allow : Bool} {rules : List Rule} {path : Text} :
    path ∈ pathsOf allow rules ↔ ⟨allow, path⟩ ∈ rules := by
  rw [pathsOf, List.mem_map]
  constructor
  · rintro ⟨rule, member, rfl⟩
    obtain ⟨inside, same⟩ := List.mem_filter.mp member
    obtain rfl : rule.allow = allow := by simpa using same
    exact inside
  · intro inside
    exact ⟨⟨allow, path⟩, List.mem_filter.mpr ⟨inside, by simp⟩, rfl⟩

/-- **The reader.** -/
theorem robotsPolicyFor_eq_disallow (path robots : Text) :
    robotsPolicyFor path robots = .disallow ↔ Refused path (lastRules (groups robots)) := by
  have rules := reads_kept (lines robots) ⟨false, [], []⟩
  rw [kept_eq, if_neg Bool.false_ne_true] at rules
  simp only [List.nil_append] at rules
  change (_ = pathsOf true (lastRules (groups robots))) ∧
    (_ = pathsOf false (lastRules (groups robots))) at rules
  have allowed : (bestRule path (pathsOf true (lastRules (groups robots)))).isSome = true ↔
      ¬ ∀ a ∈ lastRules (groups robots), a.allow = true → a.path ≠ [] ∧ ¬ a.Matches path := by
    rw [bestRule_isSome]
    constructor
    · rintro ⟨rule, member, starts⟩ none
      obtain ⟨filled, other⟩ := none ⟨true, rule⟩ (mem_pathsOf.mp member) rfl
      exact other ⟨filled, starts⟩
    · intro some_rule
      by_contra none
      refine some_rule fun a member allows => ?_
      have inside : a.path ∈ pathsOf true (lastRules (groups robots)) :=
        mem_pathsOf.mpr (by rw [← allows]; exact member)
      refine ⟨fun empty => none ⟨a.path, inside, ?_⟩, fun both => none ⟨a.path, inside, both.2⟩⟩
      rw [empty]
      rfl
  have refused : (bestRule path
        ((pathsOf false (lastRules (groups robots))).filter (· ≠ []))).isSome = true ↔
      ∃ d ∈ lastRules (groups robots), d.allow = false ∧ d.Matches path := by
    rw [bestRule_isSome]
    constructor
    · rintro ⟨rule, member, starts⟩
      obtain ⟨inside, filled⟩ := List.mem_filter.mp member
      exact ⟨⟨false, rule⟩, mem_pathsOf.mp inside, rfl, by simpa using filled, starts⟩
    · rintro ⟨d, member, forbids, filled, starts⟩
      refine ⟨d.path, List.mem_filter.mpr ⟨mem_pathsOf.mpr ?_, by simpa using filled⟩, starts⟩
      rw [← forbids]
      exact member
  unfold robotsPolicyFor
  dsimp only
  rw [rules.1, rules.2]
  split
  · rename_i allows
    exact iff_of_false (by rintro ⟨⟩) fun refuses => allowed.mp allows refuses.2
  · rename_i other
    have none := not_not.mp fun some_rule => other (allowed.mpr some_rule)
    split
    · rename_i forbids
      exact iff_of_true rfl ⟨refused.mp forbids, none⟩
    · rename_i quiet
      exact iff_of_false (by rintro ⟨⟩) fun refuses => quiet (refused.mpr refuses.1)

/-- **Robots.** The reader decides as the longest rule does exactly if the rules behind the last
agents of groups are consistent with it. -/
theorem robots_exact_iff (path robots : Text) :
    robotsPolicyFor path robots = longestRule path robots ↔ Consistent path (groups robots) := by
  have reader := robotsPolicyFor_eq_disallow path robots
  unfold longestRule
  by_cases forbidden : Forbidden path (starRules (groups robots))
  · rw [if_pos forbidden, reader]
    exact ⟨fun refused => ⟨fun _ => refused, fun other => absurd forbidden other⟩,
      fun consistent => consistent.forbidden forbidden⟩
  · rw [if_neg forbidden]
    have allows : robotsPolicyFor path robots = .allow ↔
        ¬ robotsPolicyFor path robots = .disallow := by
      cases robotsPolicyFor path robots <;> simp
    rw [allows, reader]
    exact ⟨fun open' => ⟨fun other => absurd other forbidden, fun _ => open'⟩,
      fun consistent => consistent.allowed forbidden⟩

/-- A file is read as it says where no agent stands behind the one for all, no rule that allows
is empty, and each rule that matches and allows is as long as those that forbid. -/
theorem consistent_of_single {path : Text} {groups : List Group}
    (single : ∀ group ∈ groups, group.agents.any isStar = isStar group.last)
    (filled : ∀ a ∈ starRules groups, a.allow = true → a.path ≠ [])
    (apart : ∀ a ∈ starRules groups, a.allow = true → a.Matches path →
      ∀ d ∈ starRules groups, d.allow = false → d.Matches path → d.path.length ≤ a.path.length) :
    Consistent path groups := by
  have same : lastRules groups = starRules groups := by
    rw [lastRules, starRules, List.filter_congr fun group member => (single group member).symm]
  rw [← same] at filled apart
  constructor
  · rw [← same]
    rintro ⟨d, member, forbids, longest⟩
    refine ⟨⟨d, member, forbids⟩, fun a inside allows => ⟨filled a inside allows, fun fits => ?_⟩⟩
    have short := apart a inside allows fits d member forbids.1 forbids.2
    exact absurd (longest a inside allows fits) (Nat.not_lt.mpr short)
  · rw [← same]
    rintro other ⟨⟨d, member, forbids⟩, none⟩
    exact other ⟨d, member, forbids, fun a inside allows fits =>
      absurd fits (none a inside allows).2⟩

/-- A longer rule that forbids is not followed; rules behind a second agent are not read; and an
empty rule that allows decides. -/
theorem longer_rule_ignored :
    (robotsPolicyFor "/private/x".toList
        "User-agent: *\nDisallow: /private\nAllow: /\n".toList = .allow ∧
      longestRule "/private/x".toList
        "User-agent: *\nDisallow: /private\nAllow: /\n".toList = .disallow) ∧
    (robotsPolicyFor "/x".toList "User-agent: *\nUser-agent: bot\nDisallow: /\n".toList = .allow ∧
      longestRule "/x".toList "User-agent: *\nUser-agent: bot\nDisallow: /\n".toList =
        .disallow) ∧
    (robotsPolicyFor "/x".toList "User-agent: *\nDisallow: /\nAllow:\n".toList = .allow ∧
      longestRule "/x".toList "User-agent: *\nDisallow: /\nAllow:\n".toList = .disallow) := by
  decide +kernel

end RobotsGroups

end Devit
