import Devit.Library.Memo
import Devit.Library.Runs
import Devit.SearchWeb

/-! Whether the cache of the web search can be seen. An entry is kept under the query in lower
case with the engine and the time range, and with the mode; what the engines are asked also
depends on the letters of the query, on how many results are wanted and how long they may take.
Searches that share a key get the results of the first. -/
namespace Devit
open Text

namespace SearchTransparency
open SearchWeb

/-- The cache after some searches. -/
def after (web : Web) (calls : List SearchCall) : SearchCache :=
  Runs.final (execute web) (searchCache web) calls

/-- Every reply is that of a search that asks the engines, but for the mark that it is from the
cache, and holds no more results than are wanted. -/
def Transparent (web : Web) (calls : List SearchCall) : Prop :=
  ∀ done call rest q, calls = done ++ call :: rest → readParameters web call.params = .ok q →
    ∃ reply fromCache, (execute web (after web done) call).1 = .ok reply ∧
      reply = { freshReply web q call.stamp with fromCache := fromCache } ∧
      reply.results.length ≤ q.inquiry.maxResults

/-- The time ranges that the engines know. -/
def knownRanges : List Text := ["day".toList, "week".toList, "month".toList, "year".toList]

/-- Two searches that the engines cannot tell apart. -/
structure Alike (q q' : Parameters) : Prop where
  engine : q.preferredEngine = q'.preferredEngine
  query : q.inquiry.query = q'.inquiry.query
  maxResults : q.inquiry.maxResults = q'.inquiry.maxResults
  timeRange : q.inquiry.timeRange.filter (· ∈ knownRanges) =
    q'.inquiry.timeRange.filter (· ∈ knownRanges)
  maxPerDomain : DuckDuckGoBackend.maxPerDomain q.inquiry.safeMode =
    DuckDuckGoBackend.maxPerDomain q'.inquiry.safeMode
  timeoutMs : q.inquiry.timeoutMs = q'.inquiry.timeoutMs

/-- A search that finds an entry under its key is alike to each earlier one with that key that
asked the engines, while the entry of that one lives. -/
def Unmixed (web : Web) (calls : List SearchCall) : Prop :=
  ∀ before call between later rest q q',
    calls = before ++ call :: (between ++ later :: rest) →
    readParameters web call.params = .ok q → readParameters web later.params = .ok q' →
    searchKey web q = searchKey web q' →
    (after web before).get call.started (searchKey web q) = none →
    ((after web (before ++ call :: between)).get later.started
      (searchKey web q')).isSome = true →
    later.started - call.stored < (searchCache web).ttl → Alike q q'

variable {web : Web} {q q' : Parameters}

/-! ## What the engines are asked -/

theorem rangeCode_known {codes : List (String × String)} (timeRange : Option Text)
    (names : codes.map (·.1.toList) = knownRanges) :
    rangeCode codes timeRange = rangeCode codes (timeRange.filter (· ∈ knownRanges)) := by
  cases timeRange with
  | none => rfl
  | some range =>
    by_cases known : range ∈ knownRanges
    · simp [rangeCode, Option.filter, known]
    · have none_found : (codes.find? fun code => code.1.toList = range) = none := by
        rw [List.find?_eq_none]
        intro code listed same
        rw [decide_eq_true_eq] at same
        exact known (names ▸ same ▸ List.mem_map_of_mem listed)
      simp [rangeCode, Option.filter, known, none_found]

theorem rangeCode_alike (alike : Alike q q') {codes : List (String × String)}
    (names : codes.map (·.1.toList) = knownRanges) :
    rangeCode codes q.inquiry.timeRange = rangeCode codes q'.inquiry.timeRange := by
  rw [rangeCode_known _ names, alike.timeRange, ← rangeCode_known _ names]

theorem getBackend_alike {engine : SearchEngine} (alike : Alike q q')
    {search : Inquiry → Except Text (List SearchResult)}
    (there : getBackend web engine = some search) : search q.inquiry = search q'.inquiry := by
  cases engine with
  | duckDuckGo =>
    cases there
    simp only [DuckDuckGoBackend.search, alike.query, alike.maxResults, alike.maxPerDomain,
      alike.timeoutMs]
    rw [rangeCode_alike alike rfl]
  | brave =>
    obtain ⟨apiKey, -, rfl⟩ := Option.map_eq_some_iff.mp there
    simp only [BraveBackend.search, alike.query, alike.maxResults, alike.timeoutMs]
    rw [rangeCode_alike alike rfl]
  | searXNG =>
    obtain ⟨baseUrl, -, rfl⟩ := Option.map_eq_some_iff.mp there
    simp only [SearXNGBackend.search, alike.query, alike.maxResults, alike.timeoutMs]
    rw [rangeCode_alike alike rfl]
  | auto => cases there

theorem tryEngine_congr {i i' : Inquiry} {search : Inquiry → Except Text (List SearchResult)}
    (same : search i = search i') (attempt left : Nat) (lastError : Option Text) :
    tryEngine search i attempt left lastError = tryEngine search i' attempt left lastError := by
  induction left generalizing attempt lastError with
  | zero => rfl
  | succ left ih =>
    rw [tryEngine, tryEngine, same]
    cases search i' with
    | ok results => rfl
    | error e => simp only [ih]

theorem tryEngines_alike (alike : Alike q q') (preferredEngine : SearchEngine) (maxRetries : Nat)
    (engines : List SearchEngine) (lastError : Option Text) :
    tryEngines web q.inquiry preferredEngine maxRetries engines lastError =
      tryEngines web q'.inquiry preferredEngine maxRetries engines lastError := by
  induction engines generalizing lastError with
  | nil => rfl
  | cons engine engines ih =>
    rw [tryEngines, tryEngines]
    cases there : getBackend web engine with
    | none => exact ih lastError
    | some search =>
      dsimp only
      rw [tryEngine_congr (getBackend_alike alike there)]
      split <;> simp only [ih]

theorem attemptOf_alike (alike : Alike q q') : attemptOf web q = attemptOf web q' := by
  unfold attemptOf searchWithFallback
  rw [alike.engine, tryEngines_alike alike]

/-! ## How many results there are -/

theorem gather_length {limit maxPerDomain : Nat} {g : Gathered} {found : List SearchResult}
    (room : g.out.length < limit) : (gather limit maxPerDomain g found).out.length ≤ limit := by
  induction found generalizing g with
  | nil => exact Nat.le_of_lt room
  | cons r rest ih =>
    rw [gather]
    dsimp only
    split
    · exact ih room
    · split
      · exact ih room
      · split
        · rw [List.length_append, List.length_singleton]
          exact room
        · rename_i below
          exact ih (Nat.not_le.mp below)

theorem parseResults_length {html : Text} {limit maxPerDomain : Nat} (some_wanted : 0 < limit) :
    (DuckDuckGoBackend.parseResults web html limit maxPerDomain).length ≤ limit := by
  unfold DuckDuckGoBackend.parseResults
  dsimp only
  split
  · rename_i none_found
    refine gather_length ?_
    rw [none_found]
    exact some_wanted
  · exact gather_length some_wanted

theorem itemResults_length (snippetField : String) (source : Text) (items : List Json)
    (maxResults : Nat) :
    (itemResults web snippetField source items maxResults).length ≤ maxResults :=
  (List.length_filterMap_le _ _).trans (List.length_take_le _ _)

theorem getBackend_length {engine : SearchEngine} {i : Inquiry} {results : List SearchResult}
    {search : Inquiry → Except Text (List SearchResult)} (some_wanted : 0 < i.maxResults)
    (there : getBackend web engine = some search) (ran : search i = .ok results) :
    results.length ≤ i.maxResults := by
  cases engine with
  | duckDuckGo =>
    cases there
    obtain ⟨_, -, ran⟩ := Except.bind_eq_ok ran
    obtain ⟨body, -, ran⟩ := Except.bind_eq_ok ran
    split at ran
    · cases ran
    · cases ran
      exact parseResults_length some_wanted
  | brave =>
    obtain ⟨apiKey, -, rfl⟩ := Option.map_eq_some_iff.mp there
    obtain ⟨_, -, ran⟩ := Except.bind_eq_ok ran
    obtain ⟨body, -, ran⟩ := Except.bind_eq_ok ran
    obtain ⟨json, -, ran⟩ := Except.bind_eq_ok ran
    cases ran
    exact itemResults_length _ _ _ _
  | searXNG =>
    obtain ⟨baseUrl, -, rfl⟩ := Option.map_eq_some_iff.mp there
    obtain ⟨_, -, ran⟩ := Except.bind_eq_ok ran
    obtain ⟨body, -, ran⟩ := Except.bind_eq_ok ran
    obtain ⟨json, -, ran⟩ := Except.bind_eq_ok ran
    cases ran
    exact itemResults_length _ _ _ _
  | auto => cases there

/-- Engines that answer alike each time answer the first time or never. -/
theorem tryEngine_inl {search : Inquiry → Except Text (List SearchResult)} {i : Inquiry}
    {attempt left number : Nat} {lastError : Option Text} {results : List SearchResult}
    (ran : tryEngine search i attempt left lastError = .inl (results, number)) :
    search i = .ok results ∧ number = attempt := by
  induction left generalizing attempt lastError with
  | zero => cases ran
  | succ left ih =>
    rw [tryEngine] at ran
    cases answer : search i with
    | ok found =>
      rw [answer] at ran
      cases ran
      exact ⟨rfl, rfl⟩
    | error e =>
      rw [answer] at ran
      dsimp only at ran
      split at ran
      · cases ran
      · have again := (ih ran).1
        rw [answer] at again
        cases again

theorem tryEngines_cases (i : Inquiry) (preferredEngine : SearchEngine) (maxRetries : Nat)
    (engines : List SearchEngine) (lastError : Option Text) :
    (∃ e, tryEngines web i preferredEngine maxRetries engines lastError =
      ⟨[], preferredEngine, false, e, 0⟩) ∨
    ∃ engine search results, getBackend web engine = some search ∧ search i = .ok results ∧
      tryEngines web i preferredEngine maxRetries engines lastError =
        ⟨results, engine, true, none, 0⟩ := by
  induction engines generalizing lastError with
  | nil => exact .inl ⟨lastError, rfl⟩
  | cons engine engines ih =>
    rw [tryEngines]
    cases there : getBackend web engine with
    | none => exact ih lastError
    | some search =>
      dsimp only
      split
      · rename_i results number ran
        obtain ⟨answer, rfl⟩ := tryEngine_inl ran
        exact .inr ⟨engine, search, results, there, answer, rfl⟩
      · exact ih _

/-- A search that asks the engines fails without results, or succeeds at the first attempt
with no more results than are wanted. -/
theorem attemptOf_cases (some_wanted : 0 < q.inquiry.maxResults) :
    (attemptOf web q).success = false ∧ (attemptOf web q).results = [] ∨
      (attemptOf web q).success = true ∧ (attemptOf web q).error = none ∧
        (attemptOf web q).retryCount = 0 ∧
        (attemptOf web q).results.length ≤ q.inquiry.maxResults := by
  unfold attemptOf searchWithFallback
  rcases @tryEngines_cases web q.inquiry q.preferredEngine (maxRetries web)
    (if q.preferredEngine = .auto then SearchEngine.autoOrder web else [q.preferredEngine])
    none with ⟨e, failed⟩ | ⟨engine, search, results, there, answer, found⟩
  · rw [failed]
    exact .inl ⟨rfl, rfl⟩
  · rw [found]
    exact .inr ⟨rfl, rfl, rfl, getBackend_length some_wanted there answer⟩

theorem dedupFrom_length (seen : List Text) (results : List SearchResult) :
    (dedupFrom web seen results).length ≤ results.length := by
  induction results generalizing seen with
  | nil => rfl
  | cons result results ih =>
    rw [dedupFrom]
    split
    · exact (ih seen).trans (Nat.le_succ _)
    · exact Nat.succ_le_succ (ih _)

theorem readParameters_wanted {params : Json} (read : readParameters web params = .ok q) :
    0 < q.inquiry.maxResults := by
  unfold readParameters at read
  split at read
  · cases read
  · split at read
    · cases read
    · cases read
      dsimp only
      cases (params.get "max_results".toList).bind Json.asU64 with
      | none => exact Nat.succ_pos 4
      | some n => exact Nat.le_max_right _ _

/-- A search that asks the engines holds no more results than are wanted. -/
theorem freshReply_length (some_wanted : 0 < q.inquiry.maxResults) (stamp : Stamp) :
    (freshReply web q stamp).results.length ≤ q.inquiry.maxResults := by
  refine (dedupFrom_length _ _).trans ?_
  rcases @attemptOf_cases web q some_wanted with ⟨-, none⟩ | ⟨-, -, -, few⟩
  · rw [none]
    exact Nat.zero_le _
  · exact few

/-! ## The cache -/

variable {cache : SearchCache} {key other : Text} {now : Nat} {cached : CachedResponse}
  {results : List SearchResult} {engine : SearchEngine}

theorem swept_lookup (there : (cache.swept now).lookup key = some cached) :
    cache.entries.lookup key = some cached := by
  rw [SearchCache.swept] at there
  split at there
  · rw [SearchCache.retained, Table.lookup_foldl_erase] at there
    split at there
    · cases there
    · exact there
  · exact there

theorem evicted_lookup (there : (cache.evicted web now).lookup key = some cached) :
    cache.entries.lookup key = some cached := by
  rw [SearchCache.evicted] at there
  split at there
  · split at there
    · rw [Table.lookup_erase_if] at there
      split at there
      · cases there
      · exact swept_lookup there
    · exact swept_lookup there
  · exact swept_lookup there

/-- What is found after something was put in is that, or was there. -/
theorem insert_lookup
    (there : (cache.insert web now key results engine).entries.lookup other = some cached) :
    other = key ∧ cached = ⟨results, engine, now⟩ ∨ cache.entries.lookup other = some cached := by
  rw [SearchCache.insert, Table.lookup_insert_if] at there
  split at there
  · rename_i same
    exact .inl ⟨same, (Option.some.inj there).symm⟩
  · exact .inr (evicted_lookup there)

theorem get_eq_some {found : List SearchResult × SearchEngine} :
    cache.get now key = some found ↔ ∃ cached, cache.entries.lookup key = some cached ∧
      now - cached.cachedAt < cache.ttl ∧ found = (cached.results, cached.engine) := by
  rw [SearchCache.get, Option.bind_eq_some_iff]
  simp only [Option.ite_none_right_eq_some, Option.some.injEq, eq_comm (a := found)]

/-! ## Runs -/

variable {calls done : List SearchCall} {call : SearchCall}

theorem after_concat :
    after web (done ++ [call]) = (execute web (after web done) call).2 :=
  Runs.final_concat (searchCache web) done call

theorem execute_ttl : (execute web cache call).2.ttl = cache.ttl := by
  unfold execute
  split
  · rfl
  · split
    · rfl
    · dsimp only
      split <;> rfl

theorem after_ttl (done : List SearchCall) : (after web done).ttl = (searchCache web).ttl :=
  Runs.invariant (I := fun cache : SearchCache => cache.ttl = (searchCache web).ttl)
    (fun _ _ held => execute_ttl.trans held) rfl done

/-- The search with these parameters asked the engines, in the run, and its results were put in
at this instant. -/
def Put (web : Web) (done : List SearchCall) (q : Parameters) (cachedAt : Nat) : Prop :=
  ∃ before call between, done = before ++ call :: between ∧
    readParameters web call.params = .ok q ∧
    (after web before).get call.started (searchKey web q) = none ∧ call.stored = cachedAt

theorem Put.concat {cachedAt : Nat} (put : Put web done q cachedAt) (call : SearchCall) :
    Put web (done ++ [call]) q cachedAt := by
  obtain ⟨before, first, between, shape, held⟩ := put
  exact ⟨before, first, between ++ [call], by simp [shape], held⟩

/-- What the engines answer to a search. -/
def answerOf (web : Web) (q : Parameters) :
    Except SearchAttempt (List SearchResult × SearchEngine) :=
  let attempt := attemptOf web q
  if attempt.success then .ok (attempt.results, attempt.engine) else .error attempt

/-- **Entries.** What stands in the cache under a key was answered to a search with that key. -/
theorem after_entries (done : List SearchCall) :
    ∀ key cached, (after web done).entries.lookup key = some cached →
      ∃ q, Put web done q cached.cachedAt ∧ searchKey web q = key ∧
        answerOf web q = .ok (cached.results, cached.engine) := by
  induction done using List.reverseRecOn with
  | nil =>
    intro key cached there
    cases there
  | append_singleton done call ih =>
    intro key cached there
    have earlier (kept : (after web done).entries.lookup key = some cached) :
        ∃ q, Put web (done ++ [call]) q cached.cachedAt ∧ searchKey web q = key ∧
          answerOf web q = .ok (cached.results, cached.engine) := by
      obtain ⟨q, put, own, answer⟩ := ih key cached kept
      exact ⟨q, put.concat call, own, answer⟩
    rw [after_concat, execute] at there
    split at there
    · exact earlier there
    · rename_i q read
      split at there
      · exact earlier there
      · rename_i missed
        dsimp only at there
        split at there
        · rename_i success
          rcases insert_lookup there with ⟨rfl, rfl⟩ | kept
          · refine ⟨q, ⟨done, call, [], rfl, read, missed, rfl⟩, rfl, ?_⟩
            rw [answerOf]
            exact if_pos success
          · exact earlier kept
        · exact earlier there

/-- **Transparency.** Where no search finds an entry of one that the engines can tell apart from
it, every reply is that of a search that asks the engines. -/
theorem cache_transparent (unmixed : Unmixed web calls) : Transparent web calls := by
  intro done call rest q shape read
  have wanted := readParameters_wanted read
  have few := @freshReply_length web q wanted call.stamp
  rw [execute, read]
  dsimp only
  cases there : (after web done).get call.started (searchKey web q) with
  | none => exact ⟨_, false, rfl, rfl, few⟩
  | some found =>
    have learned : Memo.Learned (searchKey web) (answerOf web)
        (fun q => ∃ cachedAt, Put web done q cachedAt ∧
          call.started - cachedAt < (searchCache web).ttl)
        (fun key => (after web done).get call.started key) := by
      intro key found there
      obtain ⟨cached, stands, young, rfl⟩ := get_eq_some.mp there
      obtain ⟨q, put, own, answer⟩ := after_entries done key cached stands
      rw [after_ttl] at young
      exact ⟨q, ⟨cached.cachedAt, put, young⟩, own, answer⟩
    have answer : answerOf web q = .ok found := by
      rw [← learned.consult_eq, Memo.consult, there]
      rintro q' ⟨cachedAt, ⟨before, first, between, split, readFirst, missed, rfl⟩, young⟩ same v
        answered
      have alike : Alike q' q := by
        refine unmixed before first between call rest q' q ?_ readFirst read same missed ?_ young
        · rw [shape, split, List.append_assoc, List.cons_append]
        · rw [← split, there]
          rfl
      rw [← answered, answerOf, answerOf, attemptOf_alike alike]
    rw [answerOf] at answer
    rcases @attemptOf_cases web q wanted with ⟨failed, -⟩ | ⟨success, clean, first, -⟩
    · simp [failed] at answer
    · rw [if_pos success] at answer
      cases answer
      refine ⟨_, true, rfl, ?_, few⟩
      simp only [freshReply, clean, first]
      rfl

/-- Brave is set up, and answers everything with two results. -/
def braveWeb : Web where
  var name := if name = "BRAVE_API_KEY".toList then some "k".toList else none
  send _ := .ok ⟨200, .ok []⟩
  parseUrl u := .ok ⟨none, u, [], fun path _ => path⟩
  readJson _ := .ok (.ofFields [("web", .ofFields [("results", .array [
    .ofFields [("url", .string "https://a.example".toList)],
    .ofFields [("url", .string "https://b.example".toList)]])])])
  find _ _ := []
  toLowercase s := s.map Char.toLower
  sha256 bytes := bytes
  hashOrder keys := keys

/-- A search for `rust` with so many results, at a second. -/
def rustSearch (maxResults : UInt64) (second : Nat) : SearchCall where
  params := .ofFields [("query", .string "rust".toList), ("max_results", .unsigned maxResults)]
  started := second * 10 ^ 9
  stored := second * 10 ^ 9
  stamp := ⟨[], [], 0⟩

theorem rustSearch_pair {a b : UInt64} {before between rest : List SearchCall}
    {call later : SearchCall}
    (shape : [rustSearch a 0, rustSearch b 1] = before ++ call :: (between ++ later :: rest)) :
    call = rustSearch a 0 ∧ later = rustSearch b 1 := by
  cases before with
  | nil =>
    obtain ⟨first, others⟩ := List.cons.inj shape
    cases between with
    | nil => exact ⟨first.symm, (List.cons.inj others).1.symm⟩
    | cons second between => simp at others
  | cons first before =>
    have lengths := congrArg List.length shape
    simp at lengths
    omega

/-- The same search again is found in the cache, and gets what it would get. -/
theorem same_search_transparent :
    Transparent braveWeb [rustSearch 5 0, rustSearch 5 1] ∧
      (execute braveWeb (after braveWeb [rustSearch 5 0]) (rustSearch 5 1)).1.toOption.map
        (fun reply => (reply.fromCache, reply.results.map (·.url))) =
        some (true, ["https://a.example".toList, "https://b.example".toList]) := by
  refine ⟨cache_transparent ?_, by decide +kernel⟩
  intro before call between later rest q q' shape read read' _ _ _ _
  obtain ⟨rfl, rfl⟩ := rustSearch_pair shape
  cases read.symm.trans read'
  exact ⟨rfl, rfl, rfl, rfl, rfl, rfl⟩

/-- After a search for two results one for a single result gets both. -/
theorem smaller_search_overfilled :
    ¬ Transparent braveWeb [rustSearch 2 0, rustSearch 1 1] ∧
      (execute braveWeb (after braveWeb [rustSearch 2 0]) (rustSearch 1 1)).1.toOption.map
        (fun reply => (reply.fromCache, reply.parameters.inquiry.maxResults,
          reply.results.length)) = some (true, 1, 2) := by
  have found : (execute braveWeb (after braveWeb [rustSearch 2 0])
      (rustSearch 1 1)).1.toOption.map (fun reply => (reply.fromCache,
        reply.parameters.inquiry.maxResults, reply.results.length)) = some (true, 1, 2) := by
    decide +kernel
  refine ⟨fun transparent => ?_, found⟩
  have wanted : ((readParameters braveWeb (rustSearch 1 1).params).map
      fun q => q.inquiry.maxResults).toOption = some 1 := by decide +kernel
  cases read : readParameters braveWeb (rustSearch 1 1).params with
  | error e =>
    rw [read] at wanted
    cases wanted
  | ok q =>
    obtain ⟨reply, fromCache, replied, -, few⟩ := transparent [rustSearch 2 0] _ [] q rfl read
    rw [read] at wanted
    rw [replied] at found
    have two : reply.results.length = 2 := (Prod.ext_iff.mp (Prod.ext_iff.mp
      (Option.some.inj found)).2).2
    have one : q.inquiry.maxResults = 1 := Option.some.inj wanted
    omega

end SearchTransparency

end Devit
