import Mathlib.Data.List.DropRight
import Mathlib.Data.List.MinMax
import Devit.FetchUrl
import Devit.JsonRpc
import Devit.Library.Replace
import Devit.Library.Table
import Devit.Snapshot

/-! The tool that searches the web: it asks one engine after the other until one answers, and
keeps the answers for a while under keys made of some of the parameters. -/
namespace Devit
open Text

structure SearchResult where
  url : Text
  title : Text
  snippet : Option Text
  domain : Text
  source : Option Text
  deriving DecidableEq, Repr

inductive SearchEngine where
  | duckDuckGo
  | brave
  | searXNG
  | auto
  deriving DecidableEq, Repr

/-- A request for an engine, with the settings of its client. -/
structure HttpRequest where
  base : Text
  pairs : List (Text × Text)
  headers : List (Text × Text)
  userAgent : Option Text
  redirects : Option Nat
  timeoutMs : Nat
  deriving DecidableEq

structure HttpResponse where
  status : Nat
  text : Except Text Text

/-- What the parser of URLs gives: of a URL it can also write the text with another path and
another query. -/
structure UrlParts where
  host : Option Text
  path : Text
  queryPairs : List (Text × Text)
  withPathQuery : Text → Option Text → Text

namespace SearchWeb

/-- What is outside the program: the environment, the engines, the parsers of URLs and JSON, the
matches of a regular expression with their groups, the cases of letters, the hash, and the order
in which a hash map with some keys is gone through. The answers of the engines do not change. -/
structure Web where
  var : Text → Option Text
  send : HttpRequest → Except Text HttpResponse
  parseUrl : Text → Except Text UrlParts
  readJson : Text → Except Text Json
  find : Text → Text → List (List Text)
  toLowercase : Text → Text
  sha256 : List UInt8 → List UInt8
  hashOrder : List Text → List Text

end SearchWeb

namespace SearchEngine
open SearchWeb

def fromStr (web : Web) (s : Text) : SearchEngine :=
  let low := web.toLowercase s
  if low = "duckduckgo".toList ∨ low = "ddg".toList then .duckDuckGo
  else if low = "brave".toList then .brave
  else if low = "searxng".toList ∨ low = "searx".toList then .searXNG
  else .auto

def asStr : SearchEngine → Text
  | .duckDuckGo => "duckduckgo".toList
  | .brave => "brave".toList
  | .searXNG => "searxng".toList
  | .auto => "auto".toList

/-- The order in which engines are tried. -/
def autoOrder (web : Web) : List SearchEngine :=
  (if (web.var "BRAVE_API_KEY".toList).isSome then [.brave] else []) ++ [.duckDuckGo] ++
    if (web.var "SEARXNG_URL".toList).isSome then [.searXNG] else []

end SearchEngine

namespace SearchWeb

/-! ## Helpers -/

/-- What is behind the tag that begins here, if one does. -/
def behindTag : Text → Option Text
  | '<' :: rest =>
    match rest.dropWhile (· ≠ '>') with
    | _ :: behind => if rest.takeWhile (· ≠ '>') = [] then none else some behind
    | [] => none
  | _ => none

/-- The text without what matches `<[^>]+>`. -/
def withoutTags : Nat → Text → Text
  | 0, s => s
  | _, [] => []
  | fuel + 1, c :: cs =>
    match behindTag (c :: cs) with
    | some behind => withoutTags fuel behind
    | none => c :: withoutTags fuel cs

def htmlUnescape (s : Text) : Text :=
  let out := replace "&gt;".toList ">".toList
    (replace "&lt;".toList "<".toList (replace "&amp;".toList "&".toList s))
  let out := replace "&#39;".toList "'".toList (replace "&quot;".toList "\"".toList out)
  withoutTags out.length out

def domainOf (web : Web) (u : Text) : Option Text :=
  let host := match web.parseUrl u with
    | .ok p => p.host.map web.toLowercase
    | .error _ => some (web.toLowercase u)
  host.map fun host =>
    let parts := splitOn (· = '.') host
    if parts.length < 2 then host
    else
      let multiTlds := ["co.uk", "com.au", "co.nz", "co.jp", "com.br", "co.in"]
      if multiTlds.any fun mtld => FetchUrl.endsWith mtld.toList host then
        if parts.length > 2 then join ['.'] (parts.drop (parts.length - 3)) else host
      else join ['.'] (parts.drop (parts.length - 2))

def userAgent (web : Web) : Text :=
  (web.var "DEVIT_HTTP_USER_AGENT".toList).getD "DevItBot/1.0".toList

/-! ## Engines -/

/-- The ranges that engines know, each under the name that the engine has for it. -/
def rangeCode (codes : List (String × String)) (timeRange : Option Text) : Option Text :=
  timeRange.bind fun range =>
    (codes.find? fun code => code.1.toList = range).map fun code => code.2.toList

def isSuccess (status : Nat) : Bool := 200 ≤ status ∧ status < 300

/-- The body of an answer that is a success. -/
def successBody (web : Web) (request : HttpRequest) : Except Text Text := do
  let resp ← web.send request
  if !isSuccess resp.status then .error ("HTTP ".toList ++ printNat resp.status)
  else resp.text

/-- The results that are taken, with the URLs and the numbers for each domain. -/
structure Gathered where
  out : List SearchResult
  seen : List Text
  perDomain : Table Nat

/-- The loop over the results that are found on a page. -/
def gather (limit maxPerDomain : Nat) : Gathered → List SearchResult → Gathered
  | g, [] => g
  | g, r :: rest =>
    if r.url ∈ g.seen then gather limit maxPerDomain g rest
    else
      let count := (g.perDomain.lookup r.domain).getD 0
      if count ≥ maxPerDomain then gather limit maxPerDomain g rest
      else
        let g := ⟨g.out ++ [r], r.url :: g.seen, g.perDomain.insert r.domain (count + 1)⟩
        if g.out.length ≥ limit then g else gather limit maxPerDomain g rest

namespace DuckDuckGoBackend

def ddgBase (web : Web) : Text :=
  (web.var "DDG_ENDPOINT".toList).getD "https://duckduckgo.com/html".toList

def blockRe : Text :=
  "(?s)<div[^>]*class=\"[^\"]*result[^\"]*\"[^>]*>.*?</div>\\s*</div>".toList

def linkRe : Text := "<a[^>]+href=\"(https://duckduckgo\\.com/l/[^\"]+)\"[^>]*>(.*?)</a>".toList

def snippetRe : Text := "<a[^>]+class=\"[^\"]*result__snippet[^\"]*\"[^>]*>(.*?)</a>".toList

/-- A group of a match. -/
def group (caps : List Text) (i : Nat) : Text := (caps[i]?).getD []

/-- The result that a link stands for. -/
def linkResult (web : Web) (caps : List Text) (snippet : Option Text) : Option SearchResult :=
  match web.parseUrl (group caps 1) with
  | .error _ => none
  | .ok ddgUrl =>
    (ddgUrl.queryPairs.find? (·.1 = "uddg".toList)).map fun pair =>
      { url := pair.2
        title := htmlUnescape (group caps 2)
        snippet := snippet
        domain := (domainOf web pair.2).getD []
        source := some "duckduckgo".toList }

/-- The result in a block. -/
def blockResult (web : Web) (block : Text) : Option SearchResult :=
  (web.find linkRe block).head?.bind fun caps =>
    let snippet := (web.find snippetRe block).head?.map fun caps => htmlUnescape (group caps 1)
    linkResult web caps (snippet.filter (· ≠ []))

/-- Blocks are looked for first, and bare links where there are none. -/
def parseResults (web : Web) (html : Text) (limit maxPerDomain : Nat) : List SearchResult :=
  let blocks := (web.find blockRe html).filterMap fun caps => blockResult web (group caps 0)
  let g := gather limit maxPerDomain ⟨[], [], ∅⟩ blocks
  if g.out = [] then
    (gather limit maxPerDomain g
      ((web.find linkRe html).filterMap fun caps => linkResult web caps none)).out
  else g.out

def maxPerDomain (safeMode : Text) : Nat :=
  if safeMode = "off".toList then usizeMax
  else if safeMode = "moderate".toList then 3
  else 2

def search (web : Web) (query : Text) (maxResults : Nat) (timeRange : Option Text)
    (safeMode : Text) (timeoutMs : Nat) : Except Text (List SearchResult) := do
  let _ ← web.parseUrl (ddgBase web)
  let df := rangeCode [("day", "d"), ("week", "w"), ("month", "m"), ("year", "y")] timeRange
  let body ← successBody web
    { base := ddgBase web
      pairs := ("q".toList, query) :: (df.map fun v => ("df".toList, v)).toList
      headers := []
      userAgent := some (userAgent web)
      redirects := some 5
      timeoutMs := timeoutMs }
  if contains "anomaly-modal".toList body ∨
      contains "Please complete the following challenge".toList body then
    .error "CAPTCHA_REQUIRED".toList
  else .ok (parseResults web body maxResults (maxPerDomain safeMode))

end DuckDuckGoBackend

/-- The text of a field, and an empty one if it is not a text. -/
def textField (key : String) (item : Json) : Text :=
  ((item.get key.toList).bind Json.asStr).getD []

/-- The results of an answer in JSON, of no more than so many items. -/
def itemResults (web : Web) (snippetField : String) (source : Text) (items : List Json)
    (maxResults : Nat) : List SearchResult :=
  (items.take maxResults).filterMap fun item =>
    let url := textField "url" item
    if url = [] then none
    else some
      { url := url
        title := textField "title" item
        snippet := (item.get snippetField.toList).bind Json.asStr
        domain := (domainOf web url).getD []
        source := some source }

namespace BraveBackend

def search (web : Web) (apiKey query : Text) (maxResults : Nat) (timeRange : Option Text)
    (timeoutMs : Nat) : Except Text (List SearchResult) := do
  let base := "https://api.search.brave.com/res/v1/web/search".toList
  let _ ← web.parseUrl base
  let freshness := rangeCode [("day", "pd"), ("week", "pw"), ("month", "pm"), ("year", "py")]
    timeRange
  let body ← successBody web
    { base := base
      pairs := [("q".toList, query), ("count".toList, printNat (min maxResults 20))] ++
        (freshness.map fun f => ("freshness".toList, f)).toList
      headers := [("X-Subscription-Token".toList, apiKey),
        ("Accept".toList, "application/json".toList)]
      userAgent := none
      redirects := none
      timeoutMs := timeoutMs }
  let json ← web.readJson body
  .ok (itemResults web "description" "brave".toList
    (((((json.get "web".toList).bind (·.get "results".toList)).bind Json.asArray)).getD [])
    maxResults)

end BraveBackend

namespace SearXNGBackend

def search (web : Web) (baseUrl query : Text) (maxResults : Nat) (timeRange : Option Text)
    (timeoutMs : Nat) : Except Text (List SearchResult) := do
  let base := baseUrl.rdropWhile (· = '/') ++ "/search".toList
  let _ ← web.parseUrl base
  let tr := rangeCode [("day", "day"), ("week", "week"), ("month", "month"), ("year", "year")]
    timeRange
  let body ← successBody web
    { base := base
      pairs := [("q".toList, query), ("format".toList, "json".toList),
        ("pageno".toList, "1".toList)] ++ (tr.map fun t => ("time_range".toList, t)).toList
      headers := [("Accept".toList, "application/json".toList)]
      userAgent := some (userAgent web)
      redirects := none
      timeoutMs := timeoutMs }
  let json ← web.readJson body
  .ok (itemResults web "content" "searxng".toList
    (((json.get "results".toList).bind Json.asArray).getD []) maxResults)

end SearXNGBackend

/-! ## Trying engines -/

/-- What an engine is asked for. -/
structure Inquiry where
  query : Text
  maxResults : Nat
  timeRange : Option Text
  safeMode : Text
  timeoutMs : Nat
  deriving DecidableEq

/-- `get_backend`: the search of an engine that is set up and available. -/
def getBackend (web : Web) :
    SearchEngine → Option (Inquiry → Except Text (List SearchResult))
  | .duckDuckGo => some fun i =>
    DuckDuckGoBackend.search web i.query i.maxResults i.timeRange i.safeMode i.timeoutMs
  | .brave => ((web.var "BRAVE_API_KEY".toList).filter (· ≠ [])).map fun apiKey i =>
    BraveBackend.search web apiKey i.query i.maxResults i.timeRange i.timeoutMs
  | .searXNG => ((web.var "SEARXNG_URL".toList).filter (· ≠ [])).map fun baseUrl i =>
    SearXNGBackend.search web baseUrl i.query i.maxResults i.timeRange i.timeoutMs
  | .auto => none

structure SearchAttempt where
  results : List SearchResult
  engine : SearchEngine
  success : Bool
  error : Option Text
  retryCount : Nat
  deriving DecidableEq

/-- The attempts that are left with one engine: its results with the number of the attempt, or
its last error. -/
def tryEngine (search : Inquiry → Except Text (List SearchResult)) (i : Inquiry) (attempt : Nat) :
    Nat → Option Text → (List SearchResult × Nat) ⊕ Option Text
  | 0, lastError => .inr lastError
  | left + 1, _ =>
    match search i with
    | .ok results => .inl (results, attempt)
    | .error e =>
      if e = "CAPTCHA_REQUIRED".toList then .inr (some e)
      else tryEngine search i (attempt + 1) left (some e)

def tryEngines (web : Web) (i : Inquiry) (preferredEngine : SearchEngine) (maxRetries : Nat) :
    List SearchEngine → Option Text → SearchAttempt
  | [], lastError => ⟨[], preferredEngine, false, lastError, 0⟩
  | engine :: engines, lastError =>
    match getBackend web engine with
    | none => tryEngines web i preferredEngine maxRetries engines lastError
    | some search =>
      match tryEngine search i 0 maxRetries lastError with
      | .inl (results, attempt) => ⟨results, engine, true, none, attempt⟩
      | .inr lastError => tryEngines web i preferredEngine maxRetries engines lastError

def searchWithFallback (web : Web) (i : Inquiry) (preferredEngine : SearchEngine)
    (maxRetries : Nat) : SearchAttempt :=
  tryEngines web i preferredEngine maxRetries
    (if preferredEngine = .auto then SearchEngine.autoOrder web else [preferredEngine]) none

/-! ## Results that are the same -/

def normalizeUrl (web : Web) (url : Text) : Text :=
  match web.parseUrl url with
  | .error _ => web.toLowercase url
  | .ok parsed =>
    let query := parsed.queryPairs.filter fun pair =>
      ["utm_source", "utm_medium", "utm_campaign", "ref"].all (·.toList ≠ pair.1)
    web.toLowercase (parsed.withPathQuery (parsed.path.rdropWhile (· = '/'))
      (if query = [] then none
      else some (join ['&'] (query.map fun pair => pair.1 ++ '=' :: pair.2))))

/-- The loop of `deduplicate_results`. -/
def dedupFrom (web : Web) (seen : List Text) : List SearchResult → List SearchResult
  | [] => []
  | result :: results =>
    if normalizeUrl web result.url ∈ seen then dedupFrom web seen results
    else result :: dedupFrom web (normalizeUrl web result.url :: seen) results

def deduplicateResults (web : Web) (results : List SearchResult) : List SearchResult :=
  dedupFrom web [] results

/-! ## The cache -/

/-- Results with the instant, in nanoseconds, at which they were put in. -/
structure CachedResponse where
  results : List SearchResult
  engine : SearchEngine
  cachedAt : Nat
  deriving DecidableEq

structure SearchCache where
  entries : Table CachedResponse
  ttl : Nat
  maxEntries : Nat

namespace SearchCache

def new (ttlSecs maxEntries : Nat) : SearchCache := ⟨∅, ttlSecs * 10 ^ 9, maxEntries⟩

def get (cache : SearchCache) (now : Nat) (key : Text) :
    Option (List SearchResult × SearchEngine) :=
  (cache.entries.lookup key).bind fun cached =>
    if now - cached.cachedAt < cache.ttl then some (cached.results, cached.engine) else none

/-- The first key with the oldest entry, in the order in which the map is gone through. -/
def oldestKey (web : Web) (entries : Table CachedResponse) : Option Text :=
  (List.argmin (fun entry => entry.2.cachedAt)
    ((web.hashOrder entries.keys).filterMap fun key =>
      (entries.lookup key).map fun cached => (key, cached))).map Prod.fst

/-- The entries that have not expired. -/
def retained (ttl now : Nat) (entries : Table CachedResponse) : Table CachedResponse :=
  (entries.keys.filter fun key =>
    (entries.lookup key).all fun cached => !decide (now - cached.cachedAt < ttl)).foldl
      (fun kept key => kept.erase key) entries

def full (cache : SearchCache) (entries : Table CachedResponse) : Bool :=
  entries.keys.length ≥ cache.maxEntries

/-- Where the cache is full, what has expired goes. -/
def swept (cache : SearchCache) (now : Nat) : Table CachedResponse :=
  if cache.full cache.entries then retained cache.ttl now cache.entries else cache.entries

/-- Where it is full even so, the oldest entry goes. -/
def evicted (web : Web) (cache : SearchCache) (now : Nat) : Table CachedResponse :=
  if cache.full (cache.swept now) then
    match oldestKey web (cache.swept now) with
    | some oldest => (cache.swept now).erase oldest
    | none => cache.swept now
  else cache.swept now

def insert (web : Web) (cache : SearchCache) (now : Nat) (key : Text)
    (results : List SearchResult) (engine : SearchEngine) : SearchCache :=
  { cache with entries := (cache.evicted web now).insert key ⟨results, engine, now⟩ }

end SearchCache

/-- `SEARCH_CACHE` before the first search. -/
def searchCache (web : Web) : SearchCache :=
  .new (((web.var "DEVIT_SEARCH_CACHE_TTL_SECS".toList).bind
    (parseUnsigned 10 (2 ^ 64 - 1))).getD 900) 100

/-- `cache_key`. -/
def cacheKey (web : Web) (urlOrQuery accept userAgent safeMode : Text)
    (includeContent : Bool) : Text :=
  hexEncode (web.sha256 (textBytes (join ['\n'] [web.toLowercase urlOrQuery, accept,
    userAgent, safeMode, (if includeContent then "true" else "false").toList])))

/-! ## The tool -/

def queryFirewallBlocked (web : Web) (q : Text) : Option String :=
  let low := web.toLowercase q
  if contains "file://".toList low then some "FILE_PROTOCOL"
  else if contains "s3://".toList low ∨ contains "gs://".toList low then
    some "CLOUD_STORAGE_PROTOCOL"
  else if ["10.", "192.168.", "172.16.", "172.17.", "127.0.0.1", "localhost"].any fun p =>
      contains p.toList low then some "INTERNAL_ADDRESS"
  else if contains "eyjh".toList low ∨ contains "bearer ".toList low then
    some "SECRET_LIKE_TOKEN"
  else none

def maxRetries (web : Web) : Nat :=
  ((web.var "DEVIT_SEARCH_MAX_RETRIES".toList).bind (parseUnsigned 10 (2 ^ 32 - 1))).getD 3

def clamp (v min max : Nat) : Nat := if v < min then min else if v > max then max else v

/-- `resolve_search_limits`: the time limit and where it is from. -/
def resolveSearchLimits (web : Web) (paramTimeoutMs : Option Nat) : Nat × String :=
  match paramTimeoutMs with
  | some p => (clamp p 100 10000, "param")
  | none =>
    match (web.var "DEVIT_SEARCH_TIMEOUT_MS".toList).bind (parseUnsigned 10 (2 ^ 64 - 1)) with
    | some envv => (clamp envv 100 10000, "env")
    | none => (8000, "default")

/-- The parameters of a search. -/
structure Parameters where
  inquiry : Inquiry
  includeSnippets : Bool
  preferredEngine : SearchEngine
  timeoutSource : String
  deriving DecidableEq

/-- The parameters, or why the query is refused. -/
def readParameters (web : Web) (params : Json) : Except McpError Parameters :=
  match ((params.get "query".toList).bind Json.asStr |>.map trim).filter (· ≠ []) with
  | none => .error (.invalidRequest "'query' is required".toList)
  | some query =>
    match queryFirewallBlocked web query with
    | some code => .error (.rpc (-32600) "Query blocked by safety policy".toList (some (.ofFields [
        ("code", .string code.toList),
        ("message", .string "The provided query is not allowed".toList),
        ("hint", .string "Remove internal URLs, private IPs or secret-like tokens".toList)])))
    | none =>
      let (timeoutMs, timeoutSource) := resolveSearchLimits web
        (((params.get "timeout_ms".toList).bind Json.asU64).map UInt64.toNat)
      .ok
        { inquiry :=
            { query := query
              maxResults := (((params.get "max_results".toList).bind Json.asU64).map fun n =>
                max (min n.toNat 20) 1).getD 5
              timeRange := (params.get "time_range".toList).bind Json.asStr
              safeMode := ((params.get "safe_mode".toList).bind Json.asStr).getD "strict".toList
              timeoutMs := timeoutMs }
          includeSnippets :=
            ((params.get "include_snippets".toList).bind FetchUrl.asBool).getD true
          preferredEngine := (((params.get "engine".toList).bind Json.asStr).map
            (SearchEngine.fromStr web)).getD .auto
          timeoutSource := timeoutSource }

def searchKey (web : Web) (q : Parameters) : Text :=
  cacheKey web
    (q.inquiry.query ++ "|engine=".toList ++ q.preferredEngine.asStr ++ "|df=".toList ++
      q.inquiry.timeRange.getD "none".toList)
    "text/html".toList (userAgent web) q.inquiry.safeMode true

/-- What a reply says of the search itself: its trace, when it was over and how long it took. -/
structure Stamp where
  traceId : Text
  retrievedAt : Text
  elapsedMs : UInt64
  deriving DecidableEq

structure SearchReply where
  parameters : Parameters
  results : List SearchResult
  fromCache : Bool
  engineUsed : SearchEngine
  error : Option Text
  retryCount : Nat
  cacheKey : Text
  availableEngines : List SearchEngine
  stamp : Stamp
  deriving DecidableEq

namespace SearchReply

def resultJson (includeSnippets : Bool) (r : SearchResult) (i : Nat) : Json :=
  .ofFields ([("rank", .unsigned (.ofNat (i + 1))), ("title", .string r.title),
    ("url", .string r.url), ("domain", .string r.domain)] ++
    (if includeSnippets then (r.snippet.map fun s => ("snippet", Json.string s)).toList else []) ++
    (r.source.map fun s => ("source", Json.string s)).toList)

def summary (reply : SearchReply) : Text :=
  join " | ".toList (["Query: '".toList ++ reply.parameters.inquiry.query ++ "'".toList,
    "Results: ".toList ++ printNat reply.results.length,
    "Engine: ".toList ++ reply.engineUsed.asStr] ++
    (if reply.fromCache then ["(cached)".toList] else []) ++
    (reply.parameters.inquiry.timeRange.map ("Time: ".toList ++ ·)).toList ++
    (reply.error.map ("Warning: ".toList ++ ·)).toList)

def metaJson (reply : SearchReply) : Json :=
  let q := reply.parameters
  .ofFields [
    ("engine_requested", .string q.preferredEngine.asStr),
    ("engine_used", .string reply.engineUsed.asStr),
    ("trace_id", .string reply.stamp.traceId),
    ("partial", .bool reply.error.isSome),
    ("from_cache", .bool reply.fromCache),
    ("elapsed_ms", .unsigned reply.stamp.elapsedMs),
    ("retry_count", .unsigned (.ofNat reply.retryCount)),
    ("time_range", .ofOption (q.inquiry.timeRange.map .string)),
    ("error", .ofOption (reply.error.map .string)),
    ("effective_limits", .ofFields [("timeout_ms", .unsigned (.ofNat q.inquiry.timeoutMs)),
      ("max_redirects", .unsigned 2), ("follow_redirects", .bool true)]),
    ("limit_sources", .ofFields [("timeout_ms", .string q.timeoutSource.toList),
      ("max_redirects", .string "default".toList),
      ("follow_redirects", .string "default".toList)]),
    ("cache_key", .string reply.cacheKey),
    ("available_engines", .array (reply.availableEngines.map fun e => .string e.asStr))]

/-- The answer of the tool. -/
def json (reply : SearchReply) : Json :=
  .ofFields [
    ("content", .array [.ofFields [("type", .string "text".toList),
      ("text", .string reply.summary)]]),
    ("metadata", .ofFields [
      ("query", .string reply.parameters.inquiry.query),
      ("retrieved_at", .string reply.stamp.retrievedAt),
      ("results", .array (reply.results.mapIdx fun i r =>
        resultJson reply.parameters.includeSnippets r i)),
      ("meta", reply.metaJson)])]

end SearchReply

/-- A call of the tool, with the instants at which it looks into the cache and puts its results
in. -/
structure SearchCall where
  params : Json
  started : Nat
  stored : Nat
  stamp : Stamp

/-- The search that asks the engines. -/
def attemptOf (web : Web) (q : Parameters) : SearchAttempt :=
  searchWithFallback web q.inquiry q.preferredEngine (maxRetries web)

def replyWith (web : Web) (q : Parameters) (stamp : Stamp) (results : List SearchResult)
    (fromCache : Bool) (engineUsed : SearchEngine) (error : Option Text) (retryCount : Nat) :
    SearchReply where
  parameters := q
  results := deduplicateResults web results
  fromCache := fromCache
  engineUsed := engineUsed
  error := error
  retryCount := retryCount
  cacheKey := searchKey web q
  availableEngines := SearchEngine.autoOrder web
  stamp := stamp

/-- The reply of a search that asks the engines. -/
def freshReply (web : Web) (q : Parameters) (stamp : Stamp) : SearchReply :=
  let attempt := attemptOf web q
  replyWith web q stamp attempt.results false attempt.engine attempt.error attempt.retryCount

def execute (web : Web) (cache : SearchCache) (call : SearchCall) :
    Except McpError SearchReply × SearchCache :=
  match readParameters web call.params with
  | .error e => (.error e, cache)
  | .ok q =>
    match cache.get call.started (searchKey web q) with
    | some (results, engine) =>
      (.ok (replyWith web q call.stamp results true engine none 0), cache)
    | none =>
      let attempt := attemptOf web q
      (.ok (freshReply web q call.stamp),
        if attempt.success then
          cache.insert web call.stored (searchKey web q) attempt.results attempt.engine
        else cache)

end SearchWeb

end Devit
