import Devit.Library.IpAddress
import Devit.Library.Json
import Devit.Library.Utf8

/-! Which requests a fetch sends. The host of the URL that is asked for is looked at once, as a
text: hosts in brackets, some kinds of addresses and a trailing dot escape the look, and what the
servers redirect to is not looked at. -/
namespace Devit
open Text

/-- A name, which no address is written as. -/
structure DomainName where
  text : Text
  ascii : ∀ c ∈ text, c.toNat < 128
  unnumbered : IpAddress.parse text = none

/-- `url::Host`. -/
inductive Host where
  | domain (name : DomainName)
  | ipv4 (addr : Ipv4Addr)
  | ipv6 (addr : Ipv6Addr)

structure Url where
  host : Option Host
  path : Text
  query : Option Text

namespace FetchUrl

/-- What is outside the program: the parser of URLs, the text that an IPv6 address has in them, and
the environment. -/
structure World where
  parse : Text → Option Url
  ipv6Text : Ipv6Addr → Text
  var : Text → Option Text

/-- The servers redirect a request from hop to hop, and give a text in the end if all is well. -/
structure Answer where
  hops : List Url
  text : Option Text

structure Answers where
  robots : Answer
  page : Answer

/-! ## Settings -/

def flagOn (value : Text) : Bool :=
  value = "1".toList ∨ value = "true".toList ∨ value = "yes".toList ∨ value = "on".toList

def flagOff (value : Text) : Bool :=
  value = "0".toList ∨ value = "false".toList ∨ value = "no".toList ∨ value = "off".toList

/-- `str::to_lowercase`, as far as flags and hosts go. -/
def toLowercase (s : Text) : Text := s.map Char.toLower

def envBool (world : World) (name : Text) (defaultTrue : Bool) : Bool :=
  let val := toLowercase ((world.var name).getD [])
  if flagOff val then !defaultTrue
  else if flagOn val then true
  else defaultTrue

def parseEnvBool (world : World) (name : Text) : Option Bool :=
  (world.var name).bind fun v =>
    if flagOn (toLowercase v) then some true
    else if flagOff (toLowercase v) then some false
    else none

structure EffectiveLimits where
  maxRedirects : Nat
  followRedirects : Bool

def resolveFetchLimits (world : World) (paramFollowRedirects : Option Bool) : EffectiveLimits :=
  ⟨2, (paramFollowRedirects <|> parseEnvBool world "DEVIT_FOLLOW_REDIRECTS".toList).getD true⟩

inductive RedirectPolicy where
  | limited (max : Nat)
  | none

/-- The hops that a client goes along with. -/
def RedirectPolicy.followed (hops : List Url) : RedirectPolicy → List Url
  | .limited max => hops.take max
  | .none => []

/-! ## Hosts -/

/-- `Url::host_str`. -/
def hostStr (world : World) : Host → Text
  | .domain name => name.text
  | .ipv4 addr => IpAddress.printIpv4 addr
  | .ipv6 addr => '[' :: (world.ipv6Text addr ++ [']'])

def endsWith (suffix s : Text) : Bool := (stripSuffix suffix s).isSome

def isPrivateHost (host : Text) : Bool :=
  match IpAddress.parse host with
  | some (.v4 v4) =>
    -- 10.0.0.0/8, 172.16.0.0/12, 192.168.0.0/16 and 127.0.0.0/8
    v4.a = 10 ∨ (v4.a = 172 ∧ 16 ≤ v4.b ∧ v4.b ≤ 31) ∨ (v4.a = 192 ∧ v4.b = 168) ∨ v4.a = 127
  | some (.v6 v6) => v6.isLoopback ∨ v6.isUniqueLocal
  | none =>
    let low := toLowercase host
    endsWith ".local".toList low ∨ endsWith ".corp".toList low ∨ low = "localhost".toList

/-! ## Robots -/

inductive RobotsPolicy where
  | allow
  | disallow
  deriving DecidableEq

structure RobotsRules where
  inStar : Bool
  allows : List Text
  disallows : List Text

/-- What stands behind the first colon. -/
def fieldValue (line : Text) : Text := trim (((splitFirst ':' line).map Prod.snd).getD [])

def readRule (rules : RobotsRules) (raw : Text) : RobotsRules :=
  let line := trim (raw.takeWhile (· ≠ '#'))
  let low := toLowercase line
  if line = [] then rules
  else if startsWith "user-agent:".toList low then
    { rules with inStar := toLowercase (fieldValue line) = ['*'] }
  else if !rules.inStar then rules
  else if startsWith "allow:".toList low then
    { rules with allows := rules.allows ++ [fieldValue line] }
  else if startsWith "disallow:".toList low then
    { rules with disallows := rules.disallows ++ [fieldValue line] }
  else rules

/-- The longest of the rules that the path starts with. -/
def bestRule (path : Text) (rules : List Text) : Option Text :=
  rules.foldl (fun best rule =>
    if startsWith rule path ∧ best.all fun b => byteLen b < byteLen rule then some rule else best)
    none

def robotsPolicyFor (path robots : Text) : RobotsPolicy :=
  let rules := (lines robots).foldl readRule ⟨false, [], []⟩
  if (bestRule path rules.allows).isSome then .allow
  else if (bestRule path (rules.disallows.filter (· ≠ []))).isSome then .disallow
  else .allow

/-! ## A fetch -/

def validateUrl (world : World) (url : Text) : Option Url :=
  let u := trim url
  if !(startsWith "http://".toList u || startsWith "https://".toList u) then none
  else if 2048 < byteLen u then none
  else world.parse u

/-- The requests that a client sends for one URL, and the text it gets. -/
def send (policy : RedirectPolicy) (url : Url) (answer : Answer) : List Url × Option Text :=
  let followed := policy.followed answer.hops
  (url :: followed, if followed.length = answer.hops.length then answer.text else none)

def robotsUrl (url : Url) : Url := { url with path := "/robots.txt".toList, query := none }

def asBool : Json → Option Bool
  | .bool b => some b
  | _ => none

def respectRobots (world : World) : Bool := envBool world "DEVIT_RESPECT_ROBOTS".toList true

def blockPrivate (world : World) : Bool := envBool world "DEVIT_BLOCK_PRIVATE_CIDRS".toList true

def redirectPolicy (world : World) (params : Json) : RedirectPolicy :=
  let limits := resolveFetchLimits world ((params.get "follow_redirects".toList).bind asBool)
  if limits.followRedirects then .limited limits.maxRedirects else .none

/-- The URL that is asked for. -/
def startUrl (world : World) (params : Json) : Option Url :=
  ((params.get "url".toList).bind Json.asStr).bind (validateUrl world)

/-- The start is turned away. -/
def blocked (world : World) (url : Url) : Bool :=
  blockPrivate world && url.host.any fun host => isPrivateHost (hostStr world host)

/-- The request for the robots file, if there is one, and whether it forbids the page. -/
def checkRobots (world : World) (params : Json) (url : Url) (answer : Answer) : List Url × Bool :=
  if respectRobots world ∧ url.host.isSome then
    let (requests, text) := send (redirectPolicy world params) (robotsUrl url) answer
    (requests, text.any fun text => robotsPolicyFor url.path text = .disallow)
  else ([], false)

/-- The requests that a call of the tool sends. -/
def execute (world : World) (params : Json) (answers : Answers) : List Url :=
  match startUrl world params with
  | none => []
  | some url =>
    if blocked world url then []
    else
      let (requests, disallowed) := checkRobots world params url answers.robots
      if disallowed then requests
      else requests ++ (send (redirectPolicy world params) url answers.page).1

/-! ## What is asked for -/

/-- A loopback, private, link-local or unspecified address. -/
def Ipv4Addr.isInternal (addr : Ipv4Addr) : Bool :=
  addr.isLoopback || addr.isPrivate || addr.isLinkLocal || addr.isUnspecified

def Ipv6Addr.isInternal (addr : Ipv6Addr) : Bool :=
  addr.isLoopback || addr.isUniqueLocal || addr.isUnicastLinkLocal || addr.isUnspecified ||
    addr.toIpv4Mapped.any Ipv4Addr.isInternal

/-- No request may go to these hosts. -/
def forbidden : Host → Bool
  | .domain name =>
    toLowercase name.text = "localhost".toList ∨ toLowercase name.text = "localhost.".toList
  | .ipv4 addr => Ipv4Addr.isInternal addr
  | .ipv6 addr => Ipv6Addr.isInternal addr

/-- The forbidden hosts that the look at the text does not see. -/
def overlooked : Host → Bool
  | .domain name => toLowercase name.text = "localhost.".toList
  | .ipv4 addr => addr.isLinkLocal || addr.isUnspecified
  | .ipv6 addr => Ipv6Addr.isInternal addr

/-! ## The look at the host -/

theorem endsWith_last {suffix s : Text} {c d : Char} (other : c ≠ d) :
    endsWith (suffix ++ [c]) (s ++ [d]) = false := by
  simp [endsWith, stripSuffix, stripPrefix, other]

/-- A host in brackets is never turned away. -/
theorem isPrivateHost_bracket (s : Text) : isPrivateHost ('[' :: (s ++ [']'])) = false := by
  have low : toLowercase ('[' :: (s ++ [']'])) = ('[' :: toLowercase s) ++ [']'] := by
    simp [toLowercase]
  have dotLocal := @endsWith_last ".loca".toList ('[' :: toLowercase s) 'l' ']' (by decide)
  have dotCorp := @endsWith_last ".cor".toList ('[' :: toLowercase s) 'p' ']' (by decide)
  rw [isPrivateHost, IpAddress.parse_bracket]
  dsimp only
  rw [low]
  have named : ('[' :: toLowercase s) ++ [']'] ≠ "localhost".toList := by
    intro same
    cases same
  rw [decide_eq_false]
  rintro (ends | ends | same)
  · rw [show ".local".toList = ".loca".toList ++ ['l'] from rfl, dotLocal] at ends
    cases ends
  · rw [show ".corp".toList = ".cor".toList ++ ['p'] from rfl, dotCorp] at ends
    cases ends
  · exact named same

theorem isPrivateHost_ipv4 (world : World) (addr : Ipv4Addr) :
    isPrivateHost (hostStr world (.ipv4 addr)) = (addr.isPrivate || addr.isLoopback) := by
  rw [hostStr, isPrivateHost, IpAddress.parse_printIpv4]
  simp only [Ipv4Addr.isPrivate, Ipv4Addr.isLoopback, Bool.decide_or]
  cases decide (addr.a = 10) <;> cases decide (addr.a = 127) <;> simp

theorem isPrivateHost_domain (world : World) (name : DomainName) :
    isPrivateHost (hostStr world (.domain name)) = true ↔
      endsWith ".local".toList (toLowercase name.text) = true ∨
        endsWith ".corp".toList (toLowercase name.text) = true ∨
        toLowercase name.text = "localhost".toList := by
  rw [hostStr, isPrivateHost, name.unnumbered]
  exact decide_eq_true_iff

/-- Behind the look, what is still forbidden is what it overlooks. -/
theorem forbidden_eq_overlooked {world : World} {host : Host}
    (passed : isPrivateHost (hostStr world host) = false) : forbidden host = overlooked host := by
  cases host with
  | domain name =>
    have other : toLowercase name.text ≠ "localhost".toList := by
      intro same
      rw [(isPrivateHost_domain world name).mpr (.inr (.inr same))] at passed
      cases passed
    exact decide_eq_decide.mpr (or_iff_right other)
  | ipv4 addr =>
    rw [isPrivateHost_ipv4, Bool.or_eq_false_iff] at passed
    simp [forbidden, overlooked, Ipv4Addr.isInternal, passed.1, passed.2]
  | ipv6 addr => rfl

/-- No overlooked host is turned away. -/
theorem overlooked_passes {world : World} {host : Host} (unseen : overlooked host = true) :
    isPrivateHost (hostStr world host) = false := by
  cases host with
  | domain name =>
    have dotted : toLowercase name.text = "localhost.".toList := of_decide_eq_true unseen
    refine Bool.eq_false_iff.mpr fun seen => ?_
    rw [isPrivateHost_domain, dotted] at seen
    revert seen
    decide +kernel
  | ipv4 addr =>
    rw [isPrivateHost_ipv4]
    have kinds : (addr.a = 169 ∧ addr.b = 254) ∨ addr = ⟨0, 0, 0, 0⟩ := by
      simpa [overlooked, Ipv4Addr.isLinkLocal, Ipv4Addr.isUnspecified] using unseen
    rcases kinds with ⟨first, _⟩ | rfl
    · simp [Ipv4Addr.isPrivate, Ipv4Addr.isLoopback, first]
    · rfl
  | ipv6 addr => exact isPrivateHost_bracket _

/-! ## Requests -/

/-- The request goes to no forbidden host. -/
def Harmless (url : Url) : Prop := url.host.any forbidden = false

theorem harmless_start {world : World} {url : Url} (on : blockPrivate world = true)
    (passed : blocked world url = false) : Harmless url ↔ url.host.any overlooked = false := by
  rw [blocked, on, Bool.true_and] at passed
  unfold Harmless
  cases there : url.host with
  | none => exact Iff.rfl
  | some host =>
    rw [there] at passed
    rw [Option.any_some, Option.any_some, forbidden_eq_overlooked passed]

theorem harmless_send (policy : RedirectPolicy) (url : Url) (answer : Answer) :
    (∀ sent ∈ (send policy url answer).1, Harmless sent) ↔
      Harmless url ∧ ∀ hop ∈ policy.followed answer.hops, Harmless hop :=
  List.forall_mem_cons

/-- The robots file is asked for where the page is. -/
theorem harmless_robots (world : World) (params : Json) (url : Url) (answer : Answer) :
    (∀ sent ∈ (checkRobots world params url answer).1, Harmless sent) ↔
      (respectRobots world = true ∧ url.host.isSome = true →
        Harmless url ∧
          ∀ hop ∈ (redirectPolicy world params).followed answer.hops, Harmless hop) := by
  by_cases asked : respectRobots world = true ∧ url.host.isSome = true
  · rw [checkRobots, if_pos asked]
    exact (harmless_send _ _ _).trans ⟨fun harmless _ => harmless, fun harmless => harmless asked⟩
  · rw [checkRobots, if_neg asked]
    exact ⟨fun _ unasked => absurd unasked asked, fun _ => nofun⟩

/-- Only a robots file that was asked for forbids a page. -/
theorem asked_of_disallowed {world : World} {params : Json} {url : Url} {answer : Answer}
    (disallowed : (checkRobots world params url answer).2 = true) :
    respectRobots world = true ∧ url.host.isSome = true := by
  by_contra unasked
  rw [checkRobots, if_neg unasked] at disallowed
  cases disallowed

/-- With the blocking switched on, no request goes to a forbidden host if and only if the start is
turned away, or it is of none of the kinds that are overlooked and no redirect that is followed
leads to a forbidden host. -/
theorem harmless_iff {world : World} (params : Json) (answers : Answers)
    (on : blockPrivate world = true) :
    (∀ url ∈ execute world params answers, Harmless url) ↔
      ∀ url, startUrl world params = some url → blocked world url = true ∨
        (url.host.any overlooked = false ∧
          (respectRobots world = true ∧ url.host.isSome = true →
            ∀ hop ∈ (redirectPolicy world params).followed answers.robots.hops, Harmless hop) ∧
          ((checkRobots world params url answers.robots).2 = false →
            ∀ hop ∈ (redirectPolicy world params).followed answers.page.hops, Harmless hop)) := by
  unfold execute
  cases started : startUrl world params with
  | none => exact ⟨fun _ => nofun, fun _ => nofun⟩
  | some url =>
    simp only [Option.some.injEq, forall_eq']
    cases passed : blocked world url with
    | true => exact ⟨fun _ => .inl rfl, fun _ => nofun⟩
    | false =>
      have robots := harmless_robots world params url answers.robots
      rw [← harmless_start on passed]
      simp only [Bool.false_eq_true, if_false, false_or]
      -- The robots file goes first, and may keep the page from being asked for.
      cases disallowed : (checkRobots world params url answers.robots).2 with
      | true =>
        have asked := asked_of_disallowed disallowed
        rw [if_pos rfl, robots]
        exact ⟨fun harmless => ⟨(harmless asked).1, fun _ => (harmless asked).2, nofun⟩,
          fun ⟨start, hops, _⟩ _ => ⟨start, hops asked⟩⟩
      | false =>
        rw [if_neg nofun, List.forall_mem_append, robots, harmless_send]
        exact ⟨fun ⟨first, start, hops⟩ => ⟨start, fun asked => (first asked).2, fun _ => hops⟩,
          fun ⟨start, first, hops⟩ => ⟨fun asked => ⟨start, first asked⟩, start, hops rfl⟩⟩

/-- The local IPv6 host, asked for in brackets. -/
def sampleWorld : World where
  parse _ := some ⟨some (.ipv6 ⟨[0, 0, 0, 0, 0, 0, 0, 1], rfl⟩), "/".toList, none⟩
  ipv6Text _ := "::1".toList
  var _ := none

def sampleParams : Json := .object [("url".toList, .string "http://[::1]/".toList)]

def sampleAnswers : Answers := ⟨⟨[], none⟩, ⟨[], some "secret".toList⟩⟩

theorem harmless_iff_bracket :
    blockPrivate sampleWorld = true ∧
      ((∀ url ∈ execute sampleWorld sampleParams sampleAnswers, Harmless url) ↔
        ∀ url, startUrl sampleWorld sampleParams = some url → blocked sampleWorld url = true ∨
          (url.host.any overlooked = false ∧
            (respectRobots sampleWorld = true ∧ url.host.isSome = true →
              ∀ hop ∈ (redirectPolicy sampleWorld sampleParams).followed sampleAnswers.robots.hops,
                Harmless hop) ∧
            ((checkRobots sampleWorld sampleParams url sampleAnswers.robots).2 = false →
              ∀ hop ∈ (redirectPolicy sampleWorld sampleParams).followed sampleAnswers.page.hops,
                Harmless hop))) :=
  ⟨by decide +kernel, harmless_iff sampleParams sampleAnswers (by decide +kernel)⟩

/-- The local host is asked although private hosts are blocked. -/
theorem bracket_overlooked :
    blockPrivate sampleWorld = true ∧
      ¬ ∀ url ∈ execute sampleWorld sampleParams sampleAnswers, Harmless url := by
  refine ⟨by decide +kernel, fun harmless => ?_⟩
  have sent : ∃ url ∈ execute sampleWorld sampleParams sampleAnswers,
      url.host.any forbidden = true := by
    refine List.any_eq_true.mp ?_
    decide +kernel
  obtain ⟨url, member, bad⟩ := sent
  rw [harmless url member] at bad
  cases bad

end FetchUrl
end Devit
