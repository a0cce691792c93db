import Lionden.Js.Json

/-!
# The egress guard

The transports that are given to the SDK follow redirects themselves, so that every URL can be
checked before it is fetched. The server does anything.

* `Web`: what is used of the platform.
* `fetchWithEgressGuardedRedirects`: the loop over the redirects.
* `makeNetworkTransport`, `makeParameterTransport`: the two transports.
* `egress_guarded`: what they fetch.
-/

namespace Lionden.Network.Egress

/-! ## The platform -/

/-- `URL`, and `toUpperCase`. -/
structure Web (Url : Type) where
  /-- `new URL(text)`, unless it throws. -/
  parse : JsString → Option Url
  /-- `new URL(text, base)`, unless it throws. -/
  resolve : JsString → Url → Option Url
  href : Url → JsString
  host : Url → JsString
  protocol : Url → JsString
  pathname : Url → JsString
  search : Url → JsString
  toUpperCase : JsString → JsString

structure Body where
  content : JsString
  /-- The content type that a request gets from it. -/
  type : Option JsString
  /-- It can be read once only. -/
  stream : Bool

structure RequestInit where
  method : Option JsString
  headers : Option (List (JsString × JsString))
  body : Option Body
  redirect : Option JsString
  deriving Inhabited

/-- A `Request`. -/
structure Request where
  url : JsString
  method : JsString
  headers : List (JsString × JsString)
  body : Option Body

/-- What a transport is called with. -/
inductive Input (Url : Type) where
  | text (s : JsString)
  | url (u : Url)
  | request (r : Request)

structure Response where
  status : Nat
  statusText : JsString
  headers : List (JsString × JsString)
  /-- The text of the body, unless reading it fails. -/
  body : Option JsString

def Response.ok (r : Response) : Bool := decide (200 ≤ r.status) && decide (r.status ≤ 299)

/-- A call of `fetch`. -/
structure Fetch (Url : Type) where
  input : Input Url
  init : RequestInit

structure Thrown where
  /-- It is a `ParameterHostValidationError`. -/
  parameterHost : Bool
  message : JsString
  deriving DecidableEq

section Transport

variable {Url : Type}

/-- What `fetch` settles with, given all calls with the latest first: an error is its message. -/
abbrev Server (Url : Type) := List (Fetch Url) → Except JsString Response

/-- What a call ends with, and the calls of `fetch` with the latest first. -/
abbrev Ended (Url α : Type) := Except Thrown α × List (Fetch Url)

variable (web : Web Url) (server : Server Url)

def urlOf : Input Url → Option Url
  | .request r => web.parse r.url
  | .url u => some u
  | .text s => web.parse s

/-- The URL that a call of `fetch` goes to. -/
def Fetch.url (f : Fetch Url) : Option Url := urlOf web f.input

/-! ## Redirects -/

def GUARDED_TRANSPORT_REDIRECT_STATUSES : List Nat := [301, 302, 303, 307, 308]

def GUARDED_TRANSPORT_MAX_REDIRECTS : Nat := 20

def redirectAwareInit (init : Option RequestInit) : RequestInit :=
  { init.getD default with redirect := some (js "manual") }

def bodyHeaders : List JsString := ["content-encoding", "content-length", "content-type"].map js

def nextRedirectInit (init : Option RequestInit) (status : Nat) : Option RequestInit :=
  let method := (init.bind (·.method)).map web.toUpperCase
  let shouldSwitchToGet :=
    (status = 303 ∧ method ≠ some (js "GET") ∧ method ≠ some (js "HEAD")) ∨
      ((status = 301 ∨ status = 302) ∧ method = some (js "POST"))
  if shouldSwitchToGet then
    let next := init.getD default
    some { method := some (js "GET")
           headers := next.headers.map fun headers =>
             (headers.map fun (name, value) => (lower name, value)).filter fun (name, _) =>
               name ∉ bodyHeaders
           body := none
           redirect := next.redirect }
  else init

def fetch (input : Input Url) (init : Option RequestInit) (log : List (Fetch Url)) :
    Ended Url Response :=
  let log := ⟨input, redirectAwareInit init⟩ :: log
  ((server log).mapError fun message => ⟨false, message⟩, log)

def redirectLoop (href : JsString) : Thrown :=
  ⟨false, js "LionDen SDK transport detected redirect loop to \"" ++ href ++ js "\"."⟩

def tooManyRedirects : Thrown :=
  ⟨false, js "LionDen SDK transport exceeded " ++ decimal GUARDED_TRANSPORT_MAX_REDIRECTS ++
    js " redirects."⟩

def invalidUrl : Thrown := ⟨false, js "Invalid URL"⟩

/-- The `location` header, unless it is empty. -/
def Response.location (r : Response) : Option JsString :=
  (r.headers.lookup (js "location")).filter (· ≠ [])

/-- The loop of `fetchWithEgressGuardedRedirects`. -/
def followRedirects (validateUrl : Url → Except Thrown Unit) (currentUrl : Url)
    (currentInput : Input Url) (currentInit : Option RequestInit) (redirectCount : Nat)
    (visited : List JsString) (log : List (Fetch Url)) : Ended Url Response :=
  match validateUrl currentUrl with
  | .error thrown => (.error thrown, log)
  | .ok () =>
    if web.href currentUrl ∈ visited then (.error (redirectLoop (web.href currentUrl)), log)
    else
    match fetch server currentInput currentInit log with
    | (.error thrown, log) => (.error thrown, log)
    | (.ok response, log) =>
      if response.status ∉ GUARDED_TRANSPORT_REDIRECT_STATUSES then (.ok response, log)
      else
      match response.location with
      | none => (.ok response, log)
      | some location =>
        if GUARDED_TRANSPORT_MAX_REDIRECTS ≤ redirectCount then (.error tooManyRedirects, log)
        else
        match web.resolve location currentUrl with
        | none => (.error invalidUrl, log)
        | some nextUrl =>
          followRedirects validateUrl nextUrl (.url nextUrl)
            (nextRedirectInit web currentInit response.status) (redirectCount + 1)
            (web.href currentUrl :: visited) log
  termination_by GUARDED_TRANSPORT_MAX_REDIRECTS - redirectCount

def fetchWithEgressGuardedRedirects (input : Input Url) (init : Option RequestInit)
    (validateUrl : Url → Except Thrown Unit) (log : List (Fetch Url)) : Ended Url Response :=
  match urlOf web input with
  | none => fetch server input init log
  | some currentUrl => followRedirects web server validateUrl currentUrl input init 0 [] log

/-! ## The network transport -/

inductive Violation where
  | block
  | warn
  deriving DecidableEq

/-- A warning goes to the console. -/
def validateNetworkHost (allowed : List JsString) (violation : Violation) (url : Url) :
    Except Thrown Unit :=
  if web.host url ∉ allowed ∧ violation = .block then
    .error ⟨false, js "LionDen blocked SDK network fetch to host \"" ++ web.host url ++ js "\". " ++
      js "Allowed hosts: " ++ (if allowed = [] then js "(none)" else join (js ", ") allowed) ++
      js ". Extend sdk.egress.networkHosts or change sdk.egress.violation."⟩
  else .ok ()

inductive DiagnosticOutcome where
  | response (status : Nat) (statusText : JsString) (bodyExcerpt : Option JsString)
  | error (message : JsString)

structure Diagnostic where
  method : JsString
  url : JsString
  outcome : DiagnosticOutcome

/-- `String(input)`. -/
def Input.string : Input Url → JsString
  | .text s => s
  | .url u => web.href u
  | .request _ => js "[object Request]"

/-- What is recorded of a call that ends so. -/
def diagnose (input : Input Url) (init : Option RequestInit) (ended : Except Thrown Response) :
    Option Diagnostic :=
  let method := ((init.bind (·.method)).map web.toUpperCase).getD (js "GET")
  let url := ((urlOf web input).map web.href).getD (input.string web)
  match ended with
  | .error thrown => some { method, url, outcome := .error thrown.message }
  | .ok response =>
    if response.ok then none
    else some { method, url
                outcome := .response response.status response.statusText
                  (response.body.map (·.take 512)) }

/-- The transport, with what it records if it is given `diagnostics`. -/
def makeNetworkTransport (allowed : List JsString) (violation : Violation)
    (diagnostics : Option (List Diagnostic)) (input : Input Url) (init : Option RequestInit)
    (log : List (Fetch Url)) : Ended Url Response × Option (List Diagnostic) :=
  let ended := fetchWithEgressGuardedRedirects web server input init
    (validateNetworkHost web allowed violation) log
  (ended, diagnostics.map (· ++ (diagnose web input init ended.1).toList))

/-! ## The parameter transport -/

def KNOWN_SDK_PARAMETER_HOSTS : List JsString :=
  ["parameters.provable.com", "s3.us-west-1.amazonaws.com", "parameters.aleo.org"].map js

def validateParameterHost (url : Url) : Except Thrown Unit :=
  if web.host url ∉ KNOWN_SDK_PARAMETER_HOSTS then
    .error ⟨true, js "LionDen does not recognize SDK parameter host \"" ++ web.host url ++
      js "\". Known hosts: " ++ join (js ", ") KNOWN_SDK_PARAMETER_HOSTS ++
      js ". This may indicate a stale LionDen allowlist; please report."⟩
  else .ok ()

def fetchParameterUrl (input : Input Url) (init : Option RequestInit) (log : List (Fetch Url)) :
    Ended Url Response :=
  fetchWithEgressGuardedRedirects web server input init (validateParameterHost web) log

/-- `/^\/([^/]+)\/(.+)$/`. -/
def splitArtifactPath (pathname : JsString) : Option (JsString × JsString) :=
  match pathname with
  | 47 :: rest =>
    let network := rest.takeWhile (· ≠ 47)
    match rest.dropWhile (· ≠ 47) with
    | 47 :: artifactPath =>
      if network = [] ∨ artifactPath = [] ∨ artifactPath.any ([10, 13, 0x2028, 0x2029].contains ·)
      then none
      else some (network, artifactPath)
    | _ => none
  | _ => none

/-- The URL of the mirror if there is one; making it may throw. -/
def parameterMirrorUrl (url : Url) : Except Thrown (Option Url) :=
  if web.protocol url ≠ js "https:" ∨ web.host url ≠ js "parameters.provable.com" then .ok none
  else
  match splitArtifactPath (web.pathname url) with
  | none => .ok none
  | some (network, artifactPath) =>
    match web.parse (js "https://s3.us-west-1.amazonaws.com/" ++ network ++ js ".parameters/" ++
        artifactPath ++ web.search url) with
    | none => .error invalidUrl
    | some mirror => .ok (some mirror)

/-- The response of the mirror, if it has one. -/
def tryParameterMirror (mirrorUrl : Url) (init : Option RequestInit) (log : List (Fetch Url)) :
    Option Response × List (Fetch Url) :=
  let (result, log) := fetchParameterUrl web server (.url mirrorUrl) init log
  (result.toOption, log)

/-- The mirror's response if it is a good one, and else what the primary ended with. -/
def orMirror (primary : Except Thrown Response) (mirrorUrl : Url) (init : Option RequestInit)
    (log : List (Fetch Url)) : Ended Url Response :=
  match tryParameterMirror web server mirrorUrl init log with
  | (some mirrorResponse, log) => (if mirrorResponse.ok then .ok mirrorResponse else primary, log)
  | (none, log) => (primary, log)

def makeParameterTransport (input : Input Url) (init : Option RequestInit)
    (log : List (Fetch Url)) : Ended Url Response :=
  match urlOf web input with
  | none => fetchParameterUrl web server input init log
  | some primaryUrl =>
    match parameterMirrorUrl web primaryUrl with
    | .error thrown => (.error thrown, log)
    | .ok mirrorUrl =>
      match fetchParameterUrl web server input init log, mirrorUrl with
      | (.ok response, log), some mirrorUrl =>
        if response.ok then (.ok response, log)
        else orMirror web server (.ok response) mirrorUrl init log
      | (.error thrown, log), some mirrorUrl =>
        if thrown.parameterHost then (.error thrown, log)
        else orMirror web server (.error thrown) mirrorUrl init log
      | ended, none => ended

/-! ## What is fetched -/

variable {web server} {input : Input Url} {init : Option RequestInit} {log : List (Fetch Url)}
  {allowed : List JsString}

/-- The hosts of the calls are allowed ones, and no call follows a redirect by itself. -/
def Guarded (web : Web Url) (allowed : List JsString) (calls : List (Fetch Url)) : Prop :=
  ∀ call ∈ calls, call.init.redirect = some (js "manual") ∧
    ∀ url, call.url web = some url → web.host url ∈ allowed

/-- A call adds to the log at most `bound` calls of `fetch`, to hosts that are allowed. -/
def Adds (web : Web Url) (allowed : List JsString) (bound : Nat) (log log' : List (Fetch Url)) :
    Prop :=
  ∃ new, log' = new ++ log ∧ new.length ≤ bound ∧ Guarded web allowed new

theorem Adds.refl {bound : Nat} : Adds web allowed bound log log :=
  ⟨[], rfl, Nat.zero_le _, fun _ h => nomatch h⟩

theorem Adds.mono {bound bound' : Nat} {log' : List (Fetch Url)} (hbound : bound ≤ bound')
    (h : Adds web allowed bound log log') : Adds web allowed bound' log log' := by
  obtain ⟨new, hlog, hlength, hguarded⟩ := h
  exact ⟨new, hlog, hlength.trans hbound, hguarded⟩

theorem Adds.trans {bound bound' : Nat} {log₁ log₂ : List (Fetch Url)}
    (h₁ : Adds web allowed bound log log₁) (h₂ : Adds web allowed bound' log₁ log₂) :
    Adds web allowed (bound + bound') log log₂ := by
  obtain ⟨new₁, rfl, hlength₁, hguarded₁⟩ := h₁
  obtain ⟨new₂, rfl, hlength₂, hguarded₂⟩ := h₂
  refine ⟨new₂ ++ new₁, by rw [List.append_assoc], ?_, fun call hcall => ?_⟩
  · rw [List.length_append]
    omega
  · rcases List.mem_append.mp hcall with h | h
    · exact hguarded₂ call h
    · exact hguarded₁ call h

theorem fetch_adds (h : ∀ url, urlOf web input = some url → web.host url ∈ allowed) :
    Adds web allowed 1 log (fetch server input init log).2 := by
  refine ⟨[⟨input, redirectAwareInit init⟩], rfl, Nat.le_refl 1, fun call hcall => ?_⟩
  rw [List.mem_singleton.mp hcall]
  exact ⟨rfl, h⟩

/-- One more redirect is one more call. -/
theorem followRedirects_adds {validateUrl : Url → Except Thrown Unit} {currentUrl : Url}
    {redirectCount : Nat} {visited : List JsString}
    (hvalidate : ∀ url, validateUrl url = .ok () → web.host url ∈ allowed)
    (hcount : redirectCount ≤ GUARDED_TRANSPORT_MAX_REDIRECTS)
    (hinput : urlOf web input = some currentUrl) :
    Adds web allowed (GUARDED_TRANSPORT_MAX_REDIRECTS - redirectCount + 1) log
      (followRedirects web server validateUrl currentUrl input init redirectCount visited log).2 := by
  have hcall {currentUrl : Url} {input : Input Url} {init : Option RequestInit}
      {log log' : List (Fetch Url)} {ended : Except Thrown Response}
      (hinput : urlOf web input = some currentUrl) (hvalid : validateUrl currentUrl = .ok ())
      (hfetch : fetch server input init log = (ended, log')) : Adds web allowed 1 log log' := by
    have hadds : Adds web allowed 1 log (fetch server input init log).2 := by
      refine fetch_adds fun url hurl => ?_
      obtain rfl := Option.some.inj (hurl.symm.trans hinput)
      exact hvalidate _ hvalid
    rwa [hfetch] at hadds
  fun_induction followRedirects with
  | case1 => exact Adds.refl
  | case2 => exact Adds.refl
  | case3 _ _ _ _ _ _ hvalid _ _ _ hfetch => exact (hcall hinput hvalid hfetch).mono (by omega)
  | case4 _ _ _ _ _ _ hvalid _ _ _ hfetch => exact (hcall hinput hvalid hfetch).mono (by omega)
  | case5 _ _ _ _ _ _ hvalid _ _ _ hfetch => exact (hcall hinput hvalid hfetch).mono (by omega)
  | case6 _ _ _ _ _ _ hvalid _ _ _ hfetch => exact (hcall hinput hvalid hfetch).mono (by omega)
  | case7 _ _ _ _ _ _ hvalid _ _ _ hfetch => exact (hcall hinput hvalid hfetch).mono (by omega)
  | case8 _ _ _ _ _ _ hvalid _ _ _ hfetch _ _ _ hmore _ _ ih =>
    -- The next URL is checked before it is fetched.
    exact ((hcall hinput hvalid hfetch).trans (ih (by omega) rfl)).mono (by omega)

/-- An attempt makes at most 21 calls. -/
theorem fetchWithEgressGuardedRedirects_adds {validateUrl : Url → Except Thrown Unit}
    (hvalidate : ∀ url, validateUrl url = .ok () → web.host url ∈ allowed) :
    Adds web allowed 21 log
      (fetchWithEgressGuardedRedirects web server input init validateUrl log).2 := by
  unfold fetchWithEgressGuardedRedirects
  cases hinput : urlOf web input with
  | none =>
    exact (fetch_adds fun url hurl => nomatch hinput.symm.trans hurl).mono (by omega)
  | some currentUrl => exact followRedirects_adds hvalidate (Nat.zero_le _) hinput

theorem validateNetworkHost_ok {url : Url} (h : validateNetworkHost web allowed .block url = .ok ()) :
    web.host url ∈ allowed := by
  unfold validateNetworkHost at h
  by_contra hhost
  rw [if_pos ⟨hhost, rfl⟩] at h
  exact nomatch h

theorem validateParameterHost_ok {url : Url} (h : validateParameterHost web url = .ok ()) :
    web.host url ∈ KNOWN_SDK_PARAMETER_HOSTS := by
  unfold validateParameterHost at h
  by_contra hhost
  rw [if_pos hhost] at h
  exact nomatch h

theorem fetchParameterUrl_adds :
    Adds web KNOWN_SDK_PARAMETER_HOSTS 21 log (fetchParameterUrl web server input init log).2 :=
  fetchWithEgressGuardedRedirects_adds fun _ => validateParameterHost_ok

theorem orMirror_adds {primary : Except Thrown Response} {mirrorUrl : Url} :
    Adds web KNOWN_SDK_PARAMETER_HOSTS 21 log
      (orMirror web server primary mirrorUrl init log).2 := by
  have hadds : Adds web KNOWN_SDK_PARAMETER_HOSTS 21 log
      (fetchParameterUrl web server (.url mirrorUrl) init log).2 := fetchParameterUrl_adds
  unfold orMirror tryParameterMirror
  cases hfetch : fetchParameterUrl web server (.url mirrorUrl) init log with
  | mk result log' =>
    rw [hfetch] at hadds
    cases result <;> exact hadds

/-- The parameter transport makes one attempt, and another one for the mirror. -/
theorem makeParameterTransport_adds :
    (makeParameterTransport web server input init log).2 = log ∨
      Adds web KNOWN_SDK_PARAMETER_HOSTS 21 (fetchParameterUrl web server input init log).2
        (makeParameterTransport web server input init log).2 := by
  unfold makeParameterTransport
  cases urlOf web input with
  | none => exact .inr Adds.refl
  | some primaryUrl =>
    dsimp only
    cases parameterMirrorUrl web primaryUrl with
    | error thrown => exact .inl rfl
    | ok mirrorUrl =>
      right
      dsimp only
      rcases fetchParameterUrl web server input init log with ⟨thrown | response, log'⟩
      · cases mirrorUrl with
        | none => exact Adds.refl
        | some mirrorUrl =>
          dsimp only
          split
          · exact Adds.refl
          · exact orMirror_adds
      · cases mirrorUrl with
        | none => exact Adds.refl
        | some mirrorUrl =>
          dsimp only
          split
          · exact Adds.refl
          · exact orMirror_adds

/-- **Nothing but allowed hosts is fetched from**, and an attempt makes at most 21 calls, whatever the
server answers. The calls end, as the redirects of an attempt are counted. -/
theorem egress_guarded (web : Web Url) (server : Server Url) (input : Input Url)
    (init : Option RequestInit) (log : List (Fetch Url)) :
    (∀ allowed diagnostics, Adds web allowed 21 log
      (makeNetworkTransport web server allowed .block diagnostics input init log).1.2) ∧
    Adds web KNOWN_SDK_PARAMETER_HOSTS 21 log (fetchParameterUrl web server input init log).2 ∧
    ((makeParameterTransport web server input init log).2 = log ∨
      Adds web KNOWN_SDK_PARAMETER_HOSTS 21 (fetchParameterUrl web server input init log).2
        (makeParameterTransport web server input init log).2) :=
  ⟨fun _ _ => fetchWithEgressGuardedRedirects_adds fun _ => validateNetworkHost_ok,
    fetchParameterUrl_adds, makeParameterTransport_adds⟩

end Transport

end Lionden.Network.Egress
