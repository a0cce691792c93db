import Lionden.Network.Egress

/-!
# Requests and redirects of the platform

What `fetch` makes of its arguments, and the redirects that it follows itself, by the Fetch standard:
the reference that the guarded loop is compared with.

* `newRequest`: `new Request(input, init)`, with the parts that a server sees.
* `followed`, `platformRequests`: what is sent where redirects are followed by the platform.
* `guardedRequests`: what is sent where the guarded loop follows them.
* `headerValue_filter`, `headerValue_requestHeaders`: headers by their names.
-/

namespace Lionden.Network.Egress

/-! ## The platform -/

/-- `a` to `z` become `A` to `Z`. -/
def upperUnit (ch : CodeUnit) : CodeUnit := if inRange 'a' 'z' ch then ch - 32 else ch

def upper (s : JsString) : JsString := s.map upperUnit

structure Platform (Url : Type) extends Web Url where
  /-- There is a user name or a password in it. -/
  credentials : Url → Bool
  /-- It is a token, and no forbidden method. -/
  methodAllowed : JsString → Bool
  /-- A header that requests cannot be given, by its name in lower case. -/
  forbiddenHeader : JsString → Bool

section Redirects

variable {Url : Type} (web : Platform Url)

/-- A URL without its fragment. -/
def Platform.address (url : Url) : JsString × JsString × JsString × JsString :=
  (web.protocol url, web.host url, web.pathname url, web.search url)

/-- What is known of the platform. -/
structure Platform.Lawful : Prop where
  /-- A token is ASCII. -/
  toUpperCase : ∀ method, web.methodAllowed method = true → web.toUpperCase method = upper method
  get : web.methodAllowed (js "GET") = true
  contentLength : web.forbiddenHeader (js "content-length") = true
  /-- The empty reference is the URL itself, without its fragment. -/
  resolve_empty : ∀ url url', web.resolve [] url = some url' → web.address url' = web.address url
  address_of_href : ∀ url url', web.href url = web.href url' → web.address url = web.address url'

/-! ## Requests -/

/-- A request as it goes out. -/
structure Outgoing (Url : Type) where
  url : Url
  method : JsString
  headers : List (JsString × JsString)
  body : Option Body

/-- What a server sees of a request; headers are found by their names in lower case. -/
structure Sent where
  address : JsString × JsString × JsString × JsString
  method : JsString
  headers : JsString → Option JsString
  body : Option JsString

/-- The combined value of a header, by its name in lower case. -/
def headerValue (headers : List (JsString × JsString)) (name : JsString) : Option JsString :=
  match (headers.filter fun e => lower e.1 = name).map Prod.snd with
  | [] => none
  | values => some (join (js ", ") values)

def Outgoing.sent (request : Outgoing Url) : Sent where
  address := web.address request.url
  method := request.method
  headers := headerValue request.headers
  body := request.body.map (·.content)

def normalizedMethods : List JsString := ["DELETE", "GET", "HEAD", "OPTIONS", "POST", "PUT"].map js

def normalizeMethod (method : JsString) : JsString :=
  if upper method ∈ normalizedMethods then upper method else method

def Input.method : Input Url → JsString
  | .request r => r.method
  | _ => js "GET"

def Input.headers : Input Url → List (JsString × JsString)
  | .request r => r.headers
  | _ => []

def Input.body : Input Url → Option Body
  | .request r => r.body
  | _ => none

/-- The headers of a new request: `given` or those of the input, and the type of `init.body`. -/
def requestHeaders (given : List (JsString × JsString)) (body : Option Body) :
    List (JsString × JsString) :=
  let headers := given.filter fun e => ¬ web.forbiddenHeader (lower e.1)
  match body.bind (·.type) with
  | some type =>
    if headerValue headers (js "content-type") = none then headers ++ [(js "Content-Type", type)]
    else headers
  | none => headers

/-- Methods of requests without a body. -/
def bodiless (method : JsString) : Prop := method = js "GET" ∨ method = js "HEAD"

instance (method : JsString) : Decidable (bodiless method) :=
  inferInstanceAs (Decidable (_ ∨ _))

/-- `new Request(input, init)`, unless it throws. -/
def newRequest (input : Input Url) (init : RequestInit) : Option (Outgoing Url) :=
  match urlOf web.toWeb input with
  | none => none
  | some url =>
    let method := (init.method.map normalizeMethod).getD input.method
    let body := init.body.or input.body
    if web.credentials url = true ∨ init.method.any (fun method => !web.methodAllowed method) = true ∨
        bodiless method ∧ body.isSome = true then none
    else
      some { url, method, body
             headers := requestHeaders web (init.headers.getD input.headers) init.body }

def Outgoing.streams (request : Outgoing Url) : Bool := request.body.any (·.stream)

/-- A request to it goes out. -/
def fetchable (url : Url) : Prop :=
  (web.protocol url = js "http:" ∨ web.protocol url = js "https:") ∧ web.credentials url = false

instance (url : Url) : Decidable (fetchable web url) := inferInstanceAs (Decidable (_ ∧ _))

/-! ## Redirects of the platform -/

/-- Where a response redirects to. -/
def target (url : Url) (response : Response) : Option Url :=
  if response.status ∈ GUARDED_TRANSPORT_REDIRECT_STATUSES then
    (response.headers.lookup (js "location")).bind fun location => web.resolve location url
  else none

/-- The URLs of a chain of redirects. -/
def chain (url : Url) : List Response → List Url
  | [] => [url]
  | response :: rest =>
    url ::
      if fetchable web url then
        match target web url response with
        | none => []
        | some next => chain next rest
      else []

def switchesToGet (method : JsString) (status : Nat) : Prop :=
  (status = 303 ∧ ¬ bodiless method) ∨ ((status = 301 ∨ status = 302) ∧ method = js "POST")

instance (method : JsString) (status : Nat) : Decidable (switchesToGet method status) :=
  inferInstanceAs (Decidable (_ ∨ _))

/-- The request-body-header names. -/
def requestBodyHeaders : List JsString :=
  ["content-encoding", "content-language", "content-location", "content-type"].map js

def sameOrigin (url url' : Url) : Prop :=
  web.protocol url = web.protocol url' ∧ web.host url = web.host url'

instance (url url' : Url) : Decidable (sameOrigin web url url') :=
  inferInstanceAs (Decidable (_ ∧ _))

/-- A header that a redirect takes away. -/
def dropped (request : Outgoing Url) (status : Nat) (url : Url) (name : JsString) : Prop :=
  (switchesToGet request.method status ∧ name ∈ requestBodyHeaders) ∨
    (¬ sameOrigin web request.url url ∧ name = js "authorization")

instance (request : Outgoing Url) (status : Nat) (url : Url) (name : JsString) :
    Decidable (dropped web request status url name) := inferInstanceAs (Decidable (_ ∨ _))

/-- The request after a redirect to `url`. -/
def redirected (request : Outgoing Url) (status : Nat) (url : Url) : Outgoing Url where
  url := url
  method := if switchesToGet request.method status then js "GET" else request.method
  headers := request.headers.filter fun e => ¬ dropped web request status url (lower e.1)
  body := if switchesToGet request.method status then none else request.body

/-- HTTP-redirect fetch: the next request, unless the response is final or a network error. -/
def httpRedirect (request : Outgoing Url) (response : Response) : Option (Outgoing Url) :=
  match target web request.url response with
  | none => none
  | some url =>
    -- The body of a stream cannot be sent again.
    if fetchable web url ∧ ¬(request.streams = true ∧ response.status ≠ 303) then
      some (redirected web request response.status url)
    else none

/-- What is sent where the platform follows redirects, given the answers to the requests in turn. -/
def followed (redirectCount : Nat) (request : Outgoing Url) : List Response → List Sent
  | [] => [request.sent web]
  | response :: rest =>
    request.sent web ::
      match httpRedirect web request response with
      | none => []
      | some next => if redirectCount = 20 then [] else followed (redirectCount + 1) next rest

/-- `fetch(input, { ...init, redirect: "follow" })`. -/
def platformRequests (input : Input Url) (init : Option RequestInit) (responses : List Response) :
    List Sent :=
  match newRequest web input (init.getD default) with
  | none => []
  | some request => if fetchable web request.url then followed web 0 request responses else []

/-! ## Redirects of the guarded loop -/

/-- What a call of `fetch` sends: nothing if it throws, as it does for a stream that an earlier call
has read. -/
def callSent (call : Fetch Url) (earlier : List (Fetch Url)) : Option Sent :=
  match newRequest web call.input call.init with
  | none => none
  | some request =>
    if fetchable web request.url ∧ (earlier = [] ∨ call.init.body.any (·.stream) = false) then
      some (request.sent web)
    else none

/-- What is sent by the calls of a log. -/
def logSent : List (Fetch Url) → List Sent
  | [] => []
  | call :: earlier => logSent earlier ++ (callSent web call earlier).toList

/-- The server that answers the requests in turn. -/
def answering (responses : List Response) : Server Url
  | [] => .error []
  | call :: earlier =>
    match callSent web call earlier, responses[earlier.length]? with
    | some _, some response => .ok response
    | _, _ => .error (js "fetch failed")

/-- What `fetchWithEgressGuardedRedirects` sends. -/
def guardedRequests (validateUrl : Url → Except Thrown Unit) (input : Input Url)
    (init : Option RequestInit) (responses : List Response) : List Sent :=
  logSent web (fetchWithEgressGuardedRedirects web.toWeb (answering web responses) input init
    validateUrl []).2

/-! ## Headers by their names -/

variable {web}

theorem headerValue_eq_none {headers : List (JsString × JsString)} {name : JsString} :
    headerValue headers name = none ↔ ∀ e ∈ headers, lower e.1 ≠ name := by
  unfold headerValue
  split
  · next h =>
    rw [List.map_eq_nil_iff, List.filter_eq_nil_iff] at h
    simpa using h
  · next h =>
    have hne : (headers.filter fun e => lower e.1 = name) ≠ [] := fun hnil => h (by rw [hnil]; rfl)
    obtain ⟨e, he⟩ := List.exists_mem_of_ne_nil _ hne
    obtain ⟨hmem, hname⟩ := List.mem_filter.mp he
    exact ⟨fun h => (nomatch h), fun h => absurd (of_decide_eq_true hname) (h e hmem)⟩

theorem headerValue_filter (headers : List (JsString × JsString)) (keep : JsString → Bool)
    (name : JsString) :
    headerValue (headers.filter fun e => keep (lower e.1)) name =
      if keep name then headerValue headers name else none := by
  split
  · next hkeep =>
    unfold headerValue
    rw [List.filter_filter]
    have heq : (headers.filter fun e => decide (lower e.1 = name) && keep (lower e.1)) =
        headers.filter fun e => lower e.1 = name := by
      refine List.filter_congr fun e _ => ?_
      by_cases hname : lower e.1 = name <;> simp [hname, hkeep]
    rw [heq]
  · next hdrop =>
    rw [headerValue_eq_none]
    rintro e he rfl
    exact hdrop (List.mem_filter.mp he).2

theorem headerValue_lower (headers : List (JsString × JsString)) (name : JsString) :
    headerValue (headers.map fun e => (lower e.1, e.2)) name = headerValue headers name := by
  unfold headerValue
  rw [List.filter_map, List.map_map]
  simp only [Function.comp_def, lower_lower]

theorem headerValue_concat {headers : List (JsString × JsString)} {key : JsString} (value : JsString)
    (h : headerValue headers (lower key) = none) (name : JsString) :
    headerValue (headers ++ [(key, value)]) name =
      if name = lower key then some value else headerValue headers name := by
  by_cases hname : name = lower key
  · subst hname
    have hnil : (headers.filter fun e => decide (lower e.1 = lower key)) = [] :=
      List.filter_eq_nil_iff.mpr fun e he => by
        simpa using headerValue_eq_none.mp h e he
    rw [if_pos rfl, headerValue, List.filter_append, hnil, List.nil_append,
      List.filter_cons_of_pos (by simp)]
    rfl
  · rw [if_neg hname, headerValue, List.filter_append,
      List.filter_cons_of_neg (by simpa using fun h => hname h.symm), List.filter_nil,
      List.append_nil]
    rfl

/-- The headers that are allowed. -/
def allowedHeaders (web : Platform Url) (given : List (JsString × JsString)) :
    List (JsString × JsString) :=
  given.filter fun e => ¬ web.forbiddenHeader (lower e.1)

theorem headerValue_allowedHeaders (given : List (JsString × JsString)) (name : JsString) :
    headerValue (allowedHeaders web given) name =
      if web.forbiddenHeader name then none else headerValue given name := by
  have h := headerValue_filter given (fun name => !web.forbiddenHeader name) name
  unfold allowedHeaders
  simp only [Bool.not_eq_true, Bool.decide_eq_false] at h ⊢
  rw [h]
  cases web.forbiddenHeader name <;> rfl

theorem requestHeaders_eq (given : List (JsString × JsString)) (body : Option Body) :
    requestHeaders web given body = allowedHeaders web given ∨
      ∃ type, requestHeaders web given body = allowedHeaders web given ++ [(js "Content-Type", type)] ∧
        headerValue (allowedHeaders web given) (js "content-type") = none := by
  unfold requestHeaders allowedHeaders
  dsimp only
  split
  · next type htype =>
    split
    · next hnone => exact .inr ⟨type, rfl, hnone⟩
    · exact .inl rfl
  · exact .inl rfl

/-- A body adds no header but its type. -/
theorem headerValue_requestHeaders {given : List (JsString × JsString)} {body : Option Body}
    {name : JsString} (hname : name ≠ js "content-type") :
    headerValue (requestHeaders web given body) name = headerValue (allowedHeaders web given) name := by
  obtain heq | ⟨type, heq, hnone⟩ := @requestHeaders_eq _ web given body
  · rw [heq]
  · have hlower : lower (js "Content-Type") = js "content-type" := by decide
    rw [heq, headerValue_concat _ (by rw [hlower]; exact hnone), if_neg (by rwa [hlower])]

theorem requestHeaders_none (given : List (JsString × JsString)) :
    requestHeaders web given none = allowedHeaders web given := rfl

end Redirects

end Lionden.Network.Egress
