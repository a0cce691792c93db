import Lionden.Network.Platform

/-!
# The guarded redirects and those of the platform

The guarded loop makes each request anew from `init`, where the platform changes the request it has.

* `Follows`, `Agrees`: the redirects after which both send the same.
* `logSent_followRedirects`: what the loop sends, without its checks.
* `callSent_nextRedirectInit`: what it sends after a redirect.
* `guarded_iff`: both send the same requests just where they agree.
-/

namespace Lionden.Network.Egress

section Agreement

variable {Url : Type} (web : Platform Url)

/-! ## The condition -/

/-- After this redirect nothing is carried on that the platform takes away, and nothing is taken away
that the platform carries on. `given` tells whether a method is given. -/
structure Kept (given : Bool) (request : Outgoing Url) (status : Nat) (url : Url) : Prop where
  authorization : ¬ sameOrigin web request.url url →
    headerValue request.headers (js "authorization") = none
  language : switchesToGet request.method status →
    headerValue request.headers (js "content-language") = none ∧
      headerValue request.headers (js "content-location") = none
  methodless : given = false → status = 303 →
    headerValue request.headers (js "content-encoding") = none ∧
      headerValue request.headers (js "content-type") = none

/-- All redirects of the request are such. The body of a stream must not be in the way of one that
becomes a GET. -/
def Follows (given : Bool) (request : Outgoing Url) : List Response → Prop
  | [] => True
  | response :: rest =>
    ∀ url, target web request.url response = some url → fetchable web url →
      if request.streams = true ∧ response.status ≠ 303 then
        ¬ switchesToGet request.method response.status
      else
        Kept web given request response.status url ∧
          Follows (given || response.status = 303) (redirected web request response.status url) rest

/-- Whether the loop makes a GET of what `init` gives. -/
def switchesAlone (method : Option JsString) (status : Nat) : Prop :=
  match method with
  | some method => switchesToGet (normalizeMethod method) status
  | none => status = 303

instance (method : Option JsString) (status : Nat) : Decidable (switchesAlone method status) := by
  unfold switchesAlone
  split <;> infer_instance

/-- The loop takes this header away. -/
def droppedAlone (init : RequestInit) (status : Nat) (name : JsString) : Prop :=
  switchesAlone init.method status ∧ name ∈ bodyHeaders

instance (init : RequestInit) (status : Nat) (name : JsString) :
    Decidable (droppedAlone init status name) := inferInstanceAs (Decidable (_ ∧ _))

/-- A header that `init` gives, be it as the type of its body. -/
def givenHeader (init : RequestInit) (name : JsString) : Option JsString :=
  headerValue (requestHeaders web (init.headers.getD []) init.body) name

/-- What the platform carries on of a `Request` is what `init` gives by itself. -/
structure RequestKept (init : RequestInit) (request : Outgoing Url) (status : Nat) (url : Url) :
    Prop where
  method : init.method.isSome = true ∨ (redirected web request status url).method = js "GET"
  body : (redirected web request status url).body.isSome = true → init.body.isSome = true
  /-- A body without a method is no request. -/
  methodless : init.method = none → status ≠ 303 → init.body = none
  /-- A header that is not taken away is given by `init`, and the loop does not take it away either. -/
  carried : ∀ name value, headerValue request.headers name = some value →
    ¬ dropped web request status url name →
      givenHeader web init name = some value ∧ ¬ droppedAlone init status name
  /-- A header that `init` gives and that is taken away is one that the loop takes away too. -/
  taken : ∀ name, (givenHeader web init name).isSome = true → dropped web request status url name →
    droppedAlone init status name

/-- The same for a `Request`: at the first redirect all that is not in `init` is gone. -/
def RequestFollows (init : RequestInit) (request : Outgoing Url) : List Response → Prop
  | [] => True
  | response :: rest =>
    ∀ url, target web request.url response = some url → fetchable web url →
      if request.streams = true ∧ response.status ≠ 303 then
        init.body.isSome = true ∧
          ¬(init.method.isSome = true ∧ switchesToGet request.method response.status)
      else
        RequestKept web init request response.status url ∧
          Follows web (init.method.isSome || response.status = 303)
            (redirected web request response.status url) rest

/-- All redirects of what is sent first are such. -/
def Agrees (input : Input Url) (init : RequestInit) (responses : List Response) : Prop :=
  ∀ request, newRequest web input init = some request → fetchable web request.url →
    match input with
    | .request _ => RequestFollows web init request responses
    | _ => Follows web init.method.isSome request responses

/-! ## The loop without its checks -/

/-- What is sent from a call on. -/
def sendsFrom (redirectCount : Nat) (log : List (Fetch Url)) (url : Url) (input : Input Url)
    (init : Option RequestInit) (responses : List Response) : List Sent :=
  match callSent web ⟨input, redirectAwareInit init⟩ log with
  | none => []
  | some sent =>
    sent ::
      match responses with
      | [] => []
      | response :: rest =>
        match target web url response with
        | none => []
        | some next =>
          if redirectCount = 20 then []
          else
            sendsFrom (redirectCount + 1) (⟨input, redirectAwareInit init⟩ :: log) next (.url next)
              (nextRedirectInit web.toWeb init response.status) rest

/-- The headers that the loop carries on after a redirect. -/
def carriedHeaders (init : RequestInit) (status : Nat) (name : JsString) : Option JsString :=
  if droppedAlone init status name then none else givenHeader web init name

variable {web}

theorem carriedHeaders_eq (init : RequestInit) (status : Nat) (name : JsString) :
    carriedHeaders web init status name =
      if switchesAlone init.method status ∧ name ∈ bodyHeaders then none
      else headerValue (requestHeaders web (init.headers.getD []) init.body) name := rfl

theorem newRequest_url {input : Input Url} {init : RequestInit} {request : Outgoing Url}
    (h : newRequest web input init = some request) : urlOf web.toWeb input = some request.url := by
  unfold newRequest at h
  split at h
  · cases h
  · next url hurl =>
    dsimp only at h
    split at h
    · cases h
    · cases h
      exact hurl

theorem callSent_some {call : Fetch Url} {log : List (Fetch Url)} {sent : Sent}
    (h : callSent web call log = some sent) :
    ∃ request, newRequest web call.input call.init = some request ∧ fetchable web request.url ∧
      sent = request.sent web := by
  unfold callSent at h
  split at h
  · cases h
  · next request hnew =>
    split at h
    · next hsends => exact ⟨request, hnew, hsends.1, (Option.some.inj h).symm⟩
    · cases h

theorem mem_chain_self (url : Url) (responses : List Response) : url ∈ chain web url responses := by
  cases responses <;> exact List.mem_cons_self

theorem chain_cons {url next : Url} {response : Response} {rest : List Response}
    (hurl : fetchable web url) (h : target web url response = some next) :
    chain web url (response :: rest) = url :: chain web next rest := by
  rw [chain, if_pos hurl, h]

/-- In a chain without a repeated URL no location is empty. -/
theorem location_eq (hlawful : web.Lawful) {url : Url} {response : Response} {rest : List Response}
    (hurl : fetchable web url)
    (hdistinct : ((chain web url (response :: rest)).map web.address).Nodup) :
    target web url response =
      if response.status ∈ GUARDED_TRANSPORT_REDIRECT_STATUSES then
        response.location.bind fun location => web.resolve location url
      else none := by
  unfold target
  split
  · next hstatus =>
    unfold Response.location
    cases hlookup : response.headers.lookup (js "location") with
    | none => rfl
    | some location =>
      by_cases hempty : location = []
      · subst hempty
        rw [Option.filter_some_neg (by simp), Option.bind_some, Option.bind_none]
        by_contra hsome
        obtain ⟨next, hnext⟩ := Option.ne_none_iff_exists'.mp hsome
        have htarget : target web url response = some next := by
          unfold target
          rw [if_pos hstatus, hlookup]
          exact hnext
        rw [chain_cons hurl htarget, List.map_cons, List.nodup_cons] at hdistinct
        refine hdistinct.1 (List.mem_map.mpr ⟨next, mem_chain_self next rest, ?_⟩)
        exact hlawful.resolve_empty url next hnext
      · rw [Option.filter_some_pos (by simpa using hempty)]
  · rfl

theorem logSent_followRedirects (hlawful : web.Lawful) {validateUrl : Url → Except Thrown Unit}
    {all responses : List Response} {url : Url} {input : Input Url} {init : Option RequestInit}
    {redirectCount : Nat} {visited : List JsString} {log : List (Fetch Url)}
    (hresponses : all.drop log.length = responses) (hinput : urlOf web.toWeb input = some url)
    (hcount : redirectCount ≤ 20) (hvalid : ∀ u ∈ chain web url responses, validateUrl u = .ok ())
    (hdistinct : ((chain web url responses).map web.address).Nodup)
    (hvisited : ∀ u ∈ chain web url responses, web.href u ∉ visited) :
    logSent web (followRedirects web.toWeb (answering web all) validateUrl url input init
        redirectCount visited log).2 =
      logSent web log ++ sendsFrom web redirectCount log url input init responses := by
  induction responses generalizing url input init redirectCount visited log with
  | nil =>
    unfold followRedirects sendsFrom
    rw [hvalid url (mem_chain_self url []), if_neg (hvisited url (mem_chain_self url []))]
    have hanswer : all[log.length]? = none := by
      rw [List.getElem?_eq_none_iff]
      exact List.drop_eq_nil_iff.mp hresponses
    cases hsent : callSent web ⟨input, redirectAwareInit init⟩ log with
    | none => simp [fetch, answering, hsent, logSent, Except.mapError]
    | some sent => simp [fetch, answering, hsent, hanswer, logSent, Except.mapError]
  | cons response rest ih =>
    have hself : url ∈ chain web url (response :: rest) := mem_chain_self url _
    unfold followRedirects sendsFrom
    rw [hvalid url hself, if_neg (hvisited url hself)]
    have hanswer : all[log.length]? = some response := by
      rw [← List.head?_drop, hresponses]
      rfl
    cases hsent : callSent web ⟨input, redirectAwareInit init⟩ log with
    | none => simp [fetch, answering, hsent, logSent, Except.mapError]
    | some sent =>
      obtain ⟨request, hnew, hurl, -⟩ := callSent_some hsent
      obtain rfl := Option.some.inj ((newRequest_url hnew).symm.trans hinput)
      have hfetch : fetch (answering web all) input init log =
          (.ok response, ⟨input, redirectAwareInit init⟩ :: log) := by
        simp [fetch, answering, hsent, hanswer, Except.mapError]
      have hlog : logSent web (⟨input, redirectAwareInit init⟩ :: log) = logSent web log ++ [sent] := by
        rw [logSent, hsent]
        rfl
      have htarget := location_eq hlawful hurl hdistinct
      rw [hfetch]
      dsimp only
      rw [htarget]
      by_cases hstatus : response.status ∈ GUARDED_TRANSPORT_REDIRECT_STATUSES
      · rw [if_neg (not_not.mpr hstatus), if_pos hstatus]
        rw [if_pos hstatus] at htarget
        cases hlocation : response.location with
        | none => exact hlog
        | some location =>
          rw [hlocation, Option.bind_some] at htarget
          rw [Option.bind_some]
          dsimp only
          cases hresolve : web.resolve location request.url with
          | none =>
            dsimp only
            split <;> exact hlog
          | some next =>
            rw [hresolve] at htarget
            dsimp only
            by_cases hlimit : redirectCount = 20
            · rw [if_pos (by rw [hlimit]; exact Nat.le_refl 20), if_pos hlimit]
              exact hlog
            rw [if_neg (by change ¬20 ≤ redirectCount; omega), if_neg hlimit]
            rw [chain_cons hurl htarget] at hvalid hdistinct hvisited
            obtain ⟨hnew', hdistinct⟩ := List.nodup_cons.mp hdistinct
            rw [ih (by rw [List.length_cons, ← List.drop_drop, hresponses]; rfl) rfl (by omega)
              (fun u hu => hvalid u (List.mem_cons_of_mem _ hu)) hdistinct fun u hu hmem => ?_, hlog,
              List.append_assoc]
            · rfl
            · obtain heq | hmem := List.mem_cons.mp hmem
              · exact hnew' (List.mem_map.mpr ⟨u, hu, hlawful.address_of_href u request.url heq⟩)
              · exact hvisited u (List.mem_cons_of_mem _ hu) hmem
      · rw [if_pos hstatus, if_neg hstatus]
        exact hlog

/-! ## What the loop sends after a redirect -/

theorem normalizeMethod_eq_iff {method name : JsString} (hname : name ∈ normalizedMethods) :
    normalizeMethod method = name ↔ upper method = name := by
  have hupper : upper name = name := by
    revert name
    decide
  unfold normalizeMethod
  split
  · exact Iff.rfl
  · next hnot =>
    constructor
    · rintro rfl
      exact absurd (hupper.symm ▸ hname) hnot
    · rintro rfl
      exact absurd hname hnot

/-- The loop's own test, where the method is one that is allowed. -/
theorem shouldSwitchToGet_iff (hlawful : web.Lawful) {method : Option JsString}
    (hallowed : method.any (fun method => !web.methodAllowed method) = false) (status : Nat) :
    ((status = 303 ∧ method.map web.toUpperCase ≠ some (js "GET") ∧
        method.map web.toUpperCase ≠ some (js "HEAD")) ∨
      ((status = 301 ∨ status = 302) ∧ method.map web.toUpperCase = some (js "POST"))) ↔
      switchesAlone method status := by
  unfold switchesAlone
  cases method with
  | none => simp
  | some method =>
    have hmethod : web.toUpperCase method = upper method :=
      hlawful.toUpperCase method (by simpa using hallowed)
    have hget : normalizeMethod method = js "GET" ↔ upper method = js "GET" :=
      normalizeMethod_eq_iff (by decide)
    have hhead : normalizeMethod method = js "HEAD" ↔ upper method = js "HEAD" :=
      normalizeMethod_eq_iff (by decide)
    have hpost : normalizeMethod method = js "POST" ↔ upper method = js "POST" :=
      normalizeMethod_eq_iff (by decide)
    simp only [Option.map_some, Option.some.injEq, ne_eq, hmethod, switchesToGet, bodiless, hget,
      hhead, hpost, not_or]

/-- What `init` has become after a redirect. -/
theorem nextRedirectInit_getD (hlawful : web.Lawful) {init : Option RequestInit}
    (hallowed : (init.getD default).method.any (fun method => !web.methodAllowed method) = false)
    (status : Nat) :
    (nextRedirectInit web.toWeb init status).getD default =
      if switchesAlone (init.getD default).method status then
        { method := some (js "GET")
          headers := (init.getD default).headers.map fun headers =>
            (headers.map fun (name, value) => (lower name, value)).filter fun (name, _) =>
              name ∉ bodyHeaders
          body := none
          redirect := (init.getD default).redirect }
      else init.getD default := by
  have hmethod : init.bind (·.method) = (init.getD default).method := by cases init <;> rfl
  have hswitch := shouldSwitchToGet_iff hlawful hallowed status
  unfold nextRedirectInit
  dsimp only
  rw [hmethod]
  by_cases h : switchesAlone (init.getD default).method status
  · rw [if_pos h, if_pos (hswitch.mpr h)]
    rfl
  · rw [if_neg h, if_neg fun h' => h (hswitch.mp h')]

theorem requestHeaders_nextRedirectInit (hlawful : web.Lawful) {init : Option RequestInit}
    (hallowed : (init.getD default).method.any (fun method => !web.methodAllowed method) = false)
    (status : Nat) :
    headerValue (requestHeaders web
        (((nextRedirectInit web.toWeb init status).getD default).headers.getD [])
        ((nextRedirectInit web.toWeb init status).getD default).body) =
      carriedHeaders web (init.getD default) status := by
  funext name
  rw [nextRedirectInit_getD hlawful hallowed, carriedHeaders_eq]
  by_cases h : switchesAlone (init.getD default).method status
  · rw [if_pos h]
    dsimp only
    rw [requestHeaders_none, headerValue_allowedHeaders]
    have hheaders : ∀ headers : Option (List (JsString × JsString)),
        headerValue ((headers.map fun headers =>
          (headers.map fun (name, value) => (lower name, value)).filter fun (name, _) =>
            name ∉ bodyHeaders).getD []) name =
          if name ∈ bodyHeaders then none else headerValue (headers.getD []) name := by
      intro headers
      cases headers with
      | none =>
        split <;> rfl
      | some headers =>
        have hfilter := headerValue_filter (headers.map fun e => (lower e.1, e.2))
          (fun name => decide (name ∉ bodyHeaders)) name
        have hlower : ∀ e ∈ headers.map fun e => (lower e.1, e.2), lower e.1 = e.1 := by
          intro e he
          obtain ⟨e', -, rfl⟩ := List.mem_map.mp he
          exact lower_lower e'.1
        rw [List.filter_congr fun e he => by rw [hlower e he], headerValue_lower] at hfilter
        refine hfilter.trans ?_
        by_cases hname : name ∈ bodyHeaders <;> simp [hname]
    rw [hheaders]
    by_cases hname : name ∈ bodyHeaders
    · rw [if_pos hname, ite_self, if_pos ⟨h, hname⟩]
    · have hne : name ≠ js "content-type" := by
        rintro rfl
        exact hname (by decide)
      rw [if_neg hname, if_neg (not_and_of_not_right _ hname), headerValue_requestHeaders hne,
        headerValue_allowedHeaders]
  · rw [if_neg h, if_neg fun h' => h h'.1]

/-- A call for what `init` has become. -/
theorem callSent_nextRedirectInit (hlawful : web.Lawful) {init : Option RequestInit}
    (hallowed : (init.getD default).method.any (fun method => !web.methodAllowed method) = false)
    (status : Nat) {url : Url} (hurl : fetchable web url) (call : Fetch Url) (log : List (Fetch Url)) :
    callSent web ⟨.url url, redirectAwareInit (nextRedirectInit web.toWeb init status)⟩ (call :: log) =
      if switchesAlone (init.getD default).method status then
        some ⟨web.address url, js "GET", carriedHeaders web (init.getD default) status, none⟩
      else if (bodiless (((init.getD default).method.map normalizeMethod).getD (js "GET")) ∧
            (init.getD default).body.isSome = true) ∨
          (init.getD default).body.any (·.stream) = true then none
      else
        some ⟨web.address url, ((init.getD default).method.map normalizeMethod).getD (js "GET"),
          carriedHeaders web (init.getD default) status, (init.getD default).body.map (·.content)⟩ := by
  have hheaders := requestHeaders_nextRedirectInit hlawful hallowed status
  have hnext := nextRedirectInit_getD hlawful hallowed status
  rw [hnext] at hheaders
  unfold callSent newRequest redirectAwareInit
  dsimp only [urlOf, Input.method, Input.headers, Input.body]
  rw [hnext, Option.or_none]
  by_cases h : switchesAlone (init.getD default).method status
  · rw [if_pos h] at hheaders ⊢
    rw [if_pos h]
    dsimp only at hheaders ⊢
    have hget : normalizeMethod (js "GET") = js "GET" := by decide
    have hnew : ¬(web.credentials url = true ∨
        (some (js "GET")).any (fun method => !web.methodAllowed method) = true ∨
        bodiless (((some (js "GET")).map normalizeMethod).getD (js "GET")) ∧
          (none : Option Body).isSome = true) := by
      simp [hurl.2, hlawful.get]
    rw [if_neg hnew]
    dsimp only
    rw [if_pos ⟨hurl, .inr rfl⟩, Outgoing.sent, Option.map_some, Option.getD_some, hget, hheaders]
    rfl
  · rw [if_neg h] at hheaders ⊢
    rw [if_neg h]
    rw [hallowed, hurl.2]
    by_cases hbody : bodiless (((init.getD default).method.map normalizeMethod).getD (js "GET")) ∧
        (init.getD default).body.isSome = true
    · rw [if_pos (.inr (.inr hbody)), if_pos (.inl hbody)]
    · have hnew : ¬(false = true ∨ false = true ∨
          bodiless (((init.getD default).method.map normalizeMethod).getD (js "GET")) ∧
            (init.getD default).body.isSome = true) := by
        simpa using hbody
      rw [if_neg hnew]
      dsimp only
      cases hstream : (init.getD default).body.any (·.stream) with
      | true => rw [if_neg (by simp), if_pos (.inr rfl)]
      | false =>
        rw [if_pos ⟨hurl, .inr rfl⟩, if_neg (by simpa using hbody), Outgoing.sent, hheaders]

/-- Nothing is sent to a URL that is not fetchable. -/
theorem callSent_not_fetchable {call : Fetch Url} {log : List (Fetch Url)} {url : Url}
    (hinput : urlOf web.toWeb call.input = some url) (hurl : ¬ fetchable web url) :
    callSent web call log = none := by
  cases hsent : callSent web call log with
  | none => rfl
  | some sent =>
    obtain ⟨request, hnew, hrequest, -⟩ := callSent_some hsent
    rw [Option.some.inj ((newRequest_url hnew).symm.trans hinput)] at hrequest
    exact absurd hrequest hurl

theorem sendsFrom_head? {redirectCount : Nat} {log : List (Fetch Url)} {url : Url}
    {input : Input Url} {init : Option RequestInit} {responses : List Response} :
    (sendsFrom web redirectCount log url input init responses).head? =
      callSent web ⟨input, redirectAwareInit init⟩ log := by
  unfold sendsFrom
  split
  · next h => exact h.symm
  · next h => exact h.symm

theorem sendsFrom_eq_nil {redirectCount : Nat} {log : List (Fetch Url)} {url : Url}
    {input : Input Url} {init : Option RequestInit} {responses : List Response} :
    sendsFrom web redirectCount log url input init responses = [] ↔
      callSent web ⟨input, redirectAwareInit init⟩ log = none := by
  rw [← List.head?_eq_none_iff, sendsFrom_head?]

theorem followed_head? {redirectCount : Nat} {request : Outgoing Url} {responses : List Response} :
    (followed web redirectCount request responses).head? = some (request.sent web) := by
  cases responses <;> rfl

/-! ## Requests that `init` makes alone -/

theorem headerValue_redirected (request : Outgoing Url) (status : Nat) (url : Url) (name : JsString) :
    headerValue (redirected web request status url).headers name =
      if dropped web request status url name then none else headerValue request.headers name := by
  have h := headerValue_filter request.headers
    (fun name => decide (¬ dropped web request status url name)) name
  refine h.trans ?_
  by_cases hdropped : dropped web request status url name <;> simp [hdropped]

/-- A redirected request that can be made is one that can be made again. -/
theorem redirected_bodiless {request : Outgoing Url} {status : Nat} {url : Url}
    (hbodiless : bodiless request.method → request.body = none)
    (h : bodiless (redirected web request status url).method) :
    (redirected web request status url).body = none := by
  unfold redirected at h ⊢
  dsimp only at h ⊢
  split at h
  · next hswitch => rw [if_pos hswitch]
  · next hswitch =>
    rw [if_neg hswitch]
    exact hbodiless h

theorem redirected_streams {request : Outgoing Url} {status : Nat} {url : Url}
    (hbodiless : bodiless request.method → request.body = none)
    (hstream : ¬(request.streams = true ∧ status ≠ 303)) :
    (redirected web request status url).streams = false := by
  unfold Outgoing.streams redirected
  dsimp only
  split
  · rfl
  · next hswitch =>
    by_contra hstreams
    rw [Bool.not_eq_false] at hstreams
    have hstatus : status = 303 := by
      by_contra hne
      exact hstream ⟨hstreams, hne⟩
    refine hswitch (.inl ⟨hstatus, fun h => ?_⟩)
    rw [hbodiless h] at hstreams
    cases hstreams

/-- The request is the one that `init` makes alone. -/
structure Aligned (web : Platform Url) (first : Bool) (init : Option RequestInit) (given : Bool)
    (request : Outgoing Url) : Prop where
  given : given = (init.getD default).method.isSome
  allowed : (init.getD default).method.any (fun method => !web.methodAllowed method) = false
  method : request.method = ((init.getD default).method.map normalizeMethod).getD (js "GET")
  body : request.body = (init.getD default).body
  headers : headerValue request.headers =
    headerValue (requestHeaders web ((init.getD default).headers.getD []) (init.getD default).body)
  bodiless : bodiless request.method → request.body = none
  streams : first = false → request.streams = false

theorem not_switchesToGet_get (status : Nat) : ¬ switchesToGet (js "GET") status := by
  rintro (⟨-, hnot⟩ | ⟨-, hpost⟩)
  · exact hnot (.inl rfl)
  · exact absurd hpost (by decide)

section Aligned

variable {first given : Bool} {init : Option RequestInit} {request : Outgoing Url}

theorem Aligned.switches (h : Aligned web first init given request) (status : Nat) :
    switchesAlone (init.getD default).method status ↔
      switchesToGet request.method status ∨ (given = false ∧ status = 303) := by
  rw [h.method, h.given]
  unfold switchesAlone
  cases (init.getD default).method with
  | some method => simp
  | none => simp [not_switchesToGet_get status]

/-- A method that is not given is GET. -/
theorem Aligned.method_get (h : Aligned web first init given request) (hgiven : given = false) :
    request.method = js "GET" := by
  rw [h.given, Option.isSome_eq_false_iff, Option.isNone_iff_eq_none] at hgiven
  rw [h.method, hgiven]
  rfl

theorem Aligned.carried_eq (h : Aligned web first init given request) (status : Nat) (name : JsString) :
    carriedHeaders web (init.getD default) status name =
      if switchesAlone (init.getD default).method status ∧ name ∈ bodyHeaders then none
      else headerValue request.headers name := by
  rw [carriedHeaders_eq, h.headers]

theorem Aligned.contentLength (h : Aligned web first init given request) (hlawful : web.Lawful) :
    headerValue request.headers (js "content-length") = none := by
  rw [h.headers, headerValue_requestHeaders (by decide), headerValue_allowedHeaders,
    if_pos hlawful.contentLength]

theorem Aligned.kept (h : Aligned web first init given request) {status : Nat} {url : Url}
    (heq : headerValue (redirected web request status url).headers =
      carriedHeaders web (init.getD default) status) : Kept web given request status url := by
  have hname (name : JsString) := (headerValue_redirected request status url name).symm.trans
    ((congrFun heq name).trans (h.carried_eq status name))
  refine ⟨fun hcross => ?_, fun hswitch => ⟨?_, ?_⟩, fun hgiven hstatus => ?_⟩
  · have := hname (js "authorization")
    rw [if_pos (.inr ⟨hcross, rfl⟩), if_neg (not_and_of_not_right _ (by decide))] at this
    exact this.symm
  · have := hname (js "content-language")
    rw [if_pos (.inl ⟨hswitch, by decide⟩), if_neg (not_and_of_not_right _ (by decide))] at this
    exact this.symm
  · have := hname (js "content-location")
    rw [if_pos (.inl ⟨hswitch, by decide⟩), if_neg (not_and_of_not_right _ (by decide))] at this
    exact this.symm
  · have halone := (h.switches status).mpr (.inr ⟨hgiven, hstatus⟩)
    have hget : ¬ switchesToGet request.method status := by
      rw [h.method_get hgiven]
      exact not_switchesToGet_get status
    have hkept (name : JsString) (hbody : name ∈ bodyHeaders) (hne : name ≠ js "authorization") :
        headerValue request.headers name = none := by
      have := hname name
      rwa [if_neg (by rintro (⟨hswitch, -⟩ | ⟨-, heq⟩); exacts [hget hswitch, hne heq]),
        if_pos ⟨halone, hbody⟩] at this
    exact ⟨hkept _ (by decide) (by decide), hkept _ (by decide) (by decide)⟩

/-- A header of the body that the loop drops and the platform keeps is not there. -/
theorem Aligned.headerValue_of_bodyHeaders (h : Aligned web first init given request)
    (hlawful : web.Lawful) {status : Nat} {url : Url} (hkept : Kept web given request status url)
    (halone : switchesAlone (init.getD default).method status) {name : JsString}
    (hname : name ∈ bodyHeaders) (hdropped : ¬ dropped web request status url name) :
    headerValue request.headers name = none := by
  have hnames : name = js "content-encoding" ∨ name = js "content-length" ∨
      name = js "content-type" := by
    simpa [bodyHeaders] using hname
  obtain hswitch | ⟨hgiven, hstatus⟩ := (h.switches status).mp halone
  · obtain rfl | rfl | rfl := hnames
    · exact absurd (.inl ⟨hswitch, by decide⟩) hdropped
    · exact h.contentLength hlawful
    · exact absurd (.inl ⟨hswitch, by decide⟩) hdropped
  · obtain ⟨hencoding, htype⟩ := hkept.methodless hgiven hstatus
    obtain rfl | rfl | rfl := hnames
    exacts [hencoding, h.contentLength hlawful, htype]

/-- A header that the platform drops and the loop keeps is not there. -/
theorem Aligned.headerValue_of_dropped (h : Aligned web first init given request) {status : Nat}
    {url : Url} (hkept : Kept web given request status url) {name : JsString}
    (halone : ¬ (switchesAlone (init.getD default).method status ∧ name ∈ bodyHeaders))
    (hdropped : dropped web request status url name) : headerValue request.headers name = none := by
  obtain ⟨hswitch, hname⟩ | ⟨hcross, rfl⟩ := hdropped
  · obtain ⟨hlanguage, hlocation⟩ := hkept.language hswitch
    have hnot : name ∉ bodyHeaders :=
      fun hname => halone ⟨(h.switches status).mpr (.inl hswitch), hname⟩
    have hnames : name = js "content-encoding" ∨ name = js "content-language" ∨
        name = js "content-location" ∨ name = js "content-type" := by
      simpa [requestBodyHeaders] using hname
    obtain rfl | rfl | rfl | rfl := hnames
    · exact absurd (by decide) hnot
    · exact hlanguage
    · exact hlocation
    · exact absurd (by decide) hnot
  · exact hkept.authorization hcross

/-- What is carried on is what the platform carries on, just where the redirect is kept. -/
theorem Aligned.kept_iff (hlawful : web.Lawful) (h : Aligned web first init given request)
    (status : Nat) (url : Url) :
    headerValue (redirected web request status url).headers =
        carriedHeaders web (init.getD default) status ↔
      Kept web given request status url := by
  refine ⟨h.kept, fun hkept => ?_⟩
  funext name
  rw [headerValue_redirected, h.carried_eq]
  by_cases halone : switchesAlone (init.getD default).method status ∧ name ∈ bodyHeaders
  · rw [if_pos halone]
    split
    · rfl
    · next hdropped => exact h.headerValue_of_bodyHeaders hlawful hkept halone.1 halone.2 hdropped
  · rw [if_neg halone]
    split
    · next hdropped => exact (h.headerValue_of_dropped hkept halone hdropped).symm
    · rfl

end Aligned

theorem aligned_next (hlawful : web.Lawful) {init : Option RequestInit}
    (hallowed : (init.getD default).method.any (fun method => !web.methodAllowed method) = false)
    {request : Outgoing Url} {status : Nat} {url : Url}
    (hbodiless : bodiless request.method → request.body = none)
    (hstream : ¬(request.streams = true ∧ status ≠ 303))
    (hmethod : (redirected web request status url).method =
      if switchesAlone (init.getD default).method status then js "GET"
      else ((init.getD default).method.map normalizeMethod).getD (js "GET"))
    (hbody : (redirected web request status url).body =
      if switchesAlone (init.getD default).method status then none else (init.getD default).body)
    (hheaders : headerValue (redirected web request status url).headers =
      carriedHeaders web (init.getD default) status) :
    Aligned web false (nextRedirectInit web.toWeb init status)
      ((init.getD default).method.isSome || status = 303) (redirected web request status url) := by
  have hnext := nextRedirectInit_getD hlawful hallowed status
  have halone : switchesAlone (init.getD default).method status → (init.getD default).method = none →
      status = 303 := by
    intro h hnone
    rwa [hnone] at h
  refine ⟨?_, ?_, ?_, ?_, ?_, redirected_bodiless hbodiless,
    fun _ => redirected_streams hbodiless hstream⟩
  · rw [hnext]
    split
    · next h =>
      cases hsome : (init.getD default).method with
      | some method => rfl
      | none => simpa using halone h hsome
    · next h =>
      cases hsome : (init.getD default).method with
      | some method => rfl
      | none =>
        have hstatus : status ≠ 303 := fun hstatus => h (by rw [hsome]; exact hstatus)
        simpa using hstatus
  · rw [hnext]
    split
    · simp [hlawful.get]
    · exact hallowed
  · rw [hmethod, hnext]
    split
    · rfl
    · rfl
  · rw [hbody, hnext]
    split
    · rfl
    · rfl
  · rw [hheaders, requestHeaders_nextRedirectInit hlawful hallowed]

theorem Aligned.next (hlawful : web.Lawful) {first given : Bool} {init : Option RequestInit}
    {request : Outgoing Url} (h : Aligned web first init given request) {status : Nat} {url : Url}
    (hstream : ¬(request.streams = true ∧ status ≠ 303)) (hkept : Kept web given request status url) :
    Aligned web false (nextRedirectInit web.toWeb init status) (given || status = 303)
      (redirected web request status url) := by
  have hswitches := h.switches status
  have hget : given = false → request.method = js "GET" := by
    intro hgiven
    rw [h.given, Option.isSome_eq_false_iff, Option.isNone_iff_eq_none] at hgiven
    rw [h.method, hgiven]
    rfl
  have hnext := aligned_next hlawful h.allowed h.bodiless hstream ?_ ?_
    ((h.kept_iff hlawful status url).mpr hkept)
  · rwa [← h.given] at hnext
  · unfold redirected
    dsimp only
    by_cases hswitch : switchesToGet request.method status
    · rw [if_pos hswitch, if_pos (hswitches.mpr (.inl hswitch))]
    · rw [if_neg hswitch]
      split
      · next halone =>
        obtain habs | ⟨hnone, -⟩ := hswitches.mp halone
        · exact absurd habs hswitch
        · exact hget hnone
      · exact h.method
  · unfold redirected
    dsimp only
    by_cases hswitch : switchesToGet request.method status
    · rw [if_pos hswitch, if_pos (hswitches.mpr (.inl hswitch))]
    · rw [if_neg hswitch]
      split
      · next halone =>
        obtain habs | ⟨hnone, -⟩ := hswitches.mp halone
        · exact absurd habs hswitch
        · exact h.bodiless (.inl (hget hnone))
      · exact h.body

theorem Aligned.callSent {first given : Bool} {init : Option RequestInit} {request : Outgoing Url}
    (h : Aligned web first init given request) (hurl : fetchable web request.url) {input : Input Url}
    (hmethod : input.method = js "GET") (hheaders : input.headers = []) (hbody : input.body = none)
    (hinput : urlOf web.toWeb input = some request.url) {log : List (Fetch Url)}
    (hlog : first = false ∨ log = []) :
    Egress.callSent web ⟨input, redirectAwareInit init⟩ log = some (request.sent web) := by
  unfold Egress.callSent newRequest redirectAwareInit
  dsimp only
  rw [hinput, hmethod, hheaders, hbody, Option.or_none]
  dsimp only
  have hnew : ¬(web.credentials request.url = true ∨
      (init.getD default).method.any (fun method => !web.methodAllowed method) = true ∨
      Egress.bodiless (((init.getD default).method.map normalizeMethod).getD (js "GET")) ∧
        (init.getD default).body.isSome = true) := by
    rintro (hcredentials | hallowed | ⟨hbodiless, hsome⟩)
    · rw [hurl.2] at hcredentials
      cases hcredentials
    · rw [h.allowed] at hallowed
      cases hallowed
    · rw [← h.method] at hbodiless
      rw [← h.body, h.bodiless hbodiless] at hsome
      cases hsome
  rw [if_neg hnew]
  dsimp only
  have hunread : log = [] ∨ (init.getD default).body.any (·.stream) = false := by
    obtain hfirst | hlog := hlog
    · have := h.streams hfirst
      rw [Outgoing.streams, h.body] at this
      exact .inr this
    · exact .inl hlog
  rw [if_pos ⟨hurl, hunread⟩, Outgoing.sent, Outgoing.sent, h.method, h.headers, h.body]

/-- Runs of a request that `init` makes alone send the same just where the redirects are kept. -/
theorem Aligned.sendsFrom_eq_iff (hlawful : web.Lawful) {first given : Bool}
    {init : Option RequestInit} {request : Outgoing Url} (h : Aligned web first init given request)
    (hurl : fetchable web request.url) {input : Input Url} (hmethod : input.method = js "GET")
    (hheaders : input.headers = []) (hbody : input.body = none)
    (hinput : urlOf web.toWeb input = some request.url) {log : List (Fetch Url)}
    (hlog : first = false ∨ log = []) {redirectCount : Nat} {responses : List Response}
    (hcount : redirectCount + (chain web request.url responses).length ≤ 21) :
    sendsFrom web redirectCount log request.url input init responses =
        followed web redirectCount request responses ↔
      Follows web given request responses := by
  induction responses generalizing first given init request input log redirectCount with
  | nil =>
    unfold sendsFrom
    rw [h.callSent hurl hmethod hheaders hbody hinput hlog]
    exact ⟨fun _ => trivial, fun _ => rfl⟩
  | cons response rest ih =>
    unfold sendsFrom followed httpRedirect Follows
    rw [h.callSent hurl hmethod hheaders hbody hinput hlog]
    dsimp only
    rw [List.cons.injEq]
    simp only [true_and]
    cases htarget : target web request.url response with
    | none => exact ⟨fun _ _ h => (by cases h), fun _ => rfl⟩
    | some url =>
      rw [chain_cons hurl htarget, List.length_cons] at hcount
      have hlength : 0 < (chain web url rest).length := List.length_pos_of_mem (mem_chain_self url rest)
      have hlimit : redirectCount ≠ 20 := by omega
      dsimp only
      rw [if_neg hlimit]
      by_cases hfetchable : fetchable web url
      case neg =>
        rw [if_neg fun h => hfetchable h.1]
        dsimp only
        rw [sendsFrom_eq_nil, callSent_not_fetchable rfl hfetchable]
        refine ⟨fun _ url' heq hurl' => ?_, fun _ => rfl⟩
        cases heq
        exact absurd hurl' hfetchable
      have hforall {p : Url → Prop} : (∀ url', some url = some url' → fetchable web url' → p url') ↔
          p url :=
        ⟨fun h => h url rfl hfetchable, fun h _ heq _ => Option.some.inj heq ▸ h⟩
      rw [hforall]
      by_cases hstream : request.streams = true ∧ response.status ≠ 303
      · -- The platform stops here, and the loop does if it sends the body again.
        rw [if_neg fun h => h.2 hstream, if_pos hstream]
        dsimp only
        rw [sendsFrom_eq_nil,
          callSent_nextRedirectInit hlawful h.allowed response.status hfetchable]
        have hread := hstream.1
        rw [Outgoing.streams, h.body] at hread
        by_cases hswitch : switchesToGet request.method response.status
        · rw [if_pos ((h.switches response.status).mpr (.inl hswitch))]
          exact ⟨fun h => (by cases h), fun h => absurd hswitch h⟩
        · have halone : ¬ switchesAlone (init.getD default).method response.status := by
            rw [h.switches]
            exact not_or.mpr ⟨hswitch, fun h => hstream.2 h.2⟩
          rw [if_neg halone, if_pos (.inr hread)]
          exact ⟨fun _ => hswitch, fun _ => rfl⟩
      · rw [if_pos ⟨hfetchable, hstream⟩, if_neg hstream]
        dsimp only
        rw [if_neg hlimit]
        have hcount' : redirectCount + 1 + (chain web url rest).length ≤ 21 := by omega
        have hrun (hkept : Kept web given request response.status url) :
            sendsFrom web (redirectCount + 1) (⟨input, redirectAwareInit init⟩ :: log) url (.url url)
                (nextRedirectInit web.toWeb init response.status) rest =
              followed web (redirectCount + 1) (redirected web request response.status url) rest ↔
            Follows web (given || response.status = 303)
              (redirected web request response.status url) rest :=
          ih (h.next hlawful hstream hkept) hfetchable rfl rfl rfl rfl (.inl rfl) hcount'
        constructor
        · intro heq
          have hhead := congrArg List.head? heq
          rw [sendsFrom_head?, followed_head?,
            callSent_nextRedirectInit hlawful h.allowed response.status hfetchable] at hhead
          have hkept : Kept web given request response.status url := by
            rw [← h.kept_iff hlawful]
            split at hhead
            · exact (congrArg Sent.headers (Option.some.inj hhead)).symm
            split at hhead
            · cases hhead
            · exact (congrArg Sent.headers (Option.some.inj hhead)).symm
          exact ⟨hkept, (hrun hkept).mp heq⟩
        · rintro ⟨hkept, hfollows⟩
          exact (hrun hkept).mpr hfollows

/-! ## The first redirect of a `Request` -/

theorem newRequest_some {input : Input Url} {init : RequestInit} {request : Outgoing Url}
    (h : newRequest web input init = some request) :
    init.method.any (fun method => !web.methodAllowed method) = false ∧
      request.method = (init.method.map normalizeMethod).getD input.method ∧
      request.body = init.body.or input.body ∧
      request.headers = requestHeaders web (init.headers.getD input.headers) init.body ∧
      (bodiless request.method → request.body = none) := by
  unfold newRequest at h
  split at h
  · cases h
  · dsimp only at h
    split at h
    · cases h
    · next hnot =>
      obtain ⟨-, hallowed, hbodiless⟩ : _ ∧ _ ∧ _ := by simpa only [not_or] using hnot
      cases h
      refine ⟨Bool.eq_false_iff.mpr hallowed, rfl, rfl, rfl, fun h => ?_⟩
      exact Option.not_isSome_iff_eq_none.mp fun hsome => hbodiless ⟨h, hsome⟩

/-- A header that a request does not have is none that `init` gives. -/
theorem givenHeader_eq_none {r : Request} {init : RequestInit} {request : Outgoing Url}
    (hnew : newRequest web (.request r) init = some request) {name : JsString}
    (h : headerValue request.headers name = none) : givenHeader web init name = none := by
  obtain ⟨-, -, -, hheaders, -⟩ := newRequest_some hnew
  rw [hheaders] at h
  unfold givenHeader
  cases hinit : init.headers with
  | some headers =>
    rw [hinit] at h
    exact h
  | none =>
    -- Then `init` gives nothing but the type of its body, which the request has, or another one.
    rw [hinit, Option.getD_none] at h
    rw [Option.getD_none, headerValue_eq_none]
    intro e he hname
    unfold requestHeaders at h he
    dsimp only [List.filter_nil] at h he
    cases htype : init.body.bind (·.type) with
    | none =>
      rw [htype] at he
      cases he
    | some type =>
      rw [htype] at h he
      dsimp only at h he
      have hempty : headerValue [] (js "content-type") = none := rfl
      have hlower : lower (js "Content-Type") = js "content-type" := by decide
      rw [if_pos hempty, List.nil_append, List.mem_singleton] at he
      have hcontent : name = js "content-type" := by
        rw [← hname, he]
        exact hlower
      subst hcontent
      split at h
      · exact headerValue_eq_none.mp h (js "Content-Type", type)
          (List.mem_append_right _ (List.mem_singleton.mpr rfl)) hlower
      · next hsome => exact hsome h

/-- The headers of both agree just where each header is kept. -/
theorem headers_kept_iff {r : Request} {init : RequestInit} {request : Outgoing Url}
    (hnew : newRequest web (.request r) init = some request) (status : Nat) (url : Url) :
    headerValue (redirected web request status url).headers = carriedHeaders web init status ↔
      (∀ name value, headerValue request.headers name = some value →
        ¬ dropped web request status url name →
          givenHeader web init name = some value ∧ ¬ droppedAlone init status name) ∧
      ∀ name, (givenHeader web init name).isSome = true → dropped web request status url name →
        droppedAlone init status name := by
  constructor
  · intro heq
    have hname (name : JsString) := (headerValue_redirected request status url name).symm.trans
      (congrFun heq name)
    refine ⟨fun name value hvalue hleft => ?_, fun name hgiven hdropped => ?_⟩
    · have := hname name
      rw [if_neg hleft, hvalue, carriedHeaders] at this
      split at this
      · cases this
      · next hcarried => exact ⟨this.symm, hcarried⟩
    · have := hname name
      rw [if_pos hdropped, carriedHeaders] at this
      by_contra hcarried
      rw [if_neg hcarried] at this
      rw [← this] at hgiven
      cases hgiven
  · rintro ⟨hcarried, htaken⟩
    funext name
    rw [headerValue_redirected, carriedHeaders]
    by_cases hdropped : dropped web request status url name
    · rw [if_pos hdropped]
      split
      · rfl
      · next halone =>
        refine (Option.not_isSome_iff_eq_none.mp fun hgiven => ?_).symm
        exact halone (htaken name hgiven hdropped)
    · rw [if_neg hdropped]
      cases hvalue : headerValue request.headers name with
      | none =>
        rw [givenHeader_eq_none hnew hvalue, ite_self]
      | some value =>
        obtain ⟨hgiven, halone⟩ := hcarried name value hvalue hdropped
        rw [if_neg halone, hgiven]

/-- What `init` makes alone is what the platform makes, just where the redirect keeps the request. -/
theorem requestKept_of_callSent (hlawful : web.Lawful) {r : Request} {init : Option RequestInit}
    {request : Outgoing Url} (hnew : newRequest web (.request r) (init.getD default) = some request)
    {status : Nat} {url : Url} (hurl : fetchable web url) {call : Fetch Url} {log : List (Fetch Url)}
    (h : callSent web ⟨.url url, redirectAwareInit (nextRedirectInit web.toWeb init status)⟩
      (call :: log) = some ((redirected web request status url).sent web)) :
    RequestKept web (init.getD default) request status url := by
  obtain ⟨hallowed, -, -, -, -⟩ := newRequest_some hnew
  rw [callSent_nextRedirectInit hlawful hallowed status hurl] at h
  split at h
  · next halone =>
    have hsent := Option.some.inj h
    have hbody : (redirected web request status url).body = none :=
      Option.map_eq_none_iff.mp (congrArg Sent.body hsent).symm
    obtain ⟨hcarried, htaken⟩ :=
      (headers_kept_iff hnew status url).mp (congrArg Sent.headers hsent).symm
    refine ⟨.inr (congrArg Sent.method hsent).symm, fun hsome => ?_, fun hnone hstatus => ?_,
      hcarried, htaken⟩
    · rw [hbody] at hsome
      cases hsome
    · rw [hnone] at halone
      exact absurd halone hstatus
  split at h
  · cases h
  · next hbody =>
    have hsent := Option.some.inj h
    have hcontent := congrArg Sent.body hsent
    obtain ⟨hcarried, htaken⟩ :=
      (headers_kept_iff hnew status url).mp (congrArg Sent.headers hsent).symm
    refine ⟨?_, fun hsome => ?_, fun hnone _ => ?_, hcarried, htaken⟩
    · cases hmethod : (init.getD default).method with
      | some method => exact .inl rfl
      | none =>
        have := (congrArg Sent.method hsent).symm
        rw [hmethod] at this
        exact .inr this
    · obtain ⟨body, heq⟩ := Option.isSome_iff_exists.mp hsome
      change (init.getD default).body.map _ = (redirected web request status url).body.map _ at hcontent
      rw [heq] at hcontent
      obtain ⟨body', heq', -⟩ := Option.map_eq_some_iff.mp hcontent
      rw [heq']
      rfl
    · refine Option.not_isSome_iff_eq_none.mp fun hsome => hbody (.inl ⟨?_, hsome⟩)
      rw [hnone]
      exact .inl rfl

theorem RequestKept.next (hlawful : web.Lawful) {r : Request} {init : Option RequestInit}
    {request : Outgoing Url} (hnew : newRequest web (.request r) (init.getD default) = some request)
    {status : Nat} {url : Url} (hstream : ¬(request.streams = true ∧ status ≠ 303))
    (h : RequestKept web (init.getD default) request status url) :
    Aligned web false (nextRedirectInit web.toWeb init status)
      ((init.getD default).method.isSome || status = 303) (redirected web request status url) := by
  obtain ⟨hallowed, hmethod, hbody, -, hbodiless⟩ := newRequest_some hnew
  refine aligned_next hlawful hallowed hbodiless hstream ?_ ?_
    ((headers_kept_iff hnew status url).mpr ⟨h.carried, h.taken⟩)
  · cases hsome : (init.getD default).method with
    | none =>
      have hget := h.method.resolve_left (by rw [hsome]; exact Bool.false_ne_true)
      rw [hget]
      split <;> rfl
    | some method =>
      rw [hsome, Option.map_some, Option.getD_some] at hmethod
      unfold redirected switchesAlone
      dsimp only
      rw [hmethod]
      rfl
  · cases hsome : (init.getD default).method with
    | none =>
      have hget := h.method.resolve_left (by rw [hsome]; exact Bool.false_ne_true)
      rw [redirected_bodiless hbodiless (.inl hget)]
      split
      · rfl
      · next hnot => exact (h.methodless hsome fun hstatus => hnot hstatus).symm
    | some method =>
      rw [hsome, Option.map_some, Option.getD_some] at hmethod
      have halone : switchesAlone (some method) status ↔
          switchesToGet (normalizeMethod method) status := Iff.rfl
      have hkept := h.body
      unfold redirected at hkept ⊢
      dsimp only at hkept ⊢
      rw [hmethod] at hkept ⊢
      by_cases hswitch : switchesToGet (normalizeMethod method) status
      · rw [if_pos hswitch, if_pos (halone.mpr hswitch)]
      · rw [if_neg hswitch, hbody] at hkept
        rw [if_neg hswitch, if_neg fun h => hswitch (halone.mp h), hbody]
        cases hinit : (init.getD default).body with
        | some body => rfl
        | none =>
          rw [hinit, Option.none_or] at hkept
          rw [Option.none_or]
          exact Option.not_isSome_iff_eq_none.mp fun hsome => by cases hkept hsome

/-- Where the input is no `Request`, all is made of `init`. -/
theorem aligned_plain {input : Input Url} {init : Option RequestInit} {request : Outgoing Url}
    (hnew : newRequest web input (init.getD default) = some request)
    (hmethod : input.method = js "GET") (hheaders : input.headers = []) (hbody : input.body = none) :
    Aligned web true init (init.getD default).method.isSome request := by
  obtain ⟨hallowed, hmethod', hbody', hheaders', hbodiless⟩ := newRequest_some hnew
  rw [hmethod] at hmethod'
  rw [hbody, Option.or_none] at hbody'
  rw [hheaders] at hheaders'
  exact ⟨rfl, hallowed, hmethod', hbody', by rw [hheaders'], hbodiless, fun h => (nomatch h)⟩

/-- A run of a `Request`. -/
theorem request_sendsFrom_eq_iff (hlawful : web.Lawful) {r : Request} {init : Option RequestInit}
    {request : Outgoing Url} (hnew : newRequest web (.request r) (init.getD default) = some request)
    (hurl : fetchable web request.url)
    (hsent : callSent web ⟨.request r, redirectAwareInit init⟩ [] = some (request.sent web))
    {responses : List Response} (hcount : 0 + (chain web request.url responses).length ≤ 21) :
    sendsFrom web 0 [] request.url (.request r) init responses = followed web 0 request responses ↔
      RequestFollows web (init.getD default) request responses := by
  obtain ⟨hallowed, hmethod, hbody, -, hbodiless⟩ := newRequest_some hnew
  cases responses with
  | nil =>
    unfold sendsFrom
    rw [hsent]
    exact ⟨fun _ => trivial, fun _ => rfl⟩
  | cons response rest =>
    unfold sendsFrom followed httpRedirect RequestFollows
    rw [hsent]
    dsimp only
    rw [List.cons.injEq]
    simp only [true_and]
    cases htarget : target web request.url response with
    | none => exact ⟨fun _ _ h => (by cases h), fun _ => rfl⟩
    | some url =>
      rw [chain_cons hurl htarget, List.length_cons] at hcount
      dsimp only
      rw [if_neg (by decide : ¬ (0 = 20))]
      by_cases hfetchable : fetchable web url
      case neg =>
        rw [if_neg fun h => hfetchable h.1]
        dsimp only
        rw [sendsFrom_eq_nil, callSent_not_fetchable rfl hfetchable]
        refine ⟨fun _ url' heq hurl' => ?_, fun _ => rfl⟩
        cases heq
        exact absurd hurl' hfetchable
      have hforall {p : Url → Prop} : (∀ url', some url = some url' → fetchable web url' → p url') ↔
          p url :=
        ⟨fun h => h url rfl hfetchable, fun h _ heq _ => Option.some.inj heq ▸ h⟩
      rw [hforall]
      by_cases hstream : request.streams = true ∧ response.status ≠ 303
      · rw [if_neg fun h => h.2 hstream, if_pos hstream]
        dsimp only
        rw [sendsFrom_eq_nil, callSent_nextRedirectInit hlawful hallowed response.status hfetchable]
        have hread := hstream.1
        rw [Outgoing.streams, hbody] at hread
        have halone : switchesAlone (init.getD default).method response.status ↔
            (init.getD default).method.isSome = true ∧
              switchesToGet request.method response.status := by
          rw [hmethod]
          cases (init.getD default).method with
          | some method => exact ⟨fun h => ⟨rfl, h⟩, fun h => h.2⟩
          | none => exact ⟨fun h => absurd h hstream.2, fun h => (by cases h.1)⟩
        by_cases hswitch : switchesAlone (init.getD default).method response.status
        · rw [if_pos hswitch]
          exact ⟨fun h => (by cases h), fun h => absurd (halone.mp hswitch) h.2⟩
        rw [if_neg hswitch]
        cases hinit : (init.getD default).body with
        | some body =>
          rw [hinit, Option.some_or] at hread
          rw [if_pos (.inr hread)]
          exact ⟨fun _ => ⟨rfl, fun h => hswitch (halone.mpr h)⟩, fun _ => rfl⟩
        | none =>
          rw [if_neg (by simp)]
          exact ⟨fun h => (by cases h), fun h => (by cases h.1)⟩
      · rw [if_pos ⟨hfetchable, hstream⟩, if_neg hstream]
        dsimp only
        rw [if_neg (by decide : ¬ (0 = 20))]
        have hcount' : 0 + 1 + (chain web url rest).length ≤ 21 := by omega
        have hrun (hkept : RequestKept web (init.getD default) request response.status url) :
            sendsFrom web (0 + 1) [⟨.request r, redirectAwareInit init⟩] url (.url url)
                (nextRedirectInit web.toWeb init response.status) rest =
              followed web (0 + 1) (redirected web request response.status url) rest ↔
            Follows web ((init.getD default).method.isSome || response.status = 303)
              (redirected web request response.status url) rest :=
          (hkept.next hlawful hnew hstream).sendsFrom_eq_iff hlawful hfetchable rfl rfl rfl rfl
            (.inl rfl) hcount'
        constructor
        · intro heq
          have hhead := congrArg List.head? heq
          rw [sendsFrom_head?, followed_head?] at hhead
          have hkept := requestKept_of_callSent hlawful hnew hfetchable hhead
          exact ⟨hkept, (hrun hkept).mp heq⟩
        · rintro ⟨hkept, hfollows⟩
          exact (hrun hkept).mpr hfollows

/-! ## Agreement -/

/-- A chain of redirects within the allowed URLs, shorter than the limit and without a repeated URL. -/
structure Admissible (web : Platform Url) (validateUrl : Url → Except Thrown Unit) (urls : List Url) :
    Prop where
  allowed : ∀ url ∈ urls, validateUrl url = .ok ()
  short : urls.length ≤ 21
  distinct : (urls.map web.address).Nodup

theorem guarded_iff (hlawful : web.Lawful) {validateUrl : Url → Except Thrown Unit}
    {input : Input Url} {init : Option RequestInit} {responses : List Response}
    (hchain : ∀ url, urlOf web.toWeb input = some url →
      Admissible web validateUrl (chain web url responses)) :
    guardedRequests web validateUrl input init responses = platformRequests web input init responses ↔
      Agrees web input (init.getD default) responses := by
  unfold guardedRequests fetchWithEgressGuardedRedirects platformRequests Agrees
  cases hinput : urlOf web.toWeb input with
  | none =>
    have hnew (init : RequestInit) : newRequest web input init = none := by rw [newRequest, hinput]
    have hsent : logSent web (fetch (answering web responses) input init []).2 = [] := by
      simp [fetch, logSent, callSent, hnew]
    rw [hnew]
    dsimp only
    rw [hsent]
    exact ⟨fun _ _ h => (nomatch h), fun _ => rfl⟩
  | some url =>
    obtain ⟨hallowed, hshort, hdistinct⟩ := hchain url hinput
    have hrun : logSent web (followRedirects web.toWeb (answering web responses) validateUrl url input
        init 0 [] []).2 = logSent web [] ++ sendsFrom web 0 [] url input init responses :=
      logSent_followRedirects hlawful rfl hinput (Nat.zero_le 20) hallowed hdistinct
        fun _ _ => List.not_mem_nil
    dsimp only
    rw [hrun, logSent, List.nil_append]
    cases hnew : newRequest web input (init.getD default) with
    | none =>
      have hsent : callSent web ⟨input, redirectAwareInit init⟩ [] = none := by
        have : newRequest web input (redirectAwareInit init) = none := hnew
        rw [callSent, this]
      dsimp only
      rw [sendsFrom_eq_nil.mpr hsent]
      exact ⟨fun _ _ h => (nomatch h), fun _ => rfl⟩
    | some request =>
      obtain rfl := Option.some.inj ((newRequest_url hnew).symm.trans hinput)
      dsimp only
      by_cases hurl : fetchable web request.url
      case neg =>
        rw [if_neg hurl, sendsFrom_eq_nil.mpr (callSent_not_fetchable hinput hurl)]
        exact ⟨fun _ request' heq hurl' => absurd (Option.some.inj heq ▸ hurl') hurl, fun _ => rfl⟩
      have hforall {p : Outgoing Url → Prop} :
          (∀ request', some request = some request' → fetchable web request'.url → p request') ↔
            p request :=
        ⟨fun h => h request rfl hurl, fun h _ heq _ => Option.some.inj heq ▸ h⟩
      rw [if_pos hurl, hforall]
      have hcount : 0 + (chain web request.url responses).length ≤ 21 := by omega
      cases input with
      | text s =>
        exact (aligned_plain hnew rfl rfl rfl).sendsFrom_eq_iff hlawful hurl rfl rfl rfl hinput
          (.inr rfl) hcount
      | url u =>
        exact (aligned_plain hnew rfl rfl rfl).sendsFrom_eq_iff hlawful hurl rfl rfl rfl hinput
          (.inr rfl) hcount
      | request r =>
        have hsent : callSent web ⟨.request r, redirectAwareInit init⟩ [] = some (request.sent web) := by
          have : newRequest web (.request r) (redirectAwareInit init) = some request := hnew
          rw [callSent, this]
          exact if_pos ⟨hurl, .inl rfl⟩
        exact request_sendsFrom_eq_iff hlawful hnew hurl hsent hcount

end Agreement

/-! ## Two hosts -/

/-- URLs as their texts, without queries and user names; locations are absolute. -/
def textUrls : Platform JsString where
  parse := some
  resolve location url := if location = [] then some url else some location
  href := id
  host url := ((url.dropWhile (· ≠ unit '/')).drop 2).takeWhile (· ≠ unit '/')
  protocol url := url.takeWhile (· ≠ unit '/')
  pathname url := ((url.dropWhile (· ≠ unit '/')).drop 2).dropWhile (· ≠ unit '/')
  search _ := []
  toUpperCase := upper
  credentials _ := false
  methodAllowed method := method ≠ [] && method.all fun c => inRange 'A' 'Z' c || inRange 'a' 'z' c
  forbiddenHeader name := name = js "content-length"

theorem textUrls_lawful : textUrls.Lawful where
  toUpperCase _ _ := rfl
  get := by decide
  contentLength := by decide
  resolve_empty url url' h := by
    cases h
    rfl
  address_of_href url url' h := by
    change url = url' at h
    rw [h]

def redirectTo (status : Nat) (location : String) : Response where
  status := status
  statusText := []
  headers := [(js "location", js location)]
  body := some []

def allowHosts (url : JsString) : Except Thrown Unit :=
  validateNetworkHost textUrls.toWeb [js "a.example", js "b.example"] .block url

/-- A POST that becomes a GET at the same host. -/
theorem guarded_iff_post :
    guardedRequests textUrls allowHosts (.text (js "https://a.example/x"))
        (some { method := some (js "post"), headers := some [(js "Authorization", js "secret")]
                body := some ⟨js "tx", some (js "text/plain"), false⟩, redirect := none })
        [redirectTo 302 "https://a.example/y"] =
      platformRequests textUrls (.text (js "https://a.example/x"))
        (some { method := some (js "post"), headers := some [(js "Authorization", js "secret")]
                body := some ⟨js "tx", some (js "text/plain"), false⟩, redirect := none })
        [redirectTo 302 "https://a.example/y"] := by
  refine (guarded_iff textUrls_lawful fun url hurl => ?_).mpr fun request hnew _ => ?_
  · cases hurl
    exact ⟨by decide +kernel, by decide +kernel, by decide +kernel⟩
  · cases hnew
    intro url htarget _
    cases htarget
    rw [if_neg (by decide +kernel)]
    exact ⟨⟨fun h => absurd (by decide +kernel) h, fun _ => by decide +kernel, by decide +kernel⟩,
      trivial⟩

def withSecret : Option RequestInit :=
  some { method := none, headers := some [(js "Authorization", js "secret")], body := none
         redirect := none }

/-- The loop carries an Authorization header to another host. -/
theorem guarded_differs :
    Admissible textUrls allowHosts
        (chain textUrls (js "https://a.example/x") [redirectTo 302 "https://b.example/y"]) ∧
      (guardedRequests textUrls allowHosts (.text (js "https://a.example/x")) withSecret
          [redirectTo 302 "https://b.example/y"]).map (·.headers (js "authorization")) =
        [some (js "secret"), some (js "secret")] ∧
      (platformRequests textUrls (.text (js "https://a.example/x")) withSecret
          [redirectTo 302 "https://b.example/y"]).map (·.headers (js "authorization")) =
        [some (js "secret"), none] ∧
      guardedRequests textUrls allowHosts (.text (js "https://a.example/x")) withSecret
          [redirectTo 302 "https://b.example/y"] ≠
        platformRequests textUrls (.text (js "https://a.example/x")) withSecret
          [redirectTo 302 "https://b.example/y"] := by
  refine ⟨⟨by decide +kernel, by decide +kernel, by decide +kernel⟩, by decide +kernel,
    by decide +kernel, fun h => ?_⟩
  have hmap := congrArg (List.map (·.headers (js "authorization"))) h
  exact absurd hmap (by decide +kernel)

end Lionden.Network.Egress
