import Lionden.Js.Text
import Lionden.Lib.Window
import Lionden.Network.MutexRuns

/-!
# The failures of an SDK call (`sdk-diagnostics.ts`)

The guarded transport records its failures in a sink that all calls of a bundle share.
`captureSdkCall` clears it when its turn comes, and what the SDK then throws is judged on what the
sink holds.

* `record`, `captured`: the bounded sink, and what a thrown error becomes.
* `step`: calls that overlap, and failures that are recorded at any time.
* `settles_attributed`: a call is judged on the last failures since its own turn began.
-/

namespace Lionden.Network.Mutex

variable {kind : Kind} {s : State} {n left : Nat} {body : Body}

@[simp] theorem release_started : (s.release n).started = s.started := by
  rw [State.release]
  split <;> rfl

@[simp] theorem finish_started : (s.finish n body left).started = s.started := by
  cases left with
  | zero => exact release_started
  | succ left => rfl

theorem step_next (e : Event) :
    (step kind s e).next = s.next + if e = .call then 1 else 0 := by
  cases e with
  | call =>
    simp only [step, State.call, State.awaitPrevious]
    split <;> rfl
  | bodyReturns =>
    simp only [step, State.bodyReturns]
    split <;> rfl
  | bodyThrows =>
    simp only [step, State.bodyThrows]
    split
    · exact finish_next
    · rfl
  | bodySettles n =>
    simp only [step, State.bodySettles]
    split
    · exact finish_next
    · rfl
    · rfl
  | trap n =>
    simp only [step, State.trap]
    split
    · exact finish_next
    · rfl
  | runJob =>
    simp only [step, State.runJob]
    split
    · split
      · rfl
      · exact finish_next
      · rfl
    · rfl

/-- A body that has been started stays among those. -/
theorem started_prefix (e : Event) : s.started <+: (step kind s e).started := by
  cases e with
  | call =>
    simp only [step, State.call, State.awaitPrevious]
    split <;> exact List.prefix_rfl
  | bodyReturns =>
    simp only [step, State.bodyReturns]
    split <;> exact List.prefix_rfl
  | bodyThrows =>
    simp only [step, State.bodyThrows]
    split
    · rw [finish_started]
    · exact List.prefix_rfl
  | bodySettles n =>
    simp only [step, State.bodySettles]
    split
    · rw [finish_started]
    · exact List.prefix_rfl
    · exact List.prefix_rfl
  | trap n =>
    simp only [step, State.trap]
    split
    · rw [finish_started]
    · exact List.prefix_rfl
  | runJob =>
    simp only [step, State.runJob]
    split
    · split
      · exact List.prefix_append ..
      · rw [finish_started]
      · exact List.prefix_rfl
    · exact List.prefix_rfl

end Lionden.Network.Mutex

namespace Lionden.Network.SdkCalls

open Trace

/-! ## The sink -/

structure SdkTransportFailure where
  method : JsString
  url : JsString
  status : Option Nat := none
  statusText : Option JsString := none
  bodyExcerpt : Option JsString := none
  error : Option JsString := none
  deriving DecidableEq

def SDK_DIAGNOSTICS_RING_CAP : Nat := 16

def record (failures : List SdkTransportFailure) (failure : SdkTransportFailure) :
    List SdkTransportFailure :=
  let failures := failures ++ [failure]
  if SDK_DIAGNOSTICS_RING_CAP < failures.length then failures.tail else failures

theorem record_eq_keep {failures : List SdkTransportFailure}
    (h : failures.length ≤ SDK_DIAGNOSTICS_RING_CAP) (failure : SdkTransportFailure) :
    record failures failure = Window.keep SDK_DIAGNOSTICS_RING_CAP failures [failure] := by
  simp only [record, Window.keep, List.rtake, List.length_append, List.length_singleton]
  by_cases hfull : SDK_DIAGNOSTICS_RING_CAP < failures.length + 1
  · rw [if_pos hfull, show failures.length + 1 - SDK_DIAGNOSTICS_RING_CAP = 1 by omega,
      List.drop_one]
  · rw [if_neg hfull, Nat.sub_eq_zero_of_le (by omega), List.drop_zero]

/-- The sink holds the last failures. -/
theorem record_rtake (failures : List SdkTransportFailure) (failure : SdkTransportFailure) :
    record (failures.rtake SDK_DIAGNOSTICS_RING_CAP) failure =
      (failures ++ [failure]).rtake SDK_DIAGNOSTICS_RING_CAP := by
  rw [record_eq_keep, Window.keep_rtake]
  rw [List.rtake, List.length_drop]
  omega

theorem foldl_record (failures : List SdkTransportFailure) :
    failures.foldl record [] = failures.rtake SDK_DIAGNOSTICS_RING_CAP := by
  induction failures using List.reverseRecOn with
  | nil => rfl
  | append_singleton failures failure ih =>
    rw [List.foldl_concat, ih, record_rtake]

/-! ## What is thrown -/

inductive Operation where
  | execute
  | localRun
  | deploy
  | upgrade
  deriving DecidableEq

def Operation.name : Operation → JsString
  | .execute => js "execute"
  | .localRun => js "local"
  | .deploy => js "deploy"
  | .upgrade => js "upgrade"

structure SdkCallContext where
  operation : Operation
  programId : JsString
  transitionName : Option JsString := none
  deriving DecidableEq

inductive Thrown where
  | sdkExecution (message : JsString) (context : SdkCallContext)
      (diagnostics : List SdkTransportFailure) (cause : Thrown)
  | localExecutionWasmTrap (message : JsString)
  /-- Any other error, and whether it is a `WebAssembly.RuntimeError`. -/
  | error (isRuntimeError : Bool) (name message : JsString)
  /-- A value that is not an error, as `String` shows it. -/
  | other (text : JsString)
  deriving DecidableEq

def errorMessage : Thrown → JsString
  | .sdkExecution message .. | .localExecutionWasmTrap message | .error _ _ message => message
  | .other text => text

def isRuntimeUnreachableTrap (isRuntimeError : Bool) (name message : JsString) : Bool :=
  (isRuntimeError || name == js "RuntimeError") && message == js "unreachable"

def isOpaqueWasmError : Thrown → Bool
  | .sdkExecution message .. | .localExecutionWasmTrap message =>
    includes message (js "JS callback Promise rejected")
  | .error isRuntimeError name message =>
    includes message (js "JS callback Promise rejected") ||
      isRuntimeUnreachableTrap isRuntimeError name message
  | .other text => trim text == [] || trim text == js "[object Object]"

/-- The last state query that failed: for the state paths, or else for the state root. -/
def pickRelevantFailure (failures : List SdkTransportFailure) : Option SdkTransportFailure :=
  [js "/statePaths", js "/stateRoot"].findSome? fun needle =>
    failures.reverse.find? fun failure => includes failure.url needle

def subject (context : SdkCallContext) : JsString :=
  match context.transitionName with
  | some (c :: name) => context.programId ++ js "/" ++ c :: name
  | _ => context.programId

def failurePart : Option SdkTransportFailure → JsString
  | none => js "WASM aborted without a descriptive error and no state-query failure was recorded."
  | some failure =>
    let query := js "State query " ++ failure.method ++ js " " ++ failure.url
    match failure.status with
    | some status =>
      let statusText := match failure.statusText with
        | some (c :: text) => js " " ++ c :: text
        | _ => []
      let body := match failure.bodyExcerpt with
        | some (c :: text) => js ": " ++ c :: text
        | _ => []
      query ++ js " -> " ++ decimal status ++ statusText ++ body ++ js "."
    | none => query ++ js " failed: " ++ failure.error.getD (js "unknown error") ++ js "."

def buildSdkExecutionMessage (context : SdkCallContext) (failure : Option SdkTransportFailure)
    (error : Thrown) : JsString :=
  subject context ++ js " " ++ context.operation.name ++ js " failed during SDK build/prove. " ++
    failurePart failure ++ js " Cause: " ++ errorMessage error

/-- What the `catch` of `captureSdkCall` throws while the sink holds `failures`. -/
def captured (context : SdkCallContext) (failures : List SdkTransportFailure) (error : Thrown) :
    Thrown :=
  match error with
  | .sdkExecution .. | .localExecutionWasmTrap _ => error
  | _ =>
    let relevant := pickRelevantFailure failures
    if relevant.isNone && !isOpaqueWasmError error then error
    else .sdkExecution (buildSdkExecutionMessage context relevant error) context failures error

/-! ## Overlapping calls -/

structure State (V : Type) where
  mutex : Mutex.State := {}
  failures : List SdkTransportFailure := []
  /-- What the calls are, in their order. -/
  contexts : List SdkCallContext := []
  /-- What the calls will settle with, once what `fn` has returned is settled. -/
  results : Nat → Option (Except Thrown V) := fun _ => none

inductive Event (V : Type) where
  | call (context : SdkCallContext)
  /-- The next job: a body that starts clears the sink. -/
  | runJob
  /-- The body on the stack has called `fn` and returns its promise. -/
  | returns
  /-- The transport records a failure, of whichever call. -/
  | record (failure : SdkTransportFailure)
  /-- What `fn` has returned settles, and the `catch` is behind. -/
  | settles (n : Nat) (outcome : Except Thrown V)
  /-- The promise of the body settles, for the mutex to be released. -/
  | finishes (n : Nat)

variable {V : Type}

/-- The body of call `n` awaits what `fn` has returned. -/
def State.Awaits (s : State V) (n : Nat) : Prop :=
  s.mutex.callers n = some ⟨.body, .pending⟩ ∧ (s.results n).isNone

instance (s : State V) (n : Nat) : Decidable (s.Awaits n) := inferInstanceAs (Decidable (_ ∧ _))

def step (s : State V) : Event V → State V
  | .call context => { s with mutex := s.mutex.call, contexts := s.contexts ++ [context] }
  | .runJob =>
    let mutex := s.mutex.runJob
    { s with
      mutex
      failures := if mutex.started = s.mutex.started then s.failures else [] }
  | .returns => { s with mutex := s.mutex.bodyReturns }
  | .record failure => { s with failures := record s.failures failure }
  | .settles n outcome =>
    match s.contexts[n]? with
    | some context =>
      if s.Awaits n then
        { s with
          results := Function.update s.results n
            (some (outcome.mapError (captured context s.failures))) }
      else s
    | none => s
  | .finishes n =>
    if (s.results n).isSome then
      { s with mutex := s.mutex.bodySettles Mutex.runExclusive n }
    else s

/-! ## Runs -/

def Event.failure? : Event V → Option SdkTransportFailure
  | .record failure => some failure
  | _ => none

def Event.context? : Event V → Option SdkCallContext
  | .call context => some context
  | _ => none

def recorded (events : List (Event V)) : List SdkTransportFailure := events.filterMap Event.failure?

/-- The calls of a run, in their order. -/
def calls (events : List (Event V)) : List SdkCallContext := events.filterMap Event.context?

/-- The event of the mutex, if it is one. -/
def Event.ofMutex (s : State V) : Event V → Option Mutex.Event
  | .call _ => some .call
  | .runJob => some .runJob
  | .returns => some .bodyReturns
  | .finishes n => if (s.results n).isSome then some (.bodySettles n) else none
  | .record _ | .settles .. => none

/-- What settles changes nothing but results. -/
theorem step_settles (s : State V) (n : Nat) (outcome : Except Thrown V) :
    ∃ results, step s (.settles n outcome) = { s with results } := by
  rw [step]
  split
  · split
    · exact ⟨_, rfl⟩
    · exact ⟨_, rfl⟩
  · exact ⟨_, rfl⟩

theorem step_mutex (s : State V) (e : Event V) :
    (step s e).mutex = ((e.ofMutex s).map (Mutex.step Mutex.runExclusive s.mutex)).getD s.mutex := by
  cases e with
  | settles n outcome =>
    obtain ⟨results, h⟩ := step_settles s n outcome
    rw [h]
    rfl
  | finishes n => by_cases h : (s.results n).isSome <;> simp [step, Event.ofMutex, h, Mutex.step]
  | _ => rfl

theorem step_contexts (s : State V) (e : Event V) :
    (step s e).contexts = s.contexts ++ e.context?.toList := by
  cases e with
  | settles n outcome =>
    obtain ⟨results, h⟩ := step_settles s n outcome
    rw [h]
    exact (List.append_nil _).symm
  | finishes n => by_cases h : (s.results n).isSome <;> simp [step, Event.context?, h]
  | call context => rfl
  | _ => exact (List.append_nil _).symm

theorem exec_contexts (s : State V) (events : List (Event V)) :
    (exec step s events).contexts = s.contexts ++ calls events := by
  induction events generalizing s with
  | nil => exact (List.append_nil _).symm
  | cons e events ih =>
    rw [show exec step s (e :: events) = exec step (step s e) events from rfl, ih, step_contexts,
      List.append_assoc]
    cases e <;> rfl

/-- A result stays. -/
theorem step_results {s : State V} {n : Nat} {result : Except Thrown V}
    (h : s.results n = some result) (e : Event V) : (step s e).results n = some result := by
  cases e with
  | settles d outcome =>
    simp only [step]
    split
    · split
      · next hawaits =>
        have hne : n ≠ d := by
          rintro rfl
          simp [State.Awaits, h] at hawaits
        exact (Function.update_of_ne hne ..).trans h
      · exact h
    · exact h
  | finishes d => by_cases hd : (s.results d).isSome <;> simp [step, hd, h]
  | _ => exact h

theorem exec_results {s : State V} {n : Nat} {result : Except Thrown V}
    (h : s.results n = some result) (events : List (Event V)) :
    (exec step s events).results n = some result := by
  induction events generalizing s with
  | nil => exact h
  | cons e events ih => exact ih (step_results h e)

/-- The mutex counts the calls. -/
theorem step_next (s : State V) (e : Event V) :
    (step s e).mutex.next = s.mutex.next + e.context?.toList.length := by
  rw [step_mutex]
  cases e with
  | finishes n =>
    by_cases h : (s.results n).isSome <;> simp [Event.ofMutex, Event.context?, h, Mutex.step_next]
  | _ => simp [Event.ofMutex, Event.context?, Mutex.step_next]

theorem exec_mutex {s : State V} {m : Nat} {turn : Mutex.Turn}
    (h : Mutex.Inv Mutex.runExclusive s.mutex m turn) (hnext : s.mutex.next = s.contexts.length)
    (events : List (Event V)) : ∃ m turn,
      Mutex.Inv Mutex.runExclusive (exec step s events).mutex m turn ∧
        (exec step s events).mutex.next = (exec step s events).contexts.length := by
  induction events generalizing s m turn with
  | nil => exact ⟨m, turn, h, hnext⟩
  | cons e events ih =>
    have hnext' : (step s e).mutex.next = (step s e).contexts.length := by
      rw [step_next, step_contexts, List.length_append, hnext]
    cases he : e.ofMutex s with
    | none =>
      have hmutex : (step s e).mutex = s.mutex := by rw [step_mutex, he]; rfl
      exact ih (hmutex.symm ▸ h) hnext'
    | some me =>
      have hmutex : (step s e).mutex = Mutex.step Mutex.runExclusive s.mutex me := by
        rw [step_mutex, he]; rfl
      obtain ⟨m', turn', hinv, -⟩ := h.step me
      exact ih (hmutex.symm ▸ hinv) hnext'

theorem started_step (s : State V) (e : Event V) :
    s.mutex.started <+: (step s e).mutex.started := by
  rw [step_mutex]
  cases e.ofMutex s with
  | none => exact List.prefix_rfl
  | some me => exact Mutex.started_prefix me

theorem started_exec (s : State V) (events : List (Event V)) :
    s.mutex.started <+: (exec step s events).mutex.started := by
  induction events generalizing s with
  | nil => exact List.prefix_rfl
  | cons e events ih => exact (started_step s e).trans (ih _)

/-- As long as no other body is started, the sink takes what is recorded. -/
theorem exec_failures (s : State V) (events : List (Event V))
    (h : (exec step s events).mutex.started = s.mutex.started) :
    (exec step s events).failures = (recorded events).foldl record s.failures := by
  induction events generalizing s with
  | nil => rfl
  | cons e events ih =>
    have hfirst : (step s e).mutex.started = s.mutex.started :=
      ((started_step s e).eq_of_length_le
        ((started_exec (step s e) events).length_le.trans (congrArg List.length h).le)).symm
    have hrest : (exec step (step s e) events).mutex.started = (step s e).mutex.started :=
      Eq.trans h hfirst.symm
    refine (ih _ hrest).trans ?_
    cases e with
    | record failure => rfl
    | runJob => exact congrArg (List.foldl record · (recorded events)) (if_pos hfirst)
    | settles n outcome =>
      obtain ⟨results, h⟩ := step_settles s n outcome
      rw [h]
      rfl
    | finishes n =>
      rw [step]
      split <;> rfl
    | call context | returns => rfl

/-- Where the body of a call awaits, the bodies up to its own have been started. -/
theorem started_of_awaits {s : State V} {m n : Nat} {turn : Mutex.Turn}
    (h : Mutex.Inv Mutex.runExclusive s.mutex m turn) (hn : s.Awaits n) :
    s.mutex.started = List.range (n + 1) ∧ n < s.mutex.next := by
  rcases h.place hn.1 with ⟨-, body, heq, hended⟩ | ⟨rfl, hturn⟩ | ⟨-, heq⟩
  · cases heq
  · cases turn with
    | awaits => exact ⟨h.started, h.lt (by simp)⟩
    | _ => simp [Mutex.Turn.caller] at hturn
  · cases heq

theorem exec_append (s : State V) (a b : List (Event V)) :
    exec step s (a ++ b) = exec step (exec step s a) b := List.foldl_append

/-- **Attribution.** In every run of overlapping calls, what a call settles with is judged on the
last failures that were recorded since its own body began, whatever other calls and the transport
have done before and do later. -/
theorem settles_attributed (before during after : List (Event V)) (n : Nat)
    (outcome : Except Thrown V) (hwaits : n ∉ (exec step {} before).mutex.started)
    (hstarts : n ∈ (exec step {} (before ++ [.runJob])).mutex.started)
    (hawaits : (exec step {} (before ++ .runJob :: during)).Awaits n) :
    let run := before ++ .runJob :: during ++ .settles n outcome :: after
    ∃ context, (calls run)[n]? = some context ∧
      (exec step {} run).results n = some (outcome.mapError
        (captured context ((recorded during).rtake SDK_DIAGNOSTICS_RING_CAP))) := by
  intro run
  set start := step (exec step ({} : State V) before) .runJob with hstart
  set settling := exec step start during with hsettling
  have hreach : exec step {} (before ++ .runJob :: during) = settling := by
    rw [exec_append]; rfl
  rw [hreach] at hawaits
  have hstarts : n ∈ start.mutex.started := by rwa [exec_append] at hstarts
  obtain ⟨m, turn, hinv, hnext⟩ :=
    exec_mutex (s := ({} : State V)) (Mutex.Inv.start _) rfl (before ++ .runJob :: during)
  rw [hreach] at hinv hnext
  obtain ⟨hstarted, hlt⟩ := started_of_awaits hinv hawaits
  -- No other body starts while this one awaits.
  have hsame : settling.mutex.started = start.mutex.started := by
    have hprefix := started_exec start during
    rw [← hsettling] at hprefix
    have htake := List.prefix_iff_eq_take.mp hprefix
    rw [hstarted, List.take_range] at htake
    have hlast : n < min start.mutex.started.length (n + 1) := by
      rwa [htake, List.mem_range] at hstarts
    refine hprefix.eq_of_length_le ?_ |>.symm
    rw [hstarted, List.length_range]
    omega
  have hcleared : start.failures = [] := by
    refine if_neg (fun heq : start.mutex.started = _ => hwaits ?_)
    rwa [heq] at hstarts
  have hfailures : settling.failures = (recorded during).rtake SDK_DIAGNOSTICS_RING_CAP := by
    rw [hsettling, exec_failures start during hsame, hcleared, foldl_record]
  have hcalls : settling.contexts = calls (before ++ .runJob :: during) := by
    rw [← hreach, exec_contexts, List.nil_append]
  obtain ⟨context, hget⟩ : ∃ context, settling.contexts[n]? = some context :=
    ⟨_, List.getElem?_eq_getElem (hnext ▸ hlt)⟩
  refine ⟨context, ?_, ?_⟩
  · rw [show calls run = calls (before ++ .runJob :: during) ++ calls (.settles n outcome :: after)
      from List.filterMap_append, ← hcalls, List.getElem?_append_left (hnext ▸ hlt), hget]
  · rw [show exec step {} run = exec step (step settling (.settles n outcome)) after by
      rw [← hreach]; exact exec_append ..]
    refine exec_results ?_ after
    simp only [step, hget, if_pos hawaits, Function.update_self, hfailures]

def commitmentMissing : SdkTransportFailure where
  method := js "GET"
  url := js "http://127.0.0.1:3030/testnet/statePaths?commitments=cm"
  status := some 500
  bodyExcerpt := some (js "Commitment 'cm' does not exist")

def broadcastFailed : SdkTransportFailure where
  method := js "POST"
  url := js "http://127.0.0.1:3030/testnet/transaction/broadcast"
  status := some 500

def mint : SdkCallContext := ⟨.execute, js "token.aleo", some (js "mint")⟩

def burn : SdkCallContext := ⟨.execute, js "token.aleo", some (js "burn")⟩

/-- A state query of `mint` fails before the turn of `burn` comes. -/
theorem settles_attributed_overlap :
    let run : List (Event Unit) :=
      [.call mint, .runJob, .returns, .call burn, .record commitmentMissing, .settles 0 (.ok ()),
        .finishes 0, .runJob] ++ .runJob :: [.returns, .record broadcastFailed] ++
        .settles 1 (.error (.other [])) :: [.finishes 1]
    ∃ context, (calls run)[1]? = some context ∧
      (exec step {} run).results 1 = some (.error (captured context [broadcastFailed] (.other []))) :=
  settles_attributed
    [.call mint, .runJob, .returns, .call burn, .record commitmentMissing, .settles 0 (.ok ()),
      .finishes 0, .runJob]
    [.returns, .record broadcastFailed] [.finishes 1] 1 (.error (.other [])) (by decide) (by decide)
    (by decide)

end Lionden.Network.SdkCalls
