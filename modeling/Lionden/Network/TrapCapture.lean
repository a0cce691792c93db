import Lionden.Js.Text
import Lionden.Network.MutexRuns

/-!
# Traps that escape (`connection.ts`)

A panic of the local WASM runtime escapes to the process, and the promise of the SDK stays pending.
While a call is at its turn, `runWithLocalWasmTrapCapture` has handlers of the process that reject it
with the trap; everything else that escapes is not for the call.

* `Process.uncaught`, `Process.rejection`: what the process does with what escapes.
* `installUncaughtExceptionTrapHandler`, `removeUncaughtExceptionTrapHandler` and the like: handlers.
* `step`: calls that overlap, and what escapes at any time.
* `traps_attributed`: what a call is decided by, and that the process is left as it was.
-/

namespace Lionden.Network.Mutex

variable {kind : Kind} {s s' : State} {m n : Nat} {turn : Turn}

/-! ## Whose turn begins and ends -/

def State.controlOf (s : State) (n : Nat) : Option Control := (s.callers n).map Caller.control

/-- The caller is at its turn. -/
def Control.Active : Control → Prop
  | .body | .ending _ => True
  | _ => False

/-- No turn begins or ends. -/
def SameTurns (s s' : State) : Prop :=
  ∀ n control, control.Active → (s'.controlOf n = some control ↔ s.controlOf n = some control)

theorem SameTurns.refl (s : State) : SameTurns s s := fun _ _ _ => Iff.rfl

theorem controlOf_eq {n : Nat} {control : Control} :
    s.controlOf n = some control ↔ ∃ body, s.callers n = some ⟨control, body⟩ := by
  unfold State.controlOf
  cases s.callers n with
  | none => simp
  | some caller =>
    obtain ⟨control', body⟩ := caller
    simp [eq_comm]

/-- At most one caller is at its turn. -/
theorem Inv.alone (h : Inv kind s m turn) {a b : Nat} {c d : Control} (ha : s.controlOf a = some c)
    (hc : c.Active) (hb : s.controlOf b = some d) (hd : d.Active) : a = b := by
  have hturn {n : Nat} {control : Control} (hn : s.controlOf n = some control)
      (hactive : control.Active) : n = m := by
    obtain ⟨body, hn⟩ := controlOf_eq.mp hn
    rcases h.place hn with ⟨-, _, ⟨⟩, -⟩ | ⟨hm, -⟩ | ⟨-, ⟨⟩⟩
    · exact hactive.elim
    · exact hm
    · exact hactive.elim
  rw [hturn ha hc, hturn hb hd]

/-- While a caller is to begin, nobody is at its turn. -/
theorem Inv.queued_alone (h : Inv kind s m turn) (hn : s.controlOf n = some .queued) {d : Nat}
    {control : Control} (hd : s.controlOf d = some control) : ¬control.Active := by
  intro hactive
  obtain ⟨body, hn⟩ := controlOf_eq.mp hn
  obtain ⟨body', hd⟩ := controlOf_eq.mp hd
  rcases h.place hn with ⟨-, _, ⟨⟩, -⟩ | ⟨rfl, hturn⟩ | ⟨-, ⟨⟩⟩
  rcases h.place hd with ⟨-, _, ⟨⟩, -⟩ | ⟨rfl, hturn'⟩ | ⟨-, ⟨⟩⟩
  · exact hactive.elim
  · cases hturn.symm.trans hturn'
    exact hactive.elim
  · exact hactive.elim

theorem Inv.callers_next (h : Inv kind s m turn) : s.callers s.next = none := by
  rcases h.le.lt_or_eq with hlt | heq
  · exact h.fresh s.next hlt le_rfl
  · rw [← heq, h.caller, h.free.mpr heq]
    rfl

theorem setCaller_controlOf (caller : Caller) (d : Nat) :
    (s.setCaller n caller).controlOf d =
      if d = n then some caller.control else s.controlOf d := by
  unfold State.controlOf
  by_cases hd : d = n
  · rw [if_pos hd, hd, setCaller_callers]
    rfl
  · rw [if_neg hd, setCaller_callers_of_ne caller hd]

theorem sameTurns_setCaller {control : Control} {body : Body} {caller : Caller}
    (hn : s.callers n = some ⟨control, body⟩) (hcaller : caller.control = control) :
    SameTurns s (s.setCaller n caller) := by
  intro d c _
  rw [setCaller_controlOf]
  by_cases hd : d = n
  · rw [if_pos hd, hd, hcaller, State.controlOf, hn]
    rfl
  · rw [if_neg hd]

/-- A caller that is added, and not at its turn. -/
theorem sameTurns_added {caller : Caller} (hn : s.callers n = none)
    (hcaller : ¬caller.control.Active) : SameTurns s (s.setCaller n caller) := by
  intro d c hc
  rw [setCaller_controlOf]
  by_cases hd : d = n
  · have hnone : s.controlOf n = none := by rw [State.controlOf, hn]; rfl
    rw [if_pos hd, hd, hnone, Option.some_inj]
    refine iff_of_false ?_ (Option.some_ne_none c).symm
    rintro rfl
    exact hcaller hc
  · rw [if_neg hd]

theorem Inv.sameTurns_call (h : Inv kind s m turn) : SameTurns s s.call := by
  simp only [State.call, State.awaitPrevious]
  split
  · exact sameTurns_added (s := { s with next := s.next + 1 }) h.callers_next not_false
  · exact sameTurns_added (s := { s with next := s.next + 1 }) h.callers_next not_false
  · exact .refl s

theorem Inv.running_body (h : Inv kind s m turn) (hn : s.running = some n) :
    s.callers n = some ⟨.body, .running⟩ := by
  rw [h.running] at hn
  cases turn with
  | runs =>
    cases hn
    exact h.caller
  | free | queued | awaits | ends => cases hn

theorem Inv.sameTurns_bodyReturns (h : Inv kind s m turn) : SameTurns s s.bodyReturns := by
  unfold State.bodyReturns
  split
  · next n hn => exact sameTurns_setCaller (h.running_body hn) rfl
  · exact .refl s

theorem release_controlOf (d : Nat) : (s.release n).controlOf d = s.controlOf d ∨
    (s.release n).controlOf d = some .queued := by
  unfold State.release State.controlOf
  split
  · dsimp only
    split
    · cases s.callers d <;> simp
    · exact .inl rfl
  · exact .inl rfl

/-- A release changes no body. -/
theorem release_body {d : Nat} {control : Control} {body : Body}
    (hd : s.callers d = some ⟨control, body⟩) :
    ∃ control', (s.release n).callers d = some ⟨control', body⟩ := by
  unfold State.release
  split
  · dsimp only
    split
    · exact ⟨.queued, by rw [hd]; rfl⟩
    · exact ⟨control, hd⟩
  · exact ⟨control, hd⟩

theorem finish_body_self (body : Body) (left : Nat) :
    ∃ control, (s.finish n body left).callers n = some ⟨control, body⟩ := by
  cases left with
  | zero => exact release_body (setCaller_callers _)
  | succ left => exact ⟨.ending left, setCaller_callers _⟩

theorem finish_body_of_ne {d : Nat} (hne : d ≠ n) {control : Control} {body body' : Body}
    (hd : s.callers d = some ⟨control, body⟩) (left : Nat) :
    ∃ control', (s.finish n body' left).callers d = some ⟨control', body⟩ := by
  cases left with
  | zero => exact release_body ((setCaller_callers_of_ne _ hne).trans hd)
  | succ left => exact ⟨control, (setCaller_callers_of_ne _ hne).trans hd⟩

theorem finish_succ_controlOf (body : Body) (left : Nat) :
    (s.finish n body (left + 1)).controlOf n = some (.ending left) :=
  (setCaller_controlOf _ n).trans (if_pos rfl)

/-- Who is at its turn after one has ended was so before. -/
theorem finish_zero_controlOf {body : Body} {d : Nat} {control : Control} (hactive : control.Active)
    (hd : (s.finish n body 0).controlOf d = some control) :
    d ≠ n ∧ s.controlOf d = some control := by
  rcases release_controlOf (s := s.setCaller n ⟨.done, body⟩) (n := n) d with hsame | hqueued
  · rw [State.finish, hsame, setCaller_controlOf] at hd
    by_cases hn : d = n
    · rw [if_pos hn] at hd
      cases hd
      exact hactive.elim
    · rw [if_neg hn] at hd
      exact ⟨hn, hd⟩
  · rw [State.finish, hqueued] at hd
    cases hd
    exact hactive.elim

theorem Inv.call_callers (h : Inv kind s m turn) {caller : Caller} (hn : s.callers n = some caller) :
    s.call.callers n = some caller := by
  have hne : n ≠ s.next := by
    rintro rfl
    rw [h.callers_next] at hn
    cases hn
  simp only [State.call, State.awaitPrevious]
  split
  · exact (setCaller_callers_of_ne _ hne).trans hn
  · exact (setCaller_callers_of_ne _ hne).trans hn
  · exact hn

/-- A body that has ended has ended for good. -/
theorem Inv.ended_stays (h : Inv kind s m turn) {control : Control} {body : Body}
    (hn : s.callers n = some ⟨control, body⟩) (hended : body.IsEnded kind) (e : Event) :
    ∃ control' body', (Mutex.step kind s e).callers n = some ⟨control', body'⟩ ∧ body'.IsEnded kind := by
  have hsame {s' : State} (h' : ∃ control', s'.callers n = some ⟨control', body⟩) :
      ∃ control' body', s'.callers n = some ⟨control', body'⟩ ∧ body'.IsEnded kind :=
    ⟨h'.choose, body, h'.choose_spec, hended⟩
  have hrunning {d : Nat} (hd : s.running = some d) : n ≠ d := by
    rintro rfl
    have hbody := (h.running_body hd).symm.trans hn
    obtain ⟨-, rfl⟩ : Control.body = control ∧ Body.running = body := by simpa using hbody
    simp [Body.IsEnded] at hended
  cases e with
  | call => exact hsame ⟨control, h.call_callers hn⟩
  | bodyReturns =>
    simp only [Mutex.step, State.bodyReturns]
    split
    · next d hd => exact hsame ⟨control, (setCaller_callers_of_ne _ (hrunning hd)).trans hn⟩
    · exact hsame ⟨control, hn⟩
  | bodyThrows =>
    simp only [Mutex.step, State.bodyThrows]
    split
    · next d hd =>
      exact hsame (finish_body_of_ne (s := { s with running := none }) (hrunning hd) hn _)
    · exact hsame ⟨control, hn⟩
  | bodySettles d =>
    simp only [Mutex.step, State.bodySettles]
    by_cases hd : n = d
    · subst hd
      rw [hn]
      split
      · next heq =>
        obtain ⟨-, rfl⟩ : control = .body ∧ body = .pending := by simpa using heq
        simp [Body.IsEnded] at hended
      · exact ⟨_, .over, setCaller_callers _, .inl rfl⟩
      · exact hsame ⟨control, hn⟩
    · split
      · exact hsame (finish_body_of_ne hd hn _)
      · exact hsame ⟨control, (setCaller_callers_of_ne _ hd).trans hn⟩
      · exact hsame ⟨control, hn⟩
  | trap d =>
    simp only [Mutex.step, State.trap]
    split
    · next hpending =>
      have hd : n ≠ d := by
        rintro rfl
        obtain ⟨-, rfl⟩ : control = .body ∧ body = .pending := by simpa [hn] using hpending
        simp [Body.IsEnded] at hended
      exact hsame (finish_body_of_ne hd hn _)
    · exact hsame ⟨control, hn⟩
  | runJob =>
    simp only [Mutex.step, State.runJob]
    split
    · next d queue hrun hqueue =>
      split
      · next body' hqueued =>
        have hd : n ≠ d := by
          rintro rfl
          obtain ⟨rfl, rfl⟩ : control = .queued ∧ body = body' := by simpa [hn] using hqueued
          rcases h.place hn with ⟨-, _, ⟨⟩, -⟩ | ⟨rfl, hturn⟩ | ⟨-, ⟨⟩⟩
          cases turn with
          | queued =>
            cases hturn
            simp [Body.IsEnded] at hended
          | free | runs | awaits | ends => cases hturn
        exact hsame ⟨control, (setCaller_callers_of_ne _ hd).trans hn⟩
      · next left body' hending =>
        by_cases hd : n = d
        · subst hd
          obtain ⟨rfl, rfl⟩ : control = .ending left ∧ body = body' := by simpa [hn] using hending
          exact hsame (finish_body_self body left)
        · exact hsame (finish_body_of_ne (s := { s with queue }) hd hn _)
      · exact hsame ⟨control, hn⟩
    · exact hsame ⟨control, hn⟩

end Lionden.Network.Mutex

namespace Lionden.Network.TrapCapture

open Trace

/-! ## The process -/

/-- A thrown value, as far as the handlers look at it. -/
structure Reason where
  /-- `instanceof WebAssembly.RuntimeError`. -/
  isRuntimeError : Bool
  isObject : Bool
  name : Option JsString
  message : Option JsString
  deriving DecidableEq

def isLocalExecutionWasmTrap (error : Reason) : Bool :=
  error.isRuntimeError && error.message == some (js "unreachable") ||
    error.isObject && error.name == some (js "RuntimeError") &&
      error.message == some (js "unreachable")

/-- The capture callback of the process when nobody has called yet. -/
inductive CaptureCallback where
  /-- The process has no such callbacks. -/
  | unsupported
  | unset
  /-- Somebody else has set one. -/
  | taken
  deriving DecidableEq

/-- The process that the calls find. -/
structure Host where
  captureCallback : CaptureCallback
  /-- Somebody else listens to `uncaughtException`. -/
  catches : Bool
  /-- Somebody else listens to `unhandledRejection`. -/
  catchesRejections : Bool

/-- Whose the capture callback is. -/
inductive Owner where
  | nobody
  | other
  | call (n : Nat)
  deriving DecidableEq

/-- The capture callback, and the listeners of the calls. -/
structure Handlers where
  captureCallback : Owner
  uncaughtExceptionMonitor : List Nat
  uncaughtException : List Nat
  unhandledRejection : List Nat
  deriving DecidableEq

structure Process where
  handlers : Handlers
  /-- What is to be thrown by `setImmediate`. -/
  immediates : List Reason := []
  /-- What somebody else has got, or what has ended the process. -/
  delivered : List Reason := []
  exited : Bool := false

section Process

variable (host : Host)

/-- An exception goes to the monitors, and then to the capture callback or, without one, to the
listeners; without these, it ends the process. The result has the calls that are rejected with it. -/
def Process.uncaught (p : Process) (error : Reason) : List Nat × Process :=
  let trap := isLocalExecutionWasmTrap error
  let monitors := if trap then p.handlers.uncaughtExceptionMonitor else []
  match p.handlers.captureCallback with
  | .call n =>
    if trap then (monitors ++ [n], p)
    else
      (monitors,
        { p with
          handlers := { p.handlers with captureCallback := .nobody }
          immediates := p.immediates ++ [error] })
  | .other => (monitors, { p with delivered := p.delivered ++ [error] })
  | .nobody =>
    let listeners := p.handlers.uncaughtException
    let delivered :=
      if host.catches || listeners.isEmpty then p.delivered ++ [error] else p.delivered
    let exited := !host.catches && listeners.isEmpty
    if trap then (monitors ++ listeners, { p with delivered, exited })
    else
      -- Every listener removes itself before it has the exception thrown again.
      (monitors,
        { handlers := { p.handlers with uncaughtException := [] }
          immediates := p.immediates ++ listeners.map fun _ => error
          delivered
          exited })

/-- A rejection that nobody handles is an exception if nobody listens. -/
def Process.rejection (p : Process) (error : Reason) : List Nat × Process :=
  if p.handlers.unhandledRejection.isEmpty && !host.catchesRejections then p.uncaught host error
  else
    let delivered := if host.catchesRejections then p.delivered ++ [error] else p.delivered
    (if isLocalExecutionWasmTrap error then p.handlers.unhandledRejection else [],
      { p with delivered })

end Process

/-! ## The handlers of a call -/

/-- How a call watches exceptions. -/
inductive Watch where
  | monitor
  | callback
  | listener
  deriving DecidableEq

namespace Handlers

/-- Before the first call. -/
def bare (host : Host) : Handlers where
  captureCallback := if host.captureCallback = .taken then .other else .nobody
  uncaughtExceptionMonitor := []
  uncaughtException := []
  unhandledRejection := []

def watch (host : Host) (h : Handlers) : Watch :=
  if host.captureCallback = .unsupported then .listener
  else if h.captureCallback = .nobody then .callback
  else .monitor

def installUncaughtExceptionTrapHandler (n : Nat) (h : Handlers) : Watch → Handlers
  | .monitor => { h with uncaughtExceptionMonitor := h.uncaughtExceptionMonitor ++ [n] }
  | .callback => { h with captureCallback := .call n }
  | .listener => { h with uncaughtException := h.uncaughtException ++ [n] }

/-- A callback is unset whosever it is. -/
def removeUncaughtExceptionTrapHandler (n : Nat) (h : Handlers) : Watch → Handlers
  | .monitor => { h with uncaughtExceptionMonitor := h.uncaughtExceptionMonitor.erase n }
  | .callback => { h with captureCallback := .nobody }
  | .listener => { h with uncaughtException := h.uncaughtException.erase n }

def installUnhandledRejectionTrapHandler (n : Nat) (h : Handlers) : Handlers :=
  { h with unhandledRejection := h.unhandledRejection ++ [n] }

def removeUnhandledRejectionTrapHandler (n : Nat) (h : Handlers) : Handlers :=
  { h with unhandledRejection := h.unhandledRejection.erase n }

def installTrapHandler (n : Nat) (h : Handlers) (watch : Watch) : Handlers :=
  (h.installUncaughtExceptionTrapHandler n watch).installUnhandledRejectionTrapHandler n

def cleanupTrapHandler (n : Nat) (h : Handlers) (watch : Watch) : Handlers :=
  (h.removeUncaughtExceptionTrapHandler n watch).removeUnhandledRejectionTrapHandler n

end Handlers

/-! ## Overlapping calls -/

/-- What a call is decided by. -/
inductive Result (V : Type) where
  | fulfilled (value : V)
  | rejected (error : Reason)
  /-- Rejected with a `LocalExecutionWasmTrapError` of that cause. -/
  | trapped (cause : Reason)

structure State (V : Type) where
  mutex : Mutex.State := {}
  process : Process
  /-- The calls that have handlers, to be removed by their cleanups. -/
  installed : Nat → Option Watch := fun _ => none
  results : Nat → Option (Result V) := fun _ => none
  /-- An exception that is no trap has escaped since the last turn began; nothing depends on it. -/
  escaped : Bool := false

inductive Event (V : Type) where
  | call
  /-- The next job: a turn may begin or end with it. -/
  | runJob
  /-- `operation` has returned its promise. -/
  | returns
  | throws (error : Reason)
  /-- The promise of an operation settles. -/
  | settles (n : Nat) (result : Except Reason V)
  /-- The cleanup of a call that is decided, which runs before its turn ends. -/
  | cleans (n : Nat)
  /-- An exception escapes. -/
  | uncaught (error : Reason)
  /-- A rejection escapes. -/
  | rejection (error : Reason)
  /-- What `setImmediate` has been given first is thrown. -/
  | immediate

namespace State

variable {V : Type} (host : Host) (race : Nat) (s : State V)

/-- The operation of a call is pending, and the race is open. -/
def Awaits (n : Nat) : Prop := s.mutex.callers n = some ⟨.body, .pending⟩

instance (n : Nat) : Decidable (s.Awaits n) := inferInstanceAs (Decidable (_ = _))

/-- The handlers of a call whose turn begins. -/
def installs (n : Nat) : State V :=
  let watch := s.process.handlers.watch host
  { s with
    process := { s.process with handlers := s.process.handlers.installTrapHandler n watch }
    installed := Function.update s.installed n (some watch)
    escaped := false }

def cleanup (n : Nat) : State V :=
  match s.installed n with
  | some watch =>
    { s with
      process := { s.process with handlers := s.process.handlers.cleanupTrapHandler n watch }
      installed := Function.update s.installed n none }
  | none => s

def runJob : State V :=
  match s.mutex.running, s.mutex.queue with
  | none, n :: _ =>
    match s.mutex.callers n with
    | some ⟨.queued, _⟩ => { s.installs host n with mutex := s.mutex.runJob }
    | some ⟨.ending 0, _⟩ => { s.cleanup n with mutex := s.mutex.runJob }
    | _ => { s with mutex := s.mutex.runJob }
  | _, _ => s

def throws (error : Reason) : State V :=
  match s.mutex.running with
  | some n =>
    { s.cleanup n with
      mutex := s.mutex.bodyThrows (Mutex.runWithLocalWasmTrapCapture race)
      results := Function.update s.results n (some (.rejected error)) }
  | none => s

/-- The race of a call is decided, if it is open. -/
def decides (n : Nat) (result : Result V) : State V :=
  if s.Awaits n then { s with results := Function.update s.results n (some result) } else s

def settles (n : Nat) (result : Except Reason V) : State V :=
  { s.decides n (match result with
      | .ok value => .fulfilled value
      | .error error => .rejected error) with
    mutex := s.mutex.bodySettles (Mutex.runWithLocalWasmTrapCapture race) n }

/-- `rejectTrap` of a call. -/
def rejectTrap (cause : Reason) (n : Nat) : State V :=
  { s.decides n (.trapped cause) with
    mutex := s.mutex.trap (Mutex.runWithLocalWasmTrapCapture race) n }

/-- What has escaped is with the process, and `calls` are rejected with it. -/
def escapes (error : Reason) (calls : List Nat) (process : Process) : State V :=
  calls.foldl (fun s n => s.rejectTrap race error n) { s with process }

def uncaught (error : Reason) : State V :=
  let (calls, process) := s.process.uncaught host error
  { s with escaped := s.escaped || !isLocalExecutionWasmTrap error }.escapes race error calls process

def rejection (error : Reason) : State V :=
  let (calls, process) := s.process.rejection host error
  s.escapes race error calls process

end State

variable {V : Type}

/-- Nothing escapes while a body is on the stack, and nothing happens after the process has ended. -/
def step (host : Host) (race : Nat) (s : State V) (e : Event V) : State V :=
  if s.process.exited then s
  else match e with
    | .call => { s with mutex := s.mutex.call }
    | .runJob => s.runJob host
    | .returns => { s with mutex := s.mutex.bodyReturns }
    | .throws error => s.throws race error
    | .settles n result => s.settles race n result
    | .cleans n =>
      match s.mutex.callers n with
      | some ⟨.ending _, _⟩ => s.cleanup n
      | _ => s
    | .uncaught error => if s.mutex.running = none then s.uncaught host race error else s
    | .rejection error => if s.mutex.running = none then s.rejection host race error else s
    | .immediate =>
      match s.mutex.running, s.process.immediates with
      | none, error :: immediates =>
        { s with process := { s.process with immediates } }.uncaught host race error
      | _, _ => s

def start (host : Host) : State V := { process := { handlers := .bare host } }

/-! ## The handlers of the call at its turn -/

section Handlers

variable (host : Host)

def Host.watch : Watch :=
  match host.captureCallback with
  | .unsupported => .listener
  | .unset => .callback
  | .taken => .monitor

/-- The handlers while call `n` is at its turn; where it has the callback, or listens without being
asked first, an exception that is no trap has made it give up. -/
def Handlers.within (n : Nat) (escaped : Bool) : Handlers where
  captureCallback :=
    match host.captureCallback with
    | .unsupported => .nobody
    | .unset => if escaped then .nobody else .call n
    | .taken => .other
  uncaughtExceptionMonitor := if host.captureCallback = .taken then [n] else []
  uncaughtException :=
    if host.captureCallback = .unsupported ∧ escaped = false then [n] else []
  unhandledRejection := [n]

variable {host} {n : Nat} {escaped : Bool} {p : Process} {error : Reason}

theorem watch_bare : (Handlers.bare host).watch host = host.watch := by
  unfold Handlers.watch Handlers.bare Host.watch
  cases host.captureCallback <;> rfl

theorem installTrapHandler_bare :
    (Handlers.bare host).installTrapHandler n host.watch = .within host n false := by
  unfold Handlers.bare Handlers.within Host.watch
  cases host.captureCallback <;> rfl

/-- What a call has installed is what it removes. -/
theorem cleanupTrapHandler_within :
    (Handlers.within host n escaped).cleanupTrapHandler n host.watch = .bare host := by
  unfold Handlers.within Handlers.bare Host.watch
  cases host.captureCallback <;> cases escaped <;>
    simp [Handlers.cleanupTrapHandler, Handlers.removeUncaughtExceptionTrapHandler,
      Handlers.removeUnhandledRejectionTrapHandler]

/-- Without a call at its turn nobody is rejected. -/
theorem uncaught_bare (hp : p.handlers = .bare host) :
    (p.uncaught host error).1 = [] ∧ (p.uncaught host error).2.handlers = .bare host := by
  unfold Process.uncaught
  rw [hp]
  cases hcallback : host.captureCallback <;> cases isLocalExecutionWasmTrap error <;>
    simp [Handlers.bare, hcallback]

theorem uncaught_within (hp : p.handlers = .within host n escaped) :
    (p.uncaught host error).1 =
        (if isLocalExecutionWasmTrap error ∧ (host.captureCallback = .taken ∨ escaped = false)
          then [n] else []) ∧
      (p.uncaught host error).2.handlers =
        .within host n (escaped || !isLocalExecutionWasmTrap error) := by
  unfold Process.uncaught
  rw [hp]
  cases hcallback : host.captureCallback <;> cases isLocalExecutionWasmTrap error <;>
    cases escaped <;> simp [Handlers.within, hcallback, hp]

theorem uncaught_immediates {thrown : Reason}
    (h : thrown ∈ (p.uncaught host error).2.immediates) :
    thrown ∈ p.immediates ∨ isLocalExecutionWasmTrap thrown = false := by
  unfold Process.uncaught at h
  dsimp only at h
  split at h
  · split at h
    · exact .inl h
    · next htrap =>
      rcases List.mem_append.mp h with h | h
      · exact .inl h
      · rw [List.mem_singleton.mp h]
        exact .inr (Bool.eq_false_iff.mpr htrap)
  · exact .inl h
  · split at h
    · exact .inl h
    · next htrap =>
      rcases List.mem_append.mp h with h | h
      · exact .inl h
      · obtain ⟨_, -, rfl⟩ := List.mem_map.mp h
        exact .inr (Bool.eq_false_iff.mpr htrap)

theorem rejection_bare (hp : p.handlers = .bare host) :
    (p.rejection host error).1 = [] ∧ (p.rejection host error).2.handlers = .bare host := by
  unfold Process.rejection
  split
  · exact uncaught_bare hp
  · refine ⟨?_, hp⟩
    rw [hp]
    exact ite_self []

theorem rejection_within (hp : p.handlers = .within host n escaped) :
    (p.rejection host error).1 = (if isLocalExecutionWasmTrap error then [n] else []) ∧
      (p.rejection host error).2.handlers = .within host n escaped := by
  unfold Process.rejection
  rw [if_neg (by rw [hp]; simp [Handlers.within])]
  refine ⟨?_, hp⟩
  rw [hp]
  rfl

theorem rejection_immediates {thrown : Reason}
    (h : thrown ∈ (p.rejection host error).2.immediates) :
    thrown ∈ p.immediates ∨ isLocalExecutionWasmTrap thrown = false := by
  unfold Process.rejection at h
  split at h
  · exact uncaught_immediates h
  · exact .inl h

end Handlers

/-! ## What holds after every event -/

section Invariant

variable {host : Host} {race : Nat} {s s' : State V} {n : Nat}

/-- Nobody has handlers. -/
structure State.Clear (host : Host) (s : State V) : Prop where
  handlers : s.process.handlers = .bare host
  installed : s.installed = fun _ => none

/-- Call `n` has handlers, and nobody else. -/
structure State.Within (host : Host) (s : State V) (n : Nat) : Prop where
  handlers : s.process.handlers = .within host n s.escaped
  installed : s.installed = Function.update (fun _ => none) n (some host.watch)

/-- The handlers are those of the call at its turn; one that is decided may have removed them. -/
inductive Placed (host : Host) (s : State V) : Prop where
  | body (n : Nat) (hn : s.mutex.controlOf n = some .body) (h : s.Within host n)
  | ending (n left : Nat) (hn : s.mutex.controlOf n = some (.ending left))
      (h : s.Within host n ∨ s.Clear host)
  | idle (hn : ∀ n control, control.Active → s.mutex.controlOf n ≠ some control) (h : s.Clear host)

structure Inv (host : Host) (race : Nat) (s : State V) : Prop where
  mutex : ∃ m turn, Mutex.Inv (Mutex.runWithLocalWasmTrapCapture race) s.mutex m turn
  placed : Placed host s
  /-- A call that is decided is no longer pending. -/
  ended : ∀ n, (s.results n).isSome → ∃ control body, s.mutex.callers n = some ⟨control, body⟩ ∧
    body.IsEnded (Mutex.runWithLocalWasmTrapCapture race)
  /-- Traps are not thrown again. -/
  immediates : ∀ error ∈ s.process.immediates, isLocalExecutionWasmTrap error = false

theorem Inv.start (host : Host) (race : Nat) : Inv host race (start host : State V) where
  mutex := ⟨0, .free, .start _⟩
  placed := .idle (fun _ _ _ h => by cases h) ⟨rfl, rfl⟩
  ended _ h := by cases h
  immediates := List.forall_mem_nil _

theorem Inv.within (h : Inv host race s) (hn : s.mutex.controlOf n = some .body) :
    s.Within host n := by
  obtain ⟨m, turn, hmutex⟩ := h.mutex
  cases h.placed with
  | body d hd hwithin =>
    rw [hmutex.alone hn trivial hd trivial]
    exact hwithin
  | ending d left hd hwithin =>
    obtain rfl := hmutex.alone hn trivial hd trivial
    rw [hn] at hd
    cases hd
  | idle hidle _ => exact absurd hn (hidle n _ trivial)

/-- A call that awaits its operation is not decided. -/
theorem Inv.undecided (h : Inv host race s) (hn : s.Awaits n) : s.results n = none := by
  rw [← Option.not_isSome_iff_eq_none]
  intro hsome
  obtain ⟨control, body, hcaller, hended⟩ := h.ended n hsome
  obtain ⟨rfl, rfl⟩ : Mutex.Control.body = control ∧ Mutex.Body.pending = body := by
    simpa using hn.symm.trans hcaller
  simp [Mutex.Body.IsEnded] at hended

theorem Placed.congr (h : Placed host s) (hturns : Mutex.SameTurns s.mutex s'.mutex)
    (hwithin : ∀ n, s.Within host n → s'.Within host n) (hclear : s.Clear host → s'.Clear host) :
    Placed host s' := by
  cases h with
  | body n hn h => exact .body n ((hturns n .body trivial).mpr hn) (hwithin n h)
  | ending n left hn h =>
    exact .ending n left ((hturns n (.ending left) trivial).mpr hn) (h.imp (hwithin n) hclear)
  | idle hn h =>
    exact .idle (fun n control hactive => mt (hturns n control hactive).mp (hn n control hactive))
      (hclear h)

section Cleanup

@[simp] theorem cleanup_mutex : (s.cleanup n).mutex = s.mutex := by
  unfold State.cleanup
  split <;> rfl

@[simp] theorem cleanup_results : (s.cleanup n).results = s.results := by
  unfold State.cleanup
  split <;> rfl

@[simp] theorem cleanup_immediates :
    (s.cleanup n).process.immediates = s.process.immediates := by
  unfold State.cleanup
  split <;> rfl

@[simp] theorem runJob_results : (s.runJob host).results = s.results := by
  unfold State.runJob
  split
  · split
    · rfl
    · exact cleanup_results
    · rfl
  · rfl

theorem State.Within.cleanup (h : s.Within host n) : (s.cleanup n).Clear host := by
  have hn : s.installed n = some host.watch := by rw [h.installed, Function.update_self]
  unfold State.cleanup
  rw [hn]
  refine ⟨?_, ?_⟩
  · change s.process.handlers.cleanupTrapHandler n host.watch = _
    rw [h.handlers, cleanupTrapHandler_within]
  · change Function.update s.installed n none = _
    rw [h.installed, Function.update_idem, Function.update_eq_self_iff]

theorem State.Clear.cleanup (h : s.Clear host) : (s.cleanup n).Clear host := by
  have hn : s.installed n = none := by rw [h.installed]
  unfold State.cleanup
  rw [hn]
  exact h

theorem State.Clear.installs (h : s.Clear host) : (s.installs host n).Within host n := by
  have hwatch : s.process.handlers.watch host = host.watch := by rw [h.handlers, watch_bare]
  refine ⟨?_, ?_⟩
  · change s.process.handlers.installTrapHandler n (s.process.handlers.watch host) = _
    rw [hwatch, h.handlers, installTrapHandler_bare]
    rfl
  · change Function.update s.installed n (some (s.process.handlers.watch host)) = _
    rw [hwatch, h.installed]

end Cleanup

/-- Only the mutex goes on, and who has handlers is settled. -/
theorem Inv.of_mutex (h : Inv host race s) (e : Mutex.Event)
    (hmutex : s'.mutex = Mutex.step (Mutex.runWithLocalWasmTrapCapture race) s.mutex e)
    (hplaced : Placed host s')
    (hresults : ∀ n, (s'.results n).isSome → (s.results n).isSome ∨ ∃ control body,
      s'.mutex.callers n = some ⟨control, body⟩ ∧
        body.IsEnded (Mutex.runWithLocalWasmTrapCapture race))
    (himmediates : s'.process.immediates = s.process.immediates) : Inv host race s' := by
  obtain ⟨m, turn, hinv⟩ := h.mutex
  obtain ⟨m', turn', hinv', -⟩ := hinv.step e
  refine ⟨⟨m', turn', hmutex ▸ hinv'⟩, hplaced, fun n hn => ?_, himmediates ▸ h.immediates⟩
  refine (hresults n hn).elim (fun hn => ?_) id
  obtain ⟨control, body, hcaller, hended⟩ := h.ended n hn
  rw [hmutex]
  exact hinv.ended_stays hcaller hended e

theorem Inv.call (h : Inv host race s) : Inv host race { s with mutex := s.mutex.call } := by
  obtain ⟨m, turn, hinv⟩ := h.mutex
  refine h.of_mutex .call rfl ?_ (fun _ => .inl) rfl
  exact h.placed.congr hinv.sameTurns_call (fun _ h => ⟨h.1, h.2⟩) fun h => ⟨h.1, h.2⟩

theorem Inv.returns (h : Inv host race s) :
    Inv host race { s with mutex := s.mutex.bodyReturns } := by
  obtain ⟨m, turn, hinv⟩ := h.mutex
  refine h.of_mutex .bodyReturns rfl ?_ (fun _ => .inl) rfl
  exact h.placed.congr hinv.sameTurns_bodyReturns (fun _ h => ⟨h.1, h.2⟩) fun h => ⟨h.1, h.2⟩

theorem Inv.cleanup (h : Inv host race s) {left : Nat}
    (hn : s.mutex.controlOf n = some (.ending left)) : (s.cleanup n).Clear host := by
  obtain ⟨m, turn, hinv⟩ := h.mutex
  cases h.placed with
  | body d hd hwithin =>
    obtain rfl := hinv.alone hd trivial hn trivial
    rw [hn] at hd
    cases hd
  | ending d left' hd hhandlers =>
    obtain rfl := hinv.alone hd trivial hn trivial
    exact hhandlers.elim State.Within.cleanup State.Clear.cleanup
  | idle hidle _ => exact absurd hn (hidle n _ trivial)

theorem Inv.cleans (h : Inv host race s) {left : Nat}
    (hn : s.mutex.controlOf n = some (.ending left)) : Inv host race (s.cleanup n) where
  mutex := cleanup_mutex.symm ▸ h.mutex
  placed := .ending n left (by rwa [cleanup_mutex]) (.inr (h.cleanup hn))
  ended := by
    rw [cleanup_results, cleanup_mutex]
    exact h.ended
  immediates := cleanup_immediates.symm ▸ h.immediates

theorem Inv.runJob (h : Inv host race s) : Inv host race (s.runJob host) := by
  obtain ⟨m, turn, hinv⟩ := h.mutex
  unfold State.runJob
  split
  · next n queue hrunning hqueue =>
    split
    · next body hn =>
      -- The turn of `n` begins, so nobody has handlers.
      have hqueued : s.mutex.controlOf n = some .queued := Mutex.controlOf_eq.mpr ⟨body, hn⟩
      have hclear : s.Clear host := by
        cases h.placed with
        | body d hd _ => exact absurd trivial (hinv.queued_alone hqueued hd)
        | ending d left hd _ => exact absurd trivial (hinv.queued_alone hqueued hd)
        | idle _ hclear => exact hclear
      refine h.of_mutex .runJob rfl ?_ (fun _ => .inl) rfl
      refine .body n ?_ ⟨hclear.installs.1, hclear.installs.2⟩
      simp only [Mutex.State.runJob, hrunning, hqueue, hn]
      exact (Mutex.setCaller_controlOf _ n).trans (if_pos rfl)
    · next body hn =>
      -- The turn of `n` ends.
      have hending : s.mutex.controlOf n = some (.ending 0) := Mutex.controlOf_eq.mpr ⟨body, hn⟩
      have hclear := h.cleanup hending
      refine h.of_mutex .runJob rfl (.idle ?_ ⟨hclear.1, hclear.2⟩) ?_ cleanup_immediates
      · intro d control hactive hd
        have hrun : s.mutex.runJob = { s.mutex with queue }.finish n body 0 := by
          simp only [Mutex.State.runJob, hrunning, hqueue, hn]
        rw [hrun] at hd
        obtain ⟨hne, hd⟩ := Mutex.finish_zero_controlOf hactive hd
        exact hne (hinv.alone hd hactive hending trivial)
      · intro d hd
        rw [cleanup_results] at hd
        exact .inl hd
    · next hqueued hending =>
      refine h.of_mutex .runJob rfl ?_ (fun _ => .inl) rfl
      simp only [Mutex.State.runJob, hrunning, hqueue]
      split
      · next body hn => exact absurd hn (hqueued body)
      · next left body hn =>
        cases left with
        | zero => exact absurd hn (hending body)
        | succ left =>
          have hn' : s.mutex.controlOf n = some (.ending (left + 1)) :=
            Mutex.controlOf_eq.mpr ⟨body, hn⟩
          cases h.placed with
          | body d hd _ =>
            obtain rfl := hinv.alone hd trivial hn' trivial
            rw [hn'] at hd
            cases hd
          | ending d left' hd hhandlers =>
            obtain rfl := hinv.alone hd trivial hn' trivial
            refine .ending d left (Mutex.finish_succ_controlOf body left) ?_
            exact hhandlers.imp (fun h => ⟨h.1, h.2⟩) fun h => ⟨h.1, h.2⟩
          | idle hidle _ => exact absurd hn' (hidle n _ trivial)
      · exact h.placed.congr (.refl _) (fun _ h => ⟨h.1, h.2⟩) fun h => ⟨h.1, h.2⟩
  · exact h

/-- A body that throws has its handlers removed at once. -/
theorem Inv.throws (h : Inv host race s) (error : Reason) : Inv host race (s.throws race error) := by
  obtain ⟨m, turn, hinv⟩ := h.mutex
  unfold State.throws
  split
  · next n hn =>
    have hbody : s.mutex.controlOf n = some .body :=
      Mutex.controlOf_eq.mpr ⟨.running, hinv.running_body hn⟩
    have hclear := (h.within hbody).cleanup
    have hthrows : s.mutex.bodyThrows (Mutex.runWithLocalWasmTrapCapture race) =
        { s.mutex with running := none }.finish n .over 1 := by
      simp only [Mutex.State.bodyThrows, hn]
      rfl
    refine h.of_mutex .bodyThrows rfl ?_ ?_ cleanup_immediates
    · refine .ending n 0 ?_ (.inr ⟨hclear.1, hclear.2⟩)
      rw [hthrows]
      exact Mutex.finish_succ_controlOf _ 0
    · intro d hd
      by_cases hne : d = n
      · subst hne
        right
        rw [hthrows]
        obtain ⟨control, hcontrol⟩ :=
          Mutex.finish_body_self (s := { s.mutex with running := none }) (n := d) .over 1
        exact ⟨control, .over, hcontrol, .inl rfl⟩
      · exact .inl (by simpa only [Function.update_of_ne hne] using hd)
  · exact h

/-- A call is decided whose operation is pending. -/
theorem Inv.decides (h : Inv host race s) (hn : s.Awaits n) (result : Result V) (body : Mutex.Body)
    (hbody : body.IsEnded (Mutex.runWithLocalWasmTrapCapture race)) {e : Mutex.Event}
    (he : Mutex.step (Mutex.runWithLocalWasmTrapCapture race) s.mutex e =
      s.mutex.finish n body (race + 1)) :
    Inv host race { s.decides n result with mutex := s.mutex.finish n body (race + 1) } := by
  have hwithin := h.within (Mutex.controlOf_eq.mpr ⟨_, hn⟩)
  unfold State.decides
  rw [if_pos hn]
  refine h.of_mutex e he.symm ?_ ?_ rfl
  · exact .ending n race (Mutex.finish_succ_controlOf body race) (.inl ⟨hwithin.1, hwithin.2⟩)
  · intro d hd
    by_cases hne : d = n
    · subst hne
      obtain ⟨control, hcontrol⟩ := Mutex.finish_body_self (s := s.mutex) (n := d) body (race + 1)
      exact .inr ⟨control, body, hcontrol, hbody⟩
    · exact .inl (by simpa only [Function.update_of_ne hne] using hd)

theorem decides_of_not (hn : ¬s.Awaits n) (result : Result V) : s.decides n result = s :=
  if_neg hn

theorem Inv.settles (h : Inv host race s) (n : Nat) (result : Except Reason V) :
    Inv host race (s.settles race n result) := by
  unfold State.settles
  by_cases hn : s.Awaits n
  · have hsettles : s.mutex.bodySettles (Mutex.runWithLocalWasmTrapCapture race) n =
        s.mutex.finish n .over (race + 1) := by
      simp only [Mutex.State.bodySettles, show s.mutex.callers n = some ⟨.body, .pending⟩ from hn]
      rfl
    rw [hsettles]
    exact h.decides hn _ .over (.inl rfl) (e := .bodySettles n) hsettles
  · rw [decides_of_not hn]
    refine h.of_mutex (.bodySettles n) rfl ?_ (fun _ => .inl) rfl
    refine h.placed.congr ?_ (fun _ h => ⟨h.1, h.2⟩) fun h => ⟨h.1, h.2⟩
    simp only [Mutex.State.bodySettles]
    split
    · next hpending => exact absurd hpending hn
    · next control htrapped => exact Mutex.sameTurns_setCaller htrapped rfl
    · exact .refl _

theorem rejectTrap_of_not (hn : ¬s.Awaits n) (cause : Reason) : s.rejectTrap race cause n = s := by
  have htrap : s.mutex.trap (Mutex.runWithLocalWasmTrapCapture race) n = s.mutex := by
    unfold Mutex.State.trap
    split
    · next hpending => exact absurd hpending hn
    · rfl
  rw [State.rejectTrap, decides_of_not hn, htrap]

theorem rejectTrap_eq (hn : s.Awaits n) (cause : Reason) :
    s.rejectTrap race cause n =
      { s.decides n (.trapped cause) with mutex := s.mutex.finish n .trapped (race + 1) } := by
  unfold State.rejectTrap Mutex.State.trap
  rw [show s.mutex.callers n = some ⟨.body, .pending⟩ from hn]
  rfl

theorem Inv.rejectTrap (h : Inv host race s) (cause : Reason) (n : Nat) :
    Inv host race (s.rejectTrap race cause n) := by
  by_cases hn : s.Awaits n
  · rw [rejectTrap_eq hn]
    refine h.decides hn _ .trapped (.inr ⟨rfl, rfl⟩) (e := .trap n) ?_
    simp only [Mutex.step, Mutex.State.trap,
      show s.mutex.callers n = some ⟨.body, .pending⟩ from hn]
    rfl
  · rwa [rejectTrap_of_not hn]

theorem Inv.foldl_rejectTrap (cause : Reason) (calls : List Nat) (h : Inv host race s) :
    Inv host race (calls.foldl (fun s n => s.rejectTrap race cause n) s) := by
  induction calls generalizing s with
  | nil => exact h
  | cons n calls ih => exact ih (h.rejectTrap cause n)

/-- What escapes leaves the handlers with the call at its turn. -/
theorem Inv.process (h : Inv host race s) {process : Process} {escaped : Bool}
    (hwithin : ∀ n, s.Within host n → process.handlers = .within host n escaped)
    (hclear : s.Clear host → process.handlers = .bare host)
    (himmediates : ∀ error ∈ process.immediates,
      error ∈ s.process.immediates ∨ isLocalExecutionWasmTrap error = false) :
    Inv host race { s with process, escaped } where
  mutex := h.mutex
  placed := h.placed.congr (.refl _) (fun n h => ⟨hwithin n h, h.installed⟩) fun h =>
    ⟨hclear h, h.installed⟩
  ended := h.ended
  immediates error herror := (himmediates error herror).elim (h.immediates error) id

/-- After an exception, before the calls are rejected with it. -/
theorem Inv.process_uncaught (h : Inv host race s) (error : Reason) :
    Inv host race { s with
      process := (s.process.uncaught host error).2
      escaped := s.escaped || !isLocalExecutionWasmTrap error } :=
  h.process (fun _ h => (uncaught_within h.handlers).2)
    (fun h => (uncaught_bare h.handlers).2) fun _ => uncaught_immediates

theorem Inv.process_rejection (h : Inv host race s) (error : Reason) :
    Inv host race { s with process := (s.process.rejection host error).2 } :=
  h.process (fun _ h => (rejection_within h.handlers).2)
    (fun h => (rejection_bare h.handlers).2) fun _ => rejection_immediates

theorem Inv.uncaught (h : Inv host race s) (error : Reason) :
    Inv host race (s.uncaught host race error) :=
  (h.process_uncaught error).foldl_rejectTrap error _

theorem Inv.rejection (h : Inv host race s) (error : Reason) :
    Inv host race (s.rejection host race error) :=
  (h.process_rejection error).foldl_rejectTrap error _

/-- What has been thrown again is no longer to be thrown. -/
theorem Inv.immediate (h : Inv host race s) {error : Reason} {immediates : List Reason}
    (himmediates : s.process.immediates = error :: immediates) :
    Inv host race { s with process := { s.process with immediates } } := by
  refine h.process (fun _ h => h.handlers) (fun h => h.handlers) fun thrown hthrown => .inl ?_
  rw [himmediates]
  exact List.mem_cons_of_mem error hthrown

theorem Inv.step (h : Inv host race s) (e : Event V) : Inv host race (step host race s e) := by
  unfold TrapCapture.step
  split
  · exact h
  · cases e with
    | call => exact h.call
    | runJob => exact h.runJob
    | returns => exact h.returns
    | throws error => exact h.throws error
    | settles n result => exact h.settles n result
    | cleans n =>
      dsimp only
      split
      · next left body hn => exact h.cleans (Mutex.controlOf_eq.mpr ⟨body, hn⟩)
      · exact h
    | uncaught error =>
      dsimp only
      split
      · exact h.uncaught error
      · exact h
    | rejection error =>
      dsimp only
      split
      · exact h.rejection error
      · exact h
    | immediate =>
      dsimp only
      split
      · next error immediates _ himmediates => exact (h.immediate himmediates).uncaught error
      · exact h

end Invariant

/-! ## What decides a call -/

section Results

variable {host : Host} {race : Nat} {s : State V} {n d : Nat} {result : Result V}

def Result.ofSettled : Except Reason V → Result V
  | .ok value => .fulfilled value
  | .error error => .rejected error

/-- The event decides the call: its operation throws or settles, or a trap escapes while its operation
is pending. A trap that is thrown is missed if the call has a callback or a listener, and an exception
that is no trap has escaped before in its turn. -/
def Decides (host : Host) (s : State V) (e : Event V) (n : Nat) (result : Result V) : Prop :=
  s.process.exited = false ∧
    match e with
    | .throws error => s.mutex.running = some n ∧ result = .rejected error
    | .settles d settled => d = n ∧ s.Awaits n ∧ result = .ofSettled settled
    | .uncaught error => s.Awaits n ∧ isLocalExecutionWasmTrap error = true ∧
        (host.captureCallback = .taken ∨ s.escaped = false) ∧ result = .trapped error
    | .rejection error => s.Awaits n ∧ isLocalExecutionWasmTrap error = true ∧
        result = .trapped error
    | .call | .runJob | .returns | .cleans _ | .immediate => False

theorem decides_results : (s.decides n result).results d =
    if d = n ∧ s.Awaits n then some result else s.results d := by
  unfold State.decides
  by_cases hn : s.Awaits n
  · rw [if_pos hn]
    by_cases hd : d = n
    · rw [if_pos ⟨hd, hn⟩, hd]
      exact Function.update_self ..
    · rw [if_neg fun h => hd h.1]
      exact Function.update_of_ne hd ..
  · rw [if_neg hn, if_neg fun h => hn h.2]

theorem Inv.handlers (h : Inv host race s) : (∃ n, s.Within host n) ∨ s.Clear host := by
  cases h.placed with
  | body n _ h => exact .inl ⟨n, h⟩
  | ending n _ _ h => exact h.imp_left fun h => ⟨n, h⟩
  | idle _ h => exact .inr h

theorem Inv.undecided_running (h : Inv host race s) (hn : s.mutex.running = some n) :
    s.results n = none := by
  obtain ⟨m, turn, hinv⟩ := h.mutex
  rw [← Option.not_isSome_iff_eq_none]
  intro hsome
  obtain ⟨control, body, hcaller, hended⟩ := h.ended n hsome
  obtain ⟨rfl, rfl⟩ : Mutex.Control.body = control ∧ Mutex.Body.running = body := by
    simpa using (hinv.running_body hn).symm.trans hcaller
  simp [Mutex.Body.IsEnded] at hended

/-- A decision that is open takes what comes. -/
theorem Inv.decides_iff (h : Inv host race s) {result' : Result V} :
    (s.decides d result').results n = some result ↔
      s.results n = some result ∨ d = n ∧ s.Awaits n ∧ result = result' := by
  rw [decides_results]
  by_cases hd : n = d ∧ s.Awaits d
  · obtain ⟨rfl, hn⟩ := hd
    rw [if_pos ⟨rfl, hn⟩, h.undecided hn]
    simp [hn, eq_comm]
  · rw [if_neg hd]
    refine ⟨.inl, fun h => h.resolve_right ?_⟩
    rintro ⟨rfl, hn, -⟩
    exact hd ⟨rfl, hn⟩

/-- At most one call is rejected with what has escaped. -/
theorem Inv.foldl_rejectTrap_iff (h : Inv host race s) {cause : Reason} {calls : List Nat}
    (hcalls : calls = [] ∨ ∃ d, calls = [d]) :
    (calls.foldl (fun s n => s.rejectTrap race cause n) s).results n = some result ↔
      s.results n = some result ∨ n ∈ calls ∧ s.Awaits n ∧ result = .trapped cause := by
  rcases hcalls with rfl | ⟨d, rfl⟩
  · simp
  · rw [List.mem_singleton, eq_comm (a := n)]
    exact h.decides_iff

/-- What escapes decides the call at its turn if it is for that call. -/
theorem Inv.escapes_iff (h : Inv host race s) {process : Process} {escaped : Bool} {cause : Reason}
    {calls : List Nat} {p : Prop} [Decidable p]
    (hnext : Inv host race { s with process := process, escaped := escaped })
    (hwithin : ∀ d, s.Within host d → calls = if p then [d] else [])
    (hclear : s.Clear host → calls = []) :
    (calls.foldl (fun (s : State V) n => s.rejectTrap race cause n)
        { s with process := process, escaped := escaped }).results n = some result ↔
      s.results n = some result ∨ s.Awaits n ∧ p ∧ result = .trapped cause := by
  have hcalls : calls = [] ∨ ∃ d, calls = [d] := by
    rcases h.handlers with ⟨d, hd⟩ | hd
    · rw [hwithin d hd]
      split
      · exact .inr ⟨d, rfl⟩
      · exact .inl rfl
    · exact .inl (hclear hd)
  have hmem (hn : s.Awaits n) : n ∈ calls ↔ p := by
    rw [hwithin n (h.within (Mutex.controlOf_eq.mpr ⟨_, hn⟩))]
    split
    · next hp => exact iff_of_true (List.mem_singleton_self n) hp
    · next hp => exact iff_of_false List.not_mem_nil hp
  refine (hnext.foldl_rejectTrap_iff hcalls).trans (or_congr_right ?_)
  constructor
  · rintro ⟨hn, hawaits, hresult⟩
    exact ⟨hawaits, (hmem hawaits).mp hn, hresult⟩
  · rintro ⟨hawaits, hp, hresult⟩
    exact ⟨(hmem hawaits).mpr hp, hawaits, hresult⟩

theorem Inv.uncaught_iff (h : Inv host race s) (error : Reason) :
    (s.uncaught host race error).results n = some result ↔
      s.results n = some result ∨ s.Awaits n ∧ isLocalExecutionWasmTrap error = true ∧
        (host.captureCallback = .taken ∨ s.escaped = false) ∧ result = .trapped error := by
  refine (h.escapes_iff (h.process_uncaught error) (fun d hd => (uncaught_within hd.handlers).1)
    fun hd => (uncaught_bare hd.handlers).1).trans ?_
  rw [and_assoc]

theorem Inv.rejection_iff (h : Inv host race s) (error : Reason) :
    (s.rejection host race error).results n = some result ↔
      s.results n = some result ∨ s.Awaits n ∧ isLocalExecutionWasmTrap error = true ∧
        result = .trapped error :=
  h.escapes_iff (h.process_rejection error) (fun _ hd => (rejection_within hd.handlers).1)
    fun hd => (rejection_bare hd.handlers).1

/-- One event decides what it decides, and changes no decision. -/
theorem Inv.step_iff (h : Inv host race s) (e : Event V) :
    (TrapCapture.step host race s e).results n = some result ↔
      s.results n = some result ∨ Decides host s e n result := by
  unfold TrapCapture.step Decides
  cases hexited : s.process.exited with
  | true => simp
  | false =>
    obtain ⟨m, turn, hinv⟩ := h.mutex
    have hawaits (hn : s.Awaits n) : s.mutex.running = none := (hinv.awaits hn).2.2
    rw [if_neg Bool.false_ne_true, eq_self, true_and]
    cases e with
    | call | returns => simp
    | runJob =>
      dsimp only
      rw [runJob_results, or_false]
    | cleans d =>
      rw [or_false]
      dsimp only
      split
      · rw [cleanup_results]
      · rfl
    | throws error =>
      dsimp only
      unfold State.throws
      cases hrunning : s.mutex.running with
      | none => simp
      | some d =>
        dsimp only
        rw [Function.update_apply]
        by_cases hd : n = d
        · subst hd
          rw [if_pos rfl, h.undecided_running hrunning]
          simp [eq_comm]
        · rw [if_neg hd]
          refine ⟨.inl, fun h => h.resolve_right ?_⟩
          rintro ⟨hd', -⟩
          exact hd (Option.some.inj hd').symm
    | settles d settled =>
      cases settled with
      | ok value => exact h.decides_iff
      | error error => exact h.decides_iff
    | uncaught error =>
      dsimp only
      split
      · exact h.uncaught_iff error
      · next hrunning => exact ⟨.inl, fun h => h.resolve_right fun h => hrunning (hawaits h.1)⟩
    | rejection error =>
      dsimp only
      split
      · exact h.rejection_iff error
      · next hrunning => exact ⟨.inl, fun h => h.resolve_right fun h => hrunning (hawaits h.1)⟩
    | immediate =>
      rw [or_false]
      dsimp only
      split
      · next error immediates _ himmediates =>
        have htrap := h.immediates error (himmediates ▸ List.mem_cons_self)
        rw [(h.immediate himmediates).uncaught_iff error, htrap]
        exact ⟨fun h => h.resolve_right fun h => Bool.false_ne_true h.2.1, .inl⟩
      · rfl

end Results

/-! ## What is not for a call -/

section Exceptions

variable {host : Host} {race : Nat} {s : State V} {p : Process} {error thrown : Reason}

/-- Somebody else has got it, or it is to be thrown again. -/
def Process.Keeps (p : Process) (error : Reason) : Prop :=
  error ∈ p.delivered ∨ error ∈ p.immediates

/-- An exception that is no trap goes to somebody else, or is thrown again. -/
theorem uncaught_keeps_self (h : isLocalExecutionWasmTrap error = false) :
    (p.uncaught host error).2.Keeps error := by
  unfold Process.uncaught Process.Keeps
  rw [h]
  cases p.handlers.captureCallback with
  | call n => simp
  | other => simp
  | nobody => cases hlisteners : p.handlers.uncaughtException <;> simp

theorem uncaught_keeps (h : p.Keeps thrown) : (p.uncaught host error).2.Keeps thrown := by
  unfold Process.Keeps at h
  unfold Process.uncaught Process.Keeps
  dsimp only
  split
  · split
    · exact h
    · exact h.imp_right (List.mem_append_left _)
  · exact h.imp_left (List.mem_append_left _)
  · have hdelivered {q : Prop} [Decidable q] (hd : thrown ∈ p.delivered) :
        thrown ∈ if q then p.delivered ++ [error] else p.delivered := by
      split
      · exact List.mem_append_left _ hd
      · exact hd
    split
    · exact h.imp_left hdelivered
    · exact h.imp hdelivered (List.mem_append_left _)

theorem rejection_keeps (h : p.Keeps thrown) : (p.rejection host error).2.Keeps thrown := by
  unfold Process.rejection
  split
  · exact uncaught_keeps h
  · refine h.imp_left fun h => ?_
    dsimp only
    split
    · exact List.mem_append_left _ h
    · exact h

theorem decides_process {n : Nat} {result : Result V} : (s.decides n result).process = s.process := by
  unfold State.decides
  split <;> rfl

theorem escapes_process {calls : List Nat} {process : Process} :
    (s.escapes race error calls process).process = process := by
  unfold State.escapes
  induction calls using List.reverseRecOn with
  | nil => rfl
  | append_singleton calls n ih =>
    rw [List.foldl_concat]
    exact decides_process.trans ih

theorem cleanup_keeps {n : Nat} (h : s.process.Keeps error) : (s.cleanup n).process.Keeps error := by
  unfold State.cleanup
  split <;> exact h

/-- Nothing is lost of what is kept. -/
theorem Inv.step_keeps (h : Inv host race s) (hkeeps : s.process.Keeps thrown) (e : Event V) :
    (TrapCapture.step host race s e).process.Keeps thrown := by
  unfold TrapCapture.step
  split
  · exact hkeeps
  · cases e with
    | call | returns => exact hkeeps
    | runJob =>
      dsimp only
      unfold State.runJob
      split
      · split
        · exact hkeeps
        · exact cleanup_keeps hkeeps
        · exact hkeeps
      · exact hkeeps
    | throws error =>
      dsimp only
      unfold State.throws
      split
      · exact cleanup_keeps hkeeps
      · exact hkeeps
    | settles n settled => exact decides_process.symm ▸ hkeeps
    | cleans n =>
      dsimp only
      split
      · exact cleanup_keeps hkeeps
      · exact hkeeps
    | uncaught error =>
      dsimp only
      split
      · exact escapes_process.symm ▸ uncaught_keeps hkeeps
      · exact hkeeps
    | rejection error =>
      dsimp only
      split
      · exact escapes_process.symm ▸ rejection_keeps hkeeps
      · exact hkeeps
    | immediate =>
      dsimp only
      split
      · next error immediates _ himmediates =>
        refine escapes_process.symm ▸ ?_
        by_cases hthrown : thrown = error
        · subst hthrown
          exact uncaught_keeps_self (h.immediates thrown (himmediates ▸ List.mem_cons_self))
        · refine uncaught_keeps (hkeeps.imp_right fun hmem => ?_)
          rw [himmediates] at hmem
          exact (List.mem_cons.mp hmem).resolve_left hthrown
      · exact hkeeps

end Exceptions

/-! ## Runs -/

section Runs

variable {host : Host} {race : Nat} {s : State V}

def run (host : Host) (race : Nat) (events : List (Event V)) : State V :=
  exec (step host race) (start host) events

theorem Inv.exec (h : Inv host race s) (events : List (Event V)) :
    Inv host race (Trace.exec (TrapCapture.step host race) s events) := by
  induction events generalizing s with
  | nil => exact h
  | cons e events ih => exact ih (h.step e)

theorem Inv.exec_iff (h : Inv host race s) {n : Nat} {result : Result V}
    (events : List (Event V)) :
    (Trace.exec (TrapCapture.step host race) s events).results n = some result ↔
      s.results n = some result ∨ ∃ before e after, events = before ++ e :: after ∧
        Decides host (Trace.exec (TrapCapture.step host race) s before) e n result := by
  induction events generalizing s with
  | nil => exact ⟨.inl, fun h => h.resolve_right (by simp)⟩
  | cons e events ih =>
    refine (ih (h.step e)).trans ?_
    rw [h.step_iff e, or_assoc]
    refine or_congr_right ⟨?_, ?_⟩
    · rintro (hdecides | ⟨before, e', after, rfl, hdecides⟩)
      · exact ⟨[], e, events, rfl, hdecides⟩
      · exact ⟨e :: before, e', after, rfl, hdecides⟩
    · rintro ⟨before, e', after, heq, hdecides⟩
      cases before with
      | nil =>
        obtain ⟨rfl, rfl⟩ := List.cons.inj heq
        exact .inl hdecides
      | cons first before =>
        obtain ⟨rfl, rfl⟩ := List.cons.inj heq
        exact .inr ⟨before, e', after, rfl, hdecides⟩

theorem Inv.exec_keeps (h : Inv host race s) {error : Reason} (hkeeps : s.process.Keeps error)
    (events : List (Event V)) :
    (Trace.exec (TrapCapture.step host race) s events).process.Keeps error := by
  induction events generalizing s with
  | nil => exact hkeeps
  | cons e events ih => exact ih (h.step e) (h.step_keeps hkeeps e)

/-- **Whose trap it is.** In every run of overlapping calls, with anything escaping to the process at any
time: a call is decided by its own operation, or by the first trap that escapes while that is pending
and is not missed; a trap decides no other call. The process has the handlers that it had before
whenever no call is at its turn. And an exception that is no trap is not lost: somebody else has got it,
it has ended the process, or it is to be thrown again. -/
theorem traps_attributed (host : Host) (race : Nat) (events : List (Event V)) :
    (∀ n result, (run host race events).results n = some result ↔
      ∃ before e after, events = before ++ e :: after ∧
        Decides host (run host race before) e n result) ∧
    ((∀ n control, control.Active → (run host race events).mutex.controlOf n ≠ some control) →
      (run host race events).process.handlers = .bare host) ∧
    ∀ before error after, events = before ++ .uncaught error :: after →
      isLocalExecutionWasmTrap error = false → (run host race before).process.exited = false →
      (run host race before).mutex.running = none →
      (run host race events).process.Keeps error := by
  have hinv (events : List (Event V)) : Inv host race (run host race events) :=
    (Inv.start host race).exec events
  refine ⟨fun n result => ?_, fun hidle => ?_, ?_⟩
  · refine ((Inv.start host race).exec_iff events).trans ⟨fun h => ?_, .inr⟩
    exact h.resolve_left (Option.some_ne_none result).symm
  · cases (hinv events).placed with
    | body n hn _ => exact absurd hn (hidle n .body trivial)
    | ending n left hn _ => exact absurd hn (hidle n (.ending left) trivial)
    | idle _ hclear => exact hclear.handlers
  · rintro before error after rfl htrap hexited hrunning
    have hstep : (step host race (run host race before) (.uncaught error)).process.Keeps error := by
      unfold step
      rw [hexited, if_neg Bool.false_ne_true]
      dsimp only
      rw [if_pos hrunning]
      exact escapes_process.symm ▸ uncaught_keeps_self htrap
    have hrun : run host race (before ++ .uncaught error :: after) =
        exec (step host race) (step host race (run host race before) (.uncaught error)) after := by
      unfold run exec
      rw [List.foldl_append]
      rfl
    rw [hrun]
    exact ((hinv before).step _).exec_keeps hstep after

end Runs

end Lionden.Network.TrapCapture
