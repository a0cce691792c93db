import Lionden.Lib.Trace
import Mathlib.Logic.Function.Basic

/-!
# The promise mutexes (`sdk-diagnostics.ts`, `connection.ts`)

`SdkDiagnostics.runExclusive` and `runWithLocalWasmTrapCapture` keep a lock: the promise of whoever
called last. A caller replaces it by a promise of its own, awaits the one before, runs its body and
then resolves its own promise. A run is a list of events: calls, what bodies do, traps and jobs of
the promise queue.

* `Kind`: how the two differ.
* `step`: what one event does.
-/

namespace Lionden.Network.Mutex

/-- How many jobs run before `release`, once the body has thrown and once what it returned has
settled, and whether a trap ends the wait for it. -/
structure Kind where
  afterThrow : Nat
  afterSettled : Nat
  capturesTraps : Bool

/-- `try { return await fn(); } finally { release(); }`. -/
def runExclusive : Kind := ⟨0, 1, false⟩

/-- A throw becomes a rejected promise, and `Promise.race(…).finally(…)` is awaited, which takes `race`
jobs of its own. The process is there to capture traps. -/
def runWithLocalWasmTrapCapture (race : Nat) : Kind := ⟨1, race + 1, true⟩

/-- Where the body of a caller is. -/
inductive Body where
  | unstarted
  | running
  /-- It has returned a promise. -/
  | pending
  /-- A trap was captured while that promise was pending, and it still is. -/
  | trapped
  /-- It has thrown, or the promise has settled. -/
  | over
  deriving DecidableEq

/-- Where a caller is. -/
inductive Control where
  /-- Awaits the promise of whoever called before. -/
  | waiting (previous : Nat)
  /-- That promise is resolved, and a job is queued. -/
  | queued
  | body
  /-- A job is queued, and `left` jobs more before `release`. -/
  | ending (left : Nat)
  | done
  deriving DecidableEq

structure Caller where
  control : Control
  body : Body := .unstarted
  deriving DecidableEq

/-- A promise of a caller, and who awaits it. -/
structure LockPromise where
  resolved : Bool
  reactions : List Nat

/-- Promise 0 is the resolved one that is there at first, promise `n + 1` the one of caller `n`. -/
structure State where
  lock : Nat := 0
  promises : Nat → Option LockPromise := Function.update (fun _ => none) 0 (some ⟨true, []⟩)
  callers : Nat → Option Caller := fun _ => none
  next : Nat := 0
  /-- The caller whose body is on the stack. -/
  running : Option Nat := none
  queue : List Nat := []
  /-- The bodies that have been started. -/
  started : List Nat := []

namespace State

variable (s : State)

def setCaller (n : Nat) (caller : Caller) : State :=
  { s with callers := Function.update s.callers n (some caller) }

/-- `await previous`, of a caller that has set the lock. -/
def awaitPrevious (n previous : Nat) : State :=
  match s.promises previous with
  | some ⟨true, _⟩ => { s.setCaller n { control := .queued } with queue := s.queue ++ [n] }
  | some ⟨false, reactions⟩ =>
    { s.setCaller n { control := .waiting previous } with
      promises := Function.update s.promises previous (some ⟨false, reactions ++ [n]⟩) }
  | none => s

def call : State :=
  let n := s.next
  { s with
    next := n + 1
    lock := n + 1
    promises := Function.update s.promises (n + 1) (some ⟨false, []⟩) }.awaitPrevious n s.lock

/-- `release()` of a caller: whoever awaits its promise goes on. -/
def release (n : Nat) : State :=
  match s.promises (n + 1) with
  | some ⟨_, reactions⟩ =>
    { s with
      promises := Function.update s.promises (n + 1) (some ⟨true, []⟩)
      callers := fun d =>
        if d ∈ reactions then (s.callers d).map fun caller => { caller with control := .queued }
        else s.callers d
      queue := s.queue ++ reactions }
  | none => s

/-- `left` jobs are to run before the release. -/
def finish (n : Nat) (body : Body) : Nat → State
  | 0 => (s.setCaller n ⟨.done, body⟩).release n
  | left + 1 => { s.setCaller n ⟨.ending left, body⟩ with queue := s.queue ++ [n] }

/-- The body returns a promise. -/
def bodyReturns : State :=
  match s.running with
  | some n => { s.setCaller n ⟨.body, .pending⟩ with running := none }
  | none => s

def bodyThrows (kind : Kind) : State :=
  match s.running with
  | some n => { s with running := none }.finish n .over kind.afterThrow
  | none => s

/-- What the body returned settles. -/
def bodySettles (kind : Kind) (n : Nat) : State :=
  match s.callers n with
  | some ⟨.body, .pending⟩ => s.finish n .over kind.afterSettled
  | some ⟨control, .trapped⟩ => s.setCaller n ⟨control, .over⟩
  | _ => s

/-- A trap escapes to the process while caller `n` captures traps. -/
def trap (kind : Kind) (n : Nat) : State :=
  match kind.capturesTraps, s.callers n with
  | true, some ⟨.body, .pending⟩ => s.finish n .trapped kind.afterSettled
  | _, _ => s

/-- The next job; none runs while a body is on the stack. -/
def runJob : State :=
  match s.running, s.queue with
  | none, n :: queue =>
    match s.callers n with
    | some ⟨.queued, _⟩ =>
      { s.setCaller n ⟨.body, .running⟩ with
        running := some n
        queue
        started := s.started ++ [n] }
    | some ⟨.ending left, body⟩ => { s with queue }.finish n body left
    | _ => { s with queue }
  | _, _ => s

end State

inductive Event where
  | call
  | bodyReturns
  | bodyThrows
  | bodySettles (caller : Nat)
  | trap (caller : Nat)
  | runJob
  deriving DecidableEq

def step (kind : Kind) (s : State) : Event → State
  | .call => s.call
  | .bodyReturns => s.bodyReturns
  | .bodyThrows => s.bodyThrows kind
  | .bodySettles n => s.bodySettles kind n
  | .trap n => s.trap kind n
  | .runJob => s.runJob

end Lionden.Network.Mutex
