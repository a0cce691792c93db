import Lionden.Js.Text
import Lionden.Lib.Trace
import Mathlib.Logic.Function.Basic

/-!
# The SDK objects of a connection

`getSdkObjects` and `getEffectivePm` make the objects of a key once, behind promises that the calls
share; `close` destroys their accounts.

* `Connection`: the fields of a connection, the initialisations and the calls that wait for them.
* `Connection.step`: what happens, in any order. Continuations of promises that are settled when they
  are awaited run in the order in which they were queued, before which anything else may happen.
-/

namespace Lionden.Network.Sdk

/-! ## State -/

inductive Status where
  /-- No account has been made. -/
  | creating
  /-- The account has been made, but not all of the objects. -/
  | created (account : Nat)
  | fulfilled (account : Nat)
  | rejected
  deriving DecidableEq

/-- An initialisation: of the objects of a signer, or of the default ones. -/
structure Attempt where
  signer : Option JsString
  status : Status
  deriving DecidableEq

inductive Stage where
  /-- It awaits `sdkObjectsPromise`. -/
  | awaitsDefault (a : Nat)
  /-- It has the default objects, and its continuation is queued. -/
  | queued
  /-- It awaits the objects of its signer. -/
  | awaitsSigner (a : Nat)
  | returned
  /-- It threw what the initialisation failed with. -/
  | threw (a : Nat)
  /-- The connection was closed. -/
  | refused
  deriving DecidableEq

structure Call where
  signer : Option JsString
  stage : Stage
  /-- The initialisations that had failed when the call was made. -/
  failed : Nat → Bool

/-- A reaction to a promise that is settled. -/
inductive Job where
  | resume (c : Nat)
  /-- The handler of `inflight.catch`. -/
  | evict (key : JsString)
  deriving DecidableEq

structure Connection where
  closed : Bool
  sdkObjects : Option Nat
  sdkObjectsPromise : Option Nat
  signerSdkResolved : List (JsString × Nat)
  signerSdkInflight : JsString → Option Nat
  attempts : Nat → Option Attempt
  nextAttempt : Nat
  /-- How many accounts have been made. -/
  accounts : Nat
  destroyed : Nat → Bool
  calls : Nat → Option Call
  jobs : List Job
  /-- The promise that `close` awaits. -/
  closing : Option Nat

def Connection.new : Connection where
  closed := false
  sdkObjects := none
  sdkObjectsPromise := none
  signerSdkResolved := []
  signerSdkInflight _ := none
  attempts _ := none
  nextAttempt := 0
  accounts := 0
  destroyed _ := false
  calls _ := none
  jobs := []
  closing := none

namespace Connection

variable (privateKey : Option JsString) (s : Connection)

def setStatus (a : Nat) (signer : Option JsString) (status : Status) : Connection :=
  { s with attempts := Function.update s.attempts a (some { signer, status }) }

def setStage (c : Nat) (call : Call) (stage : Stage) : Connection :=
  { s with calls := Function.update s.calls c (some { call with stage }) }

/-- `tryDestroyAccount`, of some accounts. -/
def destroy (accounts : List Nat) : Connection :=
  { s with destroyed := fun account => s.destroyed account || decide (account ∈ accounts) }

def isRejected (a : Nat) : Bool := (s.attempts a).any fun attempt => attempt.status = .rejected

/-! ## Initialisations -/

/-- A new initialisation has the number `nextAttempt`. -/
def start (signer : Option JsString) : Connection :=
  { s.setStatus s.nextAttempt signer .creating with nextAttempt := s.nextAttempt + 1 }

/-- `new Account`. -/
def createAccount (a : Nat) : Connection :=
  match s.attempts a with
  | some ⟨signer, .creating⟩ =>
    { s.setStatus a signer (.created s.accounts) with accounts := s.accounts + 1 }
  | _ => s

/-- The promise of an initialisation is rejected. -/
def reject (a : Nat) (signer : Option JsString) : Connection :=
  { s.setStatus a signer .rejected with jobs := s.jobs ++ (signer.map Job.evict).toList }

/-- `createSdkObjects` or `createSignerSdkObjects` fails. -/
def fail (a : Nat) : Connection :=
  match s.attempts a with
  | some ⟨signer, .creating⟩ | some ⟨signer, .created _⟩ => s.reject a signer
  | _ => s

/-- The objects have been made. -/
def finish (a : Nat) : Connection :=
  match s.attempts a with
  | some ⟨signer, .created account⟩ =>
    if s.closed then (s.destroy [account]).reject a signer
    else
      let s := s.setStatus a signer (.fulfilled account)
      match signer with
      | none => { s with sdkObjects := some account }
      | some key => { s with
          signerSdkResolved :=
            (key, account) :: s.signerSdkResolved.filter fun entry => entry.1 ≠ key
          signerSdkInflight := Function.update s.signerSdkInflight key none }
  | _ => s

/-! ## Calls -/

/-- A call up to its first `await`. -/
def call (c : Nat) (signer : Option JsString) : Connection :=
  match s.calls c with
  | some _ => s
  | none =>
    let call : Call := { signer, stage := .refused, failed := s.isRejected }
    if s.closed then s.setStage c call .refused
    else
    match s.sdkObjects, s.sdkObjectsPromise with
    | some _, _ => { s.setStage c call .queued with jobs := s.jobs ++ [.resume c] }
    | none, some a => s.setStage c call (.awaitsDefault a)
    | none, none =>
      { (s.start none).setStage c call (.awaitsDefault s.nextAttempt) with
        sdkObjectsPromise := some s.nextAttempt }

/-- `!signerPrivateKey || signerPrivateKey === this.privateKey`. -/
def usesDefault (signer : Option JsString) : Bool :=
  match signer with
  | none => true
  | some key => decide (key = [] ∨ some key = privateKey)

/-- A call with the default objects, up to its next `await`. -/
def resume (c : Nat) (call : Call) : Connection :=
  match call.signer with
  | none => s.setStage c call .returned
  | some key =>
    if usesDefault privateKey (some key) then s.setStage c call .returned
    else
    match s.signerSdkResolved.lookup key, s.signerSdkInflight key with
    | some _, _ => s.setStage c call .returned
    | none, some a => s.setStage c call (.awaitsSigner a)
    | none, none =>
      { (s.start (some key)).setStage c call (.awaitsSigner s.nextAttempt) with
        signerSdkInflight := Function.update s.signerSdkInflight key (some s.nextAttempt) }

/-- The next reaction in the queue. -/
def runJob : Connection :=
  match s.jobs with
  | [] => s
  | .evict key :: jobs =>
    { s with jobs, signerSdkInflight := Function.update s.signerSdkInflight key none }
  | .resume c :: jobs =>
    match s.calls c with
    | some call =>
      if call.stage = .queued then resume privateKey { s with jobs } c call else { s with jobs }
    | none => { s with jobs }

/-- A call whose promise has been settled while it was awaited. -/
def wake (c : Nat) : Connection :=
  match s.calls c with
  | none => s
  | some call =>
    match call.stage with
    | .awaitsDefault a =>
      match s.attempts a with
      | some ⟨_, .fulfilled _⟩ => s.resume privateKey c call
      | some ⟨_, .rejected⟩ => s.setStage c call (.threw a)
      | _ => s
    | .awaitsSigner a =>
      match s.attempts a with
      | some ⟨_, .fulfilled _⟩ => s.setStage c call .returned
      | some ⟨_, .rejected⟩ => s.setStage c call (.threw a)
      | _ => s
    | _ => s

/-! ## Closing -/

/-- `close`, up to its `await` if it comes to it. -/
def close : Connection :=
  let pending := if s.sdkObjects.isSome then none else s.sdkObjectsPromise
  { s.destroy (s.signerSdkResolved.map (·.2) ++ s.sdkObjects.toList) with
    closed := true
    signerSdkResolved := []
    signerSdkInflight := fun _ => none
    sdkObjects := none
    sdkObjectsPromise := pending
    closing := pending }

/-- The rest of `close`, when the promise is settled. -/
def finishClose : Connection :=
  match s.closing.bind s.attempts with
  | some ⟨_, .fulfilled account⟩ =>
    { s.destroy [account] with closing := none, sdkObjects := none, sdkObjectsPromise := none }
  | some ⟨_, .rejected⟩ =>
    { s with closing := none, sdkObjects := none, sdkObjectsPromise := none }
  | _ => s

end Connection

/-! ## Runs -/

inductive Event where
  | call (c : Nat) (signer : Option JsString)
  | createAccount (a : Nat)
  | fail (a : Nat)
  | finish (a : Nat)
  | job
  | wake (c : Nat)
  | close
  | finishClose

def Connection.step (privateKey : Option JsString) (s : Connection) : Event → Connection
  | .call c signer => s.call c signer
  | .createAccount a => s.createAccount a
  | .fail a => s.fail a
  | .finish a => s.finish a
  | .job => s.runJob privateKey
  | .wake c => s.wake privateKey c
  | .close => s.close
  | .finishClose => s.finishClose

end Lionden.Network.Sdk
