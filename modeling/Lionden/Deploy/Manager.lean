import Lionden.Deploy.State

/-!
# The deployment manager

`record`, `getDeployment` and the recovery of pending markers, on a network that is not ephemeral.
What a function learns from outside (the answers of the network, the clock, the options of the task)
is in the `Environment` it runs in.
-/

namespace Lionden.Deploy

open Interrupt (Triple)

structure Environment where
  /-- The network is a devnode. -/
  devnode : Bool
  /-- `checkProgramOnChain` reads the edition of a program that is there. -/
  observed : Bool
  /-- `getProgramEdition` reads it. -/
  readable : Bool
  /-- The deploy task renames the program. -/
  renamed : Bool
  skipDeployed : Bool
  shouldConfirm : Bool
  /-- The compiled ABI. -/
  abi : Option JsString
  deployerAddress : Option JsString
  /-- Why the transaction was not built or not broadcast. -/
  buildError : Option JsString
  /-- Why there was no answer about the transaction in time. -/
  confirmationError : Option JsString
  blockHeight : Nat
  /-- The reads of the chain catch up while the task waits for them. -/
  propagated : Bool
  /-- The moment, as the name of a history file has it. -/
  now : JsString

/-! ## Reads of the chain -/

/-- Whether the program is on the chain, and its edition if that is read. -/
def checkProgramOnChain (env : Environment) (c : Chain) : Option (Option Nat) :=
  c.visible.map fun e => if env.observed then some e else none

def getProgramEdition (env : Environment) (c : Chain) : Option Nat :=
  if env.readable then c.visible else none

def editionRequired (p : ProgramId) (action : String) : JsString :=
  js "Unable to " ++ js action ++ js " for \"" ++ p ++
    js "\": on-chain program edition could not be observed."

def createDegradedRecord (edition : Nat) : DeploymentRecord where
  status := .degraded
  edition := edition
  historyCount := 0
  txId := none
  blockHeight := none
  deployerAddress := none

/-! ## Records -/

/-- The record the manager knows: its own, or else the one on disk. -/
def ProgramState.known (s : ProgramState) : Option DeploymentRecord :=
  s.cache.or (s.record.map (·.value))

def getDeployment (p : ProgramId) (env : Environment) : Op (Option DeploymentRecord) := do
  let s ← state
  match s.known, checkProgramOnChain env s.chain with
  | some existing, some _ =>
    perform (.setCache (some existing))
    pure (some existing)
  | some _, none =>
    perform (.setCache none)
    pure none
  | none, none =>
    if env.devnode then
      perform (.setCache none)
      pure none
    else
      pure none
  | none, some edition =>
    -- On a devnode a program without a record gets one in the cache.
    if env.devnode then
      match edition with
      | none => throw (editionRequired p "create degraded deployment record")
      | some e =>
        perform (.setCache (some (createDegradedRecord e)))
        pure (some (createDegradedRecord e))
    else
      pure none

/-- How many entries the history has, as the known record counts them. -/
def ProgramState.knownCount (s : ProgramState) : Nat := s.known.elim 0 (·.historyCount)

/-- What `getDeployment` has found when it returns a record or none. -/
def Found (env : Environment) (s : ProgramState) : Option DeploymentRecord → Prop
  | some r => s.known = some r ∧ s.chain.visible ≠ none ∨ (s.known = none ∧ env.devnode = true) ∧
      ∃ e, s.chain.visible = some e ∧ r = createDegradedRecord e
  | none => s.chain.visible = none ∨ s.known = none ∧ env.devnode = false

theorem Found.count {env : Environment} {s : ProgramState} {r : DeploymentRecord}
    (h : Found env s (some r)) :
    r.historyCount = s.knownCount := by
  unfold ProgramState.knownCount
  rcases h with ⟨h, -⟩ | ⟨⟨h, -⟩, e, -, rfl⟩
  · rw [h]
    rfl
  · rw [h]
    rfl

theorem visible_of_read {env : Environment} {c : Chain} {e : Nat}
    (h : checkProgramOnChain env c = some (some e)) : c.visible = some e := by
  unfold checkProgramOnChain at h
  cases hvisible : c.visible with
  | none =>
    rw [hvisible] at h
    exact nomatch h
  | some e' =>
    rw [hvisible, Option.map_some, Option.some_inj] at h
    split at h
    · exact h
    · exact nomatch h

theorem setCache_spec {env : Environment} {safe : Effect → ProgramState → Prop} {s : ProgramState}
    {r : Option DeploymentRecord} (h : Found env s r) :
    Triple safe (· = s) (do perform (.setCache r); pure r : Op (Option DeploymentRecord))
      (fun r s' => Found env s r ∧ s' = { s with cache := r }) (· = s) (· = s) := by
  refine Triple.step (M := (· = { s with cache := r })) (fun _ hs _ => hs) ?_ (Triple.pure ?_)
  · rintro s rfl
    rfl
  · rintro _ rfl
    exact ⟨h, rfl⟩

/-- `getDeployment` makes the cache what it returns, and changes nothing else. -/
theorem getDeployment_spec {p : ProgramId} {env : Environment} {safe : Effect → ProgramState → Prop}
    (s : ProgramState) :
    Triple safe (· = s) (getDeployment p env)
      (fun r s' => Found env s r ∧ s' = { s with cache := r }) (· = s) (· = s) := by
  have hnone : s.known = none → s.cache = none := by
    intro h
    exact (Option.or_eq_none_iff.mp h).1
  have hpure (h : s.known = none) (hdev : env.devnode = false) : Triple safe (· = s)
      (pure none : Op (Option DeploymentRecord))
      (fun r s' => Found env s r ∧ s' = { s with cache := r }) (· = s) (· = s) := by
    refine Triple.pure ?_
    rintro s rfl
    exact ⟨Or.inr ⟨h, hdev⟩, by rw [← hnone h]⟩
  refine Triple.read ?_
  rintro s rfl
  cases honchain : checkProgramOnChain env s.chain with
  | none =>
    have hvisible : s.chain.visible = none := by simpa [checkProgramOnChain] using honchain
    cases hknown : s.known with
    | some existing => exact setCache_spec (r := none) (Or.inl hvisible)
    | none =>
      refine Triple.ite (fun _ => ?_) (fun hdev => hpure hknown (by simpa using hdev))
      exact setCache_spec (r := none) (Or.inl hvisible)
  | some edition =>
    cases hknown : s.known with
    | some existing =>
      refine setCache_spec (Or.inl ⟨hknown, fun hvisible => ?_⟩)
      rw [checkProgramOnChain, hvisible] at honchain
      exact nomatch honchain
    | none =>
      refine Triple.ite (fun hdev => ?_) (fun hdev => hpure hknown (by simpa using hdev))
      cases edition with
      | none => exact Triple.fail (fun _ hs => hs)
      | some e => exact setCache_spec (Or.inr ⟨⟨hknown, hdev⟩, e, visible_of_read honchain, rfl⟩)

def abiRequired (p : ProgramId) : JsString :=
  js "ABI is required when recording a complete deployment for \"" ++ p ++
    js "\". Pass options.abi to manager.record() when status is \"complete\"."

/-- What is done with the ABI, if there is one. -/
def withAbi (abi : Option JsString) (op : Option TxId) (k : Stamped JsString → Effect) : Op Unit :=
  match abi with
  | some abi => perform (k ⟨abi, op⟩)
  | none => pure ()

/-- `record()` of the record of the transaction `op`. -/
def record (p : ProgramId) (now : JsString) (op : Option TxId) (record : DeploymentRecord)
    (action : Action) (abi : Option JsString) : Op Unit :=
  if record.status = .complete ∧ abi = none then throw (abiRequired p)
  else do
    withAbi abi op .writeAbiSnapshot
    perform (.writeDeploymentRecord ⟨record, op⟩)
    perform (.appendHistory now ⟨⟨record, action⟩, op⟩)
    withAbi abi op .setAbiCache
    perform (.setCache (some record))
    perform .deletePendingMarker

/-! ## Recovery -/

/-- What recovery makes of a pending marker. -/
inductive Resolution where
  /-- The program has the edition that the operation led to. -/
  | recover (edition : Nat)
  /-- The operation did not take place; the marker goes. -/
  | discard
  /-- The operation is confirmed, but the reads have not caught up; the marker stays. -/
  | keep
  /-- The edition that the decision needs cannot be read. -/
  | unreadable
  deriving DecidableEq

def resolve (marker : PendingDeployment) : Option (Option Nat) → Resolution
  | none => .discard
  | some edition =>
    match marker.action with
    | .deploy => .recover (edition.getD 0)
    | .upgrade =>
      match edition, marker.previousEdition with
      | none, _ => .unreadable
      | some _, none => .discard
      | some e, some previous =>
        if e ≤ previous then
          if marker.blockHeight.isSome then .keep else .discard
        else .recover e

/-- The reads of the chain show the operation of a marker: the program is there, and for an upgrade
it is read beyond the edition at which the upgrade started. -/
def Shows (env : Environment) (marker : PendingDeployment) (c : Chain) : Prop :=
  match marker.action with
  | .deploy => c.visible ≠ none
  | .upgrade => env.observed = true ∧ ∃ e previous, c.visible = some e ∧
      marker.previousEdition = some previous ∧ previous < e

/-- The reads of the chain do not show the operation: the program is not there, or an upgrade that
has no block is not read to be beyond its start. -/
def Hides (env : Environment) (marker : PendingDeployment) (c : Chain) : Prop :=
  c.visible = none ∨ marker.action = .upgrade ∧ env.observed = true ∧ ∃ e, c.visible = some e ∧
    ∀ previous, marker.previousEdition = some previous → e ≤ previous ∧ marker.blockHeight = none

/-- The reads of the chain have not caught up with an upgrade that has its block. -/
def Waits (marker : PendingDeployment) (c : Chain) : Prop :=
  marker.action = .upgrade ∧ marker.blockHeight ≠ none ∧ ∃ e previous, c.visible = some e ∧
    marker.previousEdition = some previous ∧ e ≤ previous

/-- What recovery decides about a marker, by what the reads show of its operation. -/
theorem resolve_cases (env : Environment) (m : PendingDeployment) (c : Chain) :
    (∃ edition, resolve m (checkProgramOnChain env c) = .recover edition ∧ Shows env m c) ∨
    (resolve m (checkProgramOnChain env c) = .discard ∧ Hides env m c) ∨
    (resolve m (checkProgramOnChain env c) = .keep ∧ Waits m c) ∨
    resolve m (checkProgramOnChain env c) = .unreadable := by
  unfold checkProgramOnChain
  cases hvisible : c.visible with
  | none => exact Or.inr (Or.inl ⟨rfl, Or.inl hvisible⟩)
  | some e =>
    cases haction : m.action with
    | deploy =>
      have hshows : Shows env m c := by
        unfold Shows
        rw [haction, hvisible]
        exact Option.some_ne_none e
      exact Or.inl ⟨(if env.observed then some e else none).getD 0, by simp [resolve, haction], hshows⟩
    | upgrade =>
      cases hobserved : env.observed with
      | false => exact Or.inr (Or.inr (Or.inr (by simp [resolve, haction])))
      | true =>
        cases hprevious : m.previousEdition with
        | none =>
          refine Or.inr (Or.inl ⟨by simp [resolve, haction, hprevious], Or.inr ?_⟩)
          refine ⟨haction, hobserved, e, hvisible, fun _ h => ?_⟩
          rw [hprevious] at h
          exact nomatch h
        | some previous =>
          by_cases hle : e ≤ previous
          · cases hblock : m.blockHeight with
            | none =>
              refine Or.inr (Or.inl ⟨by simp [resolve, haction, hprevious, hle, hblock], Or.inr ?_⟩)
              refine ⟨haction, hobserved, e, hvisible, fun previous' h => ?_⟩
              rw [hprevious] at h
              exact ⟨Option.some.inj h ▸ hle, hblock⟩
            | some blockHeight =>
              refine Or.inr (Or.inr (Or.inl ⟨by simp [resolve, haction, hprevious, hle, hblock], ?_⟩))
              exact ⟨haction, by rw [hblock]; exact Option.some_ne_none _, e, previous, hvisible,
                hprevious, hle⟩
          · have hshows : Shows env m c := by
              unfold Shows
              rw [haction]
              exact ⟨hobserved, e, previous, hvisible, hprevious, Nat.lt_of_not_le hle⟩
            exact Or.inl ⟨e, by simp [resolve, haction, hprevious, hle], hshows⟩

/-- The history count of a recovered record. -/
def ProgramState.recoveredCount (s : ProgramState) : Nat :=
  match s.known with
  | some existing => existing.historyCount + 1
  | none => 0

def recoveredRecord (marker : PendingDeployment) (edition historyCount : Nat) :
    DeploymentRecord where
  status := .recovered
  edition := edition
  historyCount := historyCount
  txId := marker.txId
  blockHeight := marker.blockHeight
  deployerAddress := some marker.deployerAddress

/-- Recovery of one program, with the record it writes. -/
def recoverPending (p : ProgramId) (env : Environment) : Op (Option DeploymentRecord) := do
  let s ← state
  match s.pending with
  | none => pure none
  | some marker =>
    match resolve marker.value (checkProgramOnChain env s.chain) with
    | .recover edition =>
      let recovered := recoveredRecord marker.value edition s.recoveredCount
      record p env.now marker.op recovered marker.value.action none
      pure (some recovered)
    | .discard =>
      perform .deletePendingMarker
      pure none
    | .keep => pure none
    | .unreadable => throw (editionRequired p "recover pending deployment")

/-- Recovery of the programs with a marker, in the order in which the directory lists them. -/
def recoverPendingDeployments (env : ProgramId → Environment) :
    List ProgramId → NetworkOp (List DeploymentRecord)
  | [] => pure []
  | p :: ids => do
    let recovered ← (recoverPending p (env p)).within p
    let rest ← recoverPendingDeployments env ids
    pure (recovered.toList ++ rest)

end Lionden.Deploy
