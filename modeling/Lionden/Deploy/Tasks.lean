import Lionden.Deploy.Manager

/-!
# The deploy and upgrade tasks

What the tasks do for one program after they have recovered the pending markers: `deployAction` and
`upgradeAction`. A run of a task is a recovery and then these operations for its programs, up to the
first that fails. The checks that come before and change nothing are left out.

* `deployProgram_frame`, `upgradeProgram_frame`: up to the record, a task changes the marker and the
  chain only.
-/

namespace Lionden.Deploy

open Interrupt (Triple)

/-! ## Transactions -/

/-- `buildDeploy` or `buildUpgrade`, and `broadcastTransaction` where the backend leaves it to the
task. -/
def buildAndBroadcast (env : Environment) (tx : TxId) (action : Action) : Op Unit :=
  match env.buildError with
  | some message => throw message
  | none => perform (.broadcastTransaction tx action)

/-- `waitForConfirmation`: whether the transaction was accepted. -/
def waitForConfirmation (env : Environment) (tx : TxId) : Op Bool :=
  match env.confirmationError with
  | some message => throw message
  | none => do
    perform (.chain (.execute tx))
    let s ← state
    pure (decide (tx ∈ s.chain.executed))

def readsCatchUp (env : Environment) : Op Unit :=
  if env.propagated then perform (.chain .propagate) else pure ()

def waitForProgramEditionAdvance (p : ProgramId) (env : Environment) (previousEdition : Nat) :
    Op Nat := do
  readsCatchUp env
  let s ← state
  match getProgramEdition env s.chain with
  | some edition => if previousEdition < edition then pure edition else timedOut
  | none => timedOut
where
  timedOut : Op Nat := throw (js "Timed out waiting for \"" ++ p ++
    js "\" on-chain edition to advance beyond " ++ decimal previousEdition ++ js ".")

def rejected (action : String) (tx : TxId) : JsString :=
  js action ++ js " transaction " ++ decimal tx ++ js " was rejected on-chain."

/-! ## Deploy -/

def alreadyDeployed (p : ProgramId) : JsString :=
  js "Pre-flight validation failed:\n  [ALREADY_DEPLOYED] Program \"" ++ p ++
    js "\" is already deployed on-chain and --no-skip-deployed was specified. " ++
    js "Remove the flag to skip it."

def abiNotFound (p : ProgramId) (hint : String) : JsString :=
  js "No compiled ABI found for \"" ++ p ++ js "\". " ++ js hint

/-- The record of a program on the chain, which reuses what checks have read. -/
def observedEdition (env : Environment) (c : Chain) (edition : Option Nat) : Option Nat :=
  edition.or (getProgramEdition env c)

/-- A program that is on the chain and has no record gets a degraded one. -/
def reconcile (p : ProgramId) (env : Environment) (edition : Option Nat) : Op Unit := do
  let s ← state
  match observedEdition env s.chain edition with
  | some e => record p env.now none (createDegradedRecord e) .deploy none
  | none => throw (editionRequired p "create degraded deployment record")

def deployedRecord (env : Environment) (tx : TxId) (blockHeight : Nat) : DeploymentRecord where
  status := .complete
  edition := 0
  historyCount := 1
  txId := some tx
  blockHeight := some blockHeight
  deployerAddress := some (env.deployerAddress.getD (js "unknown"))

def deployPending (env : Environment) : PendingDeployment where
  action := .deploy
  txId := none
  blockHeight := none
  previousEdition := none
  deployerAddress := env.deployerAddress.getD (js "unknown")

/-- The height at which the deployment was confirmed, or 0 if the task does not wait for that. -/
def confirmDeploy (env : Environment) (tx : TxId) : Op Nat :=
  if env.shouldConfirm then do
    let accepted ← waitForConfirmation env tx
    if accepted then pure env.blockHeight else throw (rejected "Deploy" tx)
  else pure 0

def deployProgram (p : ProgramId) (env : Environment) : Op Unit :=
  match env.abi with
  | none => throw (abiNotFound p ("Run `lionden compile` first, or pass --noCompile only when " ++
      "artifacts already exist."))
  | some abi => do
    let s ← state
    perform (.writePendingMarker ⟨deployPending env, some s.sent⟩)
    buildAndBroadcast env s.sent .deploy
    let blockHeight ← confirmDeploy env s.sent
    record p env.now (some s.sent) (deployedRecord env s.sent blockHeight) .deploy (some abi)

/-- On a devnode the preflight asks the cache alone, unless the program is renamed. -/
def preflightRecord (p : ProgramId) (env : Environment) : Op (Option DeploymentRecord) :=
  if env.devnode ∧ !env.renamed then do
    let s ← state
    pure s.cache
  else getDeployment p env

def deployAction (p : ProgramId) (env : Environment) : Op Unit := do
  let existingRecord ← preflightRecord p env
  let s ← state
  match checkProgramOnChain env s.chain with
  | none => deployProgram p env
  | some edition =>
    if env.skipDeployed then
      if existingRecord.isNone then reconcile p env edition else pure ()
    else throw (alreadyDeployed p)

/-- The preflight finds no record of a program that is on the chain, which then gets one. -/
def Adopts (env : Environment) (s : ProgramState) : Prop :=
  s.chain.visible ≠ none ∧ env.skipDeployed = true ∧
    if env.devnode ∧ !env.renamed then s.cache = none else env.devnode = false ∧ s.known = none

/-! ## Upgrade -/

/-- The edition before the upgrade: `fallback` if the task has observed one for lack of a record. -/
def previousEdition (env : Environment) (c : Chain) (existingRecord : DeploymentRecord)
    (fallback : Option Nat) : Option Nat :=
  match fallback with
  | some e => some e
  | none =>
    if env.shouldConfirm then getProgramEdition env c
    else (getProgramEdition env c).or (some existingRecord.edition)

def upgradePending (env : Environment) (previous : Nat) : PendingDeployment where
  action := .upgrade
  txId := none
  blockHeight := none
  previousEdition := some previous
  deployerAddress := env.deployerAddress.getD (js "unknown")

def oldDeployerAddress (existingRecord : DeploymentRecord) : Option JsString :=
  match existingRecord.status with
  | .complete | .recovered => existingRecord.deployerAddress
  | .degraded => some (js "unknown")

def upgradedRecord (env : Environment) (existingRecord : DeploymentRecord) (tx : TxId)
    (blockHeight edition : Nat) : DeploymentRecord where
  status := .complete
  edition := edition
  historyCount := existingRecord.historyCount + 1
  txId := some tx
  blockHeight := some blockHeight
  deployerAddress := env.deployerAddress.or (oldDeployerAddress existingRecord)

/-- The height and the edition of a confirmed upgrade. -/
def confirmUpgrade (p : ProgramId) (env : Environment) (tx : TxId) (previous : Nat) :
    Op (Nat × Nat) :=
  if env.shouldConfirm then do
    let accepted ← waitForConfirmation env tx
    if accepted then
      perform (.writePendingMarker
        ⟨{ upgradePending env previous with txId := some tx, blockHeight := some env.blockHeight },
          some tx⟩)
      let edition ← waitForProgramEditionAdvance p env previous
      pure (env.blockHeight, edition)
    else
      perform .deletePendingMarker
      throw (rejected "Upgrade" tx)
  else pure (0, previous + 1)

def upgradeProgram (p : ProgramId) (env : Environment) (existingRecord : DeploymentRecord)
    (fallback : Option Nat) : Op Unit :=
  match env.abi with
  | none => throw (abiNotFound p "Compilation may have failed.")
  | some abi => do
    let s ← state
    match previousEdition env s.chain existingRecord fallback with
    | none => throw (editionRequired p "read current edition before upgrade")
    | some previous =>
      perform (.writePendingMarker ⟨upgradePending env previous, some s.sent⟩)
      buildAndBroadcast env s.sent .upgrade
      perform (.writePendingMarker
        ⟨{ upgradePending env previous with txId := some s.sent }, some s.sent⟩)
      let (blockHeight, edition) ← confirmUpgrade p env s.sent previous
      record p env.now (some s.sent) (upgradedRecord env existingRecord s.sent blockHeight edition)
        .upgrade (some abi)

def notDeployed (p : ProgramId) : JsString :=
  js "No deployment record found for \"" ++ p ++
    js "\". Deploy the program first with `lionden deploy --program " ++ p ++ js "`."

def upgradeAction (p : ProgramId) (env : Environment) : Op Unit := do
  let existing ← getDeployment p env
  match existing with
  | some existingRecord => upgradeProgram p env existingRecord none
  | none =>
    let s ← state
    match checkProgramOnChain env s.chain with
    | none => throw (notDeployed p)
    | some edition =>
      match observedEdition env s.chain edition with
      | none => throw (editionRequired p "create degraded deployment record")
      | some e => upgradeProgram p env (createDegradedRecord e) (some e)

/-! ## What the tasks do between their start and the record -/

/-- The effects on the marker and on the chain. -/
def Bookkeeping : Effect → Prop
  | .writePendingMarker _ | .deletePendingMarker | .broadcastTransaction _ _ | .chain _ => True
  | _ => False

section Frame

variable {p : ProgramId} {env : Environment} {safe : Effect → ProgramState → Prop}
  {I Q F C : ProgramState → Prop} (hI : ∀ k s, Bookkeeping k → I s → I (k.apply s))
  (hF : ∀ s, I s → F s) (hC : ∀ s, I s → C s)

include hI hF hC

theorem buildAndBroadcast_frame {tx : TxId} {action : Action} :
    Triple safe I (buildAndBroadcast env tx action) (fun _ => I) F C := by
  unfold buildAndBroadcast
  cases env.buildError with
  | some message => exact Triple.fail hF
  | none => exact Triple.perform (fun s h _ => hC s h) (fun s => hI _ s trivial)

theorem waitForConfirmation_frame {tx : TxId} :
    Triple safe I (waitForConfirmation env tx) (fun _ => I) F C := by
  unfold waitForConfirmation
  cases env.confirmationError with
  | some message => exact Triple.fail hF
  | none =>
    refine Triple.step (M := I) (fun s h _ => hC s h) (fun s => hI _ s trivial) ?_
    exact Triple.read fun s h => Triple.pure (by rintro _ rfl; exact h)

theorem confirmDeploy_frame {tx : TxId} : Triple safe I (confirmDeploy env tx) (fun _ => I) F C := by
  refine Triple.ite (fun _ => ?_) (fun _ => Triple.pure fun _ h => h)
  refine Triple.bind (waitForConfirmation_frame hI hF hC) fun accepted => ?_
  exact Triple.ite (fun _ => Triple.pure fun _ h => h) (fun _ => Triple.fail hF)

theorem waitForProgramEditionAdvance_frame {previous : Nat} :
    Triple safe I (waitForProgramEditionAdvance p env previous) (fun _ => I) F C := by
  refine Triple.bind (M := fun _ => I) ?_ fun _ => Triple.read fun s h => ?_
  · exact Triple.ite (fun _ => Triple.perform (fun s h _ => hC s h) (fun s => hI _ s trivial))
      (fun _ => Triple.pure fun _ h => h)
  · have htimeout : Triple safe (· = s) (waitForProgramEditionAdvance.timedOut p previous)
        (fun _ => I) F C := Triple.fail (by rintro _ rfl; exact hF _ h)
    cases getProgramEdition env s.chain with
    | none => exact htimeout
    | some edition =>
      exact Triple.ite (fun _ => Triple.pure (by rintro _ rfl; exact h)) (fun _ => htimeout)

theorem confirmUpgrade_frame {tx : TxId} {previous : Nat} :
    Triple safe I (confirmUpgrade p env tx previous) (fun _ => I) F C := by
  refine Triple.ite (fun _ => ?_) (fun _ => Triple.pure fun _ h => h)
  refine Triple.bind (waitForConfirmation_frame hI hF hC) fun accepted => ?_
  refine Triple.ite (fun _ => ?_) (fun _ => ?_)
  · refine Triple.step (M := I) (fun s h _ => hC s h) (fun s => hI _ s trivial) ?_
    exact Triple.bind (waitForProgramEditionAdvance_frame hI hF hC)
      fun edition => Triple.pure fun _ h => h
  · exact Triple.step (M := I) (fun s h _ => hC s h) (fun s => hI _ s trivial) (Triple.fail hF)

/-- What holds at the start of a deployment and does not depend on the marker and the chain still
holds before the record. -/
theorem deployProgram_frame
    (hrecord : ∀ tx blockHeight abi, Triple safe I
      (record p env.now (some tx) (deployedRecord env tx blockHeight) .deploy (some abi))
      (fun _ => Q) F C) :
    Triple safe I (deployProgram p env) (fun _ => Q) F C := by
  unfold deployProgram
  cases env.abi with
  | none => exact Triple.fail hF
  | some abi =>
    refine Triple.read fun s h => ?_
    refine Triple.step (M := I) ?_ ?_ ?_
    · rintro _ rfl -
      exact hC _ h
    · rintro _ rfl
      exact hI _ _ trivial h
    refine Triple.bind (buildAndBroadcast_frame hI hF hC) fun _ => ?_
    exact Triple.bind (confirmDeploy_frame hI hF hC) fun blockHeight => hrecord _ _ _

theorem upgradeProgram_frame {existing : DeploymentRecord} {fallback : Option Nat}
    (hrecord : ∀ tx blockHeight edition abi, Triple safe I
      (record p env.now (some tx) (upgradedRecord env existing tx blockHeight edition) .upgrade
        (some abi)) (fun _ => Q) F C) :
    Triple safe I (upgradeProgram p env existing fallback) (fun _ => Q) F C := by
  unfold upgradeProgram
  cases env.abi with
  | none => exact Triple.fail hF
  | some abi =>
    refine Triple.read fun s h => ?_
    cases previousEdition env s.chain existing fallback with
    | none => exact Triple.fail (by rintro _ rfl; exact hF _ h)
    | some previous =>
      refine Triple.step (M := I) ?_ ?_ ?_
      · rintro _ rfl -
        exact hC _ h
      · rintro _ rfl
        exact hI _ _ trivial h
      refine Triple.bind (buildAndBroadcast_frame hI hF hC) fun _ => ?_
      refine Triple.step (M := I) (fun s h _ => hC s h) (fun s => hI _ s trivial) ?_
      exact Triple.bind (confirmUpgrade_frame hI hF hC) fun heights => hrecord _ _ _ _

end Frame

end Lionden.Deploy
