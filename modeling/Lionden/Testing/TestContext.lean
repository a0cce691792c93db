import Lionden.Build.Discovery
import Lionden.Deploy.State
import Lionden.Lib.Trace
import Lionden.Targets.DeployAction

/-!
# Deployments of a test context (`test-context.ts`)

A test context deploys programs to the devnode that `setup` has started, and rolls it back to its
snapshots. Before it runs the task, `deploy` asks the cache of what was deployed in the session. The
network is the ephemeral one of a devnode; what a program does on it is left out.

* `deploy`, `snapshot`, `restore`: the calls.
* `Event.step`: one call after another, and one context after another.
* `Live`: a complete record is of a transaction that the ledger has.
* `deploy_on_ledger`: so is what `deploy` returns.
-/

namespace Lionden.Testing.TestContext

open Compiler Targets
open Trace (exec AllSteps)

/-! ## State -/

structure CachedDeploymentRecord where
  status : Deploy.Status
  programId : JsString
  txId : Option JsString
  sourceProgramId : Option JsString

/-- A transaction that the devnode has received. -/
structure Sent where
  programId : JsString
  sourceProgramId : Option JsString
  txId : JsString
  /-- It is not rejected. -/
  accepted : Bool
  /-- The task waits for its confirmation. -/
  confirmed : Bool

/-- The local program that it deploys. -/
def Sent.source (sent : Sent) : JsString := sent.sourceProgramId.getD sent.programId

structure World where
  /-- The cache of the deployment manager, for the network. -/
  cache : JsString → Option CachedDeploymentRecord
  /-- What the devnode has received, on the chain as it is now. -/
  ledger : List Sent
  snapshots : JsString → Option (List Sent)
  /-- Whether the devnode of the open context can take snapshots. -/
  capable : Option Bool

def World.new : World where
  cache := fun _ => none
  ledger := []
  snapshots := fun _ => none
  capable := none

/-! ## The deploy task, run by a context -/

inductive ProgramDeploymentTarget where
  | name (program : JsString)
  /-- A generated wrapper. -/
  | wrapper (programId : JsString) (sourceProgramId : Option JsString)

def programNameFromTarget : ProgramDeploymentTarget → JsString
  | .name program => program
  | .wrapper programId _ => programId

def sourceProgramNameFromTarget : ProgramDeploymentTarget → JsString
  | .name program => program
  | .wrapper programId sourceProgramId => sourceProgramId.getD programId

/-- `normalizedId`: the id that a program is deployed under. -/
def ProgramDeploymentTarget.id (program : ProgramDeploymentTarget) : JsString :=
  normalizeProgramId (programNameFromTarget program)

/-- `normalizedSourceId`. -/
def ProgramDeploymentTarget.sourceId (program : ProgramDeploymentTarget) : JsString :=
  normalizeProgramId (sourceProgramNameFromTarget program)

def ProgramDeploymentTarget.rename (program : ProgramDeploymentTarget) : Option JsString :=
  if program.sourceId = program.id then none else some program.id

def ProgramDeploymentTarget.expectedSourceProgramId (program : ProgramDeploymentTarget) :
    Option JsString :=
  program.rename.map fun _ => program.sourceId

structure DeployCallOptions where
  priorityFee : Option Nat
  skipConfirm : Bool
  noCompile : Bool
  noSkipDeployed : Bool
  prove : Option Bool

/-- What a run of the task meets. -/
structure Surroundings where
  /-- All that does not come from the call or the cache: the options of the environment are not used,
  and its fee and its proving are those of a task that is not told. -/
  environment : DeployEnvironment
  confirmTransactions : Bool
  txId : DeployBackendRequest → JsString
  accepts : DeployBackendRequest → Bool
  /-- Where something fails after the confirmation: whether the record is there by then. -/
  recorded : DeployBackendRequest → Bool
  /-- The second look at a program that is there: whether a record is made of what it finds. -/
  degrade : JsString → Except JsString Bool
  /-- `LIONDEN_PROVE`, when the context was made. -/
  prove : Bool

section Task

variable (s : Surroundings)

/-- `shouldConfirm`. -/
def Surroundings.confirms (options : DeployCallOptions) : Bool :=
  !options.skipConfirm && s.confirmTransactions

/-- Step 14: the programs that a record is made for, and how it ends. -/
def reconcile : List ProgramPreflightOutcome → List JsString × Except JsString Unit
  | [] => ([], .ok ())
  | outcome :: rest =>
    if outcome.action = .skip ∧ outcome.reason = some .alreadyDeployed ∧ outcome.record.isNone then
      match s.degrade outcome.programId with
      | .error message => ([], .error message)
      | .ok exists_ =>
        let (ids, result) := reconcile rest
        (if exists_ then outcome.programId :: ids else ids, result)
    else reconcile rest

/-- A transaction that is rejected fails where its confirmation is awaited. -/
def fateOf (options : DeployCallOptions) (request : DeployBackendRequest) : Fate :=
  match s.environment.fate request with
  | .notSent message => .notSent message
  | .sent failure =>
    if s.confirms options ∧ ¬s.accepts request then
      .sent (some (js "Deploy transaction " ++ s.txId request ++ js " was rejected on-chain."))
    else .sent failure

/-- Whether a request that is broadcast is recorded. -/
def isRecorded (options : DeployCallOptions) (request : DeployBackendRequest) : Bool :=
  match fateOf s options request with
  | .notSent _ => false
  | .sent none => true
  | .sent (some _) => (!s.confirms options || s.accepts request) && s.recorded request

/-- The environment of the run: `getCached` is what is read on a devnode that is ephemeral. -/
def taskEnvironment (w : World) (program : ProgramDeploymentTarget)
    (options : DeployCallOptions) : DeployEnvironment :=
  { s.environment with
    options :=
      { program :=
          if program.rename.isSome then program.sourceId else programNameFromTarget program
        rename := program.rename.getD []
        noCompile := options.noCompile
        preflight := false
        dryRun := false
        noSkipDeployed := options.noSkipDeployed }
    existingRecord := fun id => .ok ((w.cache id).map fun record => ⟨record.sourceProgramId⟩)
    reconcile := fun outcomes => (reconcile s outcomes).2
    fee := options.priorityFee.getD s.environment.fee
    prove :=
      if options.prove.isSome ∨ s.prove then options.prove.getD s.prove else s.environment.prove
    fate := fateOf s options }

def sentOf (options : DeployCallOptions) (request : DeployBackendRequest) : Sent where
  programId := request.programId
  sourceProgramId := request.sourceProgramId
  txId := s.txId request
  accepted := s.accepts request
  confirmed := s.confirms options

/-- The record of a transaction that is sent. -/
def completeRecord (sent : Sent) : CachedDeploymentRecord where
  status := .complete
  programId := sent.programId
  txId := some sent.txId
  sourceProgramId := sent.sourceProgramId

/-- The record of a program that is found on the chain. -/
def degradedRecord (programId : JsString) : CachedDeploymentRecord where
  status := .degraded
  programId
  txId := none
  sourceProgramId := none

/-- `manager.record`, on an ephemeral network. -/
def World.record (w : World) (record : CachedDeploymentRecord) : World :=
  { w with cache := Function.update w.cache record.programId (some record) }

/-- A request is broadcast, and recorded if it comes to that. -/
def World.broadcast (w : World) (options : DeployCallOptions) (request : DeployBackendRequest) :
    World :=
  let sent := sentOf s options request
  let w := { w with ledger := w.ledger ++ [sent] }
  if isRecorded s options request then w.record (completeRecord sent) else w

/-- The programs that step 14 makes a record for; it is not reached with errors. -/
def reconciledIds (env : DeployEnvironment) : List JsString :=
  match checkTargets env with
  | .error _ => []
  | .ok checked => if checked.result.passed then (reconcile s checked.result.programs).1 else []

/-- `lre.tasks.run("deploy", …)`: what it leaves, and the run. -/
def runDeployTask (w : World) (program : ProgramDeploymentTarget)
    (options : DeployCallOptions) : World × DeployRun :=
  let env := taskEnvironment s w program options
  let run := deployAction env
  let reconciled := (reconciledIds s env).foldl (fun w id => w.record (degradedRecord id)) w
  (run.broadcasts.foldl (fun w request => w.broadcast s options request) reconciled, run)

/-! ## The calls -/

structure DeployCallResult where
  programId : JsString
  txId : JsString

/-- A complete record with an id has it. -/
def isCompleteDeploymentWithTxId (record : Option CachedDeploymentRecord) : Option JsString :=
  (record.filter (·.status = .complete)).bind fun record => record.txId.filter (· ≠ [])

/-- The id of a record that is complete and has the source that is expected. -/
def isCompleteMatchingRecord (record : Option CachedDeploymentRecord) (normalizedId : JsString)
    (expectedSourceProgramId : Option JsString) : Option JsString :=
  isCompleteDeploymentWithTxId (record.filter fun record =>
    match expectedSourceProgramId with
    | none => record.sourceProgramId = none ∨ record.sourceProgramId = some normalizedId
    | some expected =>
      record.programId = normalizedId ∧ record.sourceProgramId = some expected)

/-- A run without failure has a result for each of its broadcasts. -/
def getDeployResults (run : DeployRun) : Except JsString (List DeployCallResult) :=
  let unexpected (mode : JsString) : JsString :=
    js "Expected deploy task to return mode \"deploy\", got \"" ++ mode ++ js "\". " ++
      js "This may indicate --preflight or --dry-run was passed unexpectedly."
  match run.result with
  | .error message => .error message
  | .ok (.deploy _) => .ok (run.broadcasts.map fun r => ⟨r.programId, s.txId r⟩)
  | .ok (.preflight _) => .error (unexpected (js "preflight"))
  | .ok (.dryRun _) => .error (unexpected (js "dry-run"))

def statusName : Deploy.Status → JsString
  | .complete => js "complete"
  | .degraded => js "degraded"
  | .recovered => js "recovered"

def describeCachedDeployment : Option CachedDeploymentRecord → JsString
  | none => js "cached state: none"
  | some record =>
    if record.status = .complete then js "cached state: complete record without txId"
    else js "cached state: " ++ statusName record.status ++ js " record without txId"

def createEmptyDeployResultError (requestedProgram normalizedId networkName : JsString)
    (cached : Option CachedDeploymentRecord) : JsString :=
  js "Deploy task produced no transaction for \"" ++ requestedProgram ++ js "\" on network \"" ++
    networkName ++ js "\", and no complete cached deployment with a txId exists for \"" ++
    normalizedId ++ js "\" (" ++ describeCachedDeployment cached ++ js "). " ++
    js "Use { noSkipDeployed: true } when the recipe or test setup must fail instead of " ++
    js "reusing or skipping an existing deployment."

/-- A record that is there is used again. -/
def reusedTxId (w : World) (program : ProgramDeploymentTarget) : Option JsString :=
  isCompleteMatchingRecord (w.cache program.id) program.id program.expectedSourceProgramId

/-- What a call makes of a run of the task. It is the same with a rename and without one. -/
def resultOf (w : World) (run : DeployRun) (program : ProgramDeploymentTarget) :
    Except JsString DeployCallResult := do
  let results ← getDeployResults s run
  match results.find? fun result => normalizeProgramId result.programId = program.id with
  | some deployed => .ok ⟨normalizeProgramId deployed.programId, deployed.txId⟩
  | none =>
    match reusedTxId w program with
    | some txId => .ok ⟨program.id, txId⟩
    | none => .error (createEmptyDeployResultError (programNameFromTarget program) program.id
        s.environment.networkName (w.cache program.id))

/-- `ctx.deploy`. -/
def deploy (w : World) (program : ProgramDeploymentTarget) (options : DeployCallOptions) :
    World × Except JsString DeployCallResult :=
  match if options.noSkipDeployed then none else reusedTxId w program with
  | some txId => (w, .ok ⟨program.id, txId⟩)
  | none =>
    let (w', run) := runDeployTask s w program options
    (w', resultOf s w' run program)

end Task

def assertSnapshotReady : Option Bool → Except JsString Unit
  | none => .error (js "Snapshot/restore requires an auto-started devnode. " ++
      js "Call setup({ snapshotReset: true }).")
  | some false => .error (js "Snapshot/restore is unavailable on this devnode. " ++
      js "Call setup({ snapshotReset: true }) to start a storage-backed standalone aleo-devnode.")
  | some true => .ok ()

/-- `ctx.snapshot`: the devnode answers with the name of the snapshot that it has made, or fails. -/
def snapshot (w : World) (answer : Except JsString JsString) : World × Except JsString JsString :=
  match assertSnapshotReady w.capable, answer with
  | .error message, _ => (w, .error message)
  | .ok (), .error message => (w, .error message)
  | .ok (), .ok name =>
    ({ w with snapshots := Function.update w.snapshots name (some w.ledger) }, .ok name)

/-- How the restoring of a devnode ends: it stops, its storage is rewritten, and it starts again. -/
inductive RestoreEnd where
  | restored
  /-- The command fails, and leaves a ledger. -/
  | notRewritten (message : JsString) (ledger : List Sent)
  /-- The devnode does not start again, and has forgotten where its storage is. -/
  | notStarted (message : JsString)

/-- `ctx.restore`. -/
def restore (w : World) (name : JsString) (end_ : RestoreEnd) : World × Except JsString Unit :=
  match assertSnapshotReady w.capable, w.snapshots name, end_ with
  | .error message, _, _ => (w, .error message)
  | .ok (), _, .notRewritten message ledger => ({ w with ledger }, .error message)
  | .ok (), none, _ => (w, .error (js "aleo-devnode restore failed (code 1)."))
  | .ok (), some ledger, .notStarted message =>
    ({ w with ledger, capable := some false }, .error message)
  | .ok (), some ledger, .restored => ({ w with ledger, cache := fun _ => none }, .ok ())

/-! ## Runs -/

inductive Event where
  /-- A context is opened, with a devnode that has a ledger and snapshots. -/
  | setup (capable : Bool) (ledger : List Sent) (snapshots : JsString → Option (List Sent))
  | deploy (program : ProgramDeploymentTarget) (options : DeployCallOptions) (s : Surroundings)
  | snapshot (answer : Except JsString JsString)
  | restore (name : JsString) (end_ : RestoreEnd)
  | teardown

/-- A devnode is not started while there is one, and nothing is called on a context that is torn
down. -/
def Event.step (w : World) : Event → World
  | .setup capable ledger snapshots =>
    if w.capable.isSome then w else { w with capable := some capable, ledger, snapshots }
  | .deploy program options s => if w.capable.isNone then w else (TestContext.deploy s w program options).1
  | .snapshot answer => (TestContext.snapshot w answer).1
  | .restore name end_ => (TestContext.restore w name end_).1
  | .teardown => { w with capable := none, cache := fun _ => none }

/-! ## What the task sends -/

theorem mem_of_mem_foldl {ids ordered : List JsString} {id : JsString}
    (h : id ∈ ids.foldl (fun ordered id => if id ∈ ordered then ordered else ordered ++ [id])
      ordered) : id ∈ ordered ∨ id ∈ ids := by
  induction ids generalizing ordered with
  | nil => exact .inl h
  | cons first ids ih =>
    rw [List.foldl_cons] at h
    rcases ih h with h | h
    · split at h
      · exact .inl h
      · rcases List.mem_append.mp h with h | h
        · exact .inl h
        · exact .inr (List.mem_singleton.mp h ▸ List.mem_cons_self)
    · exact .inr (List.mem_cons_of_mem _ h)

/-- The programs that are selected are local ones. -/
theorem resolveDeployTargets_local {parseImports : JsString → List JsString → List JsString}
    {units : List DiscoveredUnit} {graph : DependencyGraph}
    (hgraph : Follows parseImports units graph) {candidates ids : List JsString}
    {targetProgram : JsString} (hlocal : ∀ id ∈ candidates, id ∈ programIds units)
    (h : resolveDeployTargets candidates (programIds units) graph targetProgram = .ok ids) :
    ∀ id ∈ ids, id ∈ programIds units := by
  intro id hid
  unfold resolveDeployTargets at h
  split at h
  · cases h
    rcases mem_of_mem_foldl hid with hid | hid
    · exact (mem_programIds_order hgraph).mp (List.mem_filter.mp hid).1
    · exact hlocal id hid
  · dsimp only at h
    split at h
    · cases h
    next hcandidate =>
    cases h
    have hroot := hlocal _ (not_not.mp hcandidate)
    rcases (mem_closure_iff hgraph hroot).mp hid with rfl | hreached
    · exact hroot
    · exact hreached.2

/-- The targets are local programs, under the ids that they are deployed as. -/
theorem deployTargets_local {parseImports : JsString → List JsString → List JsString}
    {discovered : List DiscoveredUnit} {options : DeployOptions} {config : DeployConfig}
    {compiledIds targets : List JsString} {graph : DependencyGraph} {plan : Option RenamePlan}
    (h : deployTargets parseImports discovered options config compiledIds =
      .ok (graph, plan, targets)) :
    validateDeployRename options config graph = .ok plan ∧
      ∀ id ∈ targets, ∃ a ∈ programIds discovered, id = targetOf plan a := by
  obtain ⟨graph', hgraph, h⟩ := Fallible.bind_ok.mp h
  obtain ⟨plan', hplan, h⟩ := Fallible.bind_ok.mp h
  dsimp only at h
  split at h
  · cases h
  obtain ⟨ids, hids, h⟩ := Fallible.bind_ok.mp h
  cases h
  refine ⟨hplan, fun id hid => ?_⟩
  obtain ⟨a, ha, rfl⟩ := List.mem_map.mp hid
  refine ⟨a, resolveDeployTargets_local (follows (resolved hgraph).2) ?_ hids a ha, rfl⟩
  unfold candidateIds
  intro id hid
  split at hid
  · exact hid
  split at hid
  · exact hid
  · exact of_decide_eq_true (List.mem_filter.mp hid).2

/-- What is sent of a program is as its environment has it, and all of it goes well if the run does. -/
theorem deployPrograms_fates (env : DeployEnvironment) (checked : Checked) (ids : List JsString) :
    (∀ r ∈ (deployPrograms env checked ids).1, ∃ failure, env.fate r = .sent failure) ∧
      ∀ done, (deployPrograms env checked ids).2 = .ok done →
        ∀ r ∈ (deployPrograms env checked ids).1, env.fate r = .sent none := by
  have hnothing {done : Except JsString (List JsString)} :
      (∀ r ∈ ([] : List DeployBackendRequest), ∃ failure, env.fate r = .sent failure) ∧
        ∀ ids, done = .ok ids → ∀ r ∈ ([] : List DeployBackendRequest), env.fate r = .sent none :=
    ⟨List.forall_mem_nil _, fun _ _ => List.forall_mem_nil _⟩
  induction ids with
  | nil => exact hnothing
  | cons id ids ih =>
    unfold deployPrograms
    split
    · exact hnothing
    next aleoSource _ =>
    split
    · exact hnothing
    dsimp only
    split
    · exact hnothing
    · next message hfate =>
      exact ⟨List.forall_mem_singleton.mpr ⟨_, hfate⟩, fun _ h => absurd h (by simp)⟩
    · next hfate =>
      refine ⟨List.forall_mem_cons.mpr ⟨⟨_, hfate⟩, ih.1⟩, fun done h => ?_⟩
      obtain ⟨rest, hrest, -⟩ := Fallible.map_ok.mp h
      exact List.forall_mem_cons.mpr ⟨hfate, ih.2 rest hrest⟩

/-- The programs that are deployed are the targets that are not on the chain. -/
theorem checkTargets_targets {env : DeployEnvironment} {checked : Checked}
    (h : checkTargets env = .ok checked) : ∃ targetIds,
      deployTargets env.parseImports env.discovered env.options env.config env.artifacts.programIds =
        .ok (checked.graph, checked.plan, targetIds) ∧
      toDeployIds checked.result.programs =
        targetIds.filter fun id => actionOf env.chain id = .deploy := by
  obtain ⟨-, -, h⟩ := Fallible.bind_ok.mp h
  obtain ⟨⟨graph, plan, targetIds⟩, htargets, h⟩ := Fallible.bind_ok.mp h
  obtain ⟨-, -, h⟩ := Fallible.bind_ok.mp h
  obtain ⟨signerPrivateKey, -, h⟩ := Fallible.bind_ok.mp h
  obtain ⟨programs, hprograms, h⟩ := Fallible.bind_ok.mp h
  obtain ⟨result, hresult, h⟩ := Fallible.bind_ok.mp h
  obtain ⟨-, -, h⟩ := Fallible.bind_ok.mp h
  cases h
  refine ⟨targetIds, htargets, ?_⟩
  rw [toDeployIds_eq hresult, ← map_programId_of_preflightProgramsOf hprograms]
  rfl

/-- What a run of the task sends: programs that are not on the chain, under the ids of local programs
or of the rename. -/
structure Sends (env : DeployEnvironment) (request : DeployBackendRequest) : Prop where
  unknown : env.chain.source request.programId = none
  sent : ∃ failure, env.fate request = .sent failure
  planned : ∃ graph plan, validateDeployRename env.options env.config graph = .ok plan ∧
    request.source = sourceOf plan request.programId ∧
    ∃ a ∈ programIds env.discovered, request.programId = targetOf plan a

theorem deployAction_sends (env : DeployEnvironment) :
    (∀ r ∈ (deployAction env).broadcasts, Sends env r) ∧
      ∀ ids, (deployAction env).result = .ok (.deploy ids) →
        ∀ r ∈ (deployAction env).broadcasts, env.fate r = .sent none := by
  have hsilent (result : Except JsString DeployTaskResult) :
      (∀ r ∈ (DeployRun.silent result).broadcasts, Sends env r) ∧
        ∀ ids, (DeployRun.silent result).result = .ok (.deploy ids) →
          ∀ r ∈ (DeployRun.silent result).broadcasts, env.fate r = .sent none :=
    ⟨nofun, fun _ _ => nofun⟩
  unfold deployAction
  split
  · exact hsilent _
  next checked hchecked =>
  split
  · exact hsilent _
  split
  · exact hsilent _
  split
  · split
    · exact hsilent _
    · exact hsilent _
  split
  · exact hsilent _
  dsimp only
  obtain ⟨hsent, hsources⟩ :=
    deployPrograms_broadcasts env checked (toDeployIds checked.result.programs)
  obtain ⟨hfates, hdone⟩ := deployPrograms_fates env checked (toDeployIds checked.result.programs)
  obtain ⟨targetIds, htargets, htoDeploy⟩ := checkTargets_targets hchecked
  obtain ⟨hplan, hlocal⟩ := deployTargets_local htargets
  refine ⟨fun r hr => ?_, fun ids h => ?_⟩
  · have hid := hsent.subset (List.mem_map_of_mem hr)
    rw [htoDeploy, List.mem_filter] at hid
    exact ⟨actionOf_eq_deploy.mp (of_decide_eq_true hid.2), hfates r hr,
      _, _, hplan, hsources r hr, hlocal _ hid.1⟩
  · obtain ⟨done, hok, -⟩ := Fallible.map_ok.mp h
    exact hdone done hok

/-! ## The cache and the ledger -/

/-- A transaction that is on the chain, or was sent without waiting for it. -/
def Sent.Lives (sent : Sent) : Prop := sent.confirmed = true → sent.accepted = true

/-- A complete record is of a transaction that the ledger has; without a context the cache is empty. -/
structure Live (w : World) : Prop where
  named : ∀ id record, w.cache id = some record → record.programId = id
  backed : ∀ id record, w.cache id = some record → record.status = .complete →
    ∃ sent ∈ w.ledger, record = completeRecord sent ∧ sent.Lives
  closed : w.capable = none → ∀ id, w.cache id = none

theorem Live.new : Live .new := ⟨nofun, nofun, fun _ _ => rfl⟩

/-- The cache is emptied. -/
theorem Live.of_empty {w : World} (h : ∀ id, w.cache id = none) : Live w where
  named id _ hcached := absurd ((h id).symm.trans hcached) (by simp)
  backed id _ hcached := absurd ((h id).symm.trans hcached) (by simp)
  closed _ := h

theorem Live.record {w : World} (h : Live w) (hopen : w.capable ≠ none)
    {record : CachedDeploymentRecord} (hrecord : record.status = .complete →
      ∃ sent ∈ w.ledger, record = completeRecord sent ∧ sent.Lives) : Live (w.record record) where
  named id r hcached := by
    change Function.update w.cache _ _ id = _ at hcached
    by_cases hid : id = record.programId
    · rw [hid, Function.update_self] at hcached
      rw [hid, ← Option.some.inj hcached]
    · rw [Function.update_of_ne hid] at hcached
      exact h.named id r hcached
  backed id r hcached := by
    change Function.update w.cache _ _ id = _ at hcached
    by_cases hid : id = record.programId
    · rw [hid, Function.update_self] at hcached
      rw [← Option.some.inj hcached]
      exact hrecord
    · rw [Function.update_of_ne hid] at hcached
      exact h.backed id r hcached
  closed hclosed := absurd hclosed hopen

section Task

variable {s : Surroundings} {options : DeployCallOptions} {w : World}

/-- What is recorded was not rejected, or not waited for. -/
theorem lives_of_isRecorded {request : DeployBackendRequest}
    (h : isRecorded s options request = true) : (sentOf s options request).Lives := by
  intro hconfirms
  change s.confirms options = true at hconfirms
  change s.accepts request = true
  by_contra hrejected
  unfold isRecorded fateOf at h
  split at h
  · cases h
  · next hfate =>
    split at hfate
    · cases hfate
    · rw [if_pos ⟨hconfirms, hrejected⟩] at hfate
      cases hfate
  · simp [hconfirms, hrejected] at h

theorem lives_of_fateOf {request : DeployBackendRequest}
    (h : fateOf s options request = .sent none) : (sentOf s options request).Lives :=
  lives_of_isRecorded (by rw [isRecorded, h])

theorem broadcast_ledger (request : DeployBackendRequest) :
    (w.broadcast s options request).ledger = w.ledger ++ [sentOf s options request] := by
  unfold World.broadcast
  dsimp only
  split <;> rfl

theorem broadcast_capable (request : DeployBackendRequest) :
    (w.broadcast s options request).capable = w.capable := by
  unfold World.broadcast
  dsimp only
  split <;> rfl

theorem Live.broadcast (h : Live w) (hopen : w.capable ≠ none) (request : DeployBackendRequest) :
    Live (w.broadcast s options request) := by
  have hsent : Live { w with ledger := w.ledger ++ [sentOf s options request] } :=
    { h with
      backed := fun id record hcached hcomplete =>
        (h.backed id record hcached hcomplete).imp fun sent hlive =>
          ⟨List.mem_append_left _ hlive.1, hlive.2⟩ }
  unfold World.broadcast
  dsimp only
  split
  · next hrecorded =>
    exact hsent.record hopen fun _ =>
      ⟨_, List.mem_append_right _ (List.mem_singleton_self _), rfl, lives_of_isRecorded hrecorded⟩
  · exact hsent

theorem Live.broadcasts (h : Live w) (hopen : w.capable ≠ none)
    (requests : List DeployBackendRequest) :
    let w' := requests.foldl (fun w request => w.broadcast s options request) w
    Live w' ∧ w'.ledger = w.ledger ++ requests.map (sentOf s options) := by
  induction requests generalizing w with
  | nil => exact ⟨h, (List.append_nil _).symm⟩
  | cons request requests ih =>
    have hnext : Live (w.broadcast s options request) := h.broadcast hopen request
    obtain ⟨hlive, hledger⟩ := ih hnext (by rwa [broadcast_capable])
    refine ⟨hlive, hledger.trans ?_⟩
    rw [broadcast_ledger, List.append_assoc, List.map_cons, List.singleton_append]

theorem Live.degraded (h : Live w) (hopen : w.capable ≠ none) (ids : List JsString) :
    let w' := ids.foldl (fun w id => w.record (degradedRecord id)) w
    Live w' ∧ w'.ledger = w.ledger ∧ w'.capable = w.capable := by
  induction ids generalizing w with
  | nil => exact ⟨h, rfl, rfl⟩
  | cons id ids ih => exact ih (h.record hopen nofun) hopen

/-- A run of the task keeps the cache in line, and adds to the ledger what it sends. -/
theorem runDeployTask_live (h : Live w) (hopen : w.capable ≠ none)
    (program : ProgramDeploymentTarget) :
    let (w', run) := runDeployTask s w program options
    Live w' ∧ w'.ledger = w.ledger ++ run.broadcasts.map (sentOf s options) := by
  obtain ⟨hdegraded, hledger, hcapable⟩ :=
    h.degraded hopen (reconciledIds s (taskEnvironment s w program options))
  rw [← hledger]
  exact hdegraded.broadcasts (by rwa [hcapable]) _

end Task

/-- A restore empties the cache, or fails and keeps it. -/
theorem restore_cases (w : World) (name : JsString) (end_ : RestoreEnd) :
    (∀ id, (restore w name end_).1.cache id = none) ∨
      (restore w name end_).1.cache = w.cache ∧
        ((restore w name end_).1.capable = none → w.capable = none) ∧
        ∃ message, (restore w name end_).2 = .error message := by
  unfold restore
  split
  · exact .inr ⟨rfl, id, _, rfl⟩
  · exact .inr ⟨rfl, id, _, rfl⟩
  · exact .inr ⟨rfl, id, _, rfl⟩
  · exact .inr ⟨rfl, nofun, _, rfl⟩
  · exact .inl fun _ => rfl

/-- A restore that fails leaves the ledger as it was. -/
def Careful (w : World) : Event → Prop
  | .restore name end_ => ∀ message, (restore w name end_).2 = .error message →
      (restore w name end_).1.ledger = w.ledger
  | _ => True

theorem Live.restore {w : World} (h : Live w) {name : JsString} {end_ : RestoreEnd}
    (hcareful : Careful w (.restore name end_)) : Live (restore w name end_).1 := by
  rcases restore_cases w name end_ with hempty | ⟨hcache, hopen, message, hfailed⟩
  · exact .of_empty hempty
  have hledger := hcareful message hfailed
  refine ⟨?_, ?_, fun hclosed => ?_⟩
  · rw [hcache]
    exact h.named
  · rw [hcache, hledger]
    exact h.backed
  · rw [hcache]
    exact h.closed (hopen hclosed)

theorem Live.step {w : World} (h : Live w) {event : Event} (hcareful : Careful w event) :
    Live (event.step w) := by
  cases event with
  | setup capable ledger snapshots =>
    unfold Event.step
    dsimp only
    split
    · exact h
    next hclosed =>
    exact .of_empty (h.closed (by simpa using hclosed))
  | deploy program options s =>
    unfold Event.step
    dsimp only
    split
    · exact h
    next hopen =>
    unfold deploy
    dsimp only
    split
    · exact h
    · exact (runDeployTask_live h (by simpa using hopen) _).1
  | snapshot answer =>
    unfold Event.step snapshot
    dsimp only
    split
    · exact h
    · exact h
    · exact ⟨h.named, h.backed, h.closed⟩
  | restore name end_ => exact h.restore hcareful
  | teardown => exact .of_empty fun _ => rfl

/-! ## What a call returns -/

theorem normalizeProgramId_normalized (raw : JsString) :
    normalizeProgramId (normalizeProgramId raw) = normalizeProgramId raw := by
  unfold normalizeProgramId
  by_cases h : endsWith raw (js ".aleo") = true
  · simp only [if_pos h]
  · rw [if_neg h, if_pos]
    simp [endsWith]

theorem targetOf_normalized {plan : RenamePlan} {id : JsString} (hid : normalizeProgramId id = id)
    (htarget : normalizeProgramId plan.targetProgramId = plan.targetProgramId) :
    normalizeProgramId (targetOf (some plan) id) = targetOf (some plan) id := by
  unfold targetOf
  dsimp only
  split
  · exact htarget
  · exact hid

theorem trim_normalizeProgramId (raw : JsString) : trim (normalizeProgramId raw) ≠ [] := by
  intro hnil
  have hends : js ".aleo" <:+ normalizeProgramId raw := by
    unfold normalizeProgramId
    split
    · next h => exact of_decide_eq_true h
    · exact List.suffix_append ..
  have hspace := spaces_of_trim hnil (unit 'o') (hends.subset (by decide))
  exact absurd hspace (by decide)

/-- The plan of a rename is what the options say. -/
theorem validateDeployRename_cases {options : DeployOptions} {config : DeployConfig}
    {graph : DependencyGraph} {plan : Option RenamePlan}
    (h : validateDeployRename options config graph = .ok plan) :
    trim options.rename = [] ∧ plan = none ∨
      plan = some ⟨normalizeProgramId options.program, normalizeProgramId (trim options.rename)⟩ ∧
        trim options.rename ≠ [] := by
  unfold validateDeployRename at h
  dsimp only at h
  split at h
  · next hnone =>
    cases h
    exact .inl ⟨hnone, rfl⟩
  next hrename =>
  split at h
  · cases h
  split at h
  · cases h
  split at h
  · cases h
  split at h
  · cases h
  · cases h
    exact .inr ⟨rfl, hrename⟩

theorem isCompleteDeploymentWithTxId_eq_some {record : Option CachedDeploymentRecord}
    {txId : JsString} (h : isCompleteDeploymentWithTxId record = some txId) :
    ∃ r, record = some r ∧ r.status = .complete ∧ r.txId = some txId := by
  obtain ⟨r, hr, htx⟩ := Option.bind_eq_some_iff.mp h
  obtain ⟨hrecord, hstatus⟩ := Option.filter_eq_some_iff.mp hr
  exact ⟨r, hrecord, of_decide_eq_true hstatus, (Option.filter_eq_some_iff.mp htx).1⟩

/-- What is reused is on the ledger, with the source that is expected. -/
theorem Live.reused {w : World} (h : Live w) {id txId : JsString} {expected : Option JsString}
    (hreused : isCompleteMatchingRecord (w.cache id) id expected = some txId) :
    ∃ sent ∈ w.ledger, sent.programId = id ∧ sent.txId = txId ∧
      sent.source = expected.getD id ∧ sent.Lives := by
  obtain ⟨record, hrecord, hcomplete, htx⟩ := isCompleteDeploymentWithTxId_eq_some hreused
  obtain ⟨hcached, hmatches⟩ := Option.filter_eq_some_iff.mp hrecord
  obtain ⟨sent, hmem, rfl, hlives⟩ := h.backed id record hcached hcomplete
  have hid : sent.programId = id := h.named id _ hcached
  refine ⟨sent, hmem, hid, Option.some.inj htx, ?_, hlives⟩
  unfold Sent.source
  cases expected with
  | none =>
    rcases of_decide_eq_true hmatches with hsource | hsource
    · rw [show sent.sourceProgramId = none from hsource]
      exact hid
    · rw [show sent.sourceProgramId = some id from hsource]
      rfl
  | some source =>
    rw [show sent.sourceProgramId = some source from (of_decide_eq_true hmatches).2]
    rfl

/-- A transaction deploys what a call asks for, under the id that the call returns. -/
structure Deploys (program : ProgramDeploymentTarget) (result : DeployCallResult) (sent : Sent) :
    Prop where
  programId : sent.programId = result.programId
  txId : sent.txId = result.txId
  source : sent.source = normalizeProgramId (sourceProgramNameFromTarget program)
  lives : sent.Lives

section Call

variable {s : Surroundings} {options : DeployCallOptions} {program : ProgramDeploymentTarget}

/-- A program with the id of the call is deployed from the source of the call. -/
theorem Sends.source_eq {w : World} {request : DeployBackendRequest}
    (hids : ∀ id ∈ programIds s.environment.discovered, Build.IsProgramId id)
    (h : Sends (taskEnvironment s w program options) request)
    (hfound : normalizeProgramId request.programId = program.id) :
    request.programId = program.id ∧ request.source = program.sourceId := by
  obtain ⟨graph, plan, hplan, hsource, a, ha, htarget⟩ := h.planned
  have hplan := validateDeployRename_cases hplan
  have hid : request.programId = program.id := by
    have ha : normalizeProgramId a = a := (hids a ha).normalized
    rw [← hfound, htarget]
    rcases hplan with ⟨-, rfl⟩ | ⟨rfl, -⟩
    · exact ha.symm
    · exact (targetOf_normalized ha (normalizeProgramId_normalized _)).symm
  refine ⟨hid, hsource.trans ?_⟩
  by_cases hsame : program.sourceId = program.id
  · have hrename : program.rename = none := if_pos hsame
    simp only [taskEnvironment, hrename, Option.getD_none] at hplan
    rcases hplan with ⟨-, rfl⟩ | ⟨-, hne⟩
    · exact hid.trans hsame.symm
    · exact absurd rfl hne
  · have hrename : program.rename = some program.id := if_neg hsame
    simp only [taskEnvironment, hrename, Option.getD_some, Option.isSome_some, if_true] at hplan
    rcases hplan with ⟨hnil, -⟩ | ⟨rfl, -⟩
    · exact absurd hnil (trim_normalizeProgramId _)
    -- A declared id is trimmed, so the target is the id of the call even where that is not.
    have hprogram : normalizeProgramId (trim program.id) = request.programId := by
      unfold targetOf at htarget
      dsimp only at htarget
      split at htarget
      · exact htarget.symm
      · rw [← hid, htarget, (hids a ha).trim, (hids a ha).normalized]
    rw [sourceOf]
    dsimp only
    rw [if_pos hprogram, ProgramDeploymentTarget.sourceId, normalizeProgramId_normalized]

end Call

/-- What is used again is a transaction for the call. -/
theorem Live.deploys {w : World} (h : Live w) {program : ProgramDeploymentTarget} {txId : JsString}
    (hreused : reusedTxId w program = some txId) :
    ∃ sent ∈ w.ledger, Deploys program ⟨program.id, txId⟩ sent := by
  obtain ⟨sent, hmem, hid, htx, hsource, hlives⟩ := h.reused hreused
  refine ⟨sent, hmem, hid, htx, hsource.trans ?_, hlives⟩
  unfold ProgramDeploymentTarget.expectedSourceProgramId ProgramDeploymentTarget.rename
  split
  · next hsame => exact hsame.symm
  · rfl

/-- So is what comes of a run of the task. -/
theorem resultOf_deploys {s : Surroundings} {w : World} {program : ProgramDeploymentTarget}
    {options : DeployCallOptions} {result : DeployCallResult}
    (hlive : Live (runDeployTask s w program options).1)
    (hledger : (runDeployTask s w program options).1.ledger =
      w.ledger ++ (runDeployTask s w program options).2.broadcasts.map (sentOf s options))
    (hids : ∀ id ∈ programIds s.environment.discovered, Build.IsProgramId id)
    (h : resultOf s (runDeployTask s w program options).1 (runDeployTask s w program options).2
      program = .ok result) :
    result.programId = program.id ∧
      ∃ sent ∈ (runDeployTask s w program options).1.ledger, Deploys program result sent := by
  obtain ⟨hsends, hdone⟩ := deployAction_sends (taskEnvironment s w program options)
  obtain ⟨results, hresults, h⟩ := Fallible.bind_ok.mp h
  split at h
  · next deployed hfound =>
    cases h
    have hid : normalizeProgramId deployed.programId = program.id := by
      simpa using List.find?_some hfound
    have hmem := List.mem_of_find?_eq_some hfound
    unfold getDeployResults at hresults
    dsimp only at hresults
    split at hresults
    · cases hresults
    · next ids hok =>
      cases hresults
      obtain ⟨r, hr, rfl⟩ := List.mem_map.mp hmem
      obtain ⟨hprogram, hsource⟩ := (hsends r hr).source_eq hids hid
      refine ⟨hid, sentOf s options r, ?_, hprogram.trans hid.symm, rfl, hsource,
        lives_of_fateOf (hdone ids hok r hr)⟩
      rw [hledger]
      exact List.mem_append_right _ (List.mem_map_of_mem hr)
    · cases hresults
    · cases hresults
  · split at h
    · next htx =>
      cases h
      exact ⟨rfl, hlive.deploys htx⟩
    · cases h

/-- **What `deploy` returns is on the ledger.** In every run of calls in which each restore that fails
has left the ledger as it was, over any number of contexts, and whatever fails in a deployment: where
`deploy` returns, the devnode has the transaction that it names, after all that has been rolled back.
It deploys the program that is asked for, from the source that is asked for; it was not rejected,
unless it was sent without waiting; and a call sends no program that its reads find on the chain. -/
theorem deploy_on_ledger {events : List Event} (hcareful : AllSteps Event.step Careful .new events)
    {w w' : World} (hrun : exec Event.step .new events = w) (hopen : w.capable ≠ none)
    {s : Surroundings} {program : ProgramDeploymentTarget} {options : DeployCallOptions}
    {programsDir : JsString} {programs : Option Build.Listing}
    (hdiscovered : Build.discoverUnits programsDir programs = .ok s.environment.discovered)
    {result : DeployCallResult} (h : deploy s w program options = (w', .ok result)) :
    result.programId = program.id ∧ (∃ sent ∈ w'.ledger, Deploys program result sent) ∧
      ∃ requests : List DeployBackendRequest,
        w'.ledger = w.ledger ++ requests.map (sentOf s options) ∧
        ∀ r ∈ requests, s.environment.chain.source r.programId = none := by
  have hlive : Live w := by
    have := AllSteps.invariant (I := Live) (fun _ _ hw hc => hw.step hc) Live.new hcareful
      events.length
    rwa [List.take_length, hrun] at this
  unfold deploy at h
  split at h
  · next hcached =>
    cases h
    split at hcached
    · cases hcached
    · exact ⟨rfl, hlive.deploys hcached, [], (List.append_nil _).symm, List.forall_mem_nil _⟩
  obtain ⟨rfl, hresult⟩ := Prod.mk.inj h
  obtain ⟨hlive', hledger⟩ := runDeployTask_live (s := s) hlive hopen program
  obtain ⟨hid, hdeploys⟩ := resultOf_deploys hlive' hledger
    (Build.isProgramId_of_discoverUnits hdiscovered) hresult
  exact ⟨hid, hdeploys, _, hledger, fun r hr => ((deployAction_sends _).1 r hr).unknown⟩

/-- A vault and a token. -/
def vaultPrograms : Build.Listing :=
  .dir (js "token") (.file (js "main.leo") (js "program token.aleo \x7b\x7d") .nil)
    (.dir (js "vault") (.file (js "main.leo") (js "program vault.aleo \x7b\x7d") .nil) .nil)

/-- A program of the only file in its folder. -/
def folderUnit (name : String) (object : Nat) : DiscoveredUnit where
  kind := .program (js name ++ js ".aleo")
  sourceDir := js "/programs/" ++ js name
  entryFile := js "/programs/" ++ js name ++ js "/main.leo"
  allSources := [js "main.leo"]
  object := object

/-- Nothing fails. -/
def vaultSurroundings : Surroundings where
  environment :=
    { vaultEnvironment with
      parseImports := fun sourceDir _ =>
        if sourceDir = js "/programs/vault" then [js "token.aleo"] else []
      discovered := [folderUnit "token" 0, folderUnit "vault" 1] }
  confirmTransactions := true
  txId := fun request => js "at1" ++ request.programId
  accepts := fun _ => true
  recorded := fun _ => true
  degrade := fun _ => .ok true
  prove := false

def vaultCall : DeployCallOptions where
  priorityFee := none
  skipConfirm := false
  noCompile := false
  noSkipDeployed := false
  prove := none

/-- The vault is deployed, and rolled back. -/
def rolledBack : List Event :=
  [.setup true [] fun _ => none, .snapshot (.ok (js "clean")),
    .deploy (.name (js "vault")) vaultCall vaultSurroundings, .restore (js "clean") .restored]

/-- It is deployed again. -/
theorem deploy_on_ledger_again : ∃ w' result,
    (exec Event.step .new rolledBack).ledger = [] ∧
    deploy vaultSurroundings (exec Event.step .new rolledBack) (.name (js "vault")) vaultCall =
      (w', .ok result) ∧
    ∃ sent ∈ w'.ledger, Deploys (.name (js "vault")) result sent := by
  have hledger : (exec Event.step .new rolledBack).ledger = [] :=
    List.isEmpty_iff.mp (by decide +kernel)
  have hopen : (exec Event.step .new rolledBack).capable = some true := by decide +kernel
  have hrestored : (restore (exec Event.step .new (rolledBack.take 3)) (js "clean")
      .restored).2.toOption.isSome = true := by decide +kernel
  have hcareful : AllSteps Event.step Careful .new rolledBack := by
    intro k event hevent
    rcases k with _ | _ | _ | _ | k
    · cases hevent
      trivial
    · cases hevent
      trivial
    · cases hevent
      trivial
    · cases hevent
      intro message hfailed
      rw [hfailed] at hrestored
      cases hrestored
    · cases hevent
  have hdiscovered : Build.discoverUnits (js "/programs") (some vaultPrograms) =
      .ok vaultSurroundings.environment.discovered := by decide +kernel
  have hok : (deploy vaultSurroundings (exec Event.step .new rolledBack) (.name (js "vault"))
      vaultCall).2.toOption.isSome = true := by decide +kernel
  cases hdeploy : deploy vaultSurroundings (exec Event.step .new rolledBack) (.name (js "vault"))
      vaultCall with
  | mk w' outcome =>
    cases outcome with
    | error message =>
      rw [hdeploy] at hok
      cases hok
    | ok result =>
      obtain ⟨-, hdeploys, -⟩ := deploy_on_ledger hcareful rfl (by rw [hopen]; exact nofun)
        hdiscovered hdeploy
      exact ⟨w', result, hledger, rfl, hdeploys⟩

end Lionden.Testing.TestContext
