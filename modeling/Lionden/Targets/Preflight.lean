import Lionden.Targets.Selection

/-!
# The preflight of a deployment

Before anything is sent, each target is looked up on the chain, and on a network of type `http` its
artifacts, its imports and the balance are checked.

* `checkAlreadyDeployed`, `checkImportsAvailable`, `checkBalanceSufficient`: the checks.
* `runDeployPreflight`: all of them, for one target after another.
* `runDeployPreflight_outcomes`: the targets that are skipped are those on the chain.
* `imports_exact_iff`: when the missing imports that are reported are those of programs.
-/

namespace Lionden.Targets

open Compiler

/-! ## What is checked -/

structure PreflightWarning where
  code : JsString
  message : JsString

structure PreflightError where
  code : JsString
  message : JsString
  recoverable : Bool

/-- What the checks use of a deployment record: the source of a program that was renamed. -/
structure ExistingRecord where
  sourceProgramId : Option JsString

inductive PreflightAction where
  | deploy
  | skip
  deriving DecidableEq

inductive SkipReason where
  | alreadyDeployed
  | alreadyInState
  deriving DecidableEq

structure ProgramPreflightOutcome where
  programId : JsString
  action : PreflightAction
  reason : Option SkipReason
  record : Option ExistingRecord
  feeEstimate : Option Nat

/-- The programs on the chain with their sources, and the reads that fail. -/
structure OnChain where
  source : JsString → Option JsString
  failure : JsString → Option JsString
  /-- `getBalance`, of an address or of the connection's own. -/
  balance : Option JsString → Except JsString Nat

def getProgramSource (chain : OnChain) (programId : JsString) : Except JsString (Option JsString) :=
  match chain.failure programId with
  | some message => .error message
  | none => .ok (chain.source programId)

/-- Whether the program exists. -/
def checkProgramOnChain (chain : OnChain) (programId : JsString) : Except JsString Bool := do
  let source ← getProgramSource chain programId
  .ok source.isSome

/-- The sources that are on the chain. -/
def fetchImportSources (chain : OnChain) (importIds : List JsString) :
    Except JsString (List (JsString × JsString)) := do
  let results ← importIds.mapM fun id => do
    let source ← getProgramSource chain id
    .ok (source.map (Prod.mk id))
  .ok (results.filterMap id)

structure FeeEstimate where
  estimate : Option Nat
  warning : Option PreflightWarning

structure FeeRequest where
  programId : JsString
  aleoSource : JsString
  importSources : List (JsString × JsString)
  signerPrivateKey : Option JsString

structure DeployBackend where
  estimateDeploymentFee : FeeRequest → Except JsString FeeEstimate
  /-- `tryDeriveAddress`. -/
  deriveAddress : JsString → Option JsString

structure PreflightProgram where
  programId : JsString
  aleoSource : Option JsString
  existingRecord : Option ExistingRecord

structure RunDeployPreflightOptions where
  programs : List PreflightProgram
  chain : OnChain
  devnode : Bool
  backend : DeployBackend
  skipDeployed : Bool
  deployTargets : List JsString
  localSources : List (JsString × JsString)
  graph : DependencyGraph
  signerPrivateKey : Option JsString

/-! ## The checks -/

def alreadyDeployed (programId : JsString) : PreflightError where
  code := js "ALREADY_DEPLOYED"
  message := js "Program \"" ++ programId ++ js "\" is already deployed on-chain and " ++
    js "--no-skip-deployed was specified. Remove the flag to skip it."
  recoverable := false

def missingArtifacts (programId : JsString) : PreflightError where
  code := js "MISSING_ARTIFACTS"
  message := js "No compiled .aleo source found for \"" ++ programId ++ js "\". " ++
    js "Run `lionden compile` before running preflight."
  recoverable := false

def missingImport (programId importId : JsString) : PreflightError where
  code := js "MISSING_IMPORT"
  message := js "Program \"" ++ programId ++ js "\" imports \"" ++ importId ++
    js "\" which is not deployed on-chain and not scheduled for deployment in this run."
  recoverable := false

/-- The outcome of a program that is to be deployed. -/
def deployOutcome (programId : JsString) (feeEstimate : Option Nat) : ProgramPreflightOutcome where
  programId
  action := .deploy
  reason := none
  record := none
  feeEstimate

def skipOutcome (programId : JsString) (reason : SkipReason) (record : Option ExistingRecord) :
    ProgramPreflightOutcome where
  programId
  action := .skip
  reason := some reason
  record
  feeEstimate := none

def checkAlreadyDeployed (chain : OnChain) (programId : JsString)
    (existingRecord : Option ExistingRecord) (skipDeployed : Bool) :
    Except JsString (ProgramPreflightOutcome × Option PreflightError) := do
  let found ← checkProgramOnChain chain programId
  if ¬ found then .ok (deployOutcome programId none, none)
  else if ¬ skipDeployed then
    .ok (skipOutcome programId .alreadyDeployed existingRecord, some (alreadyDeployed programId))
  else
    let reason := if existingRecord.isSome then .alreadyInState else .alreadyDeployed
    .ok (skipOutcome programId reason existingRecord, none)

def checkImport (chain : OnChain) (programId : JsString) (deployTargets : List JsString)
    (localSources : List (JsString × JsString)) (importId : JsString) :
    Except JsString (Option PreflightError) :=
  if importId ∈ deployTargets then .ok none
  else if (localSources.lookup importId).isSome then .ok none
  else do
    let found ← checkProgramOnChain chain importId
    if found then .ok none else .ok (some (missingImport programId importId))

def checkImportsAvailable (chain : OnChain) (graph : DependencyGraph) (programId : JsString)
    (deployTargets : List JsString) (localSources : List (JsString × JsString)) :
    Except JsString (List PreflightError) := do
  let errors ← (graph.importsOf programId).mapM
    (checkImport chain programId deployTargets localSources)
  .ok (errors.filterMap id)

def insufficientBalance (balance totalEstimate : Nat) : PreflightError where
  code := js "INSUFFICIENT_BALANCE"
  message := js "Deployer balance (" ++ decimal balance ++
    js " microcredits) is less than the estimated total fee (" ++ decimal totalEstimate ++
    js " microcredits). Deployment will likely fail."
  recoverable := false

def lowBalance (balance totalEstimate : Nat) : PreflightWarning where
  code := js "LOW_BALANCE"
  message := js "Deployer balance (" ++ decimal balance ++
    js " microcredits) is less than 1.5x the estimated total fee (" ++ decimal totalEstimate ++
    js " microcredits). Consider adding more credits to cover fees."

def checkBalanceSufficient (chain : OnChain) (totalEstimate : Nat)
    (signerAddress : Option JsString) :
    Except JsString (Option PreflightWarning × Option PreflightError) :=
  if totalEstimate = 0 then .ok (none, none)
  else do
    let balance ← chain.balance signerAddress
    if balance < totalEstimate then .ok (none, some (insufficientBalance balance totalEstimate))
    else if balance < totalEstimate * 3 / 2 then
      .ok (some (lowBalance balance totalEstimate), none)
    else .ok (none, none)

/-! ## The run -/

structure PreflightState where
  warnings : List PreflightWarning
  errors : List PreflightError
  programs : List ProgramPreflightOutcome
  confirmedDeployTargets : List JsString
  totalFeeEstimate : Option Nat

structure DeployPreflightResult where
  passed : Bool
  warnings : List PreflightWarning
  errors : List PreflightError
  programs : List ProgramPreflightOutcome
  totalFeeEstimate : Option Nat

section Run

variable (opts : RunDeployPreflightOptions)

/-- A source that is there and not empty. -/
def localSource (importId : JsString) : Option JsString :=
  (opts.localSources.lookup importId).filter (· ≠ [])

def importSourcesForFee (programId : JsString) : Except JsString (List (JsString × JsString)) := do
  let importIds := opts.graph.importsOf programId
  let localOnes := importIds.filterMap fun id => (localSource opts id).map (Prod.mk id)
  let fetched ← fetchImportSources opts.chain
    (importIds.filter fun id => (localSource opts id).isNone)
  .ok (localOnes ++ fetched)

def addEstimate (total estimate : Option Nat) : Option Nat :=
  match estimate with
  | some e => some (total.getD 0 + e)
  | none => total

/-- One turn of the loop. -/
def preflightProgram (st : PreflightState) (prog : PreflightProgram) :
    Except JsString PreflightState := do
  let (deployedOutcome, deployedErr) ← checkAlreadyDeployed opts.chain prog.programId
    prog.existingRecord opts.skipDeployed
  match deployedErr with
  | some e =>
    .ok { st with errors := st.errors ++ [e], programs := st.programs ++ [deployedOutcome] }
  | none =>
    if deployedOutcome.action = .skip then
      .ok { st with
        programs := st.programs ++ [deployedOutcome]
        confirmedDeployTargets := st.confirmedDeployTargets.filter (· ≠ prog.programId) }
    else if opts.devnode then
      .ok { st with programs := st.programs ++ [deployOutcome prog.programId none] }
    else
      match prog.aleoSource with
      | none =>
        .ok { st with
          errors := st.errors ++ [missingArtifacts prog.programId]
          programs := st.programs ++ [deployOutcome prog.programId none] }
      | some aleoSource => do
        let importErrors ← checkImportsAvailable opts.chain opts.graph prog.programId
          st.confirmedDeployTargets opts.localSources
        if importErrors ≠ [] then
          .ok { st with
            errors := st.errors ++ importErrors
            programs := st.programs ++ [deployOutcome prog.programId none] }
        else do
          let importSources ← importSourcesForFee opts prog.programId
          let fee ← opts.backend.estimateDeploymentFee
            { programId := prog.programId
              aleoSource
              importSources
              signerPrivateKey := opts.signerPrivateKey }
          .ok { st with
            warnings := st.warnings ++ fee.warning.toList
            programs := st.programs ++ [deployOutcome prog.programId fee.estimate]
            totalFeeEstimate := addEstimate st.totalFeeEstimate fee.estimate }

def preflightStart : PreflightState where
  warnings := []
  errors := []
  programs := []
  confirmedDeployTargets := opts.deployTargets
  totalFeeEstimate := none

/-- The balance is checked against a total that is there and positive. -/
def checkBalance (st : PreflightState) : Except JsString PreflightState :=
  if opts.devnode then .ok st
  else match st.totalFeeEstimate with
    | none => .ok st
    | some total => do
      let (warning, error) ← checkBalanceSufficient opts.chain total
        (opts.signerPrivateKey.bind opts.backend.deriveAddress)
      .ok { st with
        warnings := st.warnings ++ warning.toList
        errors := st.errors ++ error.toList }

def runDeployPreflight : Except JsString DeployPreflightResult := do
  let st ← opts.programs.foldlM (preflightProgram opts) (preflightStart opts)
  let st ← checkBalance opts st
  .ok {
    passed := st.errors.isEmpty
    warnings := st.warnings
    errors := st.errors
    programs := st.programs
    totalFeeEstimate := st.totalFeeEstimate }

end Run

/-! ## What a turn does -/

theorem checkProgramOnChain_ok {chain : OnChain} {id : JsString} {found : Bool}
    (h : checkProgramOnChain chain id = .ok found) : found = (chain.source id).isSome := by
  unfold checkProgramOnChain getProgramSource at h
  cases hfailure : chain.failure id with
  | some message =>
    rw [hfailure] at h
    cases h
  | none =>
    rw [hfailure] at h
    cases h
    rfl

/-- A program that is on the chain is skipped, perhaps with an error, and every other is deployed. -/
theorem checkAlreadyDeployed_ok {chain : OnChain} {programId : JsString}
    {existingRecord : Option ExistingRecord} {skipDeployed : Bool}
    {outcome : ProgramPreflightOutcome} {error : Option PreflightError}
    (h : checkAlreadyDeployed chain programId existingRecord skipDeployed = .ok (outcome, error)) :
    outcome.programId = programId ∧
      (outcome.action = .deploy ∧ chain.source programId = none ∧ error = none ∨
        outcome.action = .skip ∧ chain.source programId ≠ none) := by
  obtain ⟨found, hfound, h⟩ := Fallible.bind_ok.mp h
  have hsource := checkProgramOnChain_ok hfound
  cases found with
  | false =>
    cases h
    have hnone : chain.source programId = none := by simpa using hsource.symm
    exact ⟨rfl, .inl ⟨rfl, hnone, rfl⟩⟩
  | true =>
    have hsome : chain.source programId ≠ none := Option.isSome_iff_ne_none.mp hsource.symm
    cases skipDeployed with
    | false =>
      cases h
      exact ⟨rfl, .inr ⟨rfl, hsome⟩⟩
    | true =>
      cases h
      exact ⟨rfl, .inr ⟨rfl, hsome⟩⟩

theorem checkImport_ok {chain : OnChain} {programId importId : JsString}
    {deployTargets : List JsString} {localSources : List (JsString × JsString)}
    {found : Option PreflightError}
    (h : checkImport chain programId deployTargets localSources importId = .ok found) :
    found = if importId ∉ deployTargets ∧ localSources.lookup importId = none ∧
      chain.source importId = none then some (missingImport programId importId) else none := by
  unfold checkImport at h
  split at h
  · next htarget =>
    cases h
    exact (if_neg fun hmissing => hmissing.1 htarget).symm
  split at h
  · next hlocal =>
    cases h
    rw [if_neg]
    rintro ⟨-, hnone, -⟩
    rw [hnone] at hlocal
    cases hlocal
  next htarget hlocal =>
  obtain ⟨onChain, honChain, h⟩ := Fallible.bind_ok.mp h
  have hsource := checkProgramOnChain_ok honChain
  rw [Bool.not_eq_true, Option.isSome_eq_false_iff, Option.isNone_iff_eq_none] at hlocal
  cases onChain with
  | false =>
    cases h
    rw [if_pos ⟨htarget, hlocal, by simpa using hsource.symm⟩]
  | true =>
    cases h
    rw [if_neg]
    rintro ⟨-, -, hnone⟩
    rw [hnone] at hsource
    cases hsource

/-- An import is missing if it is no target, has no local source and is not on the chain. -/
theorem checkImportsAvailable_ok {chain : OnChain} {graph : DependencyGraph} {programId : JsString}
    {deployTargets : List JsString} {localSources : List (JsString × JsString)}
    {errors : List PreflightError}
    (h : checkImportsAvailable chain graph programId deployTargets localSources = .ok errors)
    {e : PreflightError} : e ∈ errors ↔ ∃ importId ∈ graph.importsOf programId,
      importId ∉ deployTargets ∧ localSources.lookup importId = none ∧
        chain.source importId = none ∧ e = missingImport programId importId := by
  obtain ⟨found, hfound, h⟩ := Fallible.bind_ok.mp h
  cases h
  have heq : ((graph.importsOf programId).map fun importId =>
      if importId ∉ deployTargets ∧ localSources.lookup importId = none ∧
        chain.source importId = none then some (missingImport programId importId) else none) =
      found := by
    rw [← List.forall₂_eq_eq_eq, List.forall₂_map_left_iff]
    exact (Fallible.mapM_ok.mp hfound).imp fun _ _ hcheck => (checkImport_ok hcheck).symm
  rw [← heq]
  simp only [List.mem_filterMap, List.mem_map, id_eq]
  constructor
  · rintro ⟨_, ⟨importId, himport, rfl⟩, he⟩
    split at he
    · next hmissing =>
      cases he
      exact ⟨importId, himport, hmissing.1, hmissing.2.1, hmissing.2.2, rfl⟩
    · cases he
  · rintro ⟨importId, himport, htarget, hlocal, hchain, rfl⟩
    exact ⟨_, ⟨importId, himport, rfl⟩, if_pos ⟨htarget, hlocal, hchain⟩⟩

section Turn

variable {opts : RunDeployPreflightOptions} {st st' : PreflightState} {prog : PreflightProgram}

/-- A program of which the imports are checked: it is not on the chain, and its artifacts are there. -/
def PreflightProgram.ReachesImportCheck (chain : OnChain) (prog : PreflightProgram) : Prop :=
  chain.source prog.programId = none ∧ prog.aleoSource ≠ none

/-- What is done with a program. -/
def actionOf (chain : OnChain) (programId : JsString) : PreflightAction :=
  if chain.source programId = none then .deploy else .skip

theorem actionOf_eq_deploy {chain : OnChain} {programId : JsString} :
    actionOf chain programId = .deploy ↔ chain.source programId = none := by
  unfold actionOf
  split <;> simp_all

/-- What one turn does, with the outcome and the errors that it adds. -/
structure Turn (opts : RunDeployPreflightOptions) (st : PreflightState) (prog : PreflightProgram)
    (st' : PreflightState) (outcome : ProgramPreflightOutcome) (added : List PreflightError) :
    Prop where
  programs : st'.programs = st.programs ++ [outcome]
  errors : st'.errors = st.errors ++ added
  outcome : (outcome.programId, outcome.action) =
    (prog.programId, actionOf opts.chain prog.programId)
  confirmed : st'.confirmedDeployTargets = st.confirmedDeployTargets ∨
    opts.chain.source prog.programId ≠ none ∧
      st'.confirmedDeployTargets = st.confirmedDeployTargets.filter (· ≠ prog.programId)
  imports : opts.devnode = false → prog.ReachesImportCheck opts.chain →
    checkImportsAvailable opts.chain opts.graph prog.programId st.confirmedDeployTargets
      opts.localSources = .ok added

theorem preflightProgram_ok (h : preflightProgram opts st prog = .ok st') :
    ∃ outcome added, Turn opts st prog st' outcome added := by
  obtain ⟨⟨outcome, error⟩, hcheck, h⟩ := Fallible.bind_ok.mp h
  obtain ⟨hid, ⟨haction, hsource, rfl⟩ | ⟨haction, hsource⟩⟩ := checkAlreadyDeployed_ok hcheck
  · -- It is not on the chain.
    have hdeploy : outcome.action ≠ .skip := by rw [haction]; exact nofun
    have houtcome (fee : Option Nat) : ((deployOutcome prog.programId fee).programId,
        (deployOutcome prog.programId fee).action) =
        (prog.programId, actionOf opts.chain prog.programId) := by
      rw [actionOf, if_pos hsource]
      rfl
    dsimp only at h
    rw [if_neg hdeploy] at h
    split at h
    · next hdevnode =>
      cases h
      exact ⟨_, [], rfl, by simp, houtcome none, .inl rfl,
        fun hhttp => absurd hdevnode (by simp [hhttp])⟩
    split at h
    · next hnone =>
      cases h
      exact ⟨_, _, rfl, rfl, houtcome none, .inl rfl,
        fun _ hreaches => absurd hnone hreaches.2⟩
    obtain ⟨importErrors, himports, h⟩ := Fallible.bind_ok.mp h
    split at h
    · cases h
      exact ⟨_, importErrors, rfl, rfl, houtcome none, .inl rfl, fun _ _ => himports⟩
    · next hnone =>
      obtain ⟨importSources, -, h⟩ := Fallible.bind_ok.mp h
      obtain ⟨fee, -, h⟩ := Fallible.bind_ok.mp h
      cases h
      exact ⟨_, importErrors, rfl, by simp [not_not.mp hnone], houtcome fee.estimate, .inl rfl,
        fun _ _ => himports⟩
  · -- It is on the chain.
    have houtcome : (outcome.programId, outcome.action) =
        (prog.programId, actionOf opts.chain prog.programId) := by
      rw [actionOf, if_neg hsource, hid, haction]
    cases error with
    | some e =>
      cases h
      exact ⟨outcome, [e], rfl, rfl, houtcome, .inl rfl,
        fun _ hreaches => absurd hreaches.1 hsource⟩
    | none =>
      dsimp only at h
      rw [if_pos haction] at h
      cases h
      exact ⟨outcome, [], rfl, by simp, houtcome, .inr ⟨hsource, rfl⟩,
        fun _ hreaches => absurd hreaches.1 hsource⟩

end Turn

/-! ## What a run does -/

section Turns

variable {opts : RunDeployPreflightOptions}

/-- A target that is not confirmed any more is on the chain. -/
structure Confirmed (opts : RunDeployPreflightOptions) (st : PreflightState) : Prop where
  target : ∀ id ∈ st.confirmedDeployTargets, id ∈ opts.deployTargets
  onChain : ∀ id ∈ opts.deployTargets,
    id ∈ st.confirmedDeployTargets ∨ opts.chain.source id ≠ none

theorem Turn.keeps {st st' : PreflightState} {prog : PreflightProgram}
    {outcome : ProgramPreflightOutcome} {added : List PreflightError}
    (turn : Turn opts st prog st' outcome added) (h : Confirmed opts st) : Confirmed opts st' := by
  rcases turn.confirmed with heq | ⟨hsource, heq⟩
  · exact ⟨by rw [heq]; exact h.target, by rw [heq]; exact h.onChain⟩
  · constructor
    · rw [heq]
      exact fun id hid => h.target id (List.mem_filter.mp hid).1
    · rw [heq]
      intro id hid
      by_cases hprog : id = prog.programId
      · exact .inr (by rwa [hprog])
      · exact (h.onChain id hid).imp_left fun hmem =>
          List.mem_filter.mpr ⟨hmem, decide_eq_true hprog⟩

/-- What turns do: an outcome for each program, and errors after those that were there. -/
theorem preflightPrograms_ok {programs : List PreflightProgram} {st st' : PreflightState}
    (h : programs.foldlM (preflightProgram opts) st = .ok st') (hst : Confirmed opts st) :
    Confirmed opts st' ∧ st.errors <+: st'.errors ∧ ∃ outcomes,
      st'.programs = st.programs ++ outcomes ∧ outcomes.map (fun o => (o.programId, o.action)) =
        programs.map fun p => (p.programId, actionOf opts.chain p.programId) := by
  induction programs generalizing st with
  | nil =>
    cases h
    exact ⟨hst, List.prefix_refl _, [], by simp, rfl⟩
  | cons prog programs ih =>
    rw [List.foldlM_cons] at h
    obtain ⟨st₁, hprog, h⟩ := Fallible.bind_ok.mp h
    obtain ⟨outcome, added, turn⟩ := preflightProgram_ok hprog
    obtain ⟨hconfirmed, herrors, outcomes, hprograms, houtcomes⟩ := ih h (turn.keeps hst)
    refine ⟨hconfirmed, ?_, outcome :: outcomes, ?_, ?_⟩
    · exact .trans ⟨added, turn.errors.symm⟩ herrors
    · rw [hprograms, turn.programs, List.append_assoc, List.singleton_append]
    · rw [List.map_cons, List.map_cons, houtcomes, turn.outcome]

theorem confirmed_start : Confirmed opts (preflightStart opts) :=
  ⟨fun _ h => h, fun _ h => .inl h⟩

theorem checkBalance_ok {st st' : PreflightState} (h : checkBalance opts st = .ok st') :
    st'.programs = st.programs ∧ st.errors <+: st'.errors := by
  unfold checkBalance at h
  split at h
  · cases h
    exact ⟨rfl, List.prefix_refl _⟩
  split at h
  · cases h
    exact ⟨rfl, List.prefix_refl _⟩
  · obtain ⟨⟨warning, error⟩, -, h⟩ := Fallible.bind_ok.mp h
    cases h
    exact ⟨rfl, List.prefix_append _ _⟩

/-- **The outcomes of a preflight**: one for each program, which is deployed if it is not on the
chain and skipped if it is. -/
theorem runDeployPreflight_outcomes {result : DeployPreflightResult}
    (h : runDeployPreflight opts = .ok result) :
    result.programs.map (fun o => (o.programId, o.action)) =
      opts.programs.map fun p => (p.programId, actionOf opts.chain p.programId) := by
  obtain ⟨st, hst, h⟩ := Fallible.bind_ok.mp h
  obtain ⟨st', hst', h⟩ := Fallible.bind_ok.mp h
  cases h
  obtain ⟨-, -, outcomes, hprograms, houtcomes⟩ := preflightPrograms_ok hst confirmed_start
  rw [(checkBalance_ok hst').1, hprograms]
  exact houtcomes

end Turns

/-! ## Missing imports -/

/-- What `deployAction` gives the preflight for its programs. -/
def preflightOptions (options : DeployOptions) (config : DeployConfig) (chain : OnChain)
    (backend : DeployBackend) (signerPrivateKey : Option JsString) (graph : DependencyGraph)
    (plan : Option RenamePlan) (programs : List PreflightProgram) : RunDeployPreflightOptions where
  programs
  chain
  devnode := !config.http
  backend
  skipDeployed := !options.noSkipDeployed && config.skipDeployed
  deployTargets := programs.map (·.programId)
  localSources := programs.filterMap fun prog =>
    (prog.aleoSource.filter (· ≠ [])).map (Prod.mk prog.programId)
  graph := preflightGraph graph plan
  signerPrivateKey

/-- The errors that the preflight adds for a program, after those of the programs `earlier`. -/
def errorsFor (opts : RunDeployPreflightOptions) (earlier : List PreflightProgram)
    (prog : PreflightProgram) : Except JsString (List PreflightError) := do
  let before ← earlier.foldlM (preflightProgram opts) (preflightStart opts)
  let after ← preflightProgram opts before prog
  .ok (after.errors.drop before.errors.length)

/-- The preflight reports a missing import for a program. -/
def Reports (opts : RunDeployPreflightOptions) (result : DeployPreflightResult)
    (earlier : List PreflightProgram) (prog : PreflightProgram) : Prop :=
  ∃ errors, errorsFor opts earlier prog = .ok errors ∧
    ∃ e ∈ errors, e ∈ result.errors ∧ e.code = js "MISSING_IMPORT"

section Exact

variable (parseImports : JsString → List JsString → List JsString)
  (discovered : List DiscoveredUnit)

/-- The unit `a` imports the program `id`, of the project or of the network. -/
def ImportsProgram (a id : JsString) : Prop :=
  ∃ u ∈ discovered, unitId u = a ∧
    ((∃ v ∈ discovered, v ≠ u ∧ v.isProgram = true ∧ id = unitId v ∧
        ∃ dep ∈ rawImports parseImports u, dep ∈ lookupKeys v) ∨
      id ∈ rawImports parseImports u ∧ ∀ v ∈ discovered, id ∉ lookupKeys v)

/-- The unit `a` imports the library `id`, which is there when it is compiled only. -/
def ImportsLibrary (a id : JsString) : Prop :=
  ∃ u ∈ discovered, unitId u = a ∧ ∃ v ∈ discovered, v ≠ u ∧ v.isProgram = false ∧ id = unitId v ∧
    ∃ dep ∈ rawImports parseImports u, dep ∈ lookupKeys v

/-- Of the programs that reach the import check, those are reported that import a program which is
neither on the chain nor deployed in the run. -/
def ImportPreflightExact (plan : Option RenamePlan) (opts : RunDeployPreflightOptions)
    (result : DeployPreflightResult) : Prop :=
  ∀ earlier prog later, opts.programs = earlier ++ prog :: later →
    prog.ReachesImportCheck opts.chain →
    (Reports opts result earlier prog ↔
      ∃ id, ImportsProgram parseImports discovered (sourceOf plan prog.programId) id ∧
        opts.chain.source id = none ∧
        ¬∃ outcome ∈ result.programs, outcome.programId = id ∧ outcome.action = .deploy)

end Exact

variable {parseImports : JsString → List JsString → List JsString}
  {discovered : List DiscoveredUnit} {graph : DependencyGraph}

theorem importsOf_preflightGraph {plan : Option RenamePlan} {id : JsString} :
    (preflightGraph graph plan).importsOf id = graph.importsOf (sourceOf plan id) := by
  cases plan with
  | none => rfl
  | some plan =>
    unfold preflightGraph sourceOf
    dsimp only
    rw [importsOf_renamed]
    by_cases h : id = plan.targetProgramId
    · rw [if_pos h, if_pos h.symm]
    · rw [if_neg h, if_neg (Ne.symm h)]

/-- The imports of a program of the project: programs, and libraries of the project. -/
theorem mem_importsOf_iff (hgraph : WellResolved parseImports discovered graph) {a id : JsString}
    (ha : a ∈ programIds discovered) : id ∈ graph.importsOf a ↔
      ImportsProgram parseImports discovered a id ∨ ImportsLibrary parseImports discovered a id := by
  obtain ⟨u, hu, -, rfl⟩ := mem_programIds.mp ha
  rw [hgraph.imports u hu]
  constructor
  · rintro (⟨v, hv, hne, rfl, himport⟩ | hnetwork)
    · cases hkind : v.isProgram with
      | true => exact .inl ⟨u, hu, rfl, .inl ⟨v, hv, hne, hkind, rfl, himport⟩⟩
      | false => exact .inr ⟨u, hu, rfl, v, hv, hne, hkind, rfl, himport⟩
    · exact .inl ⟨u, hu, rfl, .inr hnetwork⟩
  · rintro (⟨u', hu', heq, hprogram⟩ | ⟨u', hu', heq, v, hv, hne, -, rfl, himport⟩)
    · obtain rfl := hgraph.unique u' hu' u hu heq
      rcases hprogram with ⟨v, hv, hne, -, rfl, himport⟩ | hnetwork
      · exact .inl ⟨v, hv, hne, rfl, himport⟩
      · exact .inr hnetwork
    · obtain rfl := hgraph.unique u' hu' u hu heq
      exact .inl ⟨v, hv, hne, rfl, himport⟩

section Reports

variable {options : DeployOptions} {config : DeployConfig} {chain : OnChain}
  {backend : DeployBackend} {signerPrivateKey : Option JsString} {plan : Option RenamePlan}
  {programs earlier later : List PreflightProgram} {prog : PreflightProgram}
  {result : DeployPreflightResult}

theorem mem_localSources {id source : JsString} (h : (id, source) ∈
    (preflightOptions options config chain backend signerPrivateKey graph plan
      programs).localSources) : id ∈ programs.map (·.programId) := by
  obtain ⟨p, hp, hsource⟩ := List.mem_filterMap.mp h
  obtain ⟨_, -, heq⟩ := Option.map_eq_some_iff.mp hsource
  cases heq
  exact List.mem_map_of_mem hp

/-- **What is reported**: an import, of whatever kind, that is no target and not on the chain. -/
theorem reports_iff (hhttp : config.http = true)
    (h : runDeployPreflight (preflightOptions options config chain backend signerPrivateKey graph
      plan programs) = .ok result)
    (hsplit : programs = earlier ++ prog :: later) (hreaches : prog.ReachesImportCheck chain) :
    Reports (preflightOptions options config chain backend signerPrivateKey graph plan programs)
        result earlier prog ↔
      ∃ id ∈ graph.importsOf (sourceOf plan prog.programId),
        chain.source id = none ∧ id ∉ programs.map (·.programId) := by
  obtain ⟨final, hfinal, h⟩ := Fallible.bind_ok.mp h
  obtain ⟨checked, hchecked, h⟩ := Fallible.bind_ok.mp h
  cases h
  have hfold := hfinal
  rw [show (preflightOptions options config chain backend signerPrivateKey graph plan
    programs).programs = earlier ++ prog :: later from hsplit, List.foldlM_append] at hfold
  obtain ⟨before, hbefore, hfold⟩ := Fallible.bind_ok.mp hfold
  rw [List.foldlM_cons] at hfold
  obtain ⟨after, hafter, hlater⟩ := Fallible.bind_ok.mp hfold
  have hconfirmed := (preflightPrograms_ok hbefore confirmed_start).1
  obtain ⟨_, added, turn⟩ := preflightProgram_ok hafter
  have hlast : after.errors <+: checked.errors :=
    (preflightPrograms_ok hlater (turn.keeps hconfirmed)).2.1.trans (checkBalance_ok hchecked).2
  have hadded : errorsFor (preflightOptions options config chain backend signerPrivateKey graph plan
      programs) earlier prog = .ok added := by
    unfold errorsFor
    rw [hbefore]
    dsimp only [bind, Except.bind]
    rw [hafter]
    dsimp only
    rw [turn.errors, List.drop_left]
  have himports := turn.imports (by simp [preflightOptions, hhttp]) hreaches
  have hmem := @checkImportsAvailable_ok _ _ _ _ _ _ himports
  unfold Reports
  rw [show (preflightOptions options config chain backend signerPrivateKey graph plan
    programs).graph = preflightGraph graph plan from rfl, importsOf_preflightGraph] at hmem
  constructor
  · rintro ⟨errors, herrors, e, he, -, -⟩
    cases hadded.symm.trans herrors
    obtain ⟨id, himport, htarget, -, hchain, -⟩ := hmem.mp he
    refine ⟨id, himport, hchain, fun hid => ?_⟩
    exact (hconfirmed.onChain id hid).elim htarget fun hsource => hsource hchain
  · rintro ⟨id, himport, hchain, htarget⟩
    have he : missingImport prog.programId id ∈ added := by
      refine hmem.mpr ⟨id, himport, fun hid => htarget (hconfirmed.target id hid), ?_, hchain, rfl⟩
      exact Fallible.lookup_none.mpr fun source hsource => htarget (mem_localSources hsource)
    refine ⟨added, hadded, _, he, hlast.subset ?_, rfl⟩
    rw [turn.errors]
    exact List.mem_append_right _ he

/-- What is deployed in the run: the targets that are not on the chain. -/
theorem deployed_iff (h : runDeployPreflight (preflightOptions options config chain backend
      signerPrivateKey graph plan programs) = .ok result) {id : JsString} :
    (∃ outcome ∈ result.programs, outcome.programId = id ∧ outcome.action = .deploy) ↔
      id ∈ programs.map (·.programId) ∧ chain.source id = none := by
  have hmem : (∃ outcome ∈ result.programs, outcome.programId = id ∧ outcome.action = .deploy) ↔
      (id, .deploy) ∈ result.programs.map (fun o => (o.programId, o.action)) := by
    simp only [List.mem_map, Prod.mk.injEq]
  rw [hmem, runDeployPreflight_outcomes h, List.mem_map, List.mem_map]
  constructor
  · rintro ⟨p, hp, heq⟩
    obtain ⟨rfl, haction⟩ := Prod.mk.inj heq
    exact ⟨⟨p, hp, rfl⟩, actionOf_eq_deploy.mp haction⟩
  · rintro ⟨⟨p, hp, rfl⟩, hsource⟩
    exact ⟨p, hp, congrArg _ (actionOf_eq_deploy.mpr hsource)⟩

/-- **When missing imports are reported exactly**: on a network of type `http`, when each program
that imports a library of the project also misses a program. -/
theorem imports_exact_iff (parseImports : JsString → List JsString → List JsString)
    (discovered : List DiscoveredUnit) (graph : DependencyGraph)
    (hgraph : resolveDependencies parseImports discovered = .ok graph)
    (options : DeployOptions) (config : DeployConfig) (hhttp : config.http = true)
    (chain : OnChain) (backend : DeployBackend) (signerPrivateKey : Option JsString)
    (plan : Option RenamePlan) (programs : List PreflightProgram)
    (hlocal : ∀ prog ∈ programs, sourceOf plan prog.programId ∈ programIds discovered)
    (result : DeployPreflightResult)
    (h : runDeployPreflight (preflightOptions options config chain backend signerPrivateKey graph
      plan programs) = .ok result) :
    ImportPreflightExact parseImports discovered plan
        (preflightOptions options config chain backend signerPrivateKey graph plan programs) result ↔
      ∀ prog ∈ programs, prog.ReachesImportCheck chain →
        (∃ id, ImportsLibrary parseImports discovered (sourceOf plan prog.programId) id ∧
          chain.source id = none ∧ id ∉ programs.map (·.programId)) →
        ∃ id, ImportsProgram parseImports discovered (sourceOf plan prog.programId) id ∧
          chain.source id = none ∧ id ∉ programs.map (·.programId) := by
  have hresolved := (resolveDependencies_ok hgraph).2.2.2
  have hdeployed : ∀ id, chain.source id = none →
      ((¬∃ outcome ∈ result.programs, outcome.programId = id ∧ outcome.action = .deploy) ↔
        id ∉ programs.map (·.programId)) := by
    intro id hchain
    rw [deployed_iff h, and_iff_left hchain]
  have hreports : ∀ earlier prog later, programs = earlier ++ prog :: later →
      prog.ReachesImportCheck chain →
      (Reports (preflightOptions options config chain backend signerPrivateKey graph plan programs)
        result earlier prog ↔
        ∃ id, (ImportsProgram parseImports discovered (sourceOf plan prog.programId) id ∨
          ImportsLibrary parseImports discovered (sourceOf plan prog.programId) id) ∧
          chain.source id = none ∧ id ∉ programs.map (·.programId)) := by
    intro earlier prog later hsplit hreaches
    rw [reports_iff hhttp h hsplit hreaches]
    simp only [mem_importsOf_iff hresolved (hlocal prog (by rw [hsplit]; simp))]
  constructor
  · rintro hexact prog hprog hreaches ⟨id, hlibrary, hchain, htarget⟩
    obtain ⟨earlier, later, hsplit⟩ := List.append_of_mem hprog
    have hreported := (hreports earlier prog later hsplit hreaches).mpr
      ⟨id, .inr hlibrary, hchain, htarget⟩
    obtain ⟨id', hprogram, hchain', hmissed⟩ :=
      (hexact earlier prog later hsplit hreaches).mp hreported
    exact ⟨id', hprogram, hchain', (hdeployed id' hchain').mp hmissed⟩
  · intro hlibraries earlier prog later hsplit hreaches
    rw [hreports earlier prog later hsplit hreaches]
    constructor
    · rintro ⟨id, hprogram | hlibrary, hchain, htarget⟩
      · exact ⟨id, hprogram, hchain, (hdeployed id hchain).mpr htarget⟩
      · have hprog : prog ∈ programs := by
          rw [show programs = earlier ++ prog :: later from hsplit]
          simp
        obtain ⟨id', hprogram, hchain', htarget'⟩ :=
          hlibraries prog hprog hreaches ⟨id, hlibrary, hchain, htarget⟩
        exact ⟨id', hprogram, hchain', (hdeployed id' hchain').mpr htarget'⟩
    · rintro ⟨id, hprogram, hchain, hmissed⟩
      exact ⟨id, .inl hprogram, hchain, (hdeployed id hchain).mp hmissed⟩

end Reports

/-! ## A run on a network of type `http` -/

/-- A chain that has `credits.aleo` only. -/
def creditsChain : OnChain where
  source id := if id = js "credits.aleo" then some (js "program credits.aleo;") else none
  failure _ := none
  balance _ := .ok 0

def noEstimates : DeployBackend where
  estimateDeploymentFee _ := .ok { estimate := none, warning := none }
  deriveAddress _ := none

def vaultPrograms : List PreflightProgram :=
  ["token.aleo", "vault.aleo"].map fun id =>
    { programId := js id, aleoSource := some (js "program"), existingRecord := none }

def vaultPreflight (graph : DependencyGraph) : RunDeployPreflightOptions :=
  preflightOptions { vaultOptions with rename := [] } vaultConfig creditsChain noEstimates none graph
    none vaultPrograms

/-- Without its library the project has a program that is missing, and that is reported. -/
theorem imports_exact_vault : ∃ graph result,
    resolveDependencies vaultImports (vaultProject.take 2) = .ok graph ∧
    runDeployPreflight (vaultPreflight graph) = .ok result ∧
    ImportPreflightExact vaultImports (vaultProject.take 2) none (vaultPreflight graph) result := by
  refine ⟨_, _, rfl, rfl, ?_⟩
  refine (imports_exact_iff vaultImports (vaultProject.take 2) _ rfl
    { vaultOptions with rename := [] } vaultConfig rfl creditsChain noEstimates none none
    vaultPrograms (by decide) _ rfl).mpr ?_
  rintro prog - - ⟨id, ⟨u, -, -, v, hv, -, hlibrary, -⟩, -⟩
  have hprograms : ∀ v ∈ vaultProject.take 2, v.isProgram = true := by decide
  rw [hprograms v hv] at hlibrary
  cases hlibrary

/-- The library of the project is reported missing, which is never on a chain. -/
theorem library_reported_missing : ∃ graph result,
    resolveDependencies vaultImports vaultProject = .ok graph ∧
    runDeployPreflight (vaultPreflight graph) = .ok result ∧
    ¬ImportPreflightExact vaultImports vaultProject none (vaultPreflight graph) result := by
  refine ⟨_, _, rfl, rfl, fun hexact => ?_⟩
  have hreported := (hexact [⟨js "token.aleo", some (js "program"), none⟩]
    ⟨js "vault.aleo", some (js "program"), none⟩ [] rfl ⟨rfl, nofun⟩).mp
    ⟨_, rfl, missingImport (js "vault.aleo") (js "math"), .head _, .head _, rfl⟩
  obtain ⟨id, ⟨u, hu, hid, himport⟩, hchain, hmissed⟩ := hreported
  have hvault : ∀ u ∈ vaultProject, unitId u = js "vault.aleo" → u = programUnit "vault.aleo" := by
    decide
  obtain rfl := hvault u hu hid
  rcases himport with ⟨v, hv, hne, hprogram, rfl, -⟩ | ⟨hraw, hnone⟩
  · have htoken : ∀ v ∈ vaultProject, v ≠ programUnit "vault.aleo" → v.isProgram = true →
        v = programUnit "token.aleo" := by decide
    obtain rfl := htoken v hv hne hprogram
    exact hmissed ⟨_, .head _, rfl, rfl⟩
  · have hcredits : ∀ id ∈ rawImports vaultImports (programUnit "vault.aleo"),
        (∀ v ∈ vaultProject, id ∉ lookupKeys v) → id = js "credits.aleo" := by decide
    obtain rfl := hcredits id hraw hnone
    cases hchain

end Lionden.Targets
