import Lionden.Lib.Precedence
import Lionden.Targets.LeoArgv
import Lionden.Targets.Preflight

/-!
# A run of the deploy task

`deployAction` from the selection of its targets to the last broadcast. What becomes of a single
deployment is left to the environment: it may fail before its transaction is sent or after that.

* `validatePlainPreflightReuse`, `validateRenamedPreflightReuse`: programs that were renamed before.
* `deployPrograms`, `deployAction`: the deployments, up to the first that fails.
* `deployTargets_behind`: the targets are in the order in which they need each other.
* `broadcasts_behind`: so are the programs that are broadcast.
-/

namespace Lionden.Targets

open Compiler
open Precedence (Behind)

/-! ## The task -/

structure ProgramArtifactProvenance where
  programId : JsString
  sourceProgramId : Option JsString

/-- The artifacts, as they are after the compilation that the task begins with. -/
structure Artifacts where
  programIds : List JsString
  aleoSource : JsString → Option JsString
  hasAbi : JsString → Bool
  provenance : JsString → Except JsString (Option ProgramArtifactProvenance)

/-- What becomes of a deployment. -/
inductive Fate where
  /-- It fails before its transaction is sent. -/
  | notSent (message : JsString)
  /-- Its transaction is sent, and perhaps something fails then. -/
  | sent (failure : Option JsString)

structure DeployEnvironment where
  parseImports : JsString → List JsString → List JsString
  discovered : List DiscoveredUnit
  options : DeployOptions
  config : DeployConfig
  artifacts : Artifacts
  chain : OnChain
  backend : DeployBackend
  provider : JsString
  networkName : JsString
  /-- Steps 0 and 1: the backend and the compilation. -/
  prepare : Except JsString Unit
  /-- Steps 5 and 6: the connection, the signer and the recovery. -/
  connect : Except JsString (Option JsString)
  existingRecord : JsString → Except JsString (Option ExistingRecord)
  /-- Step 14. -/
  reconcile : List ProgramPreflightOutcome → Except JsString Unit
  /-- A backend with this capability does not broadcast what it builds. -/
  buildWithoutBroadcast : Bool
  buildFailure : DeployBackendRequest → Option JsString
  fee : Nat
  privateFee : Bool
  prove : Bool
  fate : DeployBackendRequest → Fate

/-- A source that is there and not empty. -/
def Artifacts.source (artifacts : Artifacts) (programId : JsString) : Option JsString :=
  (artifacts.aleoSource programId).filter (· ≠ [])

def validateRenamedNoCompileArtifactProvenance (artifacts : Artifacts) (rename : RenamePlan) :
    Except JsString Unit :=
  let requirement := js "Renamed --noCompile deploy for \"" ++ rename.targetProgramId ++
    js "\" requires artifacts compiled from source \"" ++ rename.sourceProgramId ++ js "\"."
  let recompile := js "Run deploy again without --noCompile to recompile the renamed program."
  match artifacts.provenance rename.targetProgramId with
  | .error cause => .error (js "Renamed --noCompile deploy for \"" ++ rename.targetProgramId ++
      js "\" requires artifact provenance compiled from source \"" ++ rename.sourceProgramId ++
      js "\", but the artifact metadata is invalid. " ++
      js "Run deploy again without --noCompile to recompile the renamed program. Cause: " ++ cause)
  | .ok none => .error (requirement ++ js " Missing artifact provenance metadata. " ++ recompile)
  | .ok (some provenance) =>
    match provenance.sourceProgramId.filter (· ≠ []) with
    | none => .error (requirement ++ js " Missing artifact provenance metadata. " ++ recompile)
    | some sourceProgramId =>
      if provenance.programId ≠ rename.targetProgramId ∨
          sourceProgramId ≠ rename.sourceProgramId then
        .error (requirement ++ js " Found artifact provenance programId=\"" ++
          provenance.programId ++ js "\", sourceProgramId=\"" ++ sourceProgramId ++ js "\". " ++
          recompile)
      else .ok ()

/-- The source that a record names, if it names one. -/
def ExistingRecord.source (record : Option ExistingRecord) : Option JsString :=
  (record.bind (·.sourceProgramId)).filter (· ≠ [])

def validateRenamedPreflightReuse (programs : List ProgramPreflightOutcome) (rename : RenamePlan) :
    Except JsString Unit :=
  match programs.find? (·.programId = rename.targetProgramId) with
  | none => .ok ()
  | some outcome =>
    if outcome.action ≠ .skip then .ok ()
    else if outcome.record.bind (·.sourceProgramId) = some rename.sourceProgramId then .ok ()
    else match ExistingRecord.source outcome.record with
      | some sourceProgramId =>
        .error (js "Renamed deploy target \"" ++ rename.targetProgramId ++
          js "\" is already associated with source \"" ++ sourceProgramId ++ js "\", not \"" ++
          rename.sourceProgramId ++ js "\".")
      | none =>
        .error (js "Renamed deploy target \"" ++ rename.targetProgramId ++
          js "\" already exists but has no matching local provenance for source \"" ++
          rename.sourceProgramId ++ js "\".")

def validatePlainPreflightReuse (programMap : List JsString) :
    List ProgramPreflightOutcome → Except JsString Unit
  | [] => .ok ()
  | outcome :: rest =>
    if outcome.action ≠ .skip ∨ outcome.programId ∉ programMap then
      validatePlainPreflightReuse programMap rest
    else match ExistingRecord.source outcome.record with
      | none => validatePlainPreflightReuse programMap rest
      | some sourceProgramId =>
        if sourceProgramId ≠ outcome.programId then
          .error (js "Deploy target \"" ++ outcome.programId ++
            js "\" is already associated with source \"" ++ sourceProgramId ++ js "\", not \"" ++
            outcome.programId ++ js "\".")
        else validatePlainPreflightReuse programMap rest

def validatePreflightReuse (programMap : List JsString) (programs : List ProgramPreflightOutcome) :
    Option RenamePlan → Except JsString Unit
  | some rename => validateRenamedPreflightReuse programs rename
  | none => validatePlainPreflightReuse programMap programs

inductive DeployTaskResult where
  | deploy (programIds : List JsString)
  | preflight (result : DeployPreflightResult)
  | dryRun (programIds : List JsString)

/-- The requests that were broadcast, in their order, and how the run ended. -/
structure DeployRun where
  broadcasts : List DeployBackendRequest
  result : Except JsString DeployTaskResult

/-- A run that has broadcast nothing. -/
def DeployRun.silent (result : Except JsString DeployTaskResult) : DeployRun where
  broadcasts := []
  result

section Task

variable (env : DeployEnvironment)

/-- The programs of the preflight. -/
def preflightProgramsOf (targetIds : List JsString) : Except JsString (List PreflightProgram) :=
  targetIds.mapM fun programId => do
    let existingRecord ← env.existingRecord programId
    .ok { programId, aleoSource := env.artifacts.aleoSource programId, existingRecord }

/-- What steps 2 to 9 of the task come to. -/
structure Checked where
  graph : DependencyGraph
  plan : Option RenamePlan
  signerPrivateKey : Option JsString
  result : DeployPreflightResult

def checkTargets : Except JsString Checked := do
  env.prepare
  let (graph, plan, targetIds) ← deployTargets env.parseImports env.discovered env.options
    env.config env.artifacts.programIds
  (match plan with
    | some rename =>
      if env.options.noCompile then validateRenamedNoCompileArtifactProvenance env.artifacts rename
      else .ok ()
    | none => .ok ())
  let signerPrivateKey ← env.connect
  let programs ← preflightProgramsOf env targetIds
  let result ← runDeployPreflight (preflightOptions env.options env.config env.chain env.backend
    signerPrivateKey graph plan programs)
  validatePreflightReuse (programIds env.discovered) result.programs plan
  .ok { graph, plan, signerPrivateKey, result }

variable (checked : Checked)

def requestFor (programId aleoSource : JsString) : DeployBackendRequest :=
  buildDeployRequest
    { aleoSource
      fee := env.fee
      privateFee := env.privateFee
      signerPrivateKey := checked.signerPrivateKey
      prove := env.prove }
    programId checked.plan (preflightGraph checked.graph checked.plan) (programIds env.discovered)

/-- Step 15: what is broadcast, and the programs that are deployed unless something fails. -/
def deployPrograms : List JsString → List DeployBackendRequest × Except JsString (List JsString)
  | [] => ([], .ok [])
  | programId :: rest =>
    match env.artifacts.source programId with
    | none => ([], .error (js "No compiled .aleo source found for \"" ++ programId ++
        js "\". Run `lionden compile` first."))
    | some aleoSource =>
      if ¬ env.artifacts.hasAbi programId then
        ([], .error (js "No compiled ABI found for \"" ++ programId ++
          js "\". Run `lionden compile` first, or pass --noCompile only when artifacts already " ++
          js "exist."))
      else
        let request := requestFor env checked programId aleoSource
        match env.fate request with
        | .notSent message => ([], .error message)
        | .sent (some message) => ([request], .error message)
        | .sent none =>
          let (broadcasts, result) := deployPrograms rest
          (request :: broadcasts, result.map (programId :: ·))

/-- Step 13: the transactions of a dry run are not broadcast. -/
def dryRunPrograms : List JsString → Except JsString (List JsString)
  | [] => .ok []
  | programId :: rest =>
    match env.artifacts.source programId with
    | none => dryRunPrograms rest
    | some aleoSource =>
      match env.buildFailure (requestFor env checked programId aleoSource) with
      | some message => .error message
      | none => (programId :: ·) <$> dryRunPrograms rest

def toDeployIds (programs : List ProgramPreflightOutcome) : List JsString :=
  (programs.filter (·.action = .deploy)).map (·.programId)

def errorLine (e : PreflightError) : JsString := js "\n  [" ++ e.code ++ js "] " ++ e.message

def deployAction : DeployRun :=
  match checkTargets env with
  | .error message => .silent (.error message)
  | .ok checked =>
    if env.options.preflight then .silent (.ok (.preflight checked.result))
    else if ¬ checked.result.passed then
      .silent (.error (js "Pre-flight validation failed:" ++
        checked.result.errors.flatMap errorLine))
    else if env.options.dryRun then
      if ¬ env.buildWithoutBroadcast then
        .silent (.error (js "The " ++ env.provider ++
          js " deploy backend cannot dry-run against network \"" ++ env.networkName ++
          js "\": it builds and broadcasts as a single operation, so there is no transaction to " ++
          js "hand back without sending it. Use `--deploy-backend leo` to build without " ++
          js "broadcasting, or `--preflight` to validate without deploying."))
      else .silent ((dryRunPrograms env checked (toDeployIds checked.result.programs)).map .dryRun)
    else match env.reconcile checked.result.programs with
      | .error message => .silent (.error message)
      | .ok () =>
        let (broadcasts, result) :=
          deployPrograms env checked (toDeployIds checked.result.programs)
        { broadcasts, result := result.map .deploy }

end Task

/-! ## The order of the targets -/

section Order

variable {parseImports : JsString → List JsString → List JsString} {units : List DiscoveredUnit}
  {graph : DependencyGraph}

/-- The programs of the graph come after all programs that they reach. -/
theorem programIds_behind (hgraph : WellResolved parseImports units graph) :
    Behind (Reaches parseImports units) (fun _ => False) (programIds graph.order) := by
  have hunits : Behind (fun u v => Reaches parseImports units (unitId u) (unitId v)) (· ∉ units)
      graph.order := by
    intro earlier u later horder v hreaches
    by_cases hv : v ∈ units
    · obtain ⟨w, hw, heq⟩ := transGen_before hgraph horder hreaches.1
      have hwu : w ∈ units := (hgraph.mem w).mp (by simp [horder, hw])
      exact .inr (hgraph.unique w hwu v hv heq ▸ hw)
    · exact .inl hv
  refine (hunits.filter DiscoveredUnit.isProgram).map fun u _ id hreaches => ?_
  obtain ⟨v, hv, hprogram, rfl⟩ := mem_programIds.mp hreaches.2
  refine .inr ⟨v, rfl, hreaches, ?_⟩
  rintro (hnot | ⟨-, hlibrary⟩)
  · exact hnot hv
  · rw [hprogram] at hlibrary
    cases hlibrary

/-- The programs that are selected, with all that they need, in the order of the graph. -/
structure Selected (parseImports : JsString → List JsString → List JsString)
    (units : List DiscoveredUnit) (graph : DependencyGraph) (ids : List JsString) : Prop where
  order : ∃ p : JsString → Bool, ids = (programIds graph.order).filter p
  closed : ∀ a ∈ ids, ∀ b, Reaches parseImports units a b → b ∈ ids

theorem Selected.behind (hgraph : WellResolved parseImports units graph) {ids : List JsString}
    (h : Selected parseImports units graph ids) :
    Behind (Reaches parseImports units) (fun _ => False) ids := by
  obtain ⟨p, heq⟩ := h.order
  have hfilter := (programIds_behind hgraph).filter p
  rw [← heq] at hfilter
  refine hfilter.weaken fun a ha b hreaches hb => ?_
  have hmem := h.closed a ha b hreaches
  rw [heq, List.mem_filter] at hmem
  rcases hb with hb | ⟨-, hb⟩
  · exact hb
  · rw [hmem.2] at hb
    cases hb

theorem foldl_known {ordered ids : List JsString} (h : ∀ id ∈ ids, id ∈ ordered) :
    ids.foldl (fun ordered id => if id ∈ ordered then ordered else ordered ++ [id]) ordered =
      ordered := by
  induction ids with
  | nil => rfl
  | cons id ids ih =>
    obtain ⟨hid, hids⟩ := List.forall_mem_cons.mp h
    rw [List.foldl_cons, if_pos hid]
    exact ih hids

/-- All candidates, or the closure of one of them. -/
theorem resolveDeployTargets_ok (hgraph : WellResolved parseImports units graph)
    {candidates ids : List JsString} {targetProgram : JsString}
    (hlocal : ∀ id ∈ candidates, id ∈ programIds units)
    (hclosed : targetProgram = [] →
      ∀ a ∈ candidates, ∀ b, Reaches parseImports units a b → b ∈ candidates)
    (h : resolveDeployTargets candidates (programIds units) graph targetProgram = .ok ids) :
    Selected parseImports units graph ids ∧ (targetProgram ≠ [] →
      ∀ id, id ∈ ids ↔ id = normalizeProgramId targetProgram ∨
        Reaches parseImports units (normalizeProgramId targetProgram) id) := by
  have hfollows := follows hgraph
  unfold resolveDeployTargets at h
  split at h
  · next hall =>
    have hmem : ∀ id ∈ candidates, id ∈ (programIds graph.order).filter (· ∈ candidates) :=
      fun id hid => List.mem_filter.mpr
        ⟨(mem_programIds_order hfollows).mpr (hlocal id hid), decide_eq_true hid⟩
    dsimp only at h
    rw [foldl_known hmem] at h
    cases h
    refine ⟨⟨⟨_, rfl⟩, fun a ha b hreaches => hmem b ?_⟩, fun hne => absurd hall hne⟩
    exact hclosed hall a (of_decide_eq_true (List.mem_filter.mp ha).2) b hreaches
  · next hone =>
    dsimp only at h
    split at h
    · cases h
    next hcandidate =>
    have hroot := hlocal _ (not_not.mp hcandidate)
    have hmem {id : JsString} := @mem_closure_iff _ _ _ hfollows _ id hroot
    cases h
    refine ⟨⟨⟨_, closure_eq hfollows hroot⟩, fun a ha b hreaches => ?_⟩, fun _ id => hmem⟩
    rcases hmem.mp ha with rfl | ha
    · exact hmem.mpr (.inr hreaches)
    · exact hmem.mpr (.inr ⟨ha.1.trans hreaches.1, hreaches.2⟩)

end Order

theorem validateDeployRename_source {options : DeployOptions} {config : DeployConfig}
    {graph : DependencyGraph} {plan : RenamePlan}
    (h : validateDeployRename options config graph = .ok (some plan)) :
    options.program ≠ [] ∧ plan.sourceProgramId = normalizeProgramId options.program := by
  unfold validateDeployRename at h
  dsimp only at h
  split at h
  · cases h
  split at h
  · cases h
  split at h
  · cases h
  split at h
  · cases h
  next hprogram =>
  split at h
  · cases h
  · cases h
    exact ⟨hprogram, rfl⟩

theorem sourceOf_targetOf {plan : RenamePlan} {a : JsString}
    (h : plan.targetProgramId = a → a = plan.sourceProgramId) :
    sourceOf (some plan) (targetOf (some plan) a) = a := by
  by_cases hrenamed : a = plan.sourceProgramId
  · have htarget : targetOf (some plan) a = plan.targetProgramId := if_pos hrenamed
    rw [htarget, hrenamed]
    exact if_pos rfl
  · have htarget : targetOf (some plan) a = a := if_neg hrenamed
    rw [htarget]
    exact if_neg fun heq => hrenamed (h heq)

/-- The program that is renamed needs none of the others under its new name, and its source is needed
by none of them. -/
theorem Behind.renamed {parseImports : JsString → List JsString → List JsString}
    {units : List DiscoveredUnit} {graph : DependencyGraph} {plan : RenamePlan}
    (hgraph : WellResolved parseImports units graph) (hacyclic : ¬Cyclic parseImports units)
    (hfree : plan.Free graph.order) {ids : List JsString}
    (h : Behind (Reaches parseImports units) (fun _ => False) ids)
    (hids : ∀ id ∈ ids, id = plan.sourceProgramId ∨
      Reaches parseImports units plan.sourceProgramId id) :
    Behind (fun id dep => Reaches parseImports units (sourceOf (some plan) id) dep)
      (fun _ => False) (ids.map (targetOf (some plan))) := by
  refine h.map fun a ha dep hreaches => ?_
  have hsource : sourceOf (some plan) (targetOf (some plan) a) = a := by
    refine sourceOf_targetOf fun heq => (hids a ha).elim id fun hreached => ?_
    obtain ⟨u, hu, -, rfl⟩ := mem_programIds.mp hreached.2
    exact (hfree u ((hgraph.mem u).mpr hu) heq.symm).2
  rw [hsource] at hreaches
  -- A program that is reached is not the one that is renamed.
  refine .inr ⟨dep, if_neg fun heq => hacyclic ⟨plan.sourceProgramId, ?_⟩, hreaches, not_false⟩
  rw [heq] at hreaches
  rcases hids a ha with rfl | hreached
  · exact hreaches.1
  · exact hreached.1.trans hreaches.1

/-- **The targets are in order**, if the artifacts of what the compiled programs need are there. -/
theorem deployTargets_behind {parseImports : JsString → List JsString → List JsString}
    {discovered : List DiscoveredUnit} {options : DeployOptions} {config : DeployConfig}
    {compiledIds targets : List JsString} {graph : DependencyGraph} {plan : Option RenamePlan}
    (hcompiled : options.program = [] → ∀ a ∈ compiledIds, ∀ b,
      Reaches parseImports discovered a b → b ∈ compiledIds)
    (h : deployTargets parseImports discovered options config compiledIds =
      .ok (graph, plan, targets)) :
    Behind (fun id dep => Reaches parseImports discovered (sourceOf plan id) dep)
      (fun _ => False) targets := by
  obtain ⟨graph', hgraph, h⟩ := Fallible.bind_ok.mp h
  obtain ⟨plan', hplan, h⟩ := Fallible.bind_ok.mp h
  dsimp only at h
  split at h
  · cases h
  obtain ⟨ids, hids, h⟩ := Fallible.bind_ok.mp h
  cases h
  obtain ⟨hacyclic, hresolved⟩ := resolved hgraph
  have hlocal : ∀ id ∈ candidateIds options plan compiledIds (programIds discovered),
      id ∈ programIds discovered := by
    unfold candidateIds
    intro id hid
    split at hid
    · exact hid
    split at hid
    · exact hid
    · exact of_decide_eq_true (List.mem_filter.mp hid).2
  have hclosed : options.program = [] →
      ∀ a ∈ candidateIds options plan compiledIds (programIds discovered), ∀ b,
        Reaches parseImports discovered a b →
        b ∈ candidateIds options plan compiledIds (programIds discovered) := by
    unfold candidateIds
    intro hall a ha b hreaches
    split
    · exact hreaches.2
    next hpreflight =>
    rw [if_neg hpreflight] at ha
    split
    · exact hreaches.2
    next hplain =>
    rw [if_neg hplain] at ha
    exact List.mem_filter.mpr ⟨hcompiled hall a (List.mem_filter.mp ha).1 b hreaches,
      decide_eq_true hreaches.2⟩
  obtain ⟨hselected, hone⟩ := resolveDeployTargets_ok hresolved hlocal hclosed hids
  have hbehind := hselected.behind hresolved
  cases plan with
  | none =>
    rw [show ids.map (targetOf none) = ids from List.map_id' ids]
    exact hbehind
  | some plan =>
    obtain ⟨hprogram, hsource⟩ := validateDeployRename_source hplan
    refine Behind.renamed hresolved hacyclic (validateDeployRename_free hplan) hbehind
      fun id hid => ?_
    rw [hsource]
    exact (hone hprogram id).mp hid

/-! ## The order of the broadcasts -/

section Broadcasts

variable {env : DeployEnvironment} {checked : Checked}

/-- The local program that a request is about. -/
def DeployBackendRequest.source (request : DeployBackendRequest) : JsString :=
  request.sourceProgramId.getD request.programId

variable (env checked) in
theorem requestFor_source (programId aleoSource : JsString) :
    (requestFor env checked programId aleoSource).source = sourceOf checked.plan programId := by
  unfold requestFor buildDeployRequest DeployBackendRequest.source sourceOf
  cases checked.plan with
  | none => rfl
  | some plan =>
    dsimp only
    by_cases hrenamed : plan.targetProgramId = programId
    · subst hrenamed
      simp [Option.filter]
    · simp [Option.filter, hrenamed]

variable (env checked) in
/-- What is broadcast: requests for the first of the programs. -/
theorem deployPrograms_broadcasts (ids : List JsString) :
    (deployPrograms env checked ids).1.map (·.programId) <+: ids ∧
      ∀ r ∈ (deployPrograms env checked ids).1, r.source = sourceOf checked.plan r.programId := by
  induction ids with
  | nil => exact ⟨List.prefix_refl _, nofun⟩
  | cons id ids ih =>
    unfold deployPrograms
    split
    · exact ⟨List.nil_prefix, nofun⟩
    next aleoSource _ =>
    split
    · exact ⟨List.nil_prefix, nofun⟩
    dsimp only
    have hsource := requestFor_source env checked id aleoSource
    split
    · exact ⟨List.nil_prefix, nofun⟩
    · exact ⟨List.cons_prefix_cons.mpr ⟨rfl, List.nil_prefix⟩, List.forall_mem_singleton.mpr hsource⟩
    · exact ⟨List.cons_prefix_cons.mpr ⟨rfl, ih.1⟩, List.forall_mem_cons.mpr ⟨hsource, ih.2⟩⟩

theorem map_programId_of_preflightProgramsOf {targetIds : List JsString}
    {programs : List PreflightProgram} (h : preflightProgramsOf env targetIds = .ok programs) :
    programs.map (·.programId) = targetIds := by
  rw [← List.forall₂_eq_eq_eq, List.forall₂_map_left_iff]
  refine (Fallible.mapM_ok.mp h).flip.imp fun prog id hprog => ?_
  obtain ⟨existingRecord, -, hprog⟩ := Fallible.bind_ok.mp hprog
  cases hprog
  rfl

/-- The programs that are deployed: those of the preflight that are not on the chain. -/
theorem toDeployIds_eq {opts : RunDeployPreflightOptions} {result : DeployPreflightResult}
    (h : runDeployPreflight opts = .ok result) : toDeployIds result.programs =
      (opts.programs.map (·.programId)).filter fun id => actionOf opts.chain id = .deploy := by
  have hleft : toDeployIds result.programs =
      ((result.programs.map fun o => (o.programId, o.action)).filter (·.2 = .deploy)).map (·.1) := by
    rw [toDeployIds, List.filter_map, List.map_map]
    rfl
  rw [hleft, runDeployPreflight_outcomes h, List.filter_map, List.map_map, List.filter_map]
  rfl

/-- What the checks come to, for targets that are in order. -/
theorem checkTargets_behind (hcompiled : env.options.program = [] →
      ∀ a ∈ env.artifacts.programIds, ∀ b,
        Reaches env.parseImports env.discovered a b → b ∈ env.artifacts.programIds)
    (h : checkTargets env = .ok checked) :
    Behind (fun id dep => Reaches env.parseImports env.discovered (sourceOf checked.plan id) dep)
      (fun id => env.chain.source id ≠ none) (toDeployIds checked.result.programs) := by
  obtain ⟨-, -, h⟩ := Fallible.bind_ok.mp h
  obtain ⟨⟨graph, plan, targetIds⟩, htargets, h⟩ := Fallible.bind_ok.mp h
  obtain ⟨-, -, h⟩ := Fallible.bind_ok.mp h
  obtain ⟨signerPrivateKey, -, h⟩ := Fallible.bind_ok.mp h
  obtain ⟨programs, hprograms, h⟩ := Fallible.bind_ok.mp h
  obtain ⟨result, hresult, h⟩ := Fallible.bind_ok.mp h
  obtain ⟨-, -, h⟩ := Fallible.bind_ok.mp h
  cases h
  have hids := toDeployIds_eq hresult
  rw [show (preflightOptions env.options env.config env.chain env.backend signerPrivateKey graph plan
    programs).programs = programs from rfl, map_programId_of_preflightProgramsOf hprograms] at hids
  rw [hids]
  refine ((deployTargets_behind hcompiled htargets).filter _).weaken fun id _ dep _ hthere => ?_
  rcases hthere with hfalse | ⟨-, hskipped⟩
  · exact hfalse.elim
  · exact fun hnone => of_decide_eq_false hskipped (actionOf_eq_deploy.mpr hnone)

end Broadcasts

/-- **Dependencies are deployed first**: in every run, each program that is broadcast comes after all
local programs that it reaches and that are not on the chain. -/
theorem broadcasts_behind (env : DeployEnvironment) (hcompiled : env.options.program = [] →
      ∀ a ∈ env.artifacts.programIds, ∀ b,
        Reaches env.parseImports env.discovered a b → b ∈ env.artifacts.programIds) :
    ∀ earlier request later, (deployAction env).broadcasts = earlier ++ request :: later →
      ∀ dep, Reaches env.parseImports env.discovered request.source dep →
        env.chain.source dep ≠ none ∨ dep ∈ earlier.map (·.programId) := by
  intro earlier request later heq dep hreaches
  unfold deployAction at heq
  split at heq
  · exact absurd heq (by simp [DeployRun.silent])
  next checked hchecked =>
  have hsilent : ∀ result, (DeployRun.silent result).broadcasts ≠ earlier ++ request :: later := by
    simp [DeployRun.silent]
  split at heq
  · exact absurd heq (hsilent _)
  split at heq
  · exact absurd heq (hsilent _)
  split at heq
  · split at heq
    · exact absurd heq (hsilent _)
    · exact absurd heq (hsilent _)
  split at heq
  · exact absurd heq (hsilent _)
  dsimp only at heq
  obtain ⟨hsent, hsources⟩ :=
    deployPrograms_broadcasts env checked (toDeployIds checked.result.programs)
  have hbehind := (checkTargets_behind hcompiled hchecked).of_isPrefix hsent
  rw [heq] at hsent hsources hbehind
  rw [hsources request (by simp)] at hreaches
  exact hbehind (earlier.map (·.programId)) request.programId (later.map (·.programId)) (by simp) dep
    hreaches

/-- All programs of the project are deployed on a devnode. -/
def vaultEnvironment : DeployEnvironment where
  parseImports := vaultImports
  discovered := vaultProject
  options := { vaultOptions with program := [], rename := [] }
  config := { vaultConfig with http := false }
  artifacts :=
    { programIds := [js "vault.aleo", js "token.aleo"]
      aleoSource := fun _ => some (js "program")
      hasAbi := fun _ => true
      provenance := fun _ => .ok none }
  chain := creditsChain
  backend := noEstimates
  provider := js "leo"
  networkName := js "devnode"
  prepare := .ok ()
  connect := .ok none
  existingRecord := fun _ => .ok none
  reconcile := fun _ => .ok ()
  buildWithoutBroadcast := true
  buildFailure := fun _ => none
  fee := 0
  privateFee := false
  prove := false
  fate := fun _ => .sent none

theorem broadcasts_behind_vault :
    (deployAction vaultEnvironment).broadcasts.map (·.programId) = [js "token.aleo", js "vault.aleo"] ∧
    ∀ earlier request later,
      (deployAction vaultEnvironment).broadcasts = earlier ++ request :: later →
      ∀ dep, Reaches vaultImports vaultProject request.source dep →
        creditsChain.source dep ≠ none ∨ dep ∈ earlier.map (·.programId) := by
  have hall : ∀ id ∈ programIds vaultProject, id ∈ vaultEnvironment.artifacts.programIds := by decide
  exact ⟨rfl, broadcasts_behind vaultEnvironment fun _ _ _ b hreaches => hall b hreaches.2⟩

end Lionden.Targets
