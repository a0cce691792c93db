import Lionden.Build.Histories
import Lionden.Build.Targeted

/-!
# Deployments whose rename is rejected

`deployAction` compiles before it validates the rename.

* `compileTask`, `deployAction`: the steps of a deployment up to its targets.
* `compilePipeline_preserves`: what the effects of the units preserve is preserved by the pipeline.
* `traceless_iff`: when a deployment whose rename is rejected leaves the other units as they were.
-/

namespace Lionden.Build

open Compiler Targets Interrupt

/-! ## The first steps of a deployment -/

/-- The arguments of the task that these steps read. -/
structure DeployArgs extends DeployOptions where
  network : Option JsString
  skipConfirm : Bool
  /-- `export`. -/
  exports : Bool

/-- What these steps learn from outside the compiler. -/
structure DeployHost where
  /-- `config.deploy.confirmTransactions`. -/
  confirmTransactions : Bool
  /-- `config.deploy.skipDeployed`. -/
  skipDeployed : Bool
  /-- The backend is selected, and its `preflight`. -/
  backendPreflight : Except JsString Unit
  preflightLeo : Except JsString Unit
  /-- What comes after the pipeline: the texts are read, and the bindings are written. -/
  generateBindings : List CompilationResult → Except JsString Unit
  /-- `lre.artifacts.getProgramIds()`, before the task. -/
  programIds : List JsString

def NetworkConfig.isHttp : NetworkConfig → Bool
  | .http .. => true
  | .devnode .. => false

section Deploy

variable (platform : Platform) (config : Config) (env : Environment) (host : DeployHost)
  (args : DeployArgs)

def DeployArgs.networkName : JsString := args.network.getD config.defaultNetwork

def shouldConfirm : Bool := !args.skipConfirm && host.confirmTransactions

/-- What the deployment reads of the configuration. -/
def deployConfig : DeployConfig where
  leoVersion := config.leoVersion
  buildTests := config.compiler.buildTests
  skipDeployed := host.skipDeployed
  http := (config.networks.lookup (args.networkName config)).any NetworkConfig.isHttp

/-- The arguments of the compilation: a text that is empty is not given. -/
def compileArgs : CompileOptions where
  force := false
  program := args.program
  rename := if args.rename = [] then none else some args.rename
  network := if args.network = some [] then none else args.network

/-- The task `compile`: the ids of the programs that are compiled. -/
def compileTask (options : CompileOptions) : Op (List JsString) := do
  attempt host.preflightLeo
  let compiled ← compilePipeline platform config env options
  attempt (host.generateBindings compiled.results)
  pure (compiled.results.filterMap fun result => result.program.map (·.programId))

/-- Steps 0 to 4 of `deployAction`: the graph, the rename and the targets. -/
def deployAction : Op (DependencyGraph × Option RenamePlan × List JsString) := do
  if args.exports ∧ ¬shouldConfirm host args then
    throw (js "Export is not available when deploy confirmation is skipped because deployed state " ++
      js "may not yet be visible on-chain.")
  else if (config.networks.lookup (args.networkName config)).isNone then
    throw (js "Network \"" ++ args.networkName config ++ js "\" not found in config. Available: " ++
      listOrNone (config.networks.map (·.1)))
  else
    attempt host.backendPreflight
    let compiled ← if args.noCompile ∨ args.preflight then pure []
      else compileTask platform config env host (compileArgs args)
    let discovered ← attempt env.discoverUnits
    attempt (deployTargets env.parseImports discovered args.toDeployOptions
      (deployConfig config host args) (host.programIds ++ compiled).eraseDups)

end Deploy

/-! ## What the pipeline preserves -/

/-- An effect of the unit that is compiled under `id` and has the entry `cacheId`, or a preparation of
its package. -/
def Effect.Within (cacheId id : JsString) : Effect → Prop
  | clearPackage written => written = id
  | copySource written _ _ => written = id
  | writeProgramJson written _ => written = id
  | writeEnv written _ => written = id
  | writeImport written _ _ => written = id
  | cacheNetworkDep .. => True
  | k => k.Concerns cacheId id

theorem Effect.Concerns.within {cacheId id : JsString} {k : Effect} (h : k.Concerns cacheId id) :
    k.Within cacheId id := by
  cases k <;> first | exact h | exact h.elim

section Preserved

variable {platform : Platform} {config : Config} {env : Environment} {options : CompileOptions}
  {plan : Plan} {I : World → Prop}

theorem attempt_preserves {α : Type} (x : Except JsString α) :
    Ends I (attempt x) (fun _ => I) I :=
  Ends.attempt (fun _ _ _ h => h) fun _ _ _ h => h

/-- A computation that may fail, and the rest of the operation. -/
theorem attempt_bind {α β : Type} {x : Except JsString α} {f : α → Op β} {P F : World → Prop}
    {Q : β → World → Prop} (hok : ∀ a, x = .ok a → Ends P (f a) Q F)
    (herror : ∀ e, x = .error e → ∀ w, P w → F w) : Ends P (attempt x >>= f) Q F := by
  cases x with
  | ok a => exact hok a rfl
  | error e => exact Triple.fail (herror e rfl)

theorem forM_preserves {α : Type} {xs : List α} {f : α → Op PUnit}
    (h : ∀ x ∈ xs, Ends I (f x) (fun _ => I) I) : Ends I (xs.forM f) (fun _ => I) I :=
  Triple.forM (I := fun _ => I) fun _ x _ hxs => h x (by simp [hxs])

section Unit

variable {unit : DiscoveredUnit}
  (hI : ∀ k w, Effect.Within (plan.cacheId unit) (plan.effectiveId unit) k → I w → I (k.apply w))

include hI

theorem copySources_preserves :
    Ends I (do
      unit.allSources.forM fun relPath => do
        let text ← attempt (copySource env.read unit plan.renamePlan relPath)
        perform (.copySource (plan.effectiveId unit) relPath text)
      perform (.writeProgramJson (plan.effectiveId unit)
        (buildProgramJson unit plan.graph (plan.effectiveId unit)))
      perform (.writeEnv (plan.effectiveId unit) (buildDotEnv config plan.network)))
      (fun _ => I) I := by
  have hperform (k : Effect) (hk : k.Within (plan.cacheId unit) (plan.effectiveId unit)) :
      Ends I (perform k) (fun _ => I) I := Ends.perform fun w => hI k w hk
  refine Triple.bind (M := fun _ => I) (forM_preserves fun relPath _ => ?_) fun _ => ?_
  · exact Triple.bind (attempt_preserves _) fun text => hperform (.copySource ..) rfl
  · exact Triple.bind (hperform (.writeProgramJson ..) rfl) fun _ => hperform (.writeEnv ..) rfl

theorem materializePackage_preserves :
    Ends I (materializePackage config env plan unit) (fun _ => I) I :=
  Triple.bind (M := fun _ => I) (Ends.perform fun w => hI (.clearPackage _) w rfl) fun _ =>
    copySources_preserves hI

end Unit

variable (hI : ∀ unit ∈ plan.compileOrder, ∀ k w,
  Effect.Within (plan.cacheId unit) (plan.effectiveId unit) k → I w → I (k.apply w))

include hI

theorem linkToImporters_preserves (dep : JsString) :
    Ends I (linkToImporters platform config env options plan dep) (fun _ => I) I := by
  have hsource : Ends I (networkDepSource platform config env options plan dep) (fun _ => I) I := by
    unfold networkDepSource
    refine Triple.read fun w hw => ?_
    refine Triple.weaken (P := I) ?_ (fun _ h => h ▸ hw) (fun _ _ h => h) (fun _ h => h) fun _ h => h
    dsimp only
    split
    · exact Triple.pure fun _ h => h
    · exact attempt_preserves _
  refine Triple.bind hsource fun text => forM_preserves fun unit hunit => ?_
  refine Triple.ite (fun _ => ?_) fun _ => Triple.pure fun _ h => h
  exact Triple.bind (M := fun _ => I) (Ends.perform fun w => hI unit hunit (.cacheNetworkDep ..) w trivial)
    fun _ => Ends.perform fun w => hI unit hunit (.writeImport ..) w rfl

theorem prepare_preserves :
    Ends I (prepare platform config env options plan) (fun _ => I) I :=
  Triple.bind (forM_preserves fun unit hunit => materializePackage_preserves (hI unit hunit)) fun _ =>
    forM_preserves fun dep _ => linkToImporters_preserves hI dep

/-- What the effects of the units preserve is preserved, also when the pipeline fails. -/
theorem compilePipeline_preserves (hplan : planCompilation config env options = .ok plan) :
    Ends I (compilePipeline platform config env options) (fun _ => I) I := by
  unfold compilePipeline
  rw [hplan]
  show Ends I (prepare platform config env options plan >>= fun _ =>
    compileUnits platform config env options plan [] plan.compileOrder >>= fun results =>
      pure (⟨results, plan.graph⟩ : CompilePipelineResult)) (fun _ => I) I
  refine Triple.bind (M := fun _ => I) (prepare_preserves hI) fun _ => ?_
  refine Triple.bind (M := fun _ => I) ?_ fun results => Triple.pure fun _ h => h
  exact Triple.weaken (compileUnits_preserves [] _ fun unit hunit k w hk => hI unit hunit k w hk.within)
    (fun _ h => h) (fun _ _ h => h.2) (fun _ h => h) fun _ h => h

end Preserved

/-! ## The other units -/

/-- The entries of a unit in the cache: under its own id and under others. -/
def IsEntryOf (id key : JsString) : Prop := key = id ∨ ∃ name, key = id ++ js "__as__" ++ name

/-- The packages, what is built in them and the artifacts of the units are as before, but for those of
the selected unit, and so is the cache, but for the entries of that unit. -/
structure OthersKept (units : List DiscoveredUnit) (selected : Option DiscoveredUnit)
    (before after : Disk) : Prop where
  packages : ∀ unit ∈ units, some unit ≠ selected →
    after.packages (unitId unit) = before.packages (unitId unit)
  builds : ∀ unit ∈ units, some unit ≠ selected →
    after.builds (unitId unit) = before.builds (unitId unit)
  artifacts : ∀ unit ∈ units, some unit ≠ selected →
    after.artifacts (unitId unit) = before.artifacts (unitId unit)
  hashes : ∀ key, (∀ unit, some unit = selected → ¬IsEntryOf (unitId unit) key) →
    after.hashes key = before.hashes key

theorem OthersKept.refl (units : List DiscoveredUnit) (selected : Option DiscoveredUnit) (disk : Disk) :
    OthersKept units selected disk disk :=
  ⟨fun _ _ _ => rfl, fun _ _ _ => rfl, fun _ _ _ => rfl, fun _ _ => rfl⟩

section Effects

variable {units : List DiscoveredUnit} {target : DiscoveredUnit} {before : Disk} {cacheId id : JsString}

/-- What is done under an id that no other unit has leaves the others as they were. -/
theorem OthersKept.apply {k : Effect} {w : World} (h : OthersKept units (some target) before w.disk)
    (hk : k.Within cacheId id) (hid : ∀ unit ∈ units, some unit ≠ some target → unitId unit ≠ id)
    (hcache : IsEntryOf (unitId target) cacheId) :
    OthersKept units (some target) before (k.apply w).disk := by
  have hmodify {k : Effect} {f : Package → Package} (hk : k.Modifies id f) :
      OthersKept units (some target) before (k.apply w).disk := by
    unfold Effect.apply
    rw [hk.change]
    refine ⟨fun unit hunit hne => ?_, h.builds, h.artifacts, h.hashes⟩
    exact (Function.update_of_ne (hid unit hunit hne) _ _).trans (h.packages unit hunit hne)
  cases k with
  | clearPackage =>
    obtain rfl : _ = id := hk
    exact hmodify (clearPackage_modifies _)
  | copySource =>
    obtain rfl : _ = id := hk
    exact hmodify (copySource_modifies ..)
  | writeProgramJson =>
    obtain rfl : _ = id := hk
    exact hmodify (writeProgramJson_modifies ..)
  | writeEnv =>
    obtain rfl : _ = id := hk
    exact hmodify (writeEnv_modifies ..)
  | writeImport =>
    obtain rfl : _ = id := hk
    exact hmodify (writeImport_modifies ..)
  | cacheNetworkDep | hashUnit | askCache => exact ⟨h.packages, h.builds, h.artifacts, h.hashes⟩
  | build =>
    obtain rfl : _ = id := hk
    exact ⟨h.packages, fun unit hunit hne =>
      (Function.update_of_ne (hid unit hunit hne) _ _).trans (h.builds unit hunit hne),
      h.artifacts, h.hashes⟩
  | replaceArtifacts | writeMetadata =>
    obtain rfl : _ = id := hk
    exact ⟨h.packages, h.builds, fun unit hunit hne =>
      (Function.update_of_ne (hid unit hunit hne) _ _).trans (h.artifacts unit hunit hne), h.hashes⟩
  | writeCache =>
    obtain rfl : _ = cacheId := hk
    refine ⟨h.packages, h.builds, h.artifacts, fun key hkey => ?_⟩
    refine (Function.update_of_ne ?_ _ _).trans (h.hashes key hkey)
    rintro rfl
    exact hkey target rfl hcache

/-- A package that is there is not taken away. -/
theorem packages_ne_none {k : Effect} {w : World} (h : w.disk.packages id ≠ none) :
    (k.apply w).disk.packages id ≠ none := by
  have hmodify {k : Effect} {written : JsString} {f : Package → Package}
      (hk : k.Modifies written f) : (k.apply w).disk.packages id ≠ none := by
    unfold Effect.apply
    rw [hk.change]
    show Function.update w.disk.packages written _ id ≠ none
    by_cases heq : id = written
    · subst heq
      rw [Function.update_self]
      exact Option.some_ne_none _
    · rwa [Function.update_of_ne heq]
  cases k with
  | clearPackage written => exact hmodify (clearPackage_modifies written)
  | copySource written relPath text => exact hmodify (copySource_modifies written relPath text)
  | writeProgramJson written manifest => exact hmodify (writeProgramJson_modifies written manifest)
  | writeEnv written env => exact hmodify (writeEnv_modifies written env)
  | writeImport written dep text => exact hmodify (writeImport_modifies written dep text)
  | cacheNetworkDep | hashUnit | askCache | build | replaceArtifacts | writeMetadata | writeCache =>
    exact h

end Effects

/-! ## Rejected renames -/

section Rejected

variable {platform : Platform} {config : Config} {env : Environment} {host : DeployHost}
  {args : DeployArgs} {units : List DiscoveredUnit} {graph : DependencyGraph} {message : JsString}

/-- The rename is rejected. -/
structure Rejected (config : Config) (env : Environment) (host : DeployHost) (args : DeployArgs)
    (units : List DiscoveredUnit) (graph : DependencyGraph) (message : JsString) : Prop where
  discover : env.discoverUnits = .ok units
  resolve : (resolveDependencies env.parseImports units).mapError ResolveError.message = .ok graph
  validate : validateDeployRename args.toDeployOptions (deployConfig config host args) graph =
    .error message

/-- The run comes to the compilation. -/
structure CompilesFirst (config : Config) (host : DeployHost) (args : DeployArgs) : Prop where
  exports : ¬(args.exports = true ∧ ¬shouldConfirm host args = true)
  network : ¬(config.networks.lookup (args.networkName config)).isNone = true
  backend : host.backendPreflight = .ok ()
  compile : ¬(args.noCompile = true ∨ args.preflight = true)
  leo : host.preflightLeo = .ok ()

/-- The selected unit imports no local unit, and the package that it is compiled in is its own or that
of no local unit. -/
structure Alone (config : Config) (env : Environment) (args : DeployArgs) (units : List DiscoveredUnit)
    (target : DiscoveredUnit) : Prop where
  imports : ∀ id, ¬LocalImport env.parseImports units (unitId target) id
  rename : target.isProgram = true →
    ∀ unit ∈ units, packagePath config (unitId unit) =
      packagePath config (normalizeProgramId args.rename) → unit = target

theorem Rejected.targets (h : Rejected config env host args units graph message)
    (compiledIds : List JsString) :
    deployTargets env.parseImports units args.toDeployOptions (deployConfig config host args)
      compiledIds = .error message := by
  unfold deployTargets
  rw [h.resolve]
  show (validateDeployRename args.toDeployOptions (deployConfig config host args) graph >>= _) = _
  rw [h.validate]
  rfl

/-- A rename that is rejected is not empty. -/
theorem Rejected.rename (h : Rejected config env host args units graph message) :
    (compileArgs args).rename = some args.rename := by
  unfold compileArgs
  refine if_neg fun hempty => ?_
  have hvalid := h.validate
  unfold validateDeployRename at hvalid
  rw [hempty] at hvalid
  exact nomatch hvalid

section Runs

variable {I P F : World → Prop}

theorem Rejected.fails (h : Rejected config env host args units graph message)
    (compiledIds : List JsString) :
    Ends I (do
      let discovered ← attempt env.discoverUnits
      attempt (deployTargets env.parseImports discovered args.toDeployOptions
        (deployConfig config host args) compiledIds)) (fun _ _ => False) I := by
  refine attempt_bind (fun discovered hdiscovered => ?_) fun _ _ _ hw => hw
  obtain rfl : units = discovered := Except.ok.inj (h.discover.symm.trans hdiscovered)
  rw [h.targets]
  exact Triple.fail fun _ hw => hw

/-- The run fails: before the compilation, in it, or when the rename is validated. -/
theorem Rejected.ends (h : Rejected config env host args units graph message)
    (hcompiles : CompilesFirst config host args →
      Ends P (compilePipeline platform config env (compileArgs args)) (fun _ => F) F)
    (hstops : ¬CompilesFirst config host args → ∀ w, P w → F w) :
    Ends P (deployAction platform config env host args) (fun _ _ => False) F := by
  refine Triple.ite (fun hexports => Triple.fail (hstops fun hc => hc.exports hexports)) fun hexports => ?_
  refine Triple.ite (fun hnetwork => Triple.fail (hstops fun hc => hc.network hnetwork)) fun hnetwork => ?_
  refine attempt_bind (fun _ hbackend => ?_) fun e hbackend => hstops fun hc =>
    nomatch hbackend.symm.trans hc.backend
  refine Triple.ite (fun hcompile => ?_) fun hcompile => ?_
  · exact Triple.weaken (h.fails (I := F) _) (hstops fun hc => hc.compile hcompile) (fun _ _ hw => hw)
      (fun _ hw => hw) fun _ hw => hw
  refine Triple.bind (M := fun _ => F) ?_ fun compiled => h.fails _
  refine attempt_bind (fun _ hleo => ?_) fun e hleo => hstops fun hc => nomatch hleo.symm.trans hc.leo
  refine Triple.bind (M := fun _ => F) (hcompiles ⟨hexports, hnetwork, hbackend, hcompile, hleo⟩)
    fun compiled => ?_
  exact Triple.bind (M := fun _ => F) (attempt_preserves _) fun _ => Triple.pure fun _ hw => hw

end Runs

section Plans

variable {plan : Plan} {target : DiscoveredUnit}

/-- A plan for a rejected rename has a target. -/
theorem Rejected.selected (h : Rejected config env host args units graph message)
    (hplan : planCompilation config env (compileArgs args) = .ok plan) :
    ∃ target, selectedUnit (compileArgs args) graph = some target ∧
      Selected env (compileArgs args) units target plan := by
  have hrename := h.rename
  have hplanned := hplan
  unfold planCompilation at hplanned
  rw [hrename] at hplanned
  split at hplanned
  · exact nomatch hplanned
  next hgiven =>
  obtain ⟨network, -, hplanned⟩ := Fallible.bind_ok.mp hplanned
  obtain ⟨units', hunits', hplanned⟩ := Fallible.bind_ok.mp hplanned
  obtain rfl : units = units' := Except.ok.inj (h.discover.symm.trans hunits')
  obtain ⟨graph', hgraph', hplanned⟩ := Fallible.bind_ok.mp hplanned
  obtain rfl : graph = graph' := Except.ok.inj (h.resolve.symm.trans hgraph')
  have hprogram : (compileArgs args).program ≠ [] := fun hempty => hgiven ⟨rfl, hempty⟩
  rw [if_neg hprogram] at hplanned
  split at hplanned
  · exact nomatch hplanned
  next target hfound =>
  have htarget : selectedUnit (compileArgs args) graph = some target := by
    unfold selectedUnit
    rw [if_neg hprogram, hfound]
  cases hplanned
  exact ⟨target, htarget, Build.selected h.discover hplan htarget⟩

/-- With a target there is a plan. -/
theorem Rejected.planned (h : Rejected config env host args units graph message)
    (hnetwork : ¬(config.networks.lookup (args.networkName config)).isNone = true)
    (htarget : selectedUnit (compileArgs args) graph = some target) :
    ∃ plan, planCompilation config env (compileArgs args) = .ok plan := by
  obtain ⟨network, hok⟩ : ∃ network, effectiveNetwork config (compileArgs args) = .ok network := by
    unfold effectiveNetwork compileArgs
    dsimp only
    by_cases hempty : args.network = some []
    · rw [if_pos hempty]
      exact ⟨_, rfl⟩
    rw [if_neg hempty]
    cases hname : args.network with
    | none => exact ⟨_, rfl⟩
    | some name =>
      unfold DeployArgs.networkName at hnetwork
      rw [hname] at hnetwork
      exact ⟨name, if_neg hnetwork⟩
  unfold selectedUnit at htarget
  split at htarget
  · exact nomatch htarget
  next hprogram =>
  unfold planCompilation
  rw [if_neg fun hempty => hprogram hempty.2]
  let plan : Plan := {
    graph
    compileOrder := collectTransitiveDeps target graph units
    renamePlan := (compileArgs args).rename.map fun rename =>
      { sourceProgramId := unitId target, targetProgramId := normalizeProgramId rename }
    network }
  refine ⟨plan, Fallible.bind_ok.mpr ⟨network, hok, Fallible.bind_ok.mpr ⟨units, h.discover,
    Fallible.bind_ok.mpr ⟨graph, h.resolve, ?_⟩⟩⟩⟩
  rw [if_neg hprogram, htarget]

/-- A program is compiled under its new name. -/
theorem Selected.effectiveId_program {options : CompileOptions} {name : JsString}
    (h : Selected env options units target plan) (hprogram : target.isProgram = true)
    (hname : options.rename = some name) : plan.effectiveId target = normalizeProgramId name := by
  unfold Plan.effectiveId effectiveUnitId
  rw [h.rename, hname]
  cases hkind : target.kind with
  | library library => simp [DiscoveredUnit.isProgram, hkind] at hprogram
  | program programId => simp [unitId, hkind]

/-- A target that imports no local unit is compiled alone. -/
theorem Selected.eq_target {options : CompileOptions} (h : Selected env options units target plan)
    (himports : ∀ id, ¬LocalImport env.parseImports units (unitId target) id) {unit : DiscoveredUnit}
    (hunit : unit ∈ plan.compileOrder) : unit = target := by
  obtain ⟨hmem, hneeds⟩ := h.mem_compileOrder.mp hunit
  refine h.graph.unique unit hmem target h.isUnit ?_
  rcases Relation.ReflTransGen.cases_head hneeds with heq | ⟨id, hstep, -⟩
  · exact heq.symm
  · exact absurd hstep (himports id)

theorem Plan.isEntryOf_cacheId (plan : Plan) (unit : DiscoveredUnit) :
    IsEntryOf (unitId unit) (plan.cacheId unit) := by
  unfold Plan.cacheId IsEntryOf
  dsimp only
  split
  · exact .inl rfl
  · exact .inr ⟨_, rfl⟩

end Plans

/-- The package of the first unit is written, whatever comes after. -/
theorem compilePipeline_writes {options : CompileOptions} {plan : Plan} {first : DiscoveredUnit}
    {rest : List DiscoveredUnit} (hplan : planCompilation config env options = .ok plan)
    (horder : plan.compileOrder = first :: rest) :
    Ends (fun _ => True) (compilePipeline platform config env options)
      (fun _ w => w.disk.packages (plan.effectiveId first) ≠ none)
      fun w => w.disk.packages (plan.effectiveId first) ≠ none := by
  have hkept {cacheId id : JsString} (k : Effect) (w : World) (_ : k.Within cacheId id)
      (hw : w.disk.packages (plan.effectiveId first) ≠ none) :
      (k.apply w).disk.packages (plan.effectiveId first) ≠ none := packages_ne_none hw
  unfold compilePipeline
  refine attempt_bind (fun plan' hplan' => ?_) fun e herror => nomatch hplan.symm.trans herror
  obtain rfl : plan = plan' := Except.ok.inj (hplan.symm.trans hplan')
  refine Triple.bind (M := fun _ w => w.disk.packages (plan.effectiveId first) ≠ none) ?_ fun _ => ?_
  · unfold prepare
    rw [horder]
    refine Triple.bind (M := fun _ w => w.disk.packages (plan.effectiveId first) ≠ none) ?_ fun _ =>
      forM_preserves fun dep _ => linkToImporters_preserves (fun _ _ => hkept) dep
    refine Triple.bind (M := fun _ w => w.disk.packages (plan.effectiveId first) ≠ none) ?_ fun _ =>
      forM_preserves fun unit _ => materializePackage_preserves hkept
    refine Triple.bind (M := fun _ w => w.disk.packages (plan.effectiveId first) ≠ none)
      (Ends.perform fun w _ => ?_) fun _ => copySources_preserves hkept
    show Function.update w.disk.packages (plan.effectiveId first) _ (plan.effectiveId first) ≠ none
    rw [Function.update_self]
    exact Option.some_ne_none _
  · refine Triple.bind (M := fun _ w => w.disk.packages (plan.effectiveId first) ≠ none) ?_
      fun results => Triple.pure fun _ h => h
    exact Triple.weaken (compileUnits_preserves [] _ fun _ _ k w hk => hkept k w hk.within)
      (fun _ h => h) (fun _ _ h => h.2) (fun _ h => h) fun _ h => h

/-- The run fails, and the other units are as they were, whatever was there before. -/
def Traceless (platform : Platform) (config : Config) (env : Environment) (host : DeployHost)
    (args : DeployArgs) (units : List DiscoveredUnit) (graph : DependencyGraph) : Prop :=
  ∀ w₀, ∃ e w, run (deployAction platform config env host args) w₀ = .failed e w ∧
    OthersKept units (selectedUnit (compileArgs args) graph) w₀.disk w.disk

/-- A unit that is compiled alone, under an id of its own, leaves no trace of the others. -/
theorem Rejected.traceless (h : Rejected config env host args units graph message)
    (halone : CompilesFirst config host args → ∀ target,
      selectedUnit (compileArgs args) graph = some target → Alone config env args units target) :
    Traceless platform config env host args units graph := by
  intro w₀
  have hends : Ends
      (fun w => OthersKept units (selectedUnit (compileArgs args) graph) w₀.disk w.disk)
      (deployAction platform config env host args) (fun _ _ => False)
      (fun w => OthersKept units (selectedUnit (compileArgs args) graph) w₀.disk w.disk) := by
    refine h.ends (fun hcompiles => ?_) fun _ _ hw => hw
    cases hplan : planCompilation config env (compileArgs args) with
    | error e =>
      unfold compilePipeline
      rw [hplan]
      exact Triple.fail fun _ hw => hw
    | ok plan =>
      obtain ⟨target, htarget, hselected⟩ := h.selected hplan
      obtain ⟨himports, hrename⟩ := halone hcompiles target htarget
      rw [htarget]
      refine compilePipeline_preserves (fun unit hunit k w hk hw => ?_) hplan
      obtain rfl := hselected.eq_target himports hunit
      refine hw.apply hk (fun other hother hne heq => hne (congrArg some ?_))
        (plan.isEntryOf_cacheId unit)
      rcases hselected.effectiveId_target with hown | ⟨name, hname, hprogram, hnew⟩
      · exact hselected.graph.unique other hother unit hselected.isUnit (heq.trans hown)
      · obtain rfl : args.rename = name := Option.some.inj (h.rename.symm.trans hname)
        exact hrename hprogram other hother (congrArg (packagePath config) (heq.trans hnew))
  rcases hends.run (OthersKept.refl ..) with ⟨_, _, -, hfalse⟩ | ⟨e, w, hrun, hw⟩
  · exact hfalse.elim
  · exact ⟨e, w, hrun, hw⟩

/-- Where the others are never changed, the first package that is written is that of the selected
unit. -/
theorem Rejected.alone (h : Rejected config env host args units graph message)
    (hnames : Named units graph (some args.rename))
    (hkept : Traceless platform config env host args units graph)
    (hcompiles : CompilesFirst config host args) {target : DiscoveredUnit}
    (htarget : selectedUnit (compileArgs args) graph = some target) :
    Alone config env args units target := by
  obtain ⟨plan, hplan⟩ := h.planned hcompiles.network htarget
  obtain ⟨target', htarget', hselected⟩ := h.selected hplan
  obtain rfl : target = target' := Option.some.inj (htarget.symm.trans htarget')
  obtain ⟨first, rest, horder⟩ := List.exists_cons_of_ne_nil (List.ne_nil_of_mem hselected.target_mem)
  have hfirst : first ∈ plan.compileOrder := horder ▸ List.mem_cons_self
  -- In an empty directory the package of the first unit shows.
  have hown : ∀ unit ∈ units, unitId unit = plan.effectiveId first → unit = target := by
    intro unit hunit heq
    by_contra hne
    obtain ⟨e, w, hrun, hothers⟩ := hkept ⟨Disk.empty, []⟩
    have hwrites : Ends (fun _ => True) (compilePipeline platform config env (compileArgs args))
        (fun _ w => w.disk.packages (plan.effectiveId first) ≠ none)
        fun w => w.disk.packages (plan.effectiveId first) ≠ none :=
      compilePipeline_writes hplan horder
    have hends := h.ends (fun _ => hwrites) fun hstops => absurd hcompiles hstops
    rcases hends.run (w := ⟨Disk.empty, []⟩) trivial with ⟨_, _, -, hfalse⟩ | ⟨e', w', hrun', hwritten⟩
    · exact hfalse
    · cases hrun.symm.trans hrun'
      refine hwritten (heq ▸ ?_)
      exact hothers.packages unit hunit fun hsome => hne (Option.some.inj (hsome.trans htarget))
  have htargets : first = target := by
    by_contra hne
    have hmem := (hselected.mem_compileOrder.mp hfirst).1
    exact hne (hown first hmem (hselected.effectiveId_of_ne hfirst hne).symm)
  subst htargets
  refine ⟨fun id himport => ?_, fun hprogram unit hunit hpath => ?_⟩
  · -- A local import would come first.
    obtain ⟨other, hother, -⟩ := planCompilation_ordered hplan [] first rest horder id
      ((hselected.mem_localDepIds hselected.isUnit).mpr himport)
    exact nomatch hother
  · have heq := packagePath_injective (hnames.units unit hunit) (hnames.rename _ rfl) hpath
    exact hown unit hunit (heq.trans (hselected.effectiveId_program hprogram h.rename).symm)

/-- **A rejected rename leaves no trace exactly if** the run does not come to the compilation, no unit is
selected, or the selected unit is compiled alone, in its own package or one that no local unit has. The
names in paths are single ones. -/
theorem traceless_iff (h : Rejected config env host args units graph message)
    (hnames : Named units graph (some args.rename)) :
    Traceless platform config env host args units graph ↔
      (CompilesFirst config host args → ∀ target, selectedUnit (compileArgs args) graph = some target →
        Alone config env args units target) :=
  ⟨fun hkept hcompiles _ htarget => h.alone hnames hkept hcompiles htarget, h.traceless⟩

end Rejected

/-! ## Two programs -/

namespace Rejections

open Project

/-- Neither program imports the other, and both can be built. -/
def environment : Environment where
  discoverUnits := .ok [app, base]
  read dir _ := if dir = app.sourceDir then js "program app.aleo \x7b\x7d" else js "program base.aleo \x7b\x7d"
  parseImports _ _ := []
  fetchNetworkDep _ _ _ := .error (js "offline")
  buildEnd _ := .succeeds

def host : DeployHost where
  confirmTransactions := true
  skipDeployed := true
  backendPreflight := .ok ()
  preflightLeo := .ok ()
  generateBindings _ := .ok ()
  programIds := []

/-- `deploy --program app --rename`. -/
def deployAs (name : JsString) : DeployArgs where
  program := js "app"
  rename := name
  noCompile := false
  preflight := false
  dryRun := false
  noSkipDeployed := false
  network := none
  skipConfirm := false
  exports := false

/-- After `compile --program base`. -/
def compiled : World :=
  (run (compilePipeline Renames.platform config environment
    { force := false, program := js "base", rename := none, network := none }) ⟨Disk.empty, []⟩).state

/-- The program that the artifacts of `base.aleo` are compiled from. -/
def baseSource (disk : Disk) : Option JsString :=
  ((disk.artifacts (js "base.aleo")).bind (·.metadata)).map (·.sourceProgramId)

theorem baseSource_kept {selected : Option DiscoveredUnit} {before after : Disk}
    (h : OthersKept [app, base] selected before after) (hother : some base ≠ selected) :
    baseSource after = baseSource before := by
  have hartifacts : after.artifacts (js "base.aleo") = before.artifacts (js "base.aleo") :=
    h.artifacts base (by simp) hother
  unfold baseSource
  rw [hartifacts]

theorem rejected (config : Config) (name message : JsString)
    (h : ((resolveDependencies environment.parseImports [app, base]).mapError
      ResolveError.message).toOption.any (fun graph =>
        decide (Named [app, base] graph (some name)) &&
        match validateDeployRename (deployAs name).toDeployOptions
          (deployConfig config host (deployAs name)) graph with
        | .error e => e = message
        | .ok _ => false) = true) :
    ∃ graph, Named [app, base] graph (some name) ∧
      Rejected config environment host (deployAs name) [app, base] graph message := by
  cases hgraph : (resolveDependencies environment.parseImports [app, base]).mapError
      ResolveError.message with
  | error e =>
    rw [hgraph] at h
    exact nomatch h
  | ok graph =>
    rw [hgraph] at h
    obtain ⟨hnames, h⟩ := Bool.and_eq_true_iff.mp h
    refine ⟨graph, of_decide_eq_true hnames, rfl, hgraph, ?_⟩
    cases hvalidate : validateDeployRename (deployAs name).toDeployOptions
        (deployConfig config host (deployAs name)) graph with
    | error e =>
      rw [hvalidate] at h
      rw [of_decide_eq_true h]
    | ok plan =>
      rw [hvalidate] at h
      exact nomatch h

/-- With another id for `app`, and a Leo that knows no renames, `base` is left as it was. -/
theorem traceless_tenant : ∃ graph,
    Traceless Renames.platform { config with leoVersion := js "4.2.0" } environment host
      (deployAs (js "tenant")) [app, base] graph := by
  obtain ⟨graph, hnames, h⟩ := rejected { config with leoVersion := js "4.2.0" } (js "tenant")
    (js "deploy --rename requires Leo 4.3.0 or newer. Configured leoVersion is \"4.2.0\".")
    (by decide +kernel)
  refine ⟨graph, (traceless_iff h hnames).mpr fun _ target htarget => ⟨fun id himport => ?_, ?_⟩⟩
  · obtain ⟨_, u, _, _, v, _, _, dep, hdep, _⟩ := himport
    exact absurd hdep List.not_mem_nil
  · have hfree : ∀ unit ∈ [app, base],
        packagePath { config with leoVersion := js "4.2.0" } (unitId unit) ≠
          packagePath { config with leoVersion := js "4.2.0" }
            (normalizeProgramId (js "tenant")) := by
      decide +kernel
    exact fun _ unit hunit heq => absurd heq (hfree unit hunit)

/-- The artifacts of `base` are those of `app` after `deploy --program app --rename base`, which is
rejected for the name. -/
theorem base_overwritten : ∃ graph,
    Rejected config environment host (deployAs (js "base")) [app, base] graph
      (js "Invalid deploy rename: \"base.aleo\" conflicts with another local unit.") ∧
    baseSource compiled.disk = some (js "base.aleo") ∧
    (∃ e w, run (deployAction Renames.platform config environment host (deployAs (js "base")))
        compiled = .failed e w ∧ baseSource w.disk = some (js "app.aleo")) ∧
    ¬Traceless Renames.platform config environment host (deployAs (js "base")) [app, base] graph := by
  obtain ⟨graph, -, h⟩ := rejected config (js "base")
    (js "Invalid deploy rename: \"base.aleo\" conflicts with another local unit.") (by decide +kernel)
  have hbefore : baseSource compiled.disk = some (js "base.aleo") := by decide +kernel
  have hrun : (match run (deployAction Renames.platform config environment host (deployAs (js "base")))
      compiled with
    | .failed _ w => decide (baseSource w.disk = some (js "app.aleo"))
    | _ => false) = true := by
    decide +kernel
  obtain ⟨e, w, hfailed, hafter⟩ : ∃ e w, run (deployAction Renames.platform config environment host
      (deployAs (js "base"))) compiled = .failed e w ∧ baseSource w.disk = some (js "app.aleo") := by
    cases hdeploy : run (deployAction Renames.platform config environment host (deployAs (js "base")))
        compiled with
    | failed e w =>
      rw [hdeploy] at hrun
      exact ⟨e, w, rfl, of_decide_eq_true hrun⟩
    | returned a w =>
      rw [hdeploy] at hrun
      exact nomatch hrun
    | crashed w =>
      rw [hdeploy] at hrun
      exact nomatch hrun
  refine ⟨graph, h, hbefore, ⟨e, w, hfailed, hafter⟩, fun htraceless => ?_⟩
  obtain ⟨e', w', hfailed', hkept⟩ := htraceless compiled
  cases hfailed.symm.trans hfailed'
  have hother : some base ≠ selectedUnit (compileArgs (deployAs (js "base"))) graph := by
    intro hselected
    have hfound := List.find?_some (hselected.symm)
    exact absurd hfound (by decide +kernel)
  exact absurd (hafter.symm.trans ((baseSource_kept hkept hother).trans hbefore)) (by decide +kernel)

end Rejections

end Lionden.Build
