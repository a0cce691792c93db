import Lionden.Targets.Closure

/-!
# The targets of a deployment

* `validateDeployRename`: a rename needs one program, and a name that no other unit has.
* `graphWithRenamedPrimary`: the graph in which the renamed program imports what its source imports.
* `resolveDeployTargets`, `deployTargets`: which programs are deployed, in which order.
* `Follows.renamed`: a valid rename leaves the closures as they are.
-/

namespace Lionden.Targets

open Compiler

/-- The options of the task that select programs; a text that is not given is empty. -/
structure DeployOptions where
  program : JsString
  rename : JsString
  noCompile : Bool
  preflight : Bool
  dryRun : Bool
  noSkipDeployed : Bool

structure DeployConfig where
  leoVersion : JsString
  buildTests : Bool
  skipDeployed : Bool
  /-- The type of the network is `http`, and not `devnode`. -/
  http : Bool

structure RenamePlan where
  sourceProgramId : JsString
  targetProgramId : JsString

def normalizeProgramId (raw : JsString) : JsString :=
  if endsWith raw (js ".aleo") then raw else raw ++ js ".aleo"

def bareProgramName (programId : JsString) : JsString :=
  if endsWith programId (js ".aleo") then programId.take (programId.length - 5) else programId

/-- `s.split(".")`. -/
def splitDots (s : JsString) : List JsString := s.splitOn 46

/-- A version of three numbers, from 4.3 on. -/
def supportsLeoProgramRename (leoVersion : JsString) : Bool :=
  match splitDots leoVersion with
  | [major, minor, patch] =>
    [major, minor, patch].all (fun part => part ≠ [] ∧ part.all isDigit) &&
      (digitsValue major > 4 || (digitsValue major = 4 && digitsValue minor ≥ 3))
  | _ => false

/-- The names of a unit that a rename must not take. -/
def localLookupKeys (unit : DiscoveredUnit) : List JsString := lookupKeys unit

/-- Every unit other than the program that is renamed. -/
def otherUnits (order : List DiscoveredUnit) (sourceProgramId : JsString) : List DiscoveredUnit :=
  order.filter fun unit => ¬ (unit.isProgram = true ∧ unitId unit = sourceProgramId)

/-- An error is its message. -/
def validateDeployRename (options : DeployOptions) (config : DeployConfig) (graph : DependencyGraph) :
    Except JsString (Option RenamePlan) :=
  let rawRename := trim options.rename
  if rawRename = [] then .ok none
  else if ¬ supportsLeoProgramRename config.leoVersion then
    .error (js "deploy --rename requires Leo 4.3.0 or newer. Configured leoVersion is \"" ++
      config.leoVersion ++ js "\".")
  else if config.buildTests then
    .error (js "deploy --rename is not supported when compiler.buildTests is enabled.")
  else if options.program = [] then
    .error (js "deploy --rename requires --program so exactly one primary target is selected.")
  else
    let sourceProgramId := normalizeProgramId options.program
    let targetProgramId := normalizeProgramId rawRename
    let localUnitKeys := (otherUnits graph.order sourceProgramId).flatMap localLookupKeys
    if targetProgramId ∈ localUnitKeys ∨ bareProgramName targetProgramId ∈ localUnitKeys then
      .error (js "Invalid deploy rename: \"" ++ targetProgramId ++
        js "\" conflicts with another local unit.")
    else .ok (some { sourceProgramId, targetProgramId })

def graphWithRenamedPrimary (graph : DependencyGraph) (rename : RenamePlan) : DependencyGraph :=
  { graph with
    imports := (rename.targetProgramId, graph.importsOf rename.sourceProgramId) :: graph.imports }

def preflightGraph (graph : DependencyGraph) : Option RenamePlan → DependencyGraph
  | none => graph
  | some plan => graphWithRenamedPrimary graph plan

/-- The id of a target: the one under which it is deployed. -/
def targetOf (plan : Option RenamePlan) (id : JsString) : JsString :=
  match plan with
  | none => id
  | some plan => if id = plan.sourceProgramId then plan.targetProgramId else id

/-- The local program that a target is deployed from. -/
def sourceOf (plan : Option RenamePlan) (programId : JsString) : JsString :=
  match plan with
  | none => programId
  | some plan => if plan.targetProgramId = programId then plan.sourceProgramId else programId

/-- Names in a message. -/
def listOrNone (names : List JsString) : JsString :=
  if names = [] then js "none" else (names.intersperse (js ", ")).flatten

def resolveDeployTargets (compiledIds programMap : List JsString) (graph : DependencyGraph)
    (targetProgram : JsString) : Except JsString (List JsString) :=
  if targetProgram = [] then
    let ordered := (programIds graph.order).filter (· ∈ compiledIds)
    .ok (compiledIds.foldl (fun ordered id => if id ∈ ordered then ordered else ordered ++ [id])
      ordered)
  else
    let normalized := normalizeProgramId targetProgram
    if normalized ∉ compiledIds then
      .error (js "Program \"" ++ targetProgram ++ js "\" not found. Available: " ++
        listOrNone compiledIds)
    else .ok (collectLocalDeploymentClosure normalized graph programMap)

/-- The programs among which the targets are selected: with `--preflight` and with a rename those
that are there, and else those that are compiled. -/
def candidateIds (options : DeployOptions) (plan : Option RenamePlan)
    (compiledIds programMap : List JsString) : List JsString :=
  if options.preflight then programMap
  else if plan.isSome then programMap
  else compiledIds.filter (· ∈ programMap)

/-- Steps 2 to 4 of `deployAction`: the graph, the rename and the targets. -/
def deployTargets (parseImports : JsString → List JsString → List JsString)
    (discovered : List DiscoveredUnit) (options : DeployOptions) (config : DeployConfig)
    (compiledIds : List JsString) :
    Except JsString (DependencyGraph × Option RenamePlan × List JsString) := do
  let programMap := programIds discovered
  let graph ← (resolveDependencies parseImports discovered).mapError ResolveError.message
  let plan ← validateDeployRename options config graph
  let candidates := candidateIds options plan compiledIds programMap
  if ¬ options.preflight ∧ candidates = [] then
    .error (js "No compiled programs found. Run `lionden compile` first.")
  else do
    let targets ← resolveDeployTargets candidates programMap graph options.program
    .ok (graph, plan, targets.map (targetOf plan))

/-! ## Renamed programs -/

/-- The target of a rename is the id of no other unit. -/
def RenamePlan.Free (units : List DiscoveredUnit) (plan : RenamePlan) : Prop :=
  ∀ u ∈ units, unitId u = plan.targetProgramId →
    u.isProgram = true ∧ unitId u = plan.sourceProgramId

theorem validateDeployRename_free {options : DeployOptions} {config : DeployConfig}
    {graph : DependencyGraph} {plan : RenamePlan}
    (h : validateDeployRename options config graph = .ok (some plan)) : plan.Free graph.order := by
  unfold validateDeployRename at h
  dsimp only at h
  split at h
  · cases h
  split at h
  · cases h
  split at h
  · cases h
  split at h
  · cases h
  split at h
  · cases h
  next hfree =>
  cases h
  intro u hu htarget
  by_contra hother
  refine hfree (.inl (List.mem_flatMap.mpr ⟨u, ?_, ?_⟩))
  · exact List.mem_filter.mpr ⟨hu, decide_eq_true hother⟩
  · have hkey := unitId_mem_lookupKeys u
    rwa [htarget] at hkey

theorem importsOf_renamed {graph : DependencyGraph} {plan : RenamePlan} {id : JsString} :
    (graphWithRenamedPrimary graph plan).importsOf id =
      graph.importsOf (if id = plan.targetProgramId then plan.sourceProgramId else id) := by
  unfold DependencyGraph.importsOf graphWithRenamedPrimary
  by_cases h : id = plan.targetProgramId
  · subst h
    simp [DependencyGraph.importsOf]
  · have hne : (id == plan.targetProgramId) = false := by simpa using h
    simp only [List.lookup_cons, hne, h, if_false]

/-- **A valid rename leaves the closures as they are**: the new id is not a node that they come to. -/
theorem Follows.renamed {parseImports : JsString → List JsString → List JsString}
    {units : List DiscoveredUnit} {graph : DependencyGraph} (h : Follows parseImports units graph)
    {plan : RenamePlan} (hfree : plan.Free graph.order) :
    Follows parseImports units (graphWithRenamedPrimary graph plan) := by
  refine ⟨h.order, fun a ha b => ?_⟩
  rw [← h.edge a ha b]
  obtain ⟨u, hu, rfl⟩ := List.mem_map.mp ha
  unfold Dfs.Edge localEdges
  rw [importsOf_renamed]
  split
  · next htarget => rw [(hfree u ((h.order u).mpr hu) htarget).2]; rfl
  · rfl

theorem Follows.preflightGraph {parseImports : JsString → List JsString → List JsString}
    {units : List DiscoveredUnit} {graph : DependencyGraph} (h : Follows parseImports units graph)
    {options : DeployOptions} {config : DeployConfig} {plan : Option RenamePlan}
    (hplan : validateDeployRename options config graph = .ok plan) :
    Follows parseImports units (preflightGraph graph plan) := by
  cases plan with
  | none => exact h
  | some plan => exact h.renamed (validateDeployRename_free hplan)

/-! ## A project -/

def programUnit (name : String) : DiscoveredUnit where
  kind := .program (js name)
  sourceDir := js name
  entryFile := js name ++ js "/main.leo"
  allSources := [js "main.leo"]
  object := 0

def libraryUnit (name : String) : DiscoveredUnit where
  kind := .library (js name)
  sourceDir := js name
  entryFile := js name ++ js "/lib.leo"
  allSources := [js "lib.leo"]
  object := 0

/-- A vault that imports a token and a library of the project. -/
def vaultProject : List DiscoveredUnit :=
  [programUnit "vault.aleo", programUnit "token.aleo", libraryUnit "math"]

def vaultImports (sourceDir : JsString) (_ : List JsString) : List JsString :=
  if sourceDir = js "vault.aleo" then [js "token.aleo", js "math.aleo", js "credits.aleo"] else []

def vaultOptions : DeployOptions where
  program := js "vault"
  rename := js "safe"
  noCompile := false
  preflight := false
  dryRun := false
  noSkipDeployed := false

def vaultConfig : DeployConfig where
  leoVersion := js "4.3.0"
  buildTests := false
  skipDeployed := true
  http := true

end Lionden.Targets
