import Lionden.Build.Disk

/-!
# The compile pipeline

* `planCompilation`: the units that are compiled, in their order.
* `materializePackage`, `linkNetworkDependency`, `prepare`: their packages.
* `compileUnit`: a unit is built, unless its hash is that of the cache and its output is there.
* `compilePipeline`: all of it.

What a run learns from outside the artifacts directory is in its `Environment`: the sources, the
answers of the network, and how the builds end.
-/

namespace Lionden.Build

open Compiler Targets

/-- What is used of the platform, and Leo: the output of a build depends on the version, on the flags
and on the packages. -/
structure Platform where
  sha256 : JsString → JsString
  sortLocale : List JsString → List JsString
  /-- `String` of what is not a string. -/
  stringOf : JsValue → JsString
  leoBuild : JsString → List JsString → (JsString → Option PackageContents) → JsString → BuildDir

inductive BuildEnd where
  | succeeds
  /-- It fails, and the output is as it was. -/
  | fails (message : JsString)
  /-- It fails, and the output is something else. -/
  | breaks (message : JsString) (leftover : Option BuildDir)

structure Environment where
  discoverUnits : Except JsString (List DiscoveredUnit)
  /-- The text of a source file. -/
  read : JsString → JsString → JsString
  parseImports : JsString → List JsString → List JsString
  fetchNetworkDep : JsString → JsString → Option JsString → Except JsString JsString
  /-- How `leo build` of a package ends. -/
  buildEnd : JsString → BuildEnd

/-- The options of the task; a program that is not given is empty. -/
structure CompileOptions where
  force : Bool
  program : JsString
  rename : Option JsString
  network : Option JsString

/-! ## The plan -/

structure Plan where
  graph : DependencyGraph
  compileOrder : List DiscoveredUnit
  renamePlan : Option RenamePlan
  network : JsString

/-- The names that paths are made of are single ones: the ids of the units, the network dependencies,
and the new id of a program. The artifacts directory keeps by these names what the source keeps by
paths. -/
structure Named (units : List DiscoveredUnit) (graph : DependencyGraph) (rename : Option JsString) :
    Prop where
  units : ∀ unit ∈ units, PathComponent (unitId unit)
  networkDeps : ∀ dep ∈ graph.networkDeps, PathComponent dep
  rename : ∀ name ∈ rename, PathComponent (normalizeProgramId name)

instance (units : List DiscoveredUnit) (graph : DependencyGraph) (rename : Option JsString) :
    Decidable (Named units graph rename) :=
  decidable_of_iff ((∀ unit ∈ units, PathComponent (unitId unit)) ∧
      (∀ dep ∈ graph.networkDeps, PathComponent dep) ∧
      ∀ name ∈ rename, PathComponent (normalizeProgramId name))
    ⟨fun h => ⟨h.1, h.2.1, h.2.2⟩, fun h => ⟨h.units, h.networkDeps, h.rename⟩⟩

/-- The imports of a unit that are local units. -/
def localImports (graph : DependencyGraph) (allUnits : List DiscoveredUnit) (id : JsString) :
    List JsString :=
  (localEdges graph id).filter (· ∈ allUnits.map unitId)

def collectTransitiveDeps (target : DiscoveredUnit) (graph : DependencyGraph)
    (allUnits : List DiscoveredUnit) : List DiscoveredUnit :=
  let needed := Dfs.reach (localImports graph allUnits) ((graphIds graph).length + 2) []
    (unitId target)
  graph.order.filter fun unit => unitId unit ∈ needed

def availableNetworks (config : Config) : JsString :=
  if config.networks = [] then js "(none)" else join (js ", ") (config.networks.map (·.1))

/-- The network that dependencies come from. -/
def effectiveNetwork (config : Config) (options : CompileOptions) : Except JsString JsString :=
  match options.network with
  | none => .ok config.defaultNetwork
  | some network =>
    if (config.networks.lookup network).isNone then
      .error (js "Network \"" ++ network ++ js "\" is not defined in config.networks. " ++
        js "Available networks: " ++ availableNetworks config)
    else .ok network

/-- Steps 1 and 2 of the pipeline. -/
def planCompilation (config : Config) (env : Environment) (options : CompileOptions) :
    Except JsString Plan := do
  if options.rename.isSome ∧ options.program = [] then
    .error (js "Compile option `rename` requires `program` so the source program is explicit.")
  else
  let network ← effectiveNetwork config options
  let allUnits ← env.discoverUnits
  let graph ← (resolveDependencies env.parseImports allUnits).mapError (·.message)
  if options.program = [] then
    .ok { graph, compileOrder := graph.order, renamePlan := none, network }
  else
    match graph.order.find? fun u =>
      unitId u = options.program ∨ unitId u = options.program ++ js ".aleo" with
    | none => .error (compilationError options.program (js "Program \"" ++ options.program ++
        js "\" not found in " ++ config.programs))
    | some target => .ok {
        graph
        compileOrder := collectTransitiveDeps target graph allUnits
        renamePlan := options.rename.map fun rename =>
          { sourceProgramId := unitId target, targetProgramId := normalizeProgramId rename }
        network }

/-! ## Packages -/

section Run

variable (platform : Platform) (config : Config) (env : Environment) (options : CompileOptions)
  (plan : Plan)

/-- The id that a unit is compiled under. -/
def Plan.effectiveId (unit : DiscoveredUnit) : JsString := effectiveUnitId unit plan.renamePlan

def materializePackage (unit : DiscoveredUnit) : Op Unit := do
  let effectiveId := plan.effectiveId unit
  perform (.clearPackage effectiveId)
  unit.allSources.forM fun relPath => do
    let text ← attempt (copySource env.read unit plan.renamePlan relPath)
    perform (.copySource effectiveId relPath text)
  perform (.writeProgramJson effectiveId (buildProgramJson unit plan.graph effectiveId))
  perform (.writeEnv effectiveId (buildDotEnv config plan.network))

def localDepIds (unit : DiscoveredUnit) : List JsString :=
  (plan.graph.importsOf (unitId unit)).filter (· ∉ plan.graph.networkDeps)

def networkDepIds (unit : DiscoveredUnit) : List JsString :=
  (plan.graph.importsOf (unitId unit)).filter (· ∈ plan.graph.networkDeps)

def selectedNetworkDeps : List JsString :=
  (plan.compileOrder.flatMap (networkDepIds plan)).eraseDups

def linkNetworkDependency (scope id dep text : JsString) : Op Unit := do
  perform (.cacheNetworkDep scope dep text)
  perform (.writeImport id dep text)

/-- The source of a network dependency: that of the cache, unless there is none or it is empty. -/
def networkDepSource (dep : JsString) : Op JsString := do
  let networkScope := networkDepCacheScope platform.sha256 config plan.network
  let w ← state
  let kept := if options.force then none else w.disk.networkDeps networkScope.scope dep
  match kept with
  | some (c :: rest) => pure (c :: rest)
  | _ => attempt (env.fetchNetworkDep dep networkScope.endpoint networkScope.networkHint)

/-- A dependency comes into the package of each unit that imports it. -/
def linkToImporters (dep : JsString) : Op Unit := do
  let text ← networkDepSource platform config env options plan dep
  plan.compileOrder.forM fun unit =>
    if dep ∈ plan.graph.importsOf (unitId unit) then
      linkNetworkDependency (networkDepCacheScope platform.sha256 config plan.network).scope
        (plan.effectiveId unit) dep text
    else pure ()

/-- Steps 3 and 4. -/
def prepare : Op Unit := do
  plan.compileOrder.forM (materializePackage config env plan)
  (selectedNetworkDeps plan).forM (linkToImporters platform config env options plan)

/-! ## Units -/

/-- `/^(\d+)\.(\d+)\./`, with a version before 4.2. -/
def emitsLegacyBuildFlags (leoVersion : JsString) : Bool :=
  match splitDots leoVersion with
  | major :: minor :: _ :: _ =>
    [major, minor].all (fun part => part ≠ [] ∧ part.all isDigit) &&
      (digitsValue major < 4 || (digitsValue major = 4 && digitsValue minor < 2))
  | _ => false

/-- The arguments of `leo build` after the path. -/
def buildFlags : List JsString :=
  let compiler := config.compiler
  let legacyFlags := emitsLegacyBuildFlags config.leoVersion
  (if legacyFlags ∧ compiler.enableDce then [js "--enable-dce"] else []) ++
    (if legacyFlags ∧ compiler.conditionalBlockMaxDepth ≠ 10 then
      [js "--conditional-block-max-depth", decimal compiler.conditionalBlockMaxDepth] else []) ++
    (if compiler.buildTests then [js "--build-tests"] else []) ++ compiler.extraFlags

/-- What Leo can read of the packages. -/
def Disk.contents (disk : Disk) (id : JsString) : Option PackageContents :=
  (disk.packages id).map Package.contents

/-- The output of a build of a package. -/
def Platform.output (disk : Disk) (id : JsString) : BuildDir :=
  platform.leoBuild config.leoVersion (buildFlags config) disk.contents id

def runLeoBuild (id : JsString) : Op Unit := do
  match env.buildEnd id with
  | .succeeds =>
    let w ← state
    perform (.build id (some (platform.output config w.disk id)))
  | .fails message => throw (compilationError id message)
  | .breaks message leftover =>
    perform (.build id leftover)
    throw (compilationError id message)

/-- The cache holds the hash. -/
def isCached (disk : Disk) (cacheId currentHash : JsString) : Bool :=
  (disk.hashes cacheId).any fun stored => trim stored = currentHash

structure ProgramOutput where
  sourceProgramId : JsString
  programId : JsString
  abi : JsValue
  /-- The path of the copy. -/
  aleoSource : JsString

structure CompilationResult where
  unit : DiscoveredUnit
  cached : Bool
  packageDir : JsString
  buildDir : JsString
  /-- What only a program has. -/
  program : Option ProgramOutput

def Plan.cacheId (unit : DiscoveredUnit) : JsString :=
  let id := unitId unit
  let effectiveId := plan.effectiveId unit
  if effectiveId = id then id else id ++ js "__as__" ++ effectiveId

/-- The output of a program is read and copied. -/
def collectOutput (programId effectiveId : JsString) : Op ProgramOutput := do
  let w ← state
  let build := w.disk.builds effectiveId
  let abi ← attempt (readProgramAbi platform.stringOf config build effectiveId)
  let artifacts ← attempt (copyArtifacts config build effectiveId)
  perform (.replaceArtifacts effectiveId artifacts)
  let imports := ((w.disk.packages effectiveId).getD Package.empty).imports
  let metadata ← attempt (checkMetadata config (buildKeyArtifactsMetadata platform.sha256
    platform.sortLocale imports artifacts effectiveId programId abi))
  perform (.writeMetadata effectiveId metadata)
  pure {
    sourceProgramId := programId
    programId := effectiveId
    abi
    aleoSource := pathJoin [pathJoin [config.artifacts, effectiveId], js "main.aleo"] }

/-- What is hashed of a unit. -/
def Plan.hashInput (disk : Disk) (depHashes : List (JsString × JsString))
    (unit : DiscoveredUnit) : HashInput :=
  Build.hashInput env.read unit ((disk.packages (plan.effectiveId unit)).getD Package.empty)
    (localDepIds plan unit) depHashes (networkDepIds plan unit) config.leoVersion

/-- A unit is not built if its hash is in the cache and what is needed of its output is there. -/
def isUpToDate (disk : Disk) (unit : DiscoveredUnit) (hash : JsString) : Bool :=
  !options.force && isCached disk (plan.cacheId unit) hash &&
    (!unit.isProgram || hasRequiredProgramArtifacts (disk.builds (plan.effectiveId unit))
      (plan.effectiveId unit))

/-- Step 5 for one unit: the result and the hash. -/
def compileUnit (depHashes : List (JsString × JsString)) (unit : DiscoveredUnit) :
    Op (CompilationResult × JsString) := do
  let effectiveId := plan.effectiveId unit
  let w ← state
  let input := plan.hashInput config env w.disk depHashes unit
  perform (.hashUnit input)
  let hash := platform.sha256 (input.text config)
  if options.force then pure () else perform (.askCache (plan.cacheId unit) effectiveId hash)
  let cached := isUpToDate options plan w.disk unit hash
  if cached then pure () else runLeoBuild platform config env effectiveId
  let program ← match unit.kind with
    | .program programId => do
      let output ← collectOutput platform config programId effectiveId
      pure (some output)
    | .library _ => pure none
  if cached then pure () else perform (.writeCache (plan.cacheId unit) hash)
  let packageDir := packagePath config effectiveId
  let buildDir := buildPath config effectiveId
  pure ({ unit, cached, packageDir, buildDir, program }, hash)

/-- Step 5, with the hashes of the units before. -/
def compileUnits : List (JsString × JsString) → List DiscoveredUnit → Op (List CompilationResult)
  | _, [] => pure []
  | depHashes, unit :: rest => do
    let (result, hash) ← compileUnit platform config env options plan depHashes unit
    let results ← compileUnits ((unitId unit, hash) :: depHashes) rest
    pure (result :: results)

end Run

structure CompilePipelineResult where
  results : List CompilationResult
  graph : DependencyGraph

def compilePipeline (platform : Platform) (config : Config) (env : Environment)
    (options : CompileOptions) : Op CompilePipelineResult := do
  let plan ← attempt (planCompilation config env options)
  prepare platform config env options plan
  let results ← compileUnits platform config env options plan [] plan.compileOrder
  pure { results, graph := plan.graph }

end Lionden.Build
