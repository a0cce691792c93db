import Lionden.Build.Scrubber
import Lionden.Lib.Paths

/-!
# Packages

A unit is compiled from a package that Leo understands, under `artifacts/.build/<id>`.

* `Config`, `networkDepCacheScope`: what of the configuration the compiler reads.
* `packagePath`, `packagePath_injective`: where a package is; ids that are names have each its own.
* `Manifest`, `buildProgramJson`: `program.json`.
* `Package`, `Package.contents`: the files of a package, and what can be read of them.
* `copySource`, `buildDotEnv`: what its files are made of.
-/

namespace Lionden.Build

open Compiler Targets

/-! ## The configuration -/

inductive NetworkConfig where
  | http (network endpoint : JsString)
  | devnode (network socketAddr : JsString)

def NetworkConfig.network : NetworkConfig → JsString
  | .http network _ | .devnode network _ => network

def NetworkConfig.endpoint : NetworkConfig → JsString
  | .http _ endpoint => endpoint
  | .devnode _ socketAddr => js "http://" ++ socketAddr

/-- The options of the compiler itself. -/
structure CompilerConfig where
  enableDce : Bool
  conditionalBlockMaxDepth : Nat
  buildTests : Bool
  extraFlags : List JsString

structure Config where
  /-- `paths.programs`. -/
  programs : JsString
  /-- `paths.artifacts`. -/
  artifacts : JsString
  leoVersion : JsString
  compiler : CompilerConfig
  networks : List (JsString × NetworkConfig)
  defaultNetwork : JsString

def LOCAL_ENDPOINT : JsString := js "http://127.0.0.1:3030"

/-- The endpoint that network dependencies come from, the network there, and the directory of the
cache that they are kept in. -/
structure NetworkScope where
  endpoint : JsString
  networkHint : Option JsString
  scope : JsString

def networkDepCacheScope (sha256 : JsString → JsString) (config : Config) (networkName : JsString) :
    NetworkScope :=
  let networkConfig := config.networks.lookup networkName
  let endpoint := (networkConfig.map (·.endpoint)).getD LOCAL_ENDPOINT
  let networkHint := networkConfig.map (·.network)
  { endpoint, networkHint,
    scope := networkHint.getD (js "default") ++ js "-" ++ (sha256 endpoint).take 8 }

/-! ## `program.json` -/

/-- Where a dependency is: in the package of a local unit, or on the network. -/
inductive Location where
  | package (id : JsString)
  | network
  deriving DecidableEq

structure LeoDepEntry where
  name : JsString
  location : Location
  deriving DecidableEq

structure Manifest where
  program : JsString
  dependencies : List LeoDepEntry
  deriving DecidableEq

/-- `path.join`, which follows two dots and leaves out empty segments and dots. -/
def pathJoin (paths : List JsString) : JsString := Paths.join (unit '/') (unit '.') paths

/-- An id that is one name in a path. -/
abbrev PathComponent (id : JsString) : Prop := Paths.IsName (unit '/') (unit '.') id

def packagePath (config : Config) (id : JsString) : JsString :=
  pathJoin [config.artifacts, js ".build", id]

/-- **Ids that are names have packages of their own.** Of others this is not so: a package of
`x/../base.aleo` would be that of `base.aleo`. -/
theorem packagePath_injective {config : Config} {id id' : JsString} (h : PathComponent id)
    (h' : PathComponent id') (hpath : packagePath config id = packagePath config id') : id = id' := by
  have hpaths : ∃ path ∈ [config.artifacts, js ".build"], path ≠ [] :=
    ⟨js ".build", by simp, by decide⟩
  exact Paths.join_injective hpaths h h' hpath

example (config : Config) (h : config.artifacts = js "artifacts") :
    packagePath config (js "x/../base.aleo") = packagePath config (js "base.aleo") := by
  unfold packagePath
  rw [h]
  decide +kernel

def newline : JsString := [10]

def LeoDepEntry.text (config : Config) (entry : LeoDepEntry) : JsString :=
  let fields := match entry.location with
    | .package id => [js "\"location\": \"local\"",
        js "\"path\": " ++ jsonStringify (packagePath config id)]
    | .network => [js "\"location\": \"network\""]
  js "    \x7b" ++ newline ++ js "      " ++
    join (js "," ++ newline ++ js "      ") ((js "\"name\": " ++ jsonStringify entry.name) :: fields) ++
    newline ++ js "    \x7d"

/-- `JSON.stringify(programJson, null, 2)`, and a newline. -/
def Manifest.text (config : Config) (manifest : Manifest) : JsString :=
  let dependencies :=
    if manifest.dependencies = [] then []
    else [js "\"dependencies\": [" ++ newline ++
      join (js "," ++ newline) (manifest.dependencies.map (·.text config)) ++ newline ++ js "  ]"]
  js "\x7b" ++ newline ++ js "  " ++
    join (js "," ++ newline ++ js "  ") ([js "\"program\": " ++ jsonStringify manifest.program,
      js "\"version\": \"0.1.0\"", js "\"description\": \"\"", js "\"license\": \"MIT\""] ++
      dependencies) ++ newline ++ js "\x7d" ++ newline

/-- The id that a unit is compiled under. -/
def effectiveUnitId (unit : DiscoveredUnit) (renamePlan : Option RenamePlan) : JsString :=
  match unit.kind, renamePlan with
  | .program programId, some plan =>
    if programId = plan.sourceProgramId then plan.targetProgramId else unitId unit
  | _, _ => unitId unit

/-- The program field has the suffix `.aleo`, also for a library. -/
def programName (unit : DiscoveredUnit) (effectiveId : JsString) : JsString :=
  match unit.kind with
  | .program _ => effectiveId
  | .library name => name ++ js ".aleo"

def depEntry (graph : DependencyGraph) (dep : JsString) : LeoDepEntry :=
  if dep ∈ graph.networkDeps then { name := dep, location := .network }
  else { name := normalizeProgramId dep, location := .package dep }

def buildProgramJson (unit : DiscoveredUnit) (graph : DependencyGraph) (effectiveId : JsString) :
    Manifest where
  program := programName unit effectiveId
  dependencies := (graph.importsOf (unitId unit)).map (depEntry graph)

/-! ## Packages -/

/-- A directory: its files in the order in which they were written last. -/
abbrev Directory := List (JsString × JsString)

def Directory.write (files : Directory) (name text : JsString) : Directory := (name, text) :: files

/-- `artifacts/.build/<id>` without its `build/`. -/
structure Package where
  src : Directory
  programJson : Option Manifest
  env : Option JsString
  imports : Directory

def Package.empty : Package where
  src := []
  programJson := none
  env := none
  imports := []

/-- The files of a package by their names. -/
@[ext]
structure PackageContents where
  src : JsString → Option JsString
  programJson : Option Manifest
  env : Option JsString
  imports : JsString → Option JsString

def Package.contents (package : Package) : PackageContents where
  src name := package.src.lookup name
  programJson := package.programJson
  env := package.env
  imports name := package.imports.lookup name

/-- A source as it is copied: the main file of the program that is renamed declares its new name. -/
def copySource (read : JsString → JsString → JsString) (unit : DiscoveredUnit)
    (renamePlan : Option RenamePlan) (relPath : JsString) : Except JsString JsString :=
  let text := read unit.sourceDir relPath
  match unit.kind, renamePlan with
  | .program programId, some plan =>
    if programId = plan.sourceProgramId ∧ relPath = js "main.leo" then
      rewriteMainProgramDeclaration text plan
    else .ok text
  | _, _ => .ok text

/-- The key that Leo recommends for local networks. -/
def DEVNODE_KEY : JsString := js "APrivateKey1zkp8CZNn3yeCseEtxuVPbDCwSyhGW6yZKUYKfgXmcpoGPWH"

def buildDotEnv (config : Config) (network : JsString) : JsString :=
  let networkConfig := config.networks.lookup network
  let key := js "PRIVATE_KEY=" ++ DEVNODE_KEY
  let endpoint := js "ENDPOINT=" ++ (networkConfig.map (·.endpoint)).getD LOCAL_ENDPOINT
  let lines := match networkConfig with
    | some (.http ..) => [endpoint]
    | some (.devnode ..) => [key, endpoint, js "DEVNET=true"]
    | none => [key, endpoint]
  join newline ((js "NETWORK=" ++ (networkConfig.map (·.network)).getD (js "testnet")) :: lines) ++
    newline

end Lionden.Build
