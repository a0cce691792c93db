import Lionden.Build.Package
import Lionden.Compiler.AbiParser

/-!
# Build outputs and artifacts

`leo build` writes to `build/` in the package; what is used of it is copied to `artifacts/<id>`.

* `BuildDir`, `resolveBuildArtifacts`: what a build leaves, and where in it the outputs are.
* `readProgramAbi`, `copyArtifacts`: what is read of it, and what is copied.
* `buildKeyArtifactsMetadata`: the metadata that are written beside the copies.
-/

namespace Lionden.Build

open Compiler Targets

/-! ## Build outputs -/

structure File where
  text : JsString
  mtimeMs : Nat
  deriving DecidableEq

/-- A directory in which the outputs of a unit may be. -/
structure UnitDir where
  /-- `abi.json`. -/
  abi : Option File
  /-- The files whose names end with `.aleo`, in the order of `localeCompare`. -/
  aleo : List (JsString × File)
  /-- The files whose names end with `.prover` or `.verifier`. -/
  keys : Directory
  /-- `interfaces/`, with the paths of the files in it. -/
  interfaces : Option Directory
  deriving DecidableEq

/-- `build/`: the directory itself, and the directories in it. -/
structure BuildDir where
  root : UnitDir
  units : List (JsString × UnitDir)
  deriving DecidableEq

/-- The compiled source in a directory: under one of its usual names, or any. -/
def findAleoOutput (dir : UnitDir) (id : JsString) : Option File :=
  ((dir.aleo.lookup (js "main.aleo")).or (dir.aleo.lookup (normalizeProgramId id))).or
    (dir.aleo.head?.map (·.2))

/-- `[buildDir, buildDir/<id>, buildDir/<base>]`, as far as they are there. -/
def preferredBuildUnitDirs (build : BuildDir) (id : JsString) : List UnitDir :=
  build.root :: ([id, bareProgramName id].eraseDups.filterMap fun name => build.units.lookup name)

/-- The directory whose output is newest; of those that are equally new the first. -/
def newestBuildArtifactMatch (id : JsString) : List UnitDir → Option (UnitDir × Nat)
  | [] => none
  | dir :: rest =>
    match dir.abi.or (findAleoOutput dir id), newestBuildArtifactMatch id rest with
    | some file, some (newest, mtimeMs) =>
      if file.mtimeMs < mtimeMs then some (newest, mtimeMs) else some (dir, file.mtimeMs)
    | some file, none => some (dir, file.mtimeMs)
    | none, newest => newest

def findBuildUnitDir (build : BuildDir) (id : JsString) : UnitDir :=
  ((newestBuildArtifactMatch id (preferredBuildUnitDirs build id)).map (·.1)).getD build.root

structure ResolvedBuildArtifacts where
  abi : Option JsString
  aleo : Option JsString
  keyFiles : Directory
  interfaces : List Directory

def resolveBuildArtifacts (build : Option BuildDir) (id : JsString) : ResolvedBuildArtifacts :=
  match build with
  | none => { abi := none, aleo := none, keyFiles := [], interfaces := [] }
  | some build =>
    let dir := findBuildUnitDir build id
    { abi := dir.abi.map (·.text)
      aleo := (findAleoOutput dir id).map (·.text)
      keyFiles := dir.keys
      interfaces := [dir.interfaces, build.root.interfaces].filterMap fun x => x }

def hasRequiredProgramArtifacts (build : Option BuildDir) (id : JsString) : Bool :=
  let artifacts := resolveBuildArtifacts build id
  artifacts.abi.isSome && artifacts.aleo.isSome

def compilationError (id message : JsString) : JsString :=
  js "Compilation failed for \"" ++ id ++ js "\": " ++ message

def buildPath (config : Config) (id : JsString) : JsString :=
  pathJoin [packagePath config id, js "build"]

def abiNotFound (config : Config) (id : JsString) : JsString :=
  compilationError id (js "ABI file not found under " ++ buildPath config id ++
    js ". Did leo build succeed?")

def readProgramAbi (stringOf : JsValue → JsString) (config : Config) (build : Option BuildDir)
    (id : JsString) : Except JsString JsValue :=
  match (resolveBuildArtifacts build id).abi with
  | none => .error (abiNotFound config id)
  | some text => do
    let abi ← parseAbi stringOf text
    match abi.property (js "program") with
    | .string program =>
      if program = id then .ok abi
      else .error (compilationError id (js "Resolved ABI belongs to program \"" ++ program ++
        js "\", expected \"" ++ id ++ js "\"."))
    | program => .error (compilationError id (js "Resolved ABI belongs to program \"" ++
        stringOf program ++ js "\", expected \"" ++ id ++ js "\"."))

/-! ## Artifacts -/

structure KeyFileRef where
  path : JsString
  sha256 : JsString
  size : Nat
  deriving DecidableEq

structure KeyArtifactFunctionRef where
  transition : JsString
  prover : KeyFileRef
  verifier : KeyFileRef
  deriving DecidableEq

structure KeyArtifactsMetadata where
  programId : JsString
  sourceProgramId : JsString
  sourceHash : JsString
  importsHash : JsString
  functions : List KeyArtifactFunctionRef
  deriving DecidableEq

/-- `artifacts/<id>`. -/
structure Artifacts where
  /-- `abi.json`. -/
  abi : Option JsString
  /-- `main.aleo`. -/
  aleo : Option JsString
  keyFiles : Directory
  interfaces : Directory
  /-- `lionden-key-artifacts.json`. -/
  metadata : Option KeyArtifactsMetadata
  deriving DecidableEq

/-- What takes the place of `artifacts/<id>`. A file that two directories of interfaces have is that
of the second. -/
def copyArtifacts (config : Config) (build : Option BuildDir) (id : JsString) :
    Except JsString Artifacts :=
  let artifacts := resolveBuildArtifacts build id
  match artifacts.abi, artifacts.aleo with
  | none, _ => .error (abiNotFound config id)
  | _, none => .error (compilationError id (js "Compiled Aleo source not found under " ++
      buildPath config id ++ js ". Did leo build succeed?"))
  | some abi, some aleo => .ok {
      abi := some abi
      aleo := some aleo
      keyFiles := artifacts.keyFiles
      interfaces := artifacts.interfaces.reverse.flatten
      metadata := none }

/-! ## Metadata -/

section Metadata

-- `crypto`, and `sort` by `localeCompare`.
variable (sha256 : JsString → JsString) (sortLocale : List JsString → List JsString)

/-- `hashPackageImports`. -/
def hashPackageImports (imports : Directory) : JsString :=
  let entry (path : JsString) : JsString :=
    js "\x7b\"path\":" ++ jsonStringify path ++ js ",\"sourceHash\":" ++
      jsonStringify (sha256 ((imports.lookup path).getD [])) ++ js "\x7d"
  sha256 (js "\x7b\"imports\":[" ++
    join (js ",") ((sortLocale (imports.map (·.1)).eraseDups).map entry) ++ js "]\x7d")

/-- The names of the files with a suffix, without it. -/
def stemsOf (suffix : JsString) (files : Directory) : List JsString :=
  (files.filter fun (name, _) => endsWith name suffix).map fun (name, _) =>
    name.take (name.length - suffix.length)

def findUnambiguousKeyStem (pairedStems : List JsString) (programId transition : JsString)
    (transitionCount : Nat) : Option JsString :=
  let programBase := bareProgramName programId
  let candidates := [transition, programBase ++ js "." ++ transition,
    programId ++ js "." ++ transition, programBase ++ js "_" ++ transition]
  match candidates.find? (· ∈ pairedStems), pairedStems with
  | some stem, _ => some stem
  | none, [stem] => if transitionCount = 1 then some stem else none
  | none, _ => none

def keyFileRef (files : Directory) (file : JsString) : Option KeyFileRef :=
  (files.lookup file).map fun bytes => { path := file, sha256 := sha256 bytes, size := bytes.length }

/-- The names of the transitions of an ABI that was parsed. -/
def transitionNames (abi : JsValue) : List JsString :=
  match abi.property (js "transitions") with
  | .array elements => elements.filterMap fun element =>
    match (element.getD .undefined).property (js "name") with
    | .string name => some name
    | _ => none
  | _ => []

def collectKeyArtifactFunctionRefs (files : Directory) (programId : JsString) (abi : JsValue) :
    List KeyArtifactFunctionRef :=
  let verifiers := stemsOf (js ".verifier") files
  let pairedStems := ((stemsOf (js ".prover") files).filter (· ∈ verifiers)).eraseDups
  let names := transitionNames abi
  names.filterMap fun transition => do
    let stem ← findUnambiguousKeyStem pairedStems programId transition names.length
    guard (stem ≠ [])
    let prover ← keyFileRef sha256 files (stem ++ js ".prover")
    let verifier ← keyFileRef sha256 files (stem ++ js ".verifier")
    some { transition, prover, verifier }

def buildKeyArtifactsMetadata (imports : Directory) (artifacts : Artifacts)
    (programId sourceProgramId : JsString) (abi : JsValue) : KeyArtifactsMetadata where
  programId := programId
  sourceProgramId := sourceProgramId
  sourceHash := sha256 (artifacts.aleo.getD [])
  importsHash := hashPackageImports sha256 sortLocale imports
  functions := collectKeyArtifactFunctionRefs sha256 artifacts.keyFiles programId abi

/-- The checks of `writeKeyArtifactsMetadata`: the names are not empty. -/
def checkMetadata (config : Config) (metadata : KeyArtifactsMetadata) :
    Except JsString KeyArtifactsMetadata :=
  let invalid (key : String) : Except JsString KeyArtifactsMetadata :=
    .error (js "Invalid key metadata at " ++ pathJoin [config.artifacts, metadata.programId,
      js "lionden-key-artifacts.json"] ++ js ": " ++ js key ++ js " must be a non-empty string.")
  if metadata.programId = [] then invalid "programId"
  else if metadata.sourceProgramId = [] then invalid "sourceProgramId"
  else if metadata.functions.any (fun ref => ref.transition = []) then invalid "transition"
  else .ok metadata

end Metadata

end Lionden.Build
