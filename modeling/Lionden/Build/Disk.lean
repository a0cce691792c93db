import Lionden.Build.Artifacts
import Lionden.Build.UnitHash
import Lionden.Lib.Interrupt

/-!
# The artifacts directory

What the compiler keeps under `artifacts/`, and the effects that change it. A package, an output, an
artifact or an entry is kept by the name that ends its path: names that are single ones lead to paths of
their own (`packagePath_injective`).

* `Disk`, `Effect`, `Effect.change`: the directory and its effects.
* `World`: the directory and what has been done to it. The log is a history variable; no definition
  that models a function of the source reads it.
-/

namespace Lionden.Build

/-- The directory, by ids that are `PathComponent`s. -/
structure Disk where
  /-- `.build/<id>` without `build/`. -/
  packages : JsString → Option Package
  /-- `.build/<id>/build`. -/
  builds : JsString → Option BuildDir
  artifacts : JsString → Option Artifacts
  /-- `.cache/<id>.hash`. -/
  hashes : JsString → Option JsString
  /-- `.cache/network-deps/<scope>/<name>`. -/
  networkDeps : JsString → JsString → Option JsString

/-- Nothing has been compiled. -/
def Disk.empty : Disk where
  packages _ := none
  builds _ := none
  artifacts _ := none
  hashes _ := none
  networkDeps _ _ := none

inductive Effect where
  /-- A package is removed, except for its `build/`. -/
  | clearPackage (id : JsString)
  | copySource (id relPath text : JsString)
  | writeProgramJson (id : JsString) (manifest : Manifest)
  | writeEnv (id env : JsString)
  | cacheNetworkDep (scope dep text : JsString)
  | writeImport (id dep text : JsString)
  /-- The hash of a unit is taken. -/
  | hashUnit (input : HashInput)
  /-- The cache is asked whether a unit has to be built. -/
  | askCache (cacheId effectiveId hash : JsString)
  /-- `leo build` has changed what is in `build/`. -/
  | build (id : JsString) (output : Option BuildDir)
  | replaceArtifacts (id : JsString) (artifacts : Artifacts)
  | writeMetadata (id : JsString) (metadata : KeyArtifactsMetadata)
  | writeCache (cacheId hash : JsString)

namespace Disk

variable (disk : Disk)

def modifyPackage (id : JsString) (f : Package → Package) : Disk :=
  let package := (disk.packages id).getD Package.empty
  { disk with packages := Function.update disk.packages id (some (f package)) }

end Disk

def Effect.change (disk : Disk) : Effect → Disk
  | clearPackage id => disk.modifyPackage id fun _ => Package.empty
  | copySource id relPath text =>
    disk.modifyPackage id fun package => { package with src := package.src.write relPath text }
  | writeProgramJson id manifest =>
    disk.modifyPackage id fun package => { package with programJson := some manifest }
  | writeEnv id env => disk.modifyPackage id fun package => { package with env := some env }
  | cacheNetworkDep scope dep text =>
    let kept := Function.update (disk.networkDeps scope) dep (some text)
    { disk with networkDeps := Function.update disk.networkDeps scope kept }
  | writeImport id dep text =>
    disk.modifyPackage id fun package => { package with imports := package.imports.write dep text }
  | hashUnit _ | askCache .. => disk
  | build id output => { disk with builds := Function.update disk.builds id output }
  | replaceArtifacts id artifacts =>
    { disk with artifacts := Function.update disk.artifacts id (some artifacts) }
  | writeMetadata id metadata =>
    let written := (disk.artifacts id).map fun a => { a with metadata := some metadata }
    { disk with artifacts := Function.update disk.artifacts id written }
  | writeCache cacheId hash =>
    { disk with hashes := Function.update disk.hashes cacheId (some (hash ++ newline)) }

/-- The directory, and its effects with the latest first. -/
structure World where
  disk : Disk
  log : List Effect

def Effect.apply (k : Effect) (w : World) : World := ⟨k.change w.disk, k :: w.log⟩

/-! ## Operations -/

/-- An operation; an error is its message. -/
abbrev Op := Interrupt.Prog Effect World JsString

def perform (k : Effect) : Op Unit := Interrupt.Prog.perform Effect.apply k

def state : Op World := Interrupt.Prog.read

def throw {α : Type} (message : JsString) : Op α := Interrupt.Prog.fail message

/-- A computation that may fail. -/
def attempt {α : Type} : Except JsString α → Op α
  | .ok a => pure a
  | .error message => throw message

/-- An operation that is not interrupted. -/
def run {α : Type} (op : Op α) (w : World) : Interrupt.Outcome World JsString α :=
  op (fun _ _ => false) w

end Lionden.Build
