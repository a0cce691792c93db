import Mathlib.Data.List.Sort
import Lionden.Build.Package

/-!
# The hash of a unit

* `HashInput`, `HashInput.text`: what is hashed, and the text that it is hashed as.
* `hashInput`: what is hashed of a unit, given its package and the hashes of its dependencies.
-/

namespace Lionden.Build

open Compiler

/-- `[...names].sort()`. -/
def sortNames (names : List JsString) : List JsString := names.insertionSort (· ≤ ·)

structure HashInput where
  files : List (JsString × JsString)
  programJson : Option Manifest
  compilerVersion : JsString
  /-- The direct local dependencies with their hashes. -/
  deps : List (JsString × JsString)
  networkDeps : List (JsString × JsString)
  deriving DecidableEq, Inhabited

def HashInput.text (config : Config) (input : HashInput) : JsString :=
  (input.files.flatMap fun (relPath, text) => js "file:" ++ relPath ++ newline ++ text) ++
    (input.programJson.map fun manifest => js "program.json\n" ++ manifest.text config).getD [] ++
    js "compiler-version:" ++ input.compilerVersion ++ newline ++
    (input.deps.flatMap fun (id, hash) => js "dep:" ++ id ++ js ":" ++ hash ++ newline) ++
    input.networkDeps.flatMap fun (name, text) => js "network-dep:" ++ name ++ newline ++ text

/-- What `computeUnitHash` hashes. Dependencies without a hash, and those whose source is not in the
package, are left out. -/
def hashInput (read : JsString → JsString → JsString) (unit : DiscoveredUnit) (package : Package)
    (localDepIds : List JsString) (depHashes : List (JsString × JsString))
    (networkDepIds : List JsString) (compilerVersion : JsString) : HashInput where
  files := (sortNames unit.allSources).map fun relPath => (relPath, read unit.sourceDir relPath)
  programJson := package.programJson
  compilerVersion := compilerVersion
  deps := (sortNames localDepIds).filterMap fun id =>
    (depHashes.lookup id).map fun hash => (id, hash)
  networkDeps := (sortNames networkDepIds).filterMap fun name =>
    (package.imports.lookup name).map fun text => (name, text)

end Lionden.Build
