import Lionden.Js.RegExp
import Lionden.Js.Stringify
import Lionden.Lib.InsertionMap
import Mathlib.Data.List.Sort

/-!
# The imports of a program (`execution-key-cache.ts`)

Before a program is executed, the sources of all that it imports are brought together: first those of
the explicit runtime imports, then those of the static imports, each with what it imports in turn.

`localeLE a b` is `a.localeCompare(b) <= 0`, which the host decides.

* `parseImportIds`, `parseProgramIdFromSource`: what a source says.
* `Sources`: the artifacts, the files and the network that sources come from.
* `visit`, `resolveProgramImports`: the walk. `fuel` bounds its depth.
-/

namespace Lionden.Network.ProgramImports

open RegExp

/-! ## Regular expressions -/

/-- `\w`. -/
def isWord (c : CodeUnit) : Bool :=
  inRange 'A' 'Z' c || inRange 'a' 'z' c || isDigit c || c = unit '_'

/-- `/import\s+([\w]+\.aleo)\s*;/` at the beginning of `s`: the id, and what follows the match. -/
def matchImport (s : JsString) : Option (JsString × JsString) := do
  let s ← after (js "import") s
  let s ← afterSpace s
  let name := s.takeWhile isWord
  let rest ← after (js ".aleo") (s.dropWhile isWord)
  let rest ← afterSemicolon rest
  if name = [] then none else some (name ++ js ".aleo", rest)

/-- The ids of all matches, from left to right. The next `skip` characters belong to a match. -/
def importMatches : Nat → JsString → List JsString
  | _, [] => []
  | skip + 1, _ :: s => importMatches skip s
  | 0, c :: s =>
    match matchImport (c :: s) with
    | some (id, rest) => id :: importMatches (s.length - rest.length) s
    | none => importMatches 0 s

/-- `parseImportIds(programSource)`. -/
def parseImportIds (localeLE : JsString → JsString → Bool) (programSource : JsString) :
    List JsString :=
  (importMatches 0 programSource).eraseDups.insertionSort fun a b => localeLE a b

/-- `/\s*program\s+([a-zA-Z_][a-zA-Z0-9_]*\.aleo)\s*;/` at the beginning of `s`. -/
def matchHeader (s : JsString) : Option JsString := do
  let s ← after (js "program") (s.dropWhile isWhiteSpace)
  let s ← afterSpace s
  let name := s.takeWhile isWord
  let rest ← after (js ".aleo") (s.dropWhile isWord)
  let _ ← afterSemicolon rest
  if name = [] ∨ name.head?.any isDigit then none else some (name ++ js ".aleo")

/-- `source.split(/\r?\n/)`. -/
def splitLines (source : JsString) : List JsString :=
  let lines := source.splitOn 10
  lines.dropLast.map (fun line => if line.getLast? = some 13 then line.dropLast else line) ++
    lines.getLast?.toList

/-! ## Sources -/

/-- `RuntimeImportRef`. -/
inductive RuntimeImportRef where
  | path (absolutePath : JsString)
  | programId (programId : JsString)
  deriving DecidableEq

/-- Where sources come from: `main.aleo` of a program's artifacts, files, and the network's
`getProgram`, which may reject. -/
structure Sources where
  artifact : JsString → Option JsString
  file : JsString → Option JsString
  network : JsString → Option JsString

inductive ImportError where
  | conflict (id existing existingOrigin source origin : JsString)
  | pathNotFound (absolutePath : JsString)
  | noHeader (sourcePath firstNonEmpty : JsString)
  /-- `getProgram` has rejected. -/
  | unavailable (id : JsString)
  /-- The walk is deeper than the fuel. -/
  | deep
  deriving DecidableEq

def ImportError.message (sha256Text : JsString → JsString) : ImportError → JsString
  | conflict id existing existingOrigin source origin =>
    js "Runtime import conflict for program \"" ++ id ++
      js "\": same id resolved to two different sources.\n" ++
      js "  - from " ++ existingOrigin ++ js ": sha256=" ++ sha256Text existing ++ js "\n" ++
      js "  - from " ++ origin ++ js ": sha256=" ++ sha256Text source ++ js "\n" ++
      js "Reconcile the runtime-import refs so the same program id points at one source."
  | pathNotFound absolutePath =>
    js "Runtime import path not found at execute time: " ++ absolutePath
  | noHeader sourcePath firstNonEmpty =>
    js "Cannot infer program id from .aleo source at " ++ sourcePath ++
      js " — missing `program <id>.aleo;` header.\n" ++ js "First non-empty line: " ++
      (JSON.stringify (.string (firstNonEmpty.take 120))).getD []
  | unavailable id => js "Program not available: " ++ id
  | deep => js "Maximum call stack size exceeded"

/-- `imports` and `origins`, which are set together: for each id its source and where that came
from. -/
abbrev Imports := InsertionMap JsString (JsString × JsString)

/-- `imports.get(id)`. -/
def Imports.source (imports : Imports) (id : JsString) : Option JsString :=
  (imports.get? id).map Prod.fst

/-- The source of a program: its artifact, or else what the network has. -/
def Sources.fetch (sources : Sources) (id : JsString) : Option JsString :=
  (sources.artifact id).or (sources.network id)

/-- Where `fetch` has found a source. -/
def Sources.origin (sources : Sources) (id whenLocal whenRemote : JsString) : JsString :=
  if (sources.artifact id).isSome then whenLocal else whenRemote

/-! ## The walk -/

/-- `addImport(id, source, origin)`. -/
def addImport (imports : Imports) (id source origin : JsString) : Except ImportError Imports :=
  match imports.get? id with
  | some (existing, existingOrigin) =>
    if existing = source then .ok imports
    else .error (.conflict id existing existingOrigin source origin)
  | none => .ok (imports.set id (source, origin))

section

variable (localeLE : JsString → JsString → Bool) (sources : Sources)

/-- One turn of the loop of `visit`, which `walk` calls. -/
def visitImport (walk : List JsString → Imports → JsString → Except ImportError Imports)
    (ancestry : List JsString) (imports : Imports) (importId : JsString) :
    Except ImportError Imports :=
  if importId ∈ imports.keys ∨ importId ∈ ancestry then .ok imports
  else match sources.fetch importId with
    | none => .error (.unavailable importId)
    | some importSource => do
      let origin := sources.origin importId (js "static import ← artifacts/" ++ importId)
        (js "static import ← network")
      let imports ← addImport imports importId importSource origin
      walk (ancestry ++ [importId]) imports importSource

/-- `visit(programSource, ancestry)`. -/
def visit : Nat → List JsString → Imports → JsString → Except ImportError Imports
  | 0, _, _, _ => .error .deep
  | fuel + 1, ancestry, imports, programSource =>
    (parseImportIds localeLE programSource).foldlM (visitImport sources (visit fuel) ancestry) imports

/-- `parseProgramIdFromSource(source, sourcePath)`. -/
def parseProgramIdFromSource (source sourcePath : JsString) : Except ImportError JsString :=
  match firstAtLine matchHeader true source with
  | some id => .ok id
  | none => .error (.noHeader sourcePath
      (((splitLines source).find? fun line => trim line ≠ []).getD (js "<empty>")))

structure Seeded where
  programId : JsString
  source : JsString
  origin : JsString
  deriving DecidableEq

/-- `seedRuntimeImport(ref, artifactsDir, networkClient)`. -/
def seedRuntimeImport : RuntimeImportRef → Except ImportError Seeded
  | .path absolutePath =>
    match sources.file absolutePath with
    | none => .error (.pathNotFound absolutePath)
    | some source => do
      let programId ← parseProgramIdFromSource source absolutePath
      .ok ⟨programId, source, js "runtime import ← " ++ absolutePath⟩
  | .programId programId =>
    match sources.fetch programId with
    | none => .error (.unavailable programId)
    | some source =>
      .ok ⟨programId, source, sources.origin programId (js "runtime import ← artifacts/" ++ programId)
        (js "runtime import ← network (" ++ programId ++ js ")")⟩

/-- One turn of the loop over `runtimeImports`. -/
def seed (fuel : Nat) (imports : Imports) (ref : RuntimeImportRef) : Except ImportError Imports := do
  let seeded ← seedRuntimeImport sources ref
  let imports ← addImport imports seeded.programId seeded.source seeded.origin
  visit localeLE sources fuel [seeded.programId] imports seeded.source

/-- The imports that `resolveProgramImports` collects. -/
def collectImports (fuel : Nat) (programSource : JsString) (runtimeImports : List RuntimeImportRef) :
    Except ImportError Imports := do
  let imports ← runtimeImports.foldlM (seed localeLE sources fuel) .empty
  visit localeLE sources fuel [] imports programSource

/-- `resolveProgramImports`: nothing, or the sources sorted by their ids. -/
def resolveProgramImports (fuel : Nat) (programSource : JsString)
    (runtimeImports : List RuntimeImportRef) :
    Except ImportError (Option (List (JsString × JsString))) := do
  let imports ← collectImports localeLE sources fuel programSource runtimeImports
  if imports.entries = [] then return none
  return some ((imports.entries.map fun e => (e.1, e.2.1)).insertionSort fun a b => localeLE a.1 b.1)

end

end Lionden.Network.ProgramImports
