import Lionden.Core.TaskRunner

/-!
# Parsing the command line (`task-dispatch.ts`)

* `findTask`: the first pass, which finds the task id without knowing the options of the task.
* `parseLoop`, `parseArgs`: the second pass, which routes options by the schema of that task.
-/

namespace Lionden.Cli

open Lionden.Core

/-! ## Lookups -/

inductive ArgumentType where
  | STRING
  | INT
  | BOOLEAN
  | BIGINT
  | FILE
  deriving DecidableEq

structure GlobalOptionDefinition where
  name : JsString
  type : ArgumentType

structure GlobalArgumentLookupEntry where
  name : JsString
  type : ArgumentType
  builtIn : Bool := false

structure TaskArgumentLookupEntry where
  name : JsString
  type : CanonicalType

/-- `lookup.set(publicName, entry)` for each of the names. -/
def setAll {ν : Type} (names : List JsString) (entry : ν) (lookup : InsertionMap JsString ν) :
    InsertionMap JsString ν :=
  names.foldl (fun lookup publicName => lookup.set publicName entry) lookup

/-- The same for the names that are not claimed. -/
def fillAll {ν : Type} (names : List JsString) (entry : ν) (lookup : InsertionMap JsString ν) :
    InsertionMap JsString ν :=
  names.foldl (fun lookup publicName =>
    if (lookup.get? publicName).isSome then lookup else lookup.set publicName entry) lookup

/-- The built-in global arguments with their aliases. -/
def BUILT_IN_GLOBAL_ARGUMENTS : List (JsString × ArgumentType × List JsString) :=
  [(js "config", .FILE, []), (js "network", .STRING, []), (js "prove", .BOOLEAN, []),
    (js "verbose", .BOOLEAN, []), (js "help", .BOOLEAN, [js "h"]), (js "version", .BOOLEAN, [js "v"])]

def buildGlobalArgumentLookup (pluginGlobalOptions : List GlobalOptionDefinition) :
    InsertionMap JsString GlobalArgumentLookupEntry :=
  let lookup := BUILT_IN_GLOBAL_ARGUMENTS.foldl (fun lookup (name, type, aliases) =>
    setAll (getPublicArgumentNames name ++ aliases) { name, type, builtIn := true } lookup) .empty
  pluginGlobalOptions.foldl (fun lookup definition =>
    setAll (getPublicArgumentNames definition.name)
      { name := definition.name, type := definition.type } lookup) lookup

def buildTaskArgumentLookup (taskDefinition : TaskDefinition) :
    InsertionMap JsString TaskArgumentLookupEntry :=
  let lookup := taskDefinition.flags.foldl (fun lookup flag =>
    setAll (getPublicArgumentNames flag.name) ⟨flag.name, .boolean⟩ lookup) .empty
  let lookup := taskDefinition.options.foldl (fun lookup option =>
    setAll (getPublicArgumentNames option.name) ⟨option.name, option.type.canonical⟩ lookup) lookup
  taskDefinition.positionalArguments.foldl (fun lookup positional =>
    fillAll (getPublicArgumentNames positional.name) ⟨positional.name, .string⟩ lookup) lookup

/-! ## Tokens -/

def isOptionToken (token : JsString) : Bool := token.head? == some 45

/-- Split an option token into its name and its inline value. -/
def splitOptionToken (arg : JsString) : JsString × Option JsString :=
  let body := if (js "--").isPrefixOf arg then arg.drop 2 else arg.drop 1
  if 61 ∈ body then (body.takeWhile (· ≠ 61), some ((body.dropWhile (· ≠ 61)).drop 1))
  else (body, none)

def coerceFlagValue (inlineValue : Option JsString) : Bool :=
  match inlineValue with
  | none => true
  | some value => decide (lower value ≠ js "false")

/-! ## The first pass -/

/-- The global arguments, and the ids of the tasks. -/
structure Registry where
  globals : InsertionMap JsString GlobalArgumentLookupEntry
  getTaskDefinition : JsString → Option TaskDefinition

namespace Registry

variable (R : Registry)

def isTask (token : JsString) : Bool := (R.getTaskDefinition token).isSome

/-- A token that names a registered task is among these. -/
def hasTaskToken (tokens : List JsString) : Bool :=
  tokens.any fun token => !isOptionToken token && R.isTask token

/-- `canConsumeAsValue(argv[i + 1], …, hasTaskTokenAfter(argv, i + 1, …))`. -/
def canConsume : List JsString → Bool
  | [] => false
  | token :: after => !isOptionToken token && (R.hasTaskToken after || !R.isTask token)

/-- Without the schema of the task, an option has a value unless it is a boolean global. -/
def isValuedOption (rawName : JsString) : Bool :=
  match R.globals.get? rawName with
  | some definition => decide (definition.type ≠ .BOOLEAN)
  | none => true

/-- The loop of `findTask` from index `i` on, with `firstUnclaimedToken`. -/
def findFrom : Nat → List JsString → Option (JsString × Nat) → Option (JsString × Nat)
  | _, [], firstUnclaimedToken => firstUnclaimedToken
  | i, arg :: rest, firstUnclaimedToken =>
    if isOptionToken arg then
      let (rawName, inlineValue) := splitOptionToken arg
      if inlineValue.isNone && R.isValuedOption rawName && R.canConsume rest then
        match rest with
        | [] => findFrom (i + 1) [] firstUnclaimedToken
        | _ :: rest => findFrom (i + 2) rest firstUnclaimedToken
      else findFrom (i + 1) rest firstUnclaimedToken
    else if R.isTask arg then some (arg, i)
    else findFrom (i + 1) rest (firstUnclaimedToken.or (some (arg, i)))

/-- The task id with its index. -/
def findTask (argv : List JsString) : Option (JsString × Nat) := R.findFrom 0 argv none

end Registry

/-! ## The second pass -/

structure ParsedArgs where
  taskId : Option JsString := none
  taskArgs : Args := .empty
  preTaskArgs : List JsString := []
  globalArgs : Args := .empty

/-- Where an option is stored: among the global or the task arguments, and under which name. -/
structure Slot where
  isGlobal : Bool
  name : JsString
  deriving DecidableEq

def ParsedArgs.store (p : ParsedArgs) (slot : Slot) (value : JsValue) : ParsedArgs :=
  if slot.isGlobal then { p with globalArgs := assign p.globalArgs slot.name value }
  else { p with taskArgs := assign p.taskArgs slot.name value }

/-- What an option name stands for: an argument of the task, a global argument, or neither. -/
inductive Route where
  | task (taskArg : TaskArgumentLookupEntry)
  | global (globalDefinition : GlobalArgumentLookupEntry)
  | unknown (rawName : JsString)

def Route.slot : Route → Slot
  | task taskArg => ⟨false, taskArg.name⟩
  | global globalDefinition => ⟨true, globalDefinition.name⟩
  | unknown rawName => ⟨false, rawName⟩

def Route.isBoolean : Route → Bool
  | task taskArg => decide (taskArg.type = .boolean)
  | global globalDefinition => decide (globalDefinition.type = .BOOLEAN)
  | unknown _ => false

/-- The lookups of a run of the parser. -/
structure Lookups where
  globals : InsertionMap JsString GlobalArgumentLookupEntry
  tasks : InsertionMap JsString TaskArgumentLookupEntry

def Lookups.route (L : Lookups) (rawName : JsString) : Route :=
  match L.tasks.get? rawName, L.globals.get? rawName with
  | some taskArg, some globalDefinition =>
    if globalDefinition.builtIn then .global globalDefinition else .task taskArg
  | some taskArg, none => .task taskArg
  | none, some globalDefinition => .global globalDefinition
  | none, none => .unknown rawName

/-- One option: what is stored, and whether it takes the next token. -/
def parseOption (route : Route) (inlineValue next : Option JsString) (p : ParsedArgs) :
    ParsedArgs × Bool :=
  if route.isBoolean then (p.store route.slot (.boolean (coerceFlagValue inlineValue)), false)
  else match inlineValue, next with
    | some value, _ => (p.store route.slot (.string value), false)
    | none, some value => (p.store route.slot (.string value), true)
    | none, none =>
      match route with
      | .unknown _ => (p.store route.slot (.boolean true), false)
      | _ => (p, false)

/-- `argv[index + 1]`, if `canConsumeNextAsValue`. -/
def nextValue (taskIndex : Option Nat) (i : Nat) : List JsString → Option JsString
  | [] => none
  | token :: _ => if taskIndex = some (i + 1) ∨ isOptionToken token then none else some token

/-- A bare token after the task; `_positional` is an array unless an option has that name. -/
def pushPositional (p : ParsedArgs) (arg : JsString) : Except JsString ParsedArgs :=
  match p.taskArgs.get? (js "_positional") with
  | none => .ok { p with taskArgs := p.taskArgs.set (js "_positional") (.array [some (.string arg)]) }
  | some (.array values) =>
    .ok { p with
      taskArgs := p.taskArgs.set (js "_positional") (.array (values ++ [some (.string arg)])) }
  | some _ => .error (js "positionals.push is not a function")

/-- A bare token. -/
def parseBare (taskIndex : Option Nat) (i : Nat) (arg : JsString) (p : ParsedArgs) :
    Except JsString ParsedArgs :=
  match taskIndex with
  | none => .ok p
  | some t =>
    if t < i then pushPositional p arg
    else .ok { p with preTaskArgs := p.preTaskArgs ++ [arg] }

/-- The loop of `parseArgs` from index `i` on. -/
def parseLoop (L : Lookups) (taskIndex : Option Nat) :
    Nat → List JsString → ParsedArgs → Except JsString ParsedArgs
  | _, [], p => .ok p
  | i, arg :: rest, p =>
    if taskIndex = some i then parseLoop L taskIndex (i + 1) rest p
    else if isOptionToken arg then
      let (rawName, inlineValue) := splitOptionToken arg
      let (p, consumes) := parseOption (L.route rawName) inlineValue (nextValue taskIndex i rest) p
      if consumes then
        match rest with
        | [] => parseLoop L taskIndex (i + 1) [] p
        | _ :: rest => parseLoop L taskIndex (i + 2) rest p
      else parseLoop L taskIndex (i + 1) rest p
    else do
      let p ← parseBare taskIndex i arg p
      parseLoop L taskIndex (i + 1) rest p

/-- The schema that the options are routed by; the empty id counts as none. -/
def Registry.lookups (R : Registry) (taskId : Option JsString) : Lookups where
  globals := R.globals
  tasks := match taskId with
    | none | some [] => .empty
    | some taskId =>
      match R.getTaskDefinition taskId with
      | some taskDefinition => buildTaskArgumentLookup taskDefinition
      | none => .empty

def Registry.parseArgs (R : Registry) (argv : List JsString) : Except JsString ParsedArgs :=
  let found := R.findTask argv
  parseLoop (R.lookups (found.map Prod.fst)) (found.map Prod.snd) 0 argv
    { taskId := found.map Prod.fst }

def parseArgs (pluginGlobalOptions : List GlobalOptionDefinition)
    (getTaskDefinition : JsString → Option TaskDefinition) (argv : List JsString) :
    Except JsString ParsedArgs :=
  Registry.parseArgs ⟨buildGlobalArgumentLookup pluginGlobalOptions, getTaskDefinition⟩ argv

end Lionden.Cli
