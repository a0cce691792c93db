import Lionden.Js.Text
import Lionden.Lib.Trace
import Mathlib.Logic.Function.Basic

/-!
# The devnode manager

`DevnodeManager` runs one child process at a time. The handlers of a child's events and the drain
timer write the fields of the manager, whichever child is the current one by then.

* `Devnode.step`: an event of a child or a timer, or a call up to its next `await`. The calls of
  `start` that pass its first check are numbered, and their children and promises with them.

How the logs are rendered, and where they go, is left out: what a child writes is kept as it comes.
-/

namespace Lionden.Network.DevnodeManager

/-! ## State -/

inductive Provider where
  | leo
  | standalone
  deriving DecidableEq

structure StartOptions where
  provider : Option Provider
  network : Option JsString
  consensusHeights : Option JsString
  storagePath : Option JsString
  clearStorage : Option Bool
  leoBinary : Option JsString
  devnodeBinary : Option JsString
  socketAddr : Option JsString
  deriving DecidableEq

structure ExitInfo where
  code : Option Int
  signal : Option JsString
  deriving DecidableEq

/-- A child process, with the events that it has had. -/
structure Child where
  exited : Bool
  closed : Bool
  errored : Bool
  /-- The drain grace after its exit has expired. -/
  drained : Bool
  output : List JsString
  deriving DecidableEq

inductive StartError where
  /-- The options are rejected, or `spawn` throws. -/
  | notSpawned (message : JsString)
  | spawnError (message : JsString)
  | exited (info : ExitInfo)
  | unhealthy
  deriving DecidableEq

inductive Stage where
  /-- It awaits the race of `healthCheck` and `earlyExitSignal`. -/
  | racing
  /-- The race is decided: by `healthCheck`, or by `earlyExitSignal`. -/
  | raced (healthy : Bool)
  /-- `healthCheck` was rejected; it awaits the `_exitPromise` with the number. -/
  | stopping (generation : Nat)
  | resolved
  | threw (error : StartError)
  deriving DecidableEq

/-- A call of `start`. -/
structure Start where
  options : StartOptions
  /-- `stop` was called for its child while it was racing. -/
  aborted : Bool
  stage : Stage
  deriving DecidableEq

structure Devnode where
  process : Option Nat
  terminal : Bool
  exitInfo : Option ExitInfo
  exitDrainTimer : Option Nat
  shutdownInitiated : Bool
  startResolved : Bool
  diagnosticEmitted : Bool
  spawnErrorMessage : Option JsString
  /-- `_provider`, `_storagePath`, `_network` and `_endpoint` are set and cleared with it. -/
  lastStartOptions : Option StartOptions
  /-- The child whose output it is. -/
  logging : Option Nat
  /-- How often the state has been reset. -/
  generation : Nat
  /-- What each `_exitPromise` is resolved with. -/
  exitPromises : Nat → Option ExitInfo
  /-- The drain timers that are running. -/
  timers : Nat → Bool
  children : Nat → Option Child
  starts : Nat → Option Start

def Devnode.new : Devnode where
  process := none
  terminal := false
  exitInfo := none
  exitDrainTimer := none
  shutdownInitiated := false
  startResolved := false
  diagnosticEmitted := false
  spawnErrorMessage := none
  lastStartOptions := none
  logging := none
  generation := 0
  exitPromises _ := none
  timers _ := false
  children _ := none
  starts _ := none

/-- What `start` says about options that it rejects. -/
def rejected (options : StartOptions) : Option JsString :=
  if options.provider.getD .leo = .standalone then
    match options.network with
    | some network =>
      if network ≠ js "testnet" then
        some (js "The standalone aleo-devnode backend only supports the \"testnet\" network, but " ++
          js "network \"" ++ network ++
          js "\" was requested. Use network: \"testnet\" or provider: \"leo\".")
      else rest
    | none => rest
  else none
where
  rest : Option JsString :=
    if options.consensusHeights.isSome then
      some (js "consensusHeights is not supported on the standalone aleo-devnode backend " ++
        js "(consensus heights are compiled in). Remove consensusHeights or use provider: \"leo\".")
    else if options.clearStorage = some true ∧ options.storagePath = none then
      some (js "clearStorage requires storagePath on the standalone aleo-devnode backend.")
    else none

/-- What the `error` handler records. -/
def spawnErrorText (options : StartOptions) (message : JsString) : JsString :=
  js "Failed to start devnode: " ++ message ++ js ". " ++
    match options.provider.getD .leo with
    | .standalone =>
      js "Ensure the standalone aleo-devnode binary (\"" ++
        options.devnodeBinary.getD (js "aleo-devnode") ++ js "\") is installed and accessible."
    | .leo =>
      js "Ensure the Leo CLI (\"" ++ options.leoBinary.getD (js "leo") ++
        js "\") is installed and accessible."

namespace Devnode

variable (s : Devnode)

def isRunning : Bool := s.process.isSome

def getLogTail : List JsString := ((s.logging.bind s.children).map (·.output)).getD []

def setStage (j : Nat) (start : Start) (stage : Stage) : Devnode :=
  { s with starts := Function.update s.starts j (some { start with stage }) }

def setChild (i : Nat) (child : Child) : Devnode :=
  { s with children := Function.update s.children i (some child) }

/-- `clearTimeout(this._exitDrainTimer)`. -/
def clearDrainTimer : Devnode :=
  { s with
    timers := fun i => s.timers i && decide (s.exitDrainTimer ≠ some i)
    exitDrainTimer := none }

/-! ## Calls -/

def resetPerProcessState : Devnode :=
  { s.clearDrainTimer with
    lastStartOptions := none
    terminal := false
    exitInfo := none
    shutdownInitiated := false
    startResolved := false
    diagnosticEmitted := false
    spawnErrorMessage := none
    logging := none
    generation := s.generation + 1 }

/-- `start`, up to its `await`. `spawn` may throw. -/
def start (options : StartOptions) (thrown : Option JsString) : Devnode :=
  if s.isRunning then s
  else
    let s := s.resetPerProcessState
    match (rejected options).or thrown with
    | some message =>
      { s with
        starts := Function.update s.starts s.generation
          (some { options, aborted := false, stage := .threw (.notSpawned message) }) }
    | none =>
      { s with
        process := some s.generation
        logging := some s.generation
        children := Function.update s.children s.generation (some ⟨false, false, false, false, []⟩)
        starts := Function.update s.starts s.generation
          (some { options, aborted := false, stage := .racing }) }

/-- `stop`, up to its `await`. -/
def initiateShutdown : Devnode := if s.isRunning then { s with shutdownInitiated := true } else s

/-- A call of `stop`. -/
def stop : Devnode :=
  if s.isRunning then
    { s.initiateShutdown with
      starts := Function.update s.starts s.generation
        ((s.starts s.generation).map fun start => { start with aborted := true }) }
  else s

/-- `start` after an `await`. -/
def resume (j : Nat) : Devnode :=
  match s.starts j with
  | none => s
  | some start =>
    match start.stage with
    | .raced _ =>
      match s.exitInfo with
      | some info =>
        if s.shutdownInitiated then s.setStage j start .resolved
        else
        match s.spawnErrorMessage with
        | some message => s.setStage j start (.threw (.spawnError message))
        | none => s.setStage j start (.threw (.exited info))
      | none =>
        { s.setStage j start .resolved with
          startResolved := true
          lastStartOptions := some start.options }
    | .stopping generation =>
      if (s.exitPromises generation).isSome then s.setStage j start (.threw .unhealthy) else s
    | .racing | .resolved | .threw _ => s

/-- `healthCheck` is fulfilled. -/
def healthy (j : Nat) : Devnode :=
  match s.starts j with
  | some start => if start.stage = .racing then s.setStage j start (.raced true) else s
  | none => s

/-- `healthCheck` is rejected, and `start` calls `stop`. -/
def timeout (j : Nat) : Devnode :=
  match s.starts j with
  | some start =>
    if start.stage = .racing then
      s.initiateShutdown.setStage j start
        (if s.isRunning then .stopping s.generation else .threw .unhealthy)
    else s
  | none => s

/-! ## Events of a child -/

/-- The exit promise decides the race of the call of `start` that made it. -/
def markTerminal (info : ExitInfo) : Devnode :=
  if s.terminal then s
  else
    { s.clearDrainTimer with
      terminal := true
      exitInfo := some info
      process := none
      exitPromises := Function.update s.exitPromises s.generation (some info)
      starts := Function.update s.starts s.generation ((s.starts s.generation).map fun start =>
        if start.stage = .racing then { start with stage := .raced false } else start)
      diagnosticEmitted :=
        s.diagnosticEmitted || (s.startResolved && !s.shutdownInitiated) }

def exit (i : Nat) (info : ExitInfo) : Devnode :=
  match s.children i with
  | none => s
  | some child =>
    if child.exited then s
    else
      { s.setChild i { child with exited := true } with
        exitInfo := some info
        exitDrainTimer := some i
        timers := Function.update s.timers i true }

def close (i : Nat) (info : ExitInfo) : Devnode :=
  match s.children i with
  | none => s
  | some child =>
    if child.closed then s
    else (s.setChild i { child with closed := true }).markTerminal (s.exitInfo.getD info)

def error (i : Nat) (message : JsString) : Devnode :=
  match s.children i, s.starts i with
  | some child, some start =>
    if child.errored then s
    else
      { s.setChild i { child with errored := true } with
        spawnErrorMessage := some (spawnErrorText start.options message)
      }.markTerminal ⟨none, none⟩
  | _, _ => s

/-- The drain timer of a child expires. Its handler throws where it finds no exit information. -/
def drain (i : Nat) : Devnode :=
  match s.children i with
  | none => s
  | some child =>
    if s.timers i then
      let s := { s.setChild i { child with drained := true } with
        timers := Function.update s.timers i false }
      match s.exitInfo with
      | some info => s.markTerminal info
      | none => s
    else s

def receive (i : Nat) (chunk : JsString) : Devnode :=
  match s.children i with
  | none => s
  | some child => s.setChild i { child with output := child.output ++ [chunk] }

end Devnode

/-! ## Runs -/

inductive Event where
  | start (options : StartOptions) (thrown : Option JsString)
  | stop
  | resume (j : Nat)
  | healthy (j : Nat)
  | timeout (j : Nat)
  | exit (i : Nat) (info : ExitInfo)
  | close (i : Nat) (info : ExitInfo)
  | error (i : Nat) (message : JsString)
  | drain (i : Nat)
  | output (i : Nat) (chunk : JsString)

def Devnode.step (s : Devnode) : Event → Devnode
  | .start options thrown => s.start options thrown
  | .stop => s.stop
  | .resume j => s.resume j
  | .healthy j => s.healthy j
  | .timeout j => s.timeout j
  | .exit i info => s.exit i info
  | .close i info => s.close i info
  | .error i message => s.error i message
  | .drain i => s.drain i
  | .output i chunk => s.receive i chunk

end Lionden.Network.DevnodeManager
