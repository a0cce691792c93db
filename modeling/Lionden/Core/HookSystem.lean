import Lionden.Js.Value
import Lionden.Lib.Trace
import Mathlib.Logic.Function.Basic

/-!
# The hook dispatcher (`hook-system.ts`)

The handlers of a plugin for a category are an object, or a factory that is called when the category
is first dispatched. A run is a list of events: calls of the dispatcher, promises that settle, and
jobs of the promise queue, which run in the order in which they were queued.

* `registerPlugins`: the entries of a category, in plugin order.
* `Category.step`: what one event does to the state of a category.
* `Dispatcher.step`: the categories side by side, as they share no state.
-/

namespace Lionden.Core.Hooks

inductive HookCategory where
  | config
  | testing
  | deployment
  deriving DecidableEq

inductive Mode where
  | serial
  | waterfall
  | collect
  deriving DecidableEq

-- the handlers are of type `H`, what they take, return and throw is of type `V`
variable {H V : Type}

/-- `AnyHandlerMap`: the functions of an object. -/
abbrev Handlers (H : Type) := JsString → Option H

/-! ## Registration -/

inductive Provider (H : Type) where
  | eager (handlers : Handlers H)
  | factory

structure LionDenPlugin (H : Type) where
  id : JsString
  hookHandlers : HookCategory → Option (Provider H) := fun _ => none

/-- `factory` until the handlers are there. -/
structure Entry (H : Type) where
  pluginId : JsString
  handlers : Option (Handlers H)
  factory : Bool

def LionDenPlugin.entry (plugin : LionDenPlugin H) (category : HookCategory) : Option (Entry H) :=
  (plugin.hookHandlers category).map fun
    | .eager handlers => ⟨plugin.id, some handlers, false⟩
    | .factory => ⟨plugin.id, none, true⟩

def registerPlugins (plugins : List (LionDenPlugin H)) (category : HookCategory) :
    List (Entry H) := plugins.filterMap (·.entry category)

/-- The factory is still to be called. -/
def Entry.isLazy (entry : Entry H) : Bool := entry.handlers.isNone && entry.factory

/-- `getHandlers`, of entries that are resolved. -/
def collectHandlers (entries : List (Entry H)) (hookName : JsString) : List H :=
  entries.filterMap fun entry => entry.handlers.bind fun handlers => handlers hookName

/-! ## The state of a category -/

/-- Why a resolution failed: which factory threw what. -/
structure Failure (V : Type) where
  resolution : Nat
  index : Nat
  error : V

/-- Where the loop over the entries is. -/
inductive Stage (H V : Type) where
  /-- In `entry.factory()`; `created` once `resolving` has the promise. -/
  | calling (index : Nat) (created : Bool)
  /-- Awaits the promise of the factory. -/
  | loading (index : Nat)
  /-- That promise has settled, and a job is queued. -/
  | loaded (index : Nat) (result : Except V (Option (Handlers H)))
  | settled (outcome : Option (Failure V))

/-- The promise `resolution` of the dispatch of the same number, and who awaits it. -/
structure Resolution (H V : Type) where
  stage : Stage H V
  reactions : List Nat

/-- Where a dispatch is. -/
inductive Phase (H V : Type) where
  /-- In the first part of `resolveCategory`, which makes the resolution. -/
  | creating
  /-- Awaits a resolution. -/
  | awaiting (resolution : Nat)
  /-- That resolution has settled. -/
  | settled (outcome : Option (Failure V)) (resolution : Nat)
  /-- `resolveCategory` has returned or thrown. -/
  | category (outcome : Option (Failure V))
  /-- `getHandlers` has. -/
  | handlers (result : Except (Failure V) (List H))
  /-- Awaits a handler. -/
  | calling (handler : H) (rest : List H)
  /-- The handler has returned or thrown. -/
  | handled (result : Except V V) (rest : List H)
  | completed
  | rejected (reason : Failure V ⊕ V)

/-- A call of `serial`, `waterfall` or `collect`, with the context or the value so far, and the
results so far. -/
structure Dispatch (H V : Type) where
  mode : Mode
  hookName : JsString
  value : V
  results : List V := []
  phase : Phase H V := .creating

inductive Job where
  /-- The loop of a resolution goes on. -/
  | resume (resolution : Nat)
  /-- A dispatch goes on. -/
  | proceed (dispatch : Nat)

/-- What happened to the factories. -/
inductive Entered (H : Type) where
  | called (index resolution : Nat)
  | succeeded (index : Nat) (handlers : Option (Handlers H))

structure Category (H V : Type) where
  entries : List (Entry H)
  resolved : Bool := false
  resolving : Option Nat := none
  resolutions : Nat → Option (Resolution H V) := fun _ => none
  dispatches : Nat → Option (Dispatch H V) := fun _ => none
  /-- The resolutions that are in the call of a factory, the innermost first. -/
  calling : List Nat := []
  queue : List Job := []
  next : Nat := 0
  log : List (Entered H) := []
  /-- The handlers that were called: by which dispatch, and on what. -/
  ran : List (Nat × H × V) := []

/-! ## What a category does -/

namespace Category

variable (s : Category H V)

/-- The first entry from `i` on whose factory is to be called. -/
def firstLazy (entries : List (Entry H)) (i : Nat) : Option Nat :=
  ((entries.drop i).findIdx? Entry.isLazy).map (i + ·)

def setPhase (d : Nat) (phase : Phase H V) : Category H V :=
  { s with
    dispatches := Function.update s.dispatches d
      ((s.dispatches d).map fun dispatch => { dispatch with phase }) }

def setStage (r : Nat) (stage : Stage H V) : Category H V :=
  { s with
    resolutions := Function.update s.resolutions r
      ((s.resolutions r).map fun resolution => { resolution with stage }) }

/-- A dispatch goes on in a job of its own. -/
def proceed (d : Nat) (phase : Phase H V) : Category H V :=
  { s.setPhase d phase with queue := s.queue ++ [.proceed d] }

/-- The resolution settles: whoever awaits it goes on, in the order in which they came. -/
def settle (r : Nat) (outcome : Option (Failure V)) : Category H V :=
  let reactions := match s.resolutions r with
    | some resolution => resolution.reactions
    | none => []
  { s with
    resolutions := Function.update s.resolutions r (some ⟨.settled outcome, []⟩)
    dispatches := fun d =>
      if d ∈ reactions then
        (s.dispatches d).map fun dispatch => { dispatch with phase := .settled outcome r }
      else s.dispatches d
    queue := s.queue ++ reactions.map .proceed }

/-- `await` of a resolution. -/
def await (d r : Nat) : Category H V :=
  match s.resolutions r with
  | some ⟨.settled outcome, _⟩ => s.proceed d (.settled outcome r)
  | some ⟨stage, reactions⟩ =>
    { s.setPhase d (.awaiting r) with
      resolutions := Function.update s.resolutions r (some ⟨stage, reactions ++ [d]⟩) }
  | none => s

/-- The rest of `resolveCategory` once `resolution` is there. -/
def created (r : Nat) : Category H V := { s with resolving := some r }.await r r

/-- The loop over the entries from `i` on. -/
def resumeLoop (r i : Nat) : Category H V :=
  match firstLazy s.entries i with
  | some j =>
    { s.setStage r (.calling j true) with
      calling := r :: s.calling
      log := s.log ++ [.called j r] }
  | none => { s with resolved := true }.settle r none

/-- A call of the dispatcher, also from within a factory. -/
def dispatch (mode : Mode) (hookName : JsString) (value : V) : Category H V :=
  let d := s.next
  let s := { s with
    next := d + 1
    dispatches := Function.update s.dispatches d (some { mode, hookName, value }) }
  if s.resolved then s.proceed d (.category none)
  else match s.resolving with
    | some r => s.await d r
    | none =>
      match firstLazy s.entries 0 with
      | some j =>
        -- the loop calls the factory before `resolving` has the promise
        { s with
          resolutions := Function.update s.resolutions d (some ⟨.calling j false, []⟩)
          calling := d :: s.calling
          log := s.log ++ [.called j d] }
      | none =>
        { s with
          resolved := true
          resolutions := Function.update s.resolutions d (some ⟨.settled none, []⟩) }.created d

/-- The innermost call of a factory returns a promise, or throws. -/
def factoryReturns (thrown : Option V) : Category H V :=
  match s.calling with
  | [] => s
  | r :: calling =>
    match s.resolutions r with
    | some ⟨.calling i isCreated, _⟩ =>
      let s := { s with calling }
      let s := match thrown with
        | none => s.setStage r (.loading i)
        | some error => s.settle r (some ⟨r, i, error⟩)
      if isCreated then s else s.created r
    | _ => s

/-- The promise of a factory settles. -/
def factorySettles (r : Nat) (result : Except V (Option (Handlers H))) : Category H V :=
  match s.resolutions r with
  | some ⟨.loading i, _⟩ =>
    { s.setStage r (.loaded i result) with
      queue := s.queue ++ [.resume r]
      log := s.log ++ match result with
        | .ok handlers => [.succeeded i handlers]
        | .error _ => [] }
  | _ => s

/-- `entry.handlers = …; entry.factory = null;` -/
def setHandlers (entries : List (Entry H)) (i : Nat) (handlers : Option (Handlers H)) :
    List (Entry H) :=
  entries.modify i fun entry => { entry with handlers, factory := false }

/-- The job of a resolution. -/
def resume (r : Nat) : Category H V :=
  match s.resolutions r with
  | some ⟨.loaded i (.ok handlers), _⟩ =>
    { s with entries := setHandlers s.entries i handlers }.resumeLoop r (i + 1)
  | some ⟨.loaded i (.error error), _⟩ => s.settle r (some ⟨r, i, error⟩)
  | _ => s

/-- The next handler, or the end. -/
def runNext (d : Nat) (dispatch : Dispatch H V) : List H → Category H V
  | [] => s.setPhase d .completed
  | handler :: rest =>
    { s.setPhase d (.calling handler rest) with ran := s.ran ++ [(d, handler, dispatch.value)] }

/-- What is done with the return value of a handler. -/
def keepResult (isUndefined : V → Bool) (dispatch : Dispatch H V) (result : V) : Dispatch H V :=
  match dispatch.mode with
  | .serial => dispatch
  | .waterfall => if isUndefined result then dispatch else { dispatch with value := result }
  | .collect => { dispatch with results := dispatch.results ++ [result] }

/-- The job of a dispatch. -/
def advance (isUndefined : V → Bool) (d : Nat) : Category H V :=
  match s.dispatches d with
  | none => s
  | some dispatch =>
    match dispatch.phase with
    | .settled outcome r =>
      -- `finally`: only the dispatch that made the resolution deletes it
      (if r = d then { s with resolving := none } else s).proceed d (.category outcome)
    | .category none => s.proceed d (.handlers (.ok (collectHandlers s.entries dispatch.hookName)))
    | .category (some failure) => s.proceed d (.handlers (.error failure))
    | .handlers (.ok handlers) => s.runNext d dispatch handlers
    | .handlers (.error failure) => s.setPhase d (.rejected (.inl failure))
    | .handled (.ok result) rest =>
      let dispatch := keepResult isUndefined dispatch result
      { s with dispatches := Function.update s.dispatches d (some dispatch) }.runNext d dispatch rest
    | .handled (.error error) _ => s.setPhase d (.rejected (.inr error))
    | _ => s

/-- The next job; none runs while a factory is being called. -/
def runJob (isUndefined : V → Bool) : Category H V :=
  match s.calling, s.queue with
  | [], .resume r :: queue => { s with queue }.resume r
  | [], .proceed d :: queue => { s with queue }.advance isUndefined d
  | _, _ => s

/-- A handler throws, instead of returning. -/
def handlerThrows (d : Nat) (error : V) : Category H V :=
  match s.dispatches d with
  | some { phase := .calling _ _, .. } => s.setPhase d (.rejected (.inr error))
  | _ => s

/-- What a handler has returned settles. -/
def handlerSettles (d : Nat) (result : Except V V) : Category H V :=
  match s.dispatches d with
  | some { phase := .calling _ rest, .. } => s.proceed d (.handled result rest)
  | _ => s

end Category

inductive Event (H V : Type) where
  | dispatch (mode : Mode) (hookName : JsString) (value : V)
  | factoryReturns (thrown : Option V)
  | factorySettles (resolution : Nat) (result : Except V (Option (Handlers H)))
  | runJob
  | handlerThrows (dispatch : Nat) (error : V)
  | handlerSettles (dispatch : Nat) (result : Except V V)

def Category.step (isUndefined : V → Bool) (s : Category H V) : Event H V → Category H V
  | .dispatch mode hookName value => s.dispatch mode hookName value
  | .factoryReturns thrown => s.factoryReturns thrown
  | .factorySettles r result => s.factorySettles r result
  | .runJob => s.runJob isUndefined
  | .handlerThrows d error => s.handlerThrows d error
  | .handlerSettles d result => s.handlerSettles d result

/-! ## The dispatcher -/

abbrev Dispatcher (H V : Type) := HookCategory → Category H V

/-- All plugins are registered, nothing is dispatched. -/
def Dispatcher.start (plugins : List (LionDenPlugin H)) : Dispatcher H V := fun category =>
  { entries := registerPlugins plugins category }

/-- An event of a category. -/
def Dispatcher.step (isUndefined : V → Bool) (s : Dispatcher H V) (e : HookCategory × Event H V) :
    Dispatcher H V := Function.update s e.1 ((s e.1).step isUndefined e.2)

end Lionden.Core.Hooks
