import Mathlib.Data.List.Sort
import Lionden.Js.Text
import Lionden.Lib.Interrupt

/-!
# The state of a deployed program

What one program has on the chain, under `deployments/<network>/` of a network that is not
ephemeral, and in the memory of the deployment manager; and the effects that change it. A file is
written to a temporary name and renamed, so each write is one effect.

* `ProgramState`, `Effect`, `Effect.apply`: the state and its effects.
* `ProgramState.readHistory`: the history files in the order of their names.
* `ChainEvent`: what the chain does by itself.

A transaction is known by its number among those started for the program. `sent`, `executed`, `log`
and `lastComplete`, and the number in a `Stamped` value, are history variables: no definition that
models a function of the source branches on them, except that the chain answers about a transaction
it executed.
-/

namespace Lionden.Deploy

abbrev ProgramId := JsString

/-- The number of a transaction among those started for a program. -/
abbrev TxId := Nat

inductive Action where
  | deploy
  | upgrade
  deriving DecidableEq

inductive Status where
  | complete
  | degraded
  | recovered
  deriving DecidableEq

/-- A deployment record: `complete` after a deploy or upgrade, `degraded` for a program found on the
chain, `recovered` from a pending marker. -/
structure DeploymentRecord where
  status : Status
  edition : Nat
  historyCount : Nat
  txId : Option TxId
  blockHeight : Option Nat
  deployerAddress : Option JsString
  deriving DecidableEq

structure DeploymentHistoryEntry where
  record : DeploymentRecord
  action : Action
  deriving DecidableEq

/-- The marker that is written before a broadcast and deleted by `record()`. -/
structure PendingDeployment where
  action : Action
  txId : Option TxId
  blockHeight : Option Nat
  previousEdition : Option Nat
  deployerAddress : JsString
  deriving DecidableEq

/-- A value, and the transaction it is about. The transaction is not in the file. -/
structure Stamped (α : Type) where
  value : α
  op : Option TxId
  deriving DecidableEq

/-- What the chain has of a program. -/
structure Chain where
  /-- The editions of the program, each with its transaction if that was started here. -/
  editions : List (Option TxId)
  /-- What reads return: the edition of now or of a moment before. -/
  visible : Option Nat
  /-- Broadcast transactions that are not processed. -/
  inFlight : List (TxId × Action)
  executed : List TxId

structure ProgramState where
  chain : Chain
  /-- How many transactions were started. -/
  sent : Nat
  /-- The ABI snapshot. -/
  abi : Option (Stamped JsString)
  record : Option (Stamped DeploymentRecord)
  history : List (JsString × Stamped DeploymentHistoryEntry)
  pending : Option (Stamped PendingDeployment)
  /-- The record in the memory of the manager. -/
  cache : Option DeploymentRecord
  /-- The ABI in the memory of the manager. -/
  abiCache : Option (Stamped JsString)
  /-- The history entries in the order in which they were recorded. -/
  log : List (Stamped DeploymentHistoryEntry)
  /-- The transaction of the complete record that was written last. -/
  lastComplete : Option TxId

/-- A program nobody has deployed. -/
def ProgramState.new : ProgramState where
  chain := { editions := [], visible := none, inFlight := [], executed := [] }
  sent := 0
  abi := none
  record := none
  history := []
  pending := none
  cache := none
  abiCache := none
  log := []
  lastComplete := none

/-! ## The history files -/

/-- `s.padStart(6, "0")`. -/
def padStart6 (s : JsString) : JsString := List.replicate (6 - s.length) (unit '0') ++ s

/-- The name of the file of a history entry, which is written at the moment `now`. -/
def historyFilename (historyCount : Nat) (now : JsString) : JsString :=
  padStart6 (decimal historyCount) ++ js "-" ++ now ++ js ".json"

/-- A file is created, or replaced if it is there. -/
def writeFile {α : Type} (name : JsString) (content : α) :
    List (JsString × α) → List (JsString × α)
  | [] => [(name, content)]
  | f :: fs => if f.1 = name then (name, content) :: fs else f :: writeFile name content fs

theorem writeFile_new {α : Type} {name : JsString} {content : α} {files : List (JsString × α)}
    (h : name ∉ files.map (·.1)) : writeFile name content files = files ++ [(name, content)] := by
  induction files with
  | nil => rfl
  | cons f fs ih =>
    rw [List.map_cons, List.mem_cons, not_or] at h
    simp [writeFile, Ne.symm h.1, ih h.2]

/-- The history files in the order of `sort()`, which compares code units. -/
def ProgramState.readHistory (s : ProgramState) : List (Stamped DeploymentHistoryEntry) :=
  (s.history.mergeSort (fun a b => decide (a.1 ≤ b.1))).map (·.2)

/-! ## The chain -/

/-- What the chain does. -/
inductive ChainEvent where
  /-- It processes a transaction: a deployment is executed if the program is not there, an upgrade if
  it is; another transaction is rejected. -/
  | execute (tx : TxId)
  /-- It rejects a transaction or loses it. -/
  | reject (tx : TxId)
  /-- Its reads catch up. -/
  | propagate
  /-- Somebody else deploys or upgrades the program. -/
  | foreign
  /-- A devnode is started again, with nothing on it. -/
  | reset

/-- The edition of the program, if it is there. -/
def Chain.edition (c : Chain) : Option Nat :=
  match c.editions.length with
  | 0 => none
  | n + 1 => some n

/-- Whether the chain executes a transaction. -/
def Chain.accepts (c : Chain) : Action → Bool
  | .deploy => c.editions.isEmpty
  | .upgrade => !c.editions.isEmpty

def ChainEvent.apply (ev : ChainEvent) (c : Chain) : Chain :=
  match ev with
  | .execute tx =>
    match c.inFlight.find? (fun t => t.1 = tx) with
    | none => c
    | some t =>
      if c.accepts t.2 then
        { c with
          inFlight := c.inFlight.filter (fun t => t.1 ≠ tx)
          editions := c.editions ++ [some tx]
          executed := tx :: c.executed }
      else { c with inFlight := c.inFlight.filter (fun t => t.1 ≠ tx) }
  | .reject tx => { c with inFlight := c.inFlight.filter (fun t => t.1 ≠ tx) }
  | .propagate => { c with visible := c.edition }
  | .foreign => { c with editions := c.editions ++ [none] }
  | .reset => { c with editions := [], visible := none, inFlight := [] }

def Chain.broadcast (c : Chain) (tx : TxId) (action : Action) : Chain :=
  { c with inFlight := c.inFlight ++ [(tx, action)] }

/-! ## Effects -/

/-- What an operation changes, one file, broadcast or cache entry at a time. -/
inductive Effect where
  | writePendingMarker (pending : Stamped PendingDeployment)
  | deletePendingMarker
  | writeAbiSnapshot (abi : Stamped JsString)
  | writeDeploymentRecord (record : Stamped DeploymentRecord)
  | appendHistory (now : JsString) (entry : Stamped DeploymentHistoryEntry)
  | setAbiCache (abi : Stamped JsString)
  | setCache (record : Option DeploymentRecord)
  | broadcastTransaction (tx : TxId) (action : Action)
  | chain (ev : ChainEvent)

def Effect.apply (k : Effect) (s : ProgramState) : ProgramState :=
  match k with
  | .writePendingMarker pending =>
    { s with pending := some pending, sent := max s.sent (pending.op.elim 0 (· + 1)) }
  | .deletePendingMarker => { s with pending := none }
  | .writeAbiSnapshot abi => { s with abi := some abi }
  | .writeDeploymentRecord record =>
    { s with
      record := some record
      lastComplete := if record.value.status = .complete then record.op else s.lastComplete }
  | .appendHistory now entry =>
    { s with
      history := writeFile (historyFilename entry.value.record.historyCount now) entry s.history
      log := s.log ++ [entry] }
  | .setAbiCache abi => { s with abiCache := some abi }
  | .setCache record => { s with cache := record }
  | .broadcastTransaction tx action => { s with chain := s.chain.broadcast tx action }
  | .chain ev => { s with chain := ev.apply s.chain }

/-- The programs of a network. -/
abbrev World := ProgramId → ProgramState

/-- An operation on one program; its errors are texts. -/
abbrev Op := Interrupt.Prog Effect ProgramState JsString

/-- An operation on the programs of a network. -/
abbrev NetworkOp := Interrupt.Prog (ProgramId × Effect) World JsString

def perform (k : Effect) : Op Unit := Interrupt.Prog.perform Effect.apply k

def state : Op ProgramState := Interrupt.Prog.read

def throw {α : Type} (message : JsString) : Op α := Interrupt.Prog.fail message

end Lionden.Deploy
