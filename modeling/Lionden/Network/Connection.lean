import Mathlib.Data.List.Infix
import Lionden.Deploy.Manager

/-!
# Reads of the chain through the client

`getProgramSource` and `getMappingValue` turn what the SDK client does into a value, `null` or an
error. A failure is taken for absence if its message says so: the client throws for an absent program
as it does for everything else.

* `getProgramSource`, `queryProgramMappingRaw`, `getMappingValue`, `getStorageValue`: the reads.
* `checkProgramOnChain`, `recoveryDecision`: what the deployment manager makes of them.
* `absence_is_known_iff`: when null means that the node has said so.
-/

namespace Lionden.Network

open Deploy (PendingDeployment Resolution resolve)

/-- What the client throws: its message, and the status with which the node answered the request, if
it did. -/
structure Failure where
  message : JsString
  status : Option Nat

/-- What a call of the client ends with; `undefined` and `null` are no value, and other values are
given as the texts that `String` makes of them. -/
inductive ClientResult where
  | value (v : Option JsString)
  | threw (failure : Failure)

/-- The client of a connection, behind which the node does anything. -/
structure Client where
  getProgram : JsString → ClientResult
  getProgramMappingValue : JsString → JsString → JsString → ClientResult
  /-- The edition, if the client has such a method and it gives one. -/
  getLatestProgramEdition : JsString → Option Nat

structure Connection where
  devnode : Bool
  closed : Bool
  /-- The client, or the reason why the SDK cannot be loaded. -/
  sdk : Except JsString Client

/-- `assertOpen` and `getSdkObjects`. -/
def Connection.client (c : Connection) : Except JsString Client :=
  if c.closed then .error (js "Connection is closed.") else c.sdk

/-- A message that a mapping read takes for absence. -/
def saysNotFound (message : JsString) : Bool :=
  includes message (js "404") || includes message (js "not found") ||
    includes message (js "Not Found")

/-- A message that a source read takes for absence. -/
def saysNoProgram (message : JsString) : Bool :=
  saysNotFound message || includes message (js "500")

def queryProgramMappingRaw (c : Connection) (programId mappingName key failureLabel : JsString) :
    Except JsString (Option JsString) := do
  let client ← c.client
  match client.getProgramMappingValue programId mappingName key with
  | .value v => .ok v
  | .threw failure =>
    if saysNotFound failure.message then .ok none
    else .error (js "Failed to query " ++ failureLabel ++ js ": " ++ failure.message)

def getMappingValue (c : Connection) (programId mappingName key : JsString) :
    Except JsString (Option JsString) :=
  queryProgramMappingRaw c programId mappingName key
    (js "mapping " ++ programId ++ js "/" ++ mappingName)

def getStorageValue (c : Connection) (programId variableName : JsString) :
    Except JsString (Option JsString) :=
  queryProgramMappingRaw c programId (variableName ++ js "__") (js "false")
    (js "storage " ++ programId ++ js "/" ++ variableName)

def getProgramSource (c : Connection) (programId : JsString) : Except JsString (Option JsString) := do
  let client ← c.client
  match client.getProgram programId with
  | .value v => .ok v
  | .threw failure =>
    if saysNoProgram failure.message then .ok none
    else .error (js "Failed to fetch program source for \"" ++ programId ++ js "\": " ++
      failure.message)

def getProgramEdition (c : Connection) (programId : JsString) : Except JsString (Option Nat) := do
  let client ← c.client
  .ok (client.getLatestProgramEdition programId)

/-- Whether the program is on the chain, and its edition if that is read. -/
def checkProgramOnChain (c : Connection) (programId : JsString) :
    Except JsString (Option (Option Nat)) := do
  match ← getProgramSource c programId with
  | none => .ok none
  | some _ => do
    let edition ← getProgramEdition c programId
    .ok (some edition)

/-- What recovery makes of the pending marker of a program. -/
def recoveryDecision (c : Connection) (programId : JsString) (marker : PendingDeployment) :
    Except JsString Resolution := do
  let onChain ← checkProgramOnChain c programId
  .ok (resolve marker onChain)

/-! ## Absence -/

/-- The client returned no value, or the node answered 404, or 500 where it is a devnode. -/
def Absent (devnode : Bool) : ClientResult → Prop
  | .value v => v = none
  | .threw failure => failure.status = some 404 ∨ devnode = true ∧ failure.status = some 500

/-- What is read from a client is null only if the node has said so, a program is reported missing
only then, and a marker is discarded only then or for a program that is on the chain. Every other
failure is thrown, by the read and by what rests on it. -/
structure AbsenceIsKnownOf (c : Connection) (client : Client) : Prop where
  source : ∀ p, getProgramSource c p = .ok none → Absent c.devnode (client.getProgram p)
  mapping : ∀ p mapping key, getMappingValue c p mapping key = .ok none →
    Absent c.devnode (client.getProgramMappingValue p mapping key)
  onChain : ∀ p, checkProgramOnChain c p = .ok none → Absent c.devnode (client.getProgram p)
  recovery : ∀ p marker, recoveryDecision c p marker = .ok .discard →
    Absent c.devnode (client.getProgram p) ∨ ∃ edition, checkProgramOnChain c p = .ok (some edition)
  sourceThrown : ∀ p failure, client.getProgram p = .threw failure →
    ¬Absent c.devnode (.threw failure) →
      ∃ label, getProgramSource c p = .error (label ++ failure.message) ∧
        checkProgramOnChain c p = .error (label ++ failure.message) ∧
        ∀ marker, recoveryDecision c p marker = .error (label ++ failure.message)
  mappingThrown : ∀ p mapping key failure, client.getProgramMappingValue p mapping key = .threw failure →
    ¬Absent c.devnode (.threw failure) →
      ∃ label, getMappingValue c p mapping key = .error (label ++ failure.message)

/-- **The property**, of any connection. -/
def AbsenceIsKnown (c : Connection) : Prop :=
  ∀ client, c.client = .ok client → AbsenceIsKnownOf c client

/-- **The condition**: a failure whose message is taken for absence is one. -/
structure MessagesAreRight (devnode : Bool) (client : Client) : Prop where
  source : ∀ p failure, client.getProgram p = .threw failure →
    saysNoProgram failure.message = true → Absent devnode (.threw failure)
  mapping : ∀ p mapping key failure, client.getProgramMappingValue p mapping key = .threw failure →
    saysNotFound failure.message = true → Absent devnode (.threw failure)

section Reads

variable {c : Connection} {client : Client} (hclient : c.client = .ok client)

include hclient

theorem getProgramSource_eq_none_iff (p : JsString) : getProgramSource c p = .ok none ↔
    client.getProgram p = .value none ∨
      ∃ failure, client.getProgram p = .threw failure ∧ saysNoProgram failure.message = true := by
  unfold getProgramSource
  rw [hclient]
  show (match client.getProgram p with
    | .value v => _
    | .threw failure => _) = _ ↔ _
  cases client.getProgram p with
  | value v => simp
  | threw failure =>
    by_cases hstates : saysNoProgram failure.message = true
    · simp [hstates]
    · simp [hstates]

theorem getMappingValue_eq_none_iff (p mapping key : JsString) :
    getMappingValue c p mapping key = .ok none ↔
      client.getProgramMappingValue p mapping key = .value none ∨
        ∃ failure, client.getProgramMappingValue p mapping key = .threw failure ∧
          saysNotFound failure.message = true := by
  unfold getMappingValue queryProgramMappingRaw
  rw [hclient]
  show (match client.getProgramMappingValue p mapping key with
    | .value v => _
    | .threw failure => _) = _ ↔ _
  cases client.getProgramMappingValue p mapping key with
  | value v => simp
  | threw failure =>
    by_cases hstates : saysNotFound failure.message = true
    · simp [hstates]
    · simp [hstates]

/-- A program is reported missing exactly if its source is read as null. -/
theorem checkProgramOnChain_eq_none_iff (p : JsString) :
    checkProgramOnChain c p = .ok none ↔ getProgramSource c p = .ok none := by
  unfold checkProgramOnChain
  cases hsource : getProgramSource c p with
  | error e => exact ⟨nofun, nofun⟩
  | ok source =>
    cases source with
    | none => exact ⟨fun _ => rfl, fun _ => rfl⟩
    | some source =>
      have hedition : getProgramEdition c p = .ok (client.getLatestProgramEdition p) := by
        unfold getProgramEdition
        rw [hclient]
        rfl
      show (do
        let edition ← getProgramEdition c p
        Except.ok (some edition)) = _ ↔ _
      rw [hedition]
      exact ⟨nofun, nofun⟩

/-- A failure that is not taken for absence is thrown by the read, by the check and by recovery. -/
theorem source_throws {p : JsString} {failure : Failure}
    (hthrew : client.getProgram p = .threw failure) (hstates : saysNoProgram failure.message = false) :
    ∃ label, getProgramSource c p = .error (label ++ failure.message) ∧
      checkProgramOnChain c p = .error (label ++ failure.message) ∧
      ∀ marker, recoveryDecision c p marker = .error (label ++ failure.message) := by
  have hsource : getProgramSource c p = .error (js "Failed to fetch program source for \"" ++ p ++
      js "\": " ++ failure.message) := by
    unfold getProgramSource
    rw [hclient]
    show (match client.getProgram p with
      | .value v => _
      | .threw failure => _) = _
    rw [hthrew]
    simp [hstates]
  have hcheck : checkProgramOnChain c p = .error (js "Failed to fetch program source for \"" ++ p ++
      js "\": " ++ failure.message) := by
    unfold checkProgramOnChain
    rw [hsource]
    rfl
  refine ⟨_, hsource, hcheck, fun marker => ?_⟩
  unfold recoveryDecision
  rw [hcheck]
  rfl

theorem mapping_throws {p mapping key : JsString} {failure : Failure}
    (hthrew : client.getProgramMappingValue p mapping key = .threw failure)
    (hstates : saysNotFound failure.message = false) :
    ∃ label, getMappingValue c p mapping key = .error (label ++ failure.message) := by
  refine ⟨js "Failed to query " ++ (js "mapping " ++ p ++ js "/" ++ mapping) ++ js ": ", ?_⟩
  unfold getMappingValue queryProgramMappingRaw
  rw [hclient]
  show (match client.getProgramMappingValue p mapping key with
    | .value v => _
    | .threw failure => _) = _
  rw [hthrew]
  simp [hstates]

theorem absence_is_known_of_iff : AbsenceIsKnownOf c client ↔ MessagesAreRight c.devnode client := by
  constructor
  · intro h
    refine ⟨fun p failure hthrew hstates => ?_, fun p mapping key failure hthrew hstates => ?_⟩
    · rw [← hthrew]
      exact h.source p ((getProgramSource_eq_none_iff hclient p).mpr (Or.inr ⟨failure, hthrew, hstates⟩))
    · rw [← hthrew]
      exact h.mapping p mapping key
        ((getMappingValue_eq_none_iff hclient p mapping key).mpr (Or.inr ⟨failure, hthrew, hstates⟩))
  · intro h
    have hsource : ∀ p, getProgramSource c p = .ok none → Absent c.devnode (client.getProgram p) := by
      intro p hnone
      rcases (getProgramSource_eq_none_iff hclient p).mp hnone with hvalue | ⟨failure, hthrew, hstates⟩
      · rw [hvalue]
        rfl
      · rw [hthrew]
        exact h.source p failure hthrew hstates
    refine ⟨hsource, fun p mapping key hnone => ?_, fun p hnone => ?_, fun p marker hdiscard => ?_,
      fun p failure hthrew hother => ?_, fun p mapping key failure hthrew hother => ?_⟩
    · rcases (getMappingValue_eq_none_iff hclient p mapping key).mp hnone with
        hvalue | ⟨failure, hthrew, hstates⟩
      · rw [hvalue]
        rfl
      · rw [hthrew]
        exact h.mapping p mapping key failure hthrew hstates
    · exact hsource p ((checkProgramOnChain_eq_none_iff hclient p).mp hnone)
    · cases hcheck : checkProgramOnChain c p with
      | error e =>
        unfold recoveryDecision at hdiscard
        rw [hcheck] at hdiscard
        exact nomatch hdiscard
      | ok onChain =>
        cases onChain with
        | none => exact Or.inl (hsource p ((checkProgramOnChain_eq_none_iff hclient p).mp hcheck))
        | some edition => exact Or.inr ⟨edition, rfl⟩
    · refine source_throws hclient hthrew (Bool.eq_false_iff.mpr fun hstates => hother ?_)
      exact h.source p failure hthrew hstates
    · refine mapping_throws hclient hthrew (Bool.eq_false_iff.mpr fun hstates => hother ?_)
      exact h.mapping p mapping key failure hthrew hstates

end Reads

/-- **When absence is known**: exactly if the messages of failures are right about it, for every
connection and every behaviour of the client and the node. -/
theorem absence_is_known_iff (c : Connection) :
    AbsenceIsKnown c ↔ ∀ client, c.client = .ok client → MessagesAreRight c.devnode client :=
  forall₂_congr fun _ hclient => absence_is_known_of_iff hclient

/-- A node at port 4040 that refuses the connection. -/
def refusing : Client where
  getProgram _ := .threw ⟨js "connect ECONNREFUSED 127.0.0.1:4040", none⟩
  getProgramMappingValue _ _ _ := .threw ⟨js "connect ECONNREFUSED 127.0.0.1:4040", none⟩
  getLatestProgramEdition _ := none

/-- **A port is read as a status**: the refused connection counts as an absent program. -/
theorem port_read_as_status : ¬∀ c, AbsenceIsKnown c := by
  intro h
  have hknown := h ⟨false, false, .ok refusing⟩ refusing rfl
  have habsent := hknown.source (js "token.aleo")
    ((getProgramSource_eq_none_iff rfl _).mpr (Or.inr ⟨_, rfl, by decide⟩))
  exact habsent.elim nofun nofun

end Lionden.Network
