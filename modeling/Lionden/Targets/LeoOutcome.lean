import Lionden.Js.RegExp
import Lionden.Js.Stringify
import Lionden.Lib.InsertionMap
import Lionden.Targets.LeoArgv

/-!
# The outcome of a Leo run (`deploy-backend/leo/outcome.ts`)

A finished run of the Leo CLI becomes a transaction that can be broadcast, or an error.

`syntaxError text` is the message of the `SyntaxError` that `JSON.parse(text)` throws.

* `readLeoOutcome`: the checks in their order, and what they give.
* `Declares`: the program id of a payload, as a text.
* `Accepted`, `readLeoOutcome_ok`: the runs that give a transaction.
* `readLeoOutcome_error`: what an error carries.
-/

namespace Lionden.Targets

open RegExp

/-! ## Runs -/

/-- `NodeJS.Signals`: none of the names is empty. -/
abbrev Signals := { name : JsString // name ≠ [] }

structure LeoRunArtifacts where
  exitCode : Option Int
  signal : Option Signals
  stdout : JsString
  stderr : JsString
  savedFiles : InsertionMap JsString JsString
  jsonOutput : Option JsString

structure LeoDeploymentStats where
  programSizeBytes : Option JsNumber
  storageCost : Option JsNumber
  namespaceCost : Option JsNumber
  synthesisCost : Option JsNumber
  constructorCost : Option JsNumber
  priorityFee : Option JsNumber
  totalCost : Option JsNumber

structure LeoOutcome where
  transaction : JsString
  transactionId : Option JsString
  stats : Option LeoDeploymentStats

inductive LeoDeployStage where
  | versionGate
  | package
  | spawn
  | run
  | timeout
  | outcome
  deriving DecidableEq

structure LeoDeployError where
  message : JsString
  programId : Option JsString
  stage : LeoDeployStage
  exitCode : Option (Option Int)
  stderrTail : Option JsString

def composeMessage (message : JsString) (stderrTail : Option JsString) : JsString :=
  let tail := (stderrTail.map trim).getD []
  if tail = [] then message else message ++ js "\n\nLeo output (tail):\n" ++ tail

def savedTransactionFileName (programId : JsString) : JsString :=
  programId ++ js ".deployment.json"

/-- The markers that Leo prints, each with its hint. -/
def failureMarkers : List (JsString × JsString) :=
  [(js "Transaction rejected.", js "The network rejected the transaction."),
    (js "Transaction aborted.", js "The network aborted the transaction."),
    (js "Could not find the transaction.",
      js "Leo could not locate the transaction on the network within its search window."),
    (js "' is not a valid upgrade: ", js "The program's constructor rejected the upgrade."),
    (js " Failed to upgrade program ", js "The upgrade did not complete."),
    (js " Deployment skipped.", js "Leo skipped the deployment.")]

def classifySuffix (artifacts : LeoRunArtifacts) : JsString :=
  match failureMarkers.find? fun entry =>
      includes (artifacts.stdout ++ js "\n" ++ artifacts.stderr) entry.1 with
  | some (_, hint) => js " " ++ hint
  | none => []

/-! ## The saved file -/

/-- `/program\s+([^\s;]+)\s*;/` at the beginning of `s`. -/
def matchDeclaration (s : JsString) : Option JsString := do
  let s ← after (js "program") s
  let s ← afterSpace s
  let id := s.takeWhile fun c => !isWhiteSpace c && c != unit ';'
  let _ ← afterSemicolon (s.dropWhile fun c => !isWhiteSpace c && c != unit ';')
  if id = [] then none else some id

def declaredProgramId (program : JsString) : Option JsString :=
  firstAtLine matchDeclaration true program

section

variable (syntaxError : JsString → JsString)

/-- `verifySavedTransaction`, which throws by `fail(message, stage)`: the transaction's own id. -/
def verifySavedTransaction (operation : LeoOperation) (programId saved : JsString)
    (fail : JsString → LeoDeployStage → LeoDeployError) :
    Except LeoDeployError (Option JsString) :=
  let start := js "Leo " ++ operation.name ++ js " for \"" ++ programId ++ js "\" saved"
  let suffix := js " The file was not broadcast. Re-run `lionden compile --force` and try again, " ++
    js "or use `--deploy-backend sdk`."
  if trim saved = [] then
    .error (fail (start ++ js " an empty transaction file." ++ suffix) .outcome)
  else
    match JSON.parse saved with
    | none =>
      .error (fail (start ++ js " a file that is not valid JSON: " ++ syntaxError saved ++ js "." ++
        suffix) .outcome)
    | some (.object tx _) =>
      let type := JsValue.get tx (js "type")
      if ¬ type.isText (js "deploy") then
        .error (fail (start ++ js " a transaction of type " ++
          (JSON.stringify type).getD (js "undefined") ++ js ", not a deployment." ++ suffix) .outcome)
      else
        match (JsValue.get tx (js "deployment")).property (js "program") with
        | .string program =>
          match declaredProgramId program with
          | none =>
            .error (fail (start ++
              js " a deployment whose program payload has no `program <id>;` declaration." ++ suffix)
              .outcome)
          | some declared =>
            if declared ≠ programId then
              .error (fail (start ++ js " a deployment of \"" ++ declared ++ js "\", not \"" ++
                programId ++ js "\". Broadcasting it would record " ++
                js "the wrong program against this deployment." ++ suffix) .outcome)
            else
              .ok (JsValue.get tx (js "id")).text?
        | _ =>
          .error (fail (start ++ js " a deployment transaction with no program payload." ++ suffix)
            .outcome)
    | some _ =>
      .error (fail (start ++ js " a transaction file that is not a JSON object." ++ suffix) .outcome)

def readStats (raw : JsValue) : LeoDeploymentStats :=
  let num (key : String) : Option JsNumber :=
    match raw.property (js key) with
    | .number x => some x
    | _ => none
  { programSizeBytes := num "program_size_bytes"
    storageCost := num "storage_cost"
    namespaceCost := num "namespace_cost"
    synthesisCost := num "synthesis_cost"
    constructorCost := num "constructor_cost"
    priorityFee := num "priority_fee"
    totalCost := num "total_cost" }

/-- `parseJsonOutput(raw, programId)`: the id and the statistics of the program's deployment. -/
def parseJsonOutput (raw : Option JsString) (programId : JsString) :
    Option (Option JsString × Option LeoDeploymentStats) := do
  let doc ← JSON.parse (← raw)
  let .array deployments := doc.property (js "deployments") | none
  let entry ← (deployments.filterMap id).find? fun d =>
    d.isObject && (d.property (js "program_id")).isText programId
  let rawStats := entry.property (js "stats")
  return ((entry.property (js "transaction_id")).text?,
    if rawStats.isObject then some (readStats rawStats) else none)

/-- `readLeoOutcome(operation, programId, artifacts)`. -/
def readLeoOutcome (operation : LeoOperation) (programId : JsString) (artifacts : LeoRunArtifacts) :
    Except LeoDeployError LeoOutcome :=
  let stderrTail := if artifacts.stderr = [] then artifacts.stdout else artifacts.stderr
  let fail (message : JsString) (stage : LeoDeployStage) : LeoDeployError :=
    { message := composeMessage message (some stderrTail)
      programId := some programId
      stage
      exitCode := some artifacts.exitCode
      stderrTail := some stderrTail }
  let run := js "Leo " ++ operation.name ++ js " for \"" ++ programId ++ js "\""
  match artifacts.signal with
  | some signal =>
    .error (fail (run ++ js " was terminated by signal " ++ signal.1 ++ js ". " ++
      js "Re-run to resume — Leo caches synthesized proving keys under `~/.aleo`, so a repeat " ++
      js "run skips the work already done.") .run)
  | none =>
    if artifacts.exitCode ≠ some 0 then
      .error (fail (run ++ js " failed with exit code " ++
        (artifacts.exitCode.map intString).getD (js "null") ++ js "." ++ classifySuffix artifacts) .run)
    else
      let expected := savedTransactionFileName programId
      let otherFiles := artifacts.savedFiles.keys.filter (· ≠ expected)
      match artifacts.savedFiles.get? expected with
      | none =>
        .error (fail (run ++ js " exited successfully but wrote no transaction " ++
          js "(expected \"" ++ expected ++ js "\")." ++
          (if otherFiles ≠ [] then
            js " It saved " ++ join (js ", ") (otherFiles.map quoted) ++ js " instead."
          else []) ++
          classifySuffix artifacts ++
          js " A zero exit code does not mean success here: Leo also exits 0 when `--skip` matches " ++
          js "every program. Re-run `lionden compile --force`, or use `--deploy-backend sdk`.") .outcome)
      | some saved =>
        if otherFiles ≠ [] then
          .error (fail (run ++ js " produced " ++ decimal (otherFiles.length + 1) ++
            js " transactions " ++ js "instead of one: also " ++
            join (js ", ") (otherFiles.map quoted) ++ js ". " ++
            js "lionden deploys one program per call and records each individually. " ++
            js "Use `--deploy-backend sdk` if this persists.") .outcome)
        else do
          let transactionId ← verifySavedTransaction syntaxError operation programId saved fail
          let parsed := parseJsonOutput artifacts.jsonOutput programId
          .ok { transaction := saved
                transactionId := transactionId.or (parsed.bind Prod.fst)
                stats := parsed.bind Prod.snd }

end

/-! ## What a payload declares -/

/-- `s` begins with `program id;`. -/
def Declaration (id s : JsString) : Prop :=
  ∃ spaces spaces' rest, s = js "program" ++ (spaces ++ (id ++ (spaces' ++ js ";" ++ rest))) ∧
    (spaces ≠ [] ∧ Spaces spaces) ∧ Spaces spaces' ∧
    id ≠ [] ∧ ∀ c ∈ id, isWhiteSpace c = false ∧ c ≠ unit ';'

theorem matchDeclaration_eq_some {s id : JsString} :
    matchDeclaration s = some id ↔ Declaration id s := by
  unfold matchDeclaration
  constructor
  · intro h
    obtain ⟨s₁, hprogram, h₁⟩ := Option.bind_eq_some_iff.mp h
    obtain ⟨s₂, hspace, h₂⟩ := Option.bind_eq_some_iff.mp h₁
    obtain ⟨rest, hrest, h₃⟩ := Option.bind_eq_some_iff.mp h₂
    obtain ⟨⟨spaces, hne, hspaces, rfl⟩, -⟩ := afterSpace_eq_some.mp hspace
    obtain ⟨spaces', hspaces', hdrop⟩ := afterSemicolon_eq_some.mp hrest
    split at h₃
    · cases h₃
    · next hid =>
      obtain rfl := Option.some.inj h₃
      refine ⟨spaces, spaces', rest, ?_, ⟨hne, hspaces⟩, hspaces', hid, fun c hc => ?_⟩
      · rw [← hdrop, List.takeWhile_append_dropWhile]
        exact after_eq_some.mp hprogram
      · simpa using List.mem_takeWhile_imp hc
  · rintro ⟨spaces, spaces', rest, rfl, ⟨hne, hspaces⟩, hspaces', hid, hchars⟩
    have hhead : ∀ c, (id ++ (spaces' ++ js ";" ++ rest)).head? = some c → isWhiteSpace c = false := by
      intro c hc
      obtain ⟨d, id, rfl⟩ := List.exists_cons_of_ne_nil hid
      cases hc
      exact (hchars c List.mem_cons_self).1
    have hend : ∀ c, (spaces' ++ js ";" ++ rest).head? = some c →
        (!isWhiteSpace c && c != unit ';') = false := by
      intro c hc
      cases spaces' with
      | nil =>
        cases hc
        decide
      | cons d spaces' =>
        cases hc
        rw [hspaces' c List.mem_cons_self]
        rfl
    obtain ⟨htake, hdrop⟩ := takeWhile_dropWhile
      (p := fun c => !isWhiteSpace c && c != unit ';') (fun c hc => by simpa using hchars c hc) hend
    refine Option.bind_eq_some_iff.mpr ⟨_, after_eq_some.mpr rfl, ?_⟩
    refine Option.bind_eq_some_iff.mpr ⟨_,
      afterSpace_eq_some.mpr ⟨⟨spaces, hne, hspaces, rfl⟩, hhead⟩, ?_⟩
    refine Option.bind_eq_some_iff.mpr ⟨rest, ?_, ?_⟩
    · rw [hdrop]
      exact afterSemicolon_eq_some.mpr ⟨spaces', hspaces', rfl⟩
    · rw [htake, if_neg hid]

/-- The first line of `program` that begins with a declaration declares `id`. -/
def Declares (program id : JsString) : Prop :=
  ∃ before rest, program = before ++ rest ∧ EndsLine true before ∧ Declaration id rest ∧
    ∀ before' rest', program = before' ++ rest' → EndsLine true before' →
      before'.length < before.length → ∀ id', ¬Declaration id' rest'

theorem declaredProgramId_eq_some {program id : JsString} :
    declaredProgramId program = some id ↔ Declares program id := by
  unfold declaredProgramId Declares
  simp only [firstAtLine_eq_some, FirstAtLine, Option.eq_none_iff_forall_ne_some, ne_eq,
    matchDeclaration_eq_some]

/-! ## Acceptance -/

/-- `saved` is the JSON of a deployment of `programId`. -/
def IsDeployment (programId saved : JsString) : Prop :=
  ∃ tx raw program, JSON.parse saved = some (.object tx raw) ∧
    JsValue.get tx (js "type") = .string (js "deploy") ∧
    (JsValue.get tx (js "deployment")).property (js "program") = .string program ∧
    Declares program programId

/-- A run that was not killed, exited with 0, and left `saved` as its one file, under the expected
name. -/
structure Accepted (programId : JsString) (artifacts : LeoRunArtifacts) (saved : JsString) : Prop where
  signal : artifacts.signal = none
  exitCode : artifacts.exitCode = some 0
  only : artifacts.savedFiles.entries = [(savedTransactionFileName programId, saved)]
  deployment : IsDeployment programId saved

section

variable {syntaxError : JsString → JsString} {operation : LeoOperation} {programId : JsString}
  {artifacts : LeoRunArtifacts}

theorem verifySavedTransaction_ok {saved : JsString} {fail : JsString → LeoDeployStage → LeoDeployError} :
    (∃ transactionId, verifySavedTransaction syntaxError operation programId saved fail =
      .ok transactionId) ↔ IsDeployment programId saved := by
  unfold verifySavedTransaction
  dsimp only
  constructor
  · rintro ⟨transactionId, h⟩
    split at h
    · cases h
    split at h
    · cases h
    · next tx raw hparse =>
      split at h
      · cases h
      next htype =>
      split at h
      · next program hprogram =>
        split at h
        · cases h
        · next declared hdeclared =>
          split at h
          · cases h
          next heq =>
          obtain rfl := not_not.mp heq
          exact ⟨tx, raw, program, hparse, JsValue.isText_iff.mp (not_not.mp htype), hprogram,
            declaredProgramId_eq_some.mp hdeclared⟩
      · cases h
    · cases h
  · rintro ⟨tx, raw, program, hparse, htype, hprogram, hdeclares⟩
    have hblank : trim saved ≠ [] := fun hblank => by
      rw [JSON.parse_spaces (spaces_of_trim hblank)] at hparse
      cases hparse
    rw [if_neg hblank, hparse]
    dsimp only
    rw [if_neg (not_not.mpr (JsValue.isText_iff.mpr htype)), hprogram]
    dsimp only
    rw [declaredProgramId_eq_some.mpr hdeclares]
    exact ⟨_, if_neg (not_not.mpr rfl)⟩

theorem only_iff {saved : JsString} :
    artifacts.savedFiles.entries = [(savedTransactionFileName programId, saved)] ↔
      artifacts.savedFiles.get? (savedTransactionFileName programId) = some saved ∧
        artifacts.savedFiles.keys.filter (· ≠ savedTransactionFileName programId) = [] := by
  rw [InsertionMap.entries_eq_singleton, List.filter_eq_nil_iff]
  simp

/-- `readLeoOutcome` returns just on the runs that are accepted, and then the saved file as it is. -/
theorem readLeoOutcome_ok (saved : JsString) :
    (∃ outcome, readLeoOutcome syntaxError operation programId artifacts = .ok outcome ∧
      outcome.transaction = saved) ↔ Accepted programId artifacts saved := by
  unfold readLeoOutcome
  dsimp only
  constructor
  · rintro ⟨outcome, h, rfl⟩
    split at h
    · cases h
    next hsignal =>
    split at h
    · cases h
    next hexit =>
    split at h
    · cases h
    next saved hsaved =>
    split at h
    · cases h
    next hothers =>
    obtain ⟨transactionId, hverify, h⟩ := Fallible.bind_ok.mp h
    cases h
    exact ⟨hsignal, not_not.mp hexit, only_iff.mpr ⟨hsaved, not_not.mp hothers⟩,
      verifySavedTransaction_ok.mp ⟨transactionId, hverify⟩⟩
  · intro h
    obtain ⟨hsaved, hothers⟩ := only_iff.mp h.only
    rw [h.signal]
    dsimp only
    rw [if_neg (not_not.mpr h.exitCode), hsaved]
    dsimp only
    rw [if_neg (not_not.mpr hothers)]
    obtain ⟨transactionId, hverify⟩ := verifySavedTransaction_ok.mpr h.deployment
    exact ⟨_, Fallible.bind_ok.mpr ⟨transactionId, hverify, rfl⟩, rfl⟩

theorem verifySavedTransaction_error {saved : JsString}
    {fail : JsString → LeoDeployStage → LeoDeployError} {e : LeoDeployError}
    (h : verifySavedTransaction syntaxError operation programId saved fail = .error e) :
    ∃ message, e = fail message .outcome := by
  unfold verifySavedTransaction at h
  dsimp only at h
  split at h
  · exact ⟨_, (Except.error.inj h).symm⟩
  split at h
  · exact ⟨_, (Except.error.inj h).symm⟩
  · split at h
    · exact ⟨_, (Except.error.inj h).symm⟩
    split at h
    · split at h
      · exact ⟨_, (Except.error.inj h).symm⟩
      · split at h
        · exact ⟨_, (Except.error.inj h).symm⟩
        · cases h
    · exact ⟨_, (Except.error.inj h).symm⟩
  · exact ⟨_, (Except.error.inj h).symm⟩

/-- An error carries the program and what the process has left, and is of stage `run` just when the
process itself has failed. -/
theorem readLeoOutcome_error {e : LeoDeployError}
    (h : readLeoOutcome syntaxError operation programId artifacts = .error e) :
    e.programId = some programId ∧ e.exitCode = some artifacts.exitCode ∧
      e.stderrTail = some (if artifacts.stderr = [] then artifacts.stdout else artifacts.stderr) ∧
      e.stage = if artifacts.signal = none ∧ artifacts.exitCode = some 0 then .outcome else .run := by
  unfold readLeoOutcome at h
  dsimp only at h
  split at h
  · next signal hsignal =>
    cases h
    exact ⟨rfl, rfl, rfl, (if_neg fun hrun => by rw [hsignal] at hrun; cases hrun.1).symm⟩
  next hsignal =>
  split at h
  · next hexit =>
    cases h
    exact ⟨rfl, rfl, rfl, (if_neg fun hrun => hexit hrun.2).symm⟩
  next hexit =>
  have hstage : LeoDeployStage.outcome =
      if artifacts.signal = none ∧ artifacts.exitCode = some 0 then .outcome else .run := by
    rw [if_pos ⟨hsignal, not_not.mp hexit⟩]
  split at h
  · cases h
    exact ⟨rfl, rfl, rfl, hstage⟩
  split at h
  · cases h
    exact ⟨rfl, rfl, rfl, hstage⟩
  obtain h | ⟨transactionId, -, h⟩ := Fallible.bind_error.mp h
  · obtain ⟨message, rfl⟩ := verifySavedTransaction_error h
    exact ⟨rfl, rfl, rfl, hstage⟩
  · cases h

end

end Lionden.Targets
