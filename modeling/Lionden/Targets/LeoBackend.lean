import Lionden.Build.InStep
import Lionden.Build.RejectedRename
import Lionden.Targets.LeoRunner

/-!
# The Leo backend (`deploy-backend/leo-backend.ts`, `leo/env.ts`, `leo/package.ts`)

One run of Leo for one program: the key, the package, the save directory, the process, and what
becomes of its transaction. What Leo does to the artifacts directory is left to the host.

* `buildLeoEnv`: the environment that Leo is given.
* `resolveLeoPackage`, `assertPackageUnchanged`: the checks of the package before and after.
* `LeoBackend.run`: the run.
* `leo_signs_compiled`: what a run does, and when it gives a transaction.
* `compiled_not_replaced`: the same after a compilation.
-/

namespace Lionden.Targets

open Build (Disk resolveBuildArtifacts)

/-! ## The environment -/

/-- The variables of a process. -/
abbrev ProcessEnv : Type := JsString → Option JsString

structure LeoEnvOptions where
  networkId : JsString
  endpoint : JsString
  /-- `connectionType` is `devnode`. -/
  devnode : Bool
  privateKey : Option JsString

def buildLeoEnv (processEnv : ProcessEnv) (options : LeoEnvOptions) : ProcessEnv :=
  let env := Function.update processEnv (js "NETWORK") (some options.networkId)
  let env := Function.update env (js "ENDPOINT") (some options.endpoint)
  let env := Function.update env (js "DEVNET")
    (some (if options.devnode then js "true" else js "false"))
  -- Without a key, the inherited one is deleted.
  Function.update env (js "PRIVATE_KEY") options.privateKey

/-! ## The package -/

structure LeoPackage where
  dir : JsString
  /-- The hash of the compiled program before Leo ran. -/
  aleoHashBefore : JsString

def leoPackageDir (artifactsDir effectiveProgramId : JsString) : JsString :=
  Build.pathJoin [artifactsDir, js ".build", effectiveProgramId]

def short (hash : JsString) : JsString := hash.take 12

def packageError (programId message : JsString) : LeoDeployError :=
  { message := composeMessage message none
    programId := some programId
    stage := .package
    exitCode := none
    stderrTail := none }

section Package

variable (sha256 : JsString → JsString)

def hashBuiltAleo (disk : Disk) (programId : JsString) : Option JsString :=
  (resolveBuildArtifacts (disk.builds programId) programId).aleo.map sha256

/-- `artifacts/<id>/main.aleo`. -/
def recordedAleo (disk : Disk) (programId : JsString) : Option JsString :=
  (disk.artifacts programId).bind (·.aleo)

def resolveLeoPackage (artifactsDir : JsString) (disk : Disk) (programId : JsString) :
    Except LeoDeployError LeoPackage :=
  let dir := leoPackageDir artifactsDir programId
  let start := js "The Leo package for \"" ++ programId ++ js "\""
  if (disk.packages programId).isNone ∧ (disk.builds programId).isNone then
    .error (packageError programId (js "No compiled Leo package for \"" ++ programId ++
      js "\" at " ++ dir ++
      js ". Run `lionden compile` first, or use `--deploy-backend sdk`."))
  else
    match hashBuiltAleo sha256 disk programId with
    | none => .error (packageError programId (start ++ js " at " ++ dir ++
        js " has no compiled program. " ++
        js "Run `lionden compile --force`, or use `--deploy-backend sdk`."))
    | some built =>
      match (recordedAleo disk programId).map sha256 with
      | none => .ok { dir, aleoHashBefore := built }
      | some recordedHash =>
        if recordedHash ≠ built then
          .error (packageError programId (start ++
            js " is out of step with the recorded artifact. " ++ programId ++ js "/main.aleo hashes " ++ short recordedHash ++
            js " but the package's compiled program hashes " ++ short built ++
            js ". Deploying would record bytecode that was never " ++
            js "built. Run `lionden compile --force`, or use `--deploy-backend sdk`."))
        else .ok { dir, aleoHashBefore := built }

def assertPackageUnchanged (disk : Disk) (pkg : LeoPackage) (programId : JsString) :
    Except LeoDeployError Unit :=
  let after := hashBuiltAleo sha256 disk programId
  if after = some pkg.aleoHashBefore then .ok ()
  else .error (packageError programId (js "Leo rebuilt \"" ++ programId ++
    js "\" during the run: its compiled program hashed " ++ short pkg.aleoHashBefore ++
    js " before and " ++ short (after.getD (js "(missing)")) ++ js " after. The " ++
    js "transaction Leo built does not match the artifact lionden compiled, so it was NOT " ++
    js "broadcast. This happens when `src/` is newer than `build/`. Run " ++
    js "`lionden compile --force` and deploy again."))

end Package

/-! ## The run -/

/-- What the backend is told of the network, the project and the configuration. -/
structure DeployBackendContext where
  networkName : JsString
  networkId : JsString
  endpoint : JsString
  devnode : Bool
  consensusHeights : Option JsString
  logLevel : Option SdkLogLevel
  artifactsDir : JsString
  projectRoot : JsString
  leoBinary : JsString
  /-- `leo.timeout`. -/
  timeout : Nat
  /-- `leo.logMode` is `forward`. -/
  forwards : Bool
  privateKey : Option JsString

def DeployBackendContext.leoContext (ctx : DeployBackendContext) (saveDir : JsString) :
    LeoContext where
  packageDir := leoPackageDir ctx.artifactsDir
  saveDir := saveDir
  jsonOutputPath := saveDir ++ js "/result.json"
  networkId := ctx.networkId
  endpoint := ctx.endpoint
  devnode := ctx.devnode
  consensusHeights := ctx.consensusHeights
  logLevel := ctx.logLevel

/-- What Leo does when it is run. -/
structure LeoRun where
  /-- What the child process writes, and how it ends. -/
  events : List ChildEvent
  /-- The artifacts directory afterwards. -/
  disk : Disk
  /-- The files in the save directory. -/
  saved : InsertionMap JsString JsString

structure Host where
  processEnv : ProcessEnv
  sha256 : JsString → JsString
  syntaxError : JsString → JsString
  /-- The directory that `mkdtempSync` makes. -/
  saveDir : JsString
  leo : LeoRunRequest → Disk → LeoRun

inductive RunError where
  /-- A `DeployError`. -/
  | deploy (message : JsString)
  | leo (e : LeoDeployError)
  /-- The process could not be spawned. -/
  | spawn (message : JsString)

/-- What a run does outside the artifacts directory. -/
inductive LeoEffect where
  | makeSaveDir
  | spawn (request : LeoRunRequest)
  | removeSaveDir

structure RunReport where
  /-- How the promise has settled, with the transaction. -/
  outcome : Option (Except RunError JsString)
  disk : Disk
  effects : List LeoEffect

namespace LeoBackend

variable (host : Host) (operation : LeoOperation) (req : DeployBackendRequest)
  (ctx : DeployBackendContext)

def effectiveKey : Option JsString := req.signerPrivateKey.or ctx.privateKey

def assertSigningKeyPresent (key : Option JsString) : Except RunError JsString :=
  match key with
  | some key => .ok key
  | none =>
    let role := match operation with
      | .upgrade => js "admin"
      | .deploy => js "deployer"
    .error (.deploy (js "The Leo deploy backend has no signing key for network \"" ++
      ctx.networkName ++ js "\", and will not let " ++
      js "the Leo CLI choose one. Leo reads `PRIVATE_KEY` from a `.env` file in the working " ++
      js "directory and its parents, so running without one would sign this " ++ operation.name ++
      js " with whatever key is on disk — an identity lionden did not select. Set " ++
      js "`networks." ++ ctx.networkName ++ js ".privateKey`, or configure a \"" ++ role ++
      js "\" named account."))

/-- The files but that of `--json-output`, by their names. -/
def readSavedFiles (saved : InsertionMap JsString JsString) : InsertionMap JsString JsString where
  entries := (saved.entries.filter (·.1 ≠ js "result.json")).mergeSort fun a b => decide (a.1 ≤ b.1)
  distinct := (((List.mergeSort_perm ..).map _).nodup_iff).mpr
    (saved.distinct.sublist (List.filter_sublist.map _))

/-- What Leo is run with. -/
def leoRequest (key : JsString) (argv : List JsString) : LeoRunRequest where
  binary := ctx.leoBinary
  argv := argv
  env := buildLeoEnv host.processEnv
    { networkId := ctx.networkId
      endpoint := ctx.endpoint
      devnode := ctx.devnode
      privateKey := some key }
  cwd := ctx.projectRoot
  timeoutMs := ctx.timeout
  forwards := ctx.forwards
  secrets := [key]

def runArtifacts (saved : InsertionMap JsString JsString) (result : LeoRunResult) :
    LeoRunArtifacts where
  exitCode := result.exitCode
  signal := result.signal
  stdout := result.stdout
  stderr := result.stderr
  savedFiles := readSavedFiles saved
  jsonOutput := saved.get? (js "result.json")

/-- What is made of a finished process. -/
def receive (pkg : LeoPackage) (leo : LeoRun) (result : LeoRunResult) : Except RunError JsString :=
  if result.timedOut then
    let tail := if result.stderr = [] then result.stdout else result.stderr
    .error (.leo
      { message := composeMessage (js "Leo " ++ operation.name ++ js " for \"" ++ req.programId ++
          js "\" exceeded the " ++ decimal ctx.timeout ++ js " ms timeout " ++
          js "(`deploy.leo.timeout`; set it to 0 to disable). Re-running resumes cheaply — Leo " ++
          js "caches synthesized proving keys under `~/.aleo`, so work already done is not " ++
          js "repeated.") (some tail)
        programId := some req.programId
        stage := .timeout
        exitCode := some result.exitCode
        stderrTail := some tail })
  else do
    let outcome ← (readLeoOutcome host.syntaxError operation req.programId
      (runArtifacts leo.saved result)).mapError .leo
    (assertPackageUnchanged host.sha256 leo.disk pkg req.programId).mapError .leo
    .ok outcome.transaction

/-- What is done while there is a save directory. -/
def invoke (pkg : LeoPackage) (key : JsString) (disk : Disk) : RunReport :=
  match leoArgvOf (ctx.leoContext host.saveDir) operation req with
  | .error message => { outcome := some (.error (.deploy message)), disk, effects := [] }
  | .ok argv =>
    let request := leoRequest host ctx key argv
    let leo := host.leo request disk
    let outcome := (spawnLeoRunner request leo.events).settled.map fun
      | .error message => .error (.spawn message)
      | .ok result => receive host operation req ctx pkg leo result
    { outcome, disk := leo.disk, effects := [.spawn request] }

/-- `run(operation, req, ctx)`. The save directory is removed when the promise settles. -/
def run (disk : Disk) : RunReport :=
  match assertSigningKeyPresent operation ctx (effectiveKey req ctx) with
  | .error e => { outcome := some (.error e), disk, effects := [] }
  | .ok key =>
    match resolveLeoPackage host.sha256 ctx.artifactsDir disk req.programId with
    | .error e => { outcome := some (.error (.leo e)), disk, effects := [] }
    | .ok pkg =>
      let report := invoke host operation req ctx pkg key disk
      { report with
        effects := .makeSaveDir :: report.effects ++
          (if report.outcome.isSome then [.removeSaveDir] else []) }

end LeoBackend

/-! ## What the checks accept -/

theorem hashBuiltAleo_none {sha256 : JsString → JsString} {disk : Disk} {programId : JsString}
    (h : disk.builds programId = none) : hashBuiltAleo sha256 disk programId = none := by
  rw [hashBuiltAleo, h]
  rfl

/-- A package that is there, is compiled, and is the recorded one, if there is a record. -/
theorem resolveLeoPackage_ok {sha256 : JsString → JsString} {artifactsDir programId : JsString}
    {disk : Disk} {pkg : LeoPackage} :
    resolveLeoPackage sha256 artifactsDir disk programId = .ok pkg ↔
      pkg.dir = leoPackageDir artifactsDir programId ∧
      hashBuiltAleo sha256 disk programId = some pkg.aleoHashBefore ∧
      ∀ aleo, recordedAleo disk programId = some aleo → sha256 aleo = pkg.aleoHashBefore := by
  obtain ⟨dir, built⟩ := pkg
  unfold resolveLeoPackage
  dsimp only
  constructor
  · intro h
    split at h
    · cases h
    split at h
    · cases h
    next hash hhash =>
    split at h
    · next hnone =>
      cases h
      refine ⟨rfl, hhash, fun aleo haleo => ?_⟩
      rw [haleo] at hnone
      cases hnone
    · next recorded hrecorded =>
      split at h
      · cases h
      next heq =>
      cases h
      refine ⟨rfl, hhash, fun aleo haleo => ?_⟩
      rw [haleo] at hrecorded
      exact (Option.some.inj hrecorded).trans (not_not.mp heq)
  · rintro ⟨rfl, hhash, hrecorded⟩
    have hthere : ¬((disk.packages programId).isNone = true ∧
        (disk.builds programId).isNone = true) := fun hnone => by
      rw [hashBuiltAleo_none (Option.isNone_iff_eq_none.mp hnone.2)] at hhash
      cases hhash
    rw [if_neg hthere, hhash]
    dsimp only
    cases haleo : recordedAleo disk programId with
    | none => rfl
    | some aleo =>
      rw [Option.map_some]
      exact if_neg (not_not.mpr (hrecorded aleo haleo))

theorem assertPackageUnchanged_ok {sha256 : JsString → JsString} {programId : JsString}
    {disk : Disk} {pkg : LeoPackage} : assertPackageUnchanged sha256 disk pkg programId = .ok () ↔
      hashBuiltAleo sha256 disk programId = some pkg.aleoHashBefore := by
  unfold assertPackageUnchanged
  dsimp only
  by_cases h : hashBuiltAleo sha256 disk programId = some pkg.aleoHashBefore
  · rw [if_pos h]
    exact iff_of_true rfl h
  · rw [if_neg h]
    exact iff_of_false (by simp) h

theorem mapError_ok {ε ε' α : Type} {f : ε → ε'} {x : Except ε α} {a : α} :
    x.mapError f = .ok a ↔ x = .ok a := by
  cases x with
  | ok b => simp [Except.mapError]
  | error e => simp [Except.mapError]

namespace LeoBackend

variable {host : Host} {operation : LeoOperation} {req : DeployBackendRequest}
  {ctx : DeployBackendContext} {disk : Disk} {tx : JsString}

/-- `tx` is what the run has left, and nothing speaks against it. -/
def Saved (host : Host) (operation : LeoOperation) (programId : JsString) (leo : LeoRun)
    (result : LeoRunResult) (tx : JsString) : Prop :=
  ∃ outcome, readLeoOutcome host.syntaxError operation programId
    (runArtifacts leo.saved result) = .ok outcome ∧ outcome.transaction = tx

theorem receive_ok {pkg : LeoPackage} {leo : LeoRun} {result : LeoRunResult} :
    receive host operation req ctx pkg leo result = .ok tx ↔ result.timedOut = false ∧
      Saved host operation req.programId leo result tx ∧
      hashBuiltAleo host.sha256 leo.disk req.programId = some pkg.aleoHashBefore := by
  unfold receive
  cases htimed : result.timedOut with
  | true => simp
  | false =>
    rw [if_neg (by simp)]
    constructor
    · intro h
      obtain ⟨outcome, houtcome, h⟩ := Fallible.bind_ok.mp h
      obtain ⟨_, hunchanged, h⟩ := Fallible.bind_ok.mp h
      cases h
      exact ⟨rfl, ⟨outcome, mapError_ok.mp houtcome, rfl⟩,
        assertPackageUnchanged_ok.mp (mapError_ok.mp hunchanged)⟩
    · rintro ⟨-, ⟨outcome, houtcome, rfl⟩, hunchanged⟩
      exact Fallible.bind_ok.mpr ⟨outcome, mapError_ok.mpr houtcome, Fallible.bind_ok.mpr
        ⟨(), mapError_ok.mpr (assertPackageUnchanged_ok.mpr hunchanged), rfl⟩⟩

/-! ## What a run does -/

/-- The variables that Leo is not left to find for itself. -/
def pinnedNames : List JsString := ["NETWORK", "ENDPOINT", "DEVNET", "PRIVATE_KEY"].map js

/-- Leo is given the chosen key and the chosen network, whatever the process inherits. -/
structure Pinned (host : Host) (req : DeployBackendRequest) (ctx : DeployBackendContext)
    (request : LeoRunRequest) : Prop where
  key : ∃ key, effectiveKey req ctx = some key ∧ request.env (js "PRIVATE_KEY") = some key ∧
    request.secrets = [key]
  network : request.env (js "NETWORK") = some ctx.networkId
  endpoint : request.env (js "ENDPOINT") = some ctx.endpoint
  devnet : request.env (js "DEVNET") = some (if ctx.devnode then js "true" else js "false")
  inherited : ∀ name, name ∉ pinnedNames → request.env name = host.processEnv name

theorem leoRequest_env (key : JsString) (argv : List JsString) :
    (leoRequest host ctx key argv).env = buildLeoEnv host.processEnv
      { networkId := ctx.networkId
        endpoint := ctx.endpoint
        devnode := ctx.devnode
        privateKey := some key } := rfl

theorem pinned_leoRequest {key : JsString} (hkey : effectiveKey req ctx = some key)
    (argv : List JsString) : Pinned host req ctx (leoRequest host ctx key argv) where
  key := by
    refine ⟨key, hkey, ?_, rfl⟩
    rw [leoRequest_env, buildLeoEnv, Function.update_self]
  network := by
    rw [leoRequest_env, buildLeoEnv, Function.update_of_ne (by decide),
      Function.update_of_ne (by decide), Function.update_of_ne (by decide), Function.update_self]
  endpoint := by
    rw [leoRequest_env, buildLeoEnv, Function.update_of_ne (by decide),
      Function.update_of_ne (by decide), Function.update_self]
  devnet := by
    rw [leoRequest_env, buildLeoEnv, Function.update_of_ne (by decide), Function.update_self]
  inherited name hname := by
    simp only [pinnedNames, List.map_cons, List.map_nil, List.mem_cons, List.not_mem_nil, or_false,
      not_or] at hname
    obtain ⟨hnetwork, hendpoint, hdevnet, hkey⟩ := hname
    rw [leoRequest_env, buildLeoEnv, Function.update_of_ne hkey, Function.update_of_ne hdevnet,
      Function.update_of_ne hendpoint, Function.update_of_ne hnetwork]

theorem assertSigningKeyPresent_ok {chosen : Option JsString} {key : JsString} :
    assertSigningKeyPresent operation ctx chosen = .ok key ↔ chosen = some key := by
  unfold assertSigningKeyPresent
  cases chosen with
  | none => simp
  | some chosen => simp

/-- The effects of a run: none; the save directory alone; or Leo with the chosen key, and the save
directory around it, which is removed unless the process never ends. -/
theorem run_effects : (run host operation req ctx disk).effects = [] ∨
    (run host operation req ctx disk).effects = [.makeSaveDir, .removeSaveDir] ∨
    ∃ request, Pinned host req ctx request ∧ (run host operation req ctx disk).effects =
      [.makeSaveDir, .spawn request] ++
        if (run host operation req ctx disk).outcome.isSome then [.removeSaveDir] else [] := by
  unfold run
  cases hkey : assertSigningKeyPresent operation ctx (effectiveKey req ctx) with
  | error e => exact .inl rfl
  | ok key =>
    cases hpkg : resolveLeoPackage host.sha256 ctx.artifactsDir disk req.programId with
    | error e => exact .inl rfl
    | ok pkg =>
      refine .inr ?_
      dsimp only
      unfold invoke
      cases hargv : leoArgvOf (ctx.leoContext host.saveDir) operation req with
      | error message => exact .inl rfl
      | ok argv =>
        exact .inr ⟨_, pinned_leoRequest (assertSigningKeyPresent_ok.mp hkey) argv, rfl⟩

/-- What has to be the case for a transaction to be handed on; without a record, nothing is compared with
it. -/
structure HandsOn (host : Host) (operation : LeoOperation) (req : DeployBackendRequest)
    (ctx : DeployBackendContext) (disk : Disk) (key built : JsString) (argv : List JsString)
    (result : LeoRunResult) (tx : JsString) : Prop where
  chosen : effectiveKey req ctx = some key
  compiled : hashBuiltAleo host.sha256 disk req.programId = some built
  recorded : ∀ aleo, recordedAleo disk req.programId = some aleo → host.sha256 aleo = built
  arguments : leoArgvOf (ctx.leoContext host.saveDir) operation req = .ok argv
  ended : (spawnLeoRunner (leoRequest host ctx key argv)
    (host.leo (leoRequest host ctx key argv) disk).events).settled = some (.ok result)
  inTime : result.timedOut = false
  saved : Saved host operation req.programId (host.leo (leoRequest host ctx key argv) disk) result tx
  /-- Leo has not compiled anything else. -/
  unchanged : hashBuiltAleo host.sha256 (host.leo (leoRequest host ctx key argv) disk).disk
    req.programId = some built

theorem run_ok : (run host operation req ctx disk).outcome = some (.ok tx) ↔
    ∃ key built argv result, HandsOn host operation req ctx disk key built argv result tx := by
  constructor
  · intro h
    unfold run at h
    cases hkey : assertSigningKeyPresent operation ctx (effectiveKey req ctx) with
    | error e => simp [hkey] at h
    | ok key =>
      cases hpkg : resolveLeoPackage host.sha256 ctx.artifactsDir disk req.programId with
      | error e => simp [hkey, hpkg] at h
      | ok pkg =>
        rw [hkey, hpkg] at h
        dsimp only at h
        unfold invoke at h
        cases hargv : leoArgvOf (ctx.leoContext host.saveDir) operation req with
        | error message => simp [hargv] at h
        | ok argv =>
          rw [hargv] at h
          obtain ⟨settled, hsettled, h⟩ := Option.map_eq_some_iff.mp h
          cases settled with
          | error message => simp at h
          | ok result =>
            obtain ⟨-, hbuilt, hrecorded⟩ := resolveLeoPackage_ok.mp hpkg
            obtain ⟨htimed, hsaved, hunchanged⟩ := receive_ok.mp h
            exact ⟨key, pkg.aleoHashBefore, argv, result, assertSigningKeyPresent_ok.mp hkey,
              hbuilt, hrecorded, hargv, hsettled, htimed, hsaved, hunchanged⟩
  · rintro ⟨key, built, argv, result, h⟩
    have hpkg : resolveLeoPackage host.sha256 ctx.artifactsDir disk req.programId =
        .ok ⟨leoPackageDir ctx.artifactsDir req.programId, built⟩ :=
      resolveLeoPackage_ok.mpr ⟨rfl, h.compiled, h.recorded⟩
    unfold run
    rw [assertSigningKeyPresent_ok.mpr h.chosen, hpkg]
    dsimp only
    unfold invoke
    rw [h.arguments]
    dsimp only
    rw [h.ended]
    exact congrArg some (receive_ok.mpr ⟨h.inTime, h.saved, h.unchanged⟩)

/-- **Leo signs what was chosen and builds what was compiled.** Whatever the process inherits and
whatever Leo does: Leo is not run at all, or once, with the chosen key and network, and with a save
directory that does not outlive the run; and a transaction is handed on exactly if it is the one
deployment that a run in time has left, and the program in the package is, before the run and after
it, the one that was recorded. -/
theorem leo_signs_compiled (host : Host) (operation : LeoOperation) (req : DeployBackendRequest)
    (ctx : DeployBackendContext) (disk : Disk) :
    ((run host operation req ctx disk).effects = [] ∨
      (run host operation req ctx disk).effects = [.makeSaveDir, .removeSaveDir] ∨
      ∃ request, Pinned host req ctx request ∧ (run host operation req ctx disk).effects =
        [.makeSaveDir, .spawn request] ++
          if (run host operation req ctx disk).outcome.isSome then [.removeSaveDir] else []) ∧
    ∀ tx, (run host operation req ctx disk).outcome = some (.ok tx) ↔
      ∃ key built argv result, HandsOn host operation req ctx disk key built argv result tx :=
  ⟨run_effects, fun _ => run_ok⟩

/-! ## After a compilation -/

open Build (InStep World compilePipeline compilePipeline_current packagePath)

/-- A program that is in step passes the check, and the hash is that of the recorded bytecode. -/
theorem resolve_inStep {sha256 : JsString → JsString} {artifactsDir programId : JsString}
    {disk : Disk} (h : InStep disk programId) :
    ∃ aleo, recordedAleo disk programId = some aleo ∧
      resolveLeoPackage sha256 artifactsDir disk programId =
        .ok ⟨leoPackageDir artifactsDir programId, sha256 aleo⟩ := by
  obtain ⟨artifacts, hartifacts, -, haleo⟩ := h.same
  have hcomplete := h.complete
  unfold Build.hasRequiredProgramArtifacts at hcomplete
  obtain ⟨aleo, hbuilt⟩ := Option.isSome_iff_exists.mp (Bool.and_eq_true_iff.mp hcomplete).2
  have hrecorded : recordedAleo disk programId = some aleo := by
    rw [recordedAleo, hartifacts, Option.bind_some, haleo, hbuilt]
  refine ⟨aleo, hrecorded, resolveLeoPackage_ok.mpr ⟨rfl, ?_, fun aleo' haleo' => ?_⟩⟩
  · rw [hashBuiltAleo, hbuilt]
    rfl
  · rw [hrecorded] at haleo'
    rw [Option.some.inj haleo']

/-- **A compiled program is not refused, and not replaced.** After a compilation that has returned,
whatever was there before, each of its programs in whose package no later unit was compiled passes the
check before the run; and a transaction that is then handed on is one for which the package still
held, after Leo had run, a program with the hash of the recorded bytecode. -/
theorem compiled_not_replaced {platform : Build.Platform} {config : Build.Config}
    {env : Build.Environment} {options : Build.CompileOptions} {w w' : World}
    {compiled : Build.CompilePipelineResult}
    (h : Build.run (compilePipeline platform config env options) w = .returned compiled w')
    {done rest : List Build.CompilationResult} {r : Build.CompilationResult}
    {output : Build.ProgramOutput} (hresults : compiled.results = done ++ r :: rest)
    (houtput : r.program = some output) (hlater : ∀ later ∈ rest, later.packageDir ≠ r.packageDir)
    (host : Host) (operation : LeoOperation) (req : DeployBackendRequest)
    (ctx : DeployBackendContext) (hreq : req.programId = output.programId) :
    ∃ aleo, recordedAleo w'.disk req.programId = some aleo ∧
      resolveLeoPackage host.sha256 config.artifacts w'.disk req.programId =
        .ok ⟨packagePath config req.programId, host.sha256 aleo⟩ ∧
      ∀ tx, (run host operation req ctx w'.disk).outcome = some (.ok tx) ↔ ∃ key argv result,
        HandsOn host operation req ctx w'.disk key (host.sha256 aleo) argv result tx := by
  have hstep : InStep w'.disk req.programId :=
    hreq ▸ (compilePipeline_current h done r rest output hresults houtput hlater).toInStep
  obtain ⟨aleo, hrecorded, hresolve⟩ := resolve_inStep hstep
  refine ⟨aleo, hrecorded, hresolve, fun tx => ?_⟩
  rw [run_ok]
  constructor
  · rintro ⟨key, built, argv, result, hands⟩
    obtain rfl : host.sha256 aleo = built := hands.recorded aleo hrecorded
    exact ⟨key, argv, result, hands⟩
  · rintro ⟨key, argv, result, hands⟩
    exact ⟨key, _, argv, result, hands⟩

/-- The programs of a compilation that has returned, and their packages. -/
def compiledPackages : Interrupt.Outcome World JsString Build.CompilePipelineResult →
    List (Option JsString × JsString)
  | .returned compiled _ => compiled.results.map fun r =>
    (r.program.map (·.programId), r.packageDir)
  | _ => []

/-- `compile`, for a program and the one that it imports. -/
def compileProject : Build.Op Build.CompilePipelineResult :=
  compilePipeline Build.Renames.platform Build.Project.config
    { Build.Project.environment with buildEnd := fun _ => .succeeds }
    { force := false, program := [], rename := none, network := none }

/-- A Leo that leaves the packages as they are. -/
def quietHost : Host where
  processEnv _ := none
  sha256 text := text
  syntaxError _ := []
  saveDir := js "/tmp/lionden-leotx-1"
  leo _ disk := { events := [.close (some 0) none], disk, saved := .empty }

def deployBase : DeployBackendRequest where
  programId := js "base.aleo"
  sourceProgramId := none
  aleoSource := []
  localDependencyIds := []
  priorityFee := 0
  privateFee := false
  signerPrivateKey := none
  prove := true

def localContext : DeployBackendContext where
  networkName := js "devnode"
  networkId := js "testnet"
  endpoint := js "http://127.0.0.1:3030"
  devnode := true
  consensusHeights := none
  logLevel := none
  artifactsDir := js "artifacts"
  projectRoot := js "/project"
  leoBinary := js "leo"
  timeout := 0
  forwards := false
  privateKey := some (js "APrivateKey1zkp")

/-- The program that was compiled first. -/
theorem compiled_not_replaced_base : ∃ compiled w' aleo,
    Build.run compileProject ⟨Disk.empty, []⟩ = .returned compiled w' ∧
      compiled.results.length = 2 ∧
      resolveLeoPackage quietHost.sha256 (js "artifacts") w'.disk (js "base.aleo") =
        .ok ⟨js "artifacts/.build/base.aleo", aleo⟩ := by
  have hpackages : compiledPackages (Build.run compileProject ⟨Disk.empty, []⟩) =
      [(some (js "base.aleo"), js "artifacts/.build/base.aleo"),
        (some (js "app.aleo"), js "artifacts/.build/app.aleo")] := by
    decide +kernel
  cases hrun : Build.run compileProject ⟨Disk.empty, []⟩ with
  | failed e w' =>
    rw [hrun] at hpackages
    cases hpackages
  | crashed w' =>
    rw [hrun] at hpackages
    cases hpackages
  | returned compiled w' =>
    rw [hrun] at hpackages
    obtain ⟨r, rest, hresults, hr, hrest⟩ := List.map_eq_cons_iff.mp hpackages
    obtain ⟨later, rfl, hlater⟩ := List.map_eq_singleton_iff.mp hrest
    obtain ⟨hprogram, hdir⟩ := Prod.mk.inj hr
    obtain ⟨output, houtput, hid⟩ := Option.map_eq_some_iff.mp hprogram
    have hapart : ∀ other ∈ [later], other.packageDir ≠ r.packageDir := by
      intro other hother
      rw [List.mem_singleton.mp hother, (Prod.mk.inj hlater).2, hdir]
      decide
    obtain ⟨aleo, -, hresolve, -⟩ := compiled_not_replaced hrun (hresults.trans (List.nil_append _).symm)
      houtput hapart quietHost .deploy deployBase localContext hid.symm
    exact ⟨compiled, w', aleo, rfl, congrArg List.length hresults, hresolve⟩

end LeoBackend

end Lionden.Targets
