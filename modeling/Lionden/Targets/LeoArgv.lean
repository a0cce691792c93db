import Lionden.Targets.Selection

/-!
# The arguments of the Leo CLI

Leo deploys or upgrades the whole local closure of a package, and leaves out each program whose name
contains a text that is given with `--skip`. Both tasks name every local dependency of the one program
that is meant.

* `assertNoSkipCollision`, `buildLeoArgv`: the arguments, or a refusal.
* `deployArgv`, `upgradeArgv`: the dependencies that the tasks name, and the arguments.
* `skipTexts`, `skipTexts_argv`: what Leo reads the arguments as.
* `leo_skips_exactly`: everything but the program is left out.
-/

namespace Lionden.Targets

open Compiler

/-! ## The arguments -/

inductive LeoOperation where
  | deploy
  | upgrade
  deriving DecidableEq

def LeoOperation.name : LeoOperation → JsString
  | deploy => js "deploy"
  | upgrade => js "upgrade"

inductive SdkLogLevel where
  | silent
  | error
  | warn
  | info
  | debug
  deriving DecidableEq

structure LeoArgvOptions where
  operation : LeoOperation
  programId : JsString
  packageDir : JsString
  saveDir : JsString
  jsonOutputPath : JsString
  networkId : JsString
  endpoint : JsString
  devnode : Bool
  consensusHeights : Option JsString
  priorityFee : Nat
  privateFee : Bool
  localDependencyIds : List JsString
  prove : Bool
  logLevel : Option SdkLogLevel

def quoted (s : JsString) : JsString := js "\"" ++ s ++ js "\""

def assertNoSkipCollision (operation : LeoOperation) (programId : JsString)
    (localDependencyIds : List JsString) : Except JsString Unit :=
  match localDependencyIds.filter fun dep => includes programId dep with
  | [] => .ok ()
  | first :: colliding =>
    .error (js "Cannot " ++ operation.name ++ js " \"" ++ programId ++
      js "\" with the Leo backend: its dependency " ++
      (((first :: colliding).map quoted).intersperse (js ", ")).flatten ++
      js " would also suppress the program itself. " ++
      js "Leo's `--skip` matches substrings, not exact program ids, and \"" ++ programId ++
      js "\" contains \"" ++ first ++
      js "\". Rename one of the programs so neither id is a substring of the other, " ++
      js "or use `--deploy-backend sdk`.")

def leoVerbosityFlag : Option SdkLogLevel → List JsString
  | some .silent | some .error => [js "-q"]
  | some .debug => [js "-d"]
  | _ => []

def buildLeoArgv (options : LeoArgvOptions) : Except JsString (List JsString) := do
  assertNoSkipCollision options.operation options.programId options.localDependencyIds
  .ok ([js "--disable-update-check", options.operation.name,
      js "--path", options.packageDir, js "--save", options.saveDir,
      js "--json-output=" ++ options.jsonOutputPath, js "--yes",
      js "--network", options.networkId, js "--endpoint", options.endpoint] ++
    (if options.devnode then [js "--devnet"] else []) ++
    (match options.consensusHeights with
      | some heights => if options.devnode then [js "--consensus-heights", heights] else []
      | none => []) ++
    (if options.priorityFee > 0 then [js "--priority-fees", decimal options.priorityFee] else []) ++
    (if options.privateFee then [js "-f", js "default"] else []) ++
    options.localDependencyIds.flatMap (fun dep => [js "--skip", dep]) ++
    (if options.devnode ∧ ¬ options.prove then [js "--skip-deploy-certificate"] else []) ++
    leoVerbosityFlag options.logLevel)

/-! ## The tasks -/

structure DeployBackendRequest where
  programId : JsString
  sourceProgramId : Option JsString
  aleoSource : JsString
  localDependencyIds : List JsString
  priorityFee : Nat
  privateFee : Bool
  signerPrivateKey : Option JsString
  prove : Bool

/-- What the request for a transaction takes from the options, the artifacts and the accounts. -/
structure RequestOptions where
  aleoSource : JsString
  fee : Nat
  privateFee : Bool
  signerPrivateKey : Option JsString
  prove : Bool

def buildDeployRequest (opts : RequestOptions) (programId : JsString) (plan : Option RenamePlan)
    (graph : DependencyGraph) (programMap : List JsString) : DeployBackendRequest :=
  let rootId := sourceOf plan programId
  { programId
    sourceProgramId := (plan.filter (·.targetProgramId = programId)).map (·.sourceProgramId)
    aleoSource := opts.aleoSource
    localDependencyIds := (collectLocalDeploymentClosure rootId graph programMap).filter (· ≠ rootId)
    priorityFee := opts.fee
    privateFee := opts.privateFee
    signerPrivateKey := opts.signerPrivateKey
    prove := opts.prove }

def buildUpgradeRequest (opts : RequestOptions) (programId : JsString)
    (sourceProgramId : Option JsString) (localDependencyIds : List JsString) :
    DeployBackendRequest :=
  { programId
    sourceProgramId
    aleoSource := opts.aleoSource
    localDependencyIds
    priorityFee := opts.fee
    privateFee := opts.privateFee
    signerPrivateKey := opts.signerPrivateKey
    prove := opts.prove }

/-- What the Leo backend takes from its context. -/
structure LeoContext where
  packageDir : JsString → JsString
  saveDir : JsString
  jsonOutputPath : JsString
  networkId : JsString
  endpoint : JsString
  devnode : Bool
  consensusHeights : Option JsString
  logLevel : Option SdkLogLevel

def leoArgvOf (ctx : LeoContext) (operation : LeoOperation) (req : DeployBackendRequest) :
    Except JsString (List JsString) :=
  buildLeoArgv
    { operation
      programId := req.programId
      packageDir := ctx.packageDir req.programId
      saveDir := ctx.saveDir
      jsonOutputPath := ctx.jsonOutputPath
      networkId := ctx.networkId
      endpoint := ctx.endpoint
      devnode := ctx.devnode
      consensusHeights := ctx.consensusHeights
      priorityFee := req.priorityFee
      privateFee := req.privateFee
      localDependencyIds := req.localDependencyIds
      prove := req.prove
      logLevel := ctx.logLevel }

section Tasks

variable (parseImports : JsString → List JsString → List JsString)
  (discovered : List DiscoveredUnit) (ctx : LeoContext) (opts : RequestOptions)

/-- The arguments with which `deployAction` has Leo deploy one of its targets. -/
def deployArgv (options : DeployOptions) (config : DeployConfig) (programId : JsString) :
    Except JsString (List JsString) := do
  let graph ← (resolveDependencies parseImports discovered).mapError ResolveError.message
  let plan ← validateDeployRename options config graph
  leoArgvOf ctx .deploy (buildDeployRequest opts programId plan (preflightGraph graph plan)
    (programIds discovered))

/-- The dependencies are those of the source program, which is what is taken out of them. -/
def collectUpgradeDependencyIds (rootId : JsString) : Except JsString (List JsString) := do
  let graph ← (resolveDependencies parseImports discovered).mapError ResolveError.message
  .ok ((collectLocalDeploymentClosure rootId graph (programIds discovered)).filter (· ≠ rootId))

/-- The arguments with which `upgradeAction` has Leo upgrade `programId`, deployed from the source
`sourceProgramId`. -/
def upgradeArgv (sourceProgramId programId : JsString) : Except JsString (List JsString) := do
  let localDependencyIds ← collectUpgradeDependencyIds parseImports discovered sourceProgramId
  let rename := if sourceProgramId ≠ programId then some sourceProgramId else none
  leoArgvOf ctx .upgrade (buildUpgradeRequest opts programId rename localDependencyIds)

end Tasks

/-! ## What Leo makes of the arguments -/

/-- The options that are followed by a value. -/
def valueOptions : List JsString :=
  ["--path", "--save", "--network", "--endpoint", "--consensus-heights", "--priority-fees", "-f",
    "--skip"].map js

/-- The values of `--skip`. -/
def skipTexts : List JsString → List JsString
  | option :: value :: rest =>
    if option ∈ valueOptions then
      if option = js "--skip" then value :: skipTexts rest else skipTexts rest
    else skipTexts (value :: rest)
  | _ => []

/-- Leo leaves out a program whose name contains a text. -/
def Suppressed (argv : List JsString) (name : JsString) : Prop := ∃ text ∈ skipTexts argv, text <:+: name

/-- The program that is meant is not left out, and every other program that it reaches is. -/
def SkipsExactly (parseImports : JsString → List JsString → List JsString)
    (discovered : List DiscoveredUnit) (rootId programId : JsString) (argv : List JsString) : Prop :=
  (∀ id, Reaches parseImports discovered rootId id → id ≠ rootId → Suppressed argv id) ∧
    ¬Suppressed argv programId

/-- Arguments that skip nothing, and after which Leo reads the rest as if they were not there. -/
def Quiet (args : List JsString) : Prop := ∀ rest, skipTexts (args ++ rest) = skipTexts rest

theorem Quiet.nil : Quiet [] := fun _ => rfl

theorem Quiet.flag {flag : JsString} (h : flag ∉ valueOptions) : Quiet [flag] := by
  intro rest
  show skipTexts (flag :: rest) = _
  cases rest with
  | nil => rfl
  | cons value rest => rw [skipTexts, if_neg h]

theorem Quiet.value {option : JsString} (h : option ∈ valueOptions) (hskip : option ≠ js "--skip")
    (value : JsString) : Quiet [option, value] := by
  intro rest
  show skipTexts (option :: value :: rest) = _
  rw [skipTexts, if_pos h, if_neg hskip]

theorem Quiet.append {a b : List JsString} (ha : Quiet a) (hb : Quiet b) : Quiet (a ++ b) := by
  intro rest
  rw [List.append_assoc, ha, hb]

theorem Quiet.ite {c : Prop} [Decidable c] {a : List JsString} (h : Quiet a) :
    Quiet (if c then a else []) := by
  split
  · exact h
  · exact .nil

theorem Quiet.jsonOutput (path : JsString) : Quiet [js "--json-output=" ++ path] := by
  refine .flag fun h => ?_
  have hprefix : ∀ option ∈ valueOptions, option.take 3 ≠ js "--j" := by decide
  exact hprefix _ h rfl

theorem Quiet.skipTexts_eq {args : List JsString} (h : Quiet args) : skipTexts args = [] := by
  simpa [skipTexts] using h []

theorem skipTexts_skips (deps rest : List JsString) :
    skipTexts (deps.flatMap (fun dep => [js "--skip", dep]) ++ rest) = deps ++ skipTexts rest := by
  induction deps with
  | nil => rfl
  | cons dep deps ih =>
    show skipTexts (js "--skip" :: dep :: (deps.flatMap (fun dep => [js "--skip", dep]) ++ rest)) = _
    rw [skipTexts, if_pos (by decide), if_pos rfl, ih]
    rfl

/-- **What Leo reads**: the texts to skip are the dependencies that were named, and no others. -/
theorem skipTexts_argv {options : LeoArgvOptions} {argv : List JsString}
    (h : buildLeoArgv options = .ok argv) : skipTexts argv = options.localDependencyIds ∧
      ∀ dep ∈ options.localDependencyIds, ¬dep <:+: options.programId := by
  obtain ⟨_, hcollision, h⟩ := Fallible.bind_ok.mp h
  cases h
  constructor
  · have hoperation : options.operation.name ∉ valueOptions := by
      cases options.operation <;> decide
    have hhead : Quiet [js "--disable-update-check", options.operation.name,
        js "--path", options.packageDir, js "--save", options.saveDir,
        js "--json-output=" ++ options.jsonOutputPath, js "--yes",
        js "--network", options.networkId, js "--endpoint", options.endpoint] :=
      (Quiet.flag (by decide)).append <| (Quiet.flag hoperation).append <|
        (Quiet.value (by decide) (by decide) _).append <|
        (Quiet.value (by decide) (by decide) _).append <| (Quiet.jsonOutput _).append <|
        (Quiet.flag (by decide)).append <| (Quiet.value (by decide) (by decide) _).append <|
        Quiet.value (by decide) (by decide) _
    have hheights : Quiet (match options.consensusHeights with
        | some heights => if options.devnode then [js "--consensus-heights", heights] else []
        | none => []) := by
      cases options.consensusHeights with
      | none => exact .nil
      | some heights => exact .ite (.value (by decide) (by decide) heights)
    have hverbosity : Quiet (leoVerbosityFlag options.logLevel) := by
      unfold leoVerbosityFlag
      split
      · exact .flag (by decide)
      · exact .flag (by decide)
      · exact .flag (by decide)
      · exact .nil
    have hdevnet : Quiet (if options.devnode then [js "--devnet"] else []) :=
      .ite (.flag (by decide))
    have hfees : Quiet (if options.priorityFee > 0 then
        [js "--priority-fees", decimal options.priorityFee] else []) :=
      .ite (.value (by decide) (by decide) _)
    have hprivate : Quiet (if options.privateFee then [js "-f", js "default"] else []) :=
      .ite (.value (by decide) (by decide) _)
    have hcertificate : Quiet (if options.devnode ∧ ¬ options.prove then
        [js "--skip-deploy-certificate"] else []) :=
      .ite (.flag (by decide))
    have hbefore := (((hhead.append hdevnet).append hheights).append hfees).append hprivate
    have hafter := hcertificate.append hverbosity
    rw [List.append_assoc, List.append_assoc, hbefore, skipTexts_skips, hafter.skipTexts_eq,
      List.append_nil]
  · unfold assertNoSkipCollision at hcollision
    split at hcollision
    · next hnone =>
      intro dep hdep hin
      exact List.filter_eq_nil_iff.mp hnone dep hdep (decide_eq_true hin)
    · cases hcollision

/-- Naming all that the root reaches skips exactly. -/
theorem skipsExactly_of_argv {parseImports : JsString → List JsString → List JsString}
    {discovered : List DiscoveredUnit} {graph : DependencyGraph}
    (hgraph : Follows parseImports discovered graph) {rootId : JsString}
    {options : LeoArgvOptions} {argv : List JsString}
    (hdeps : options.localDependencyIds =
      (collectLocalDeploymentClosure rootId graph (programIds discovered)).filter (· ≠ rootId))
    (h : buildLeoArgv options = .ok argv) :
    SkipsExactly parseImports discovered rootId options.programId argv := by
  obtain ⟨htexts, hfree⟩ := skipTexts_argv h
  refine ⟨fun id hid hne => ⟨id, ?_, List.infix_refl id⟩, fun ⟨text, htext, hin⟩ => ?_⟩
  · rw [htexts, hdeps]
    exact List.mem_filter.mpr ⟨hid.mem_closure hgraph, decide_eq_true hne⟩
  · rw [htexts] at htext
    exact hfree text htext hin

/-- **Leo leaves out exactly the other programs**: for all units and every rename, the arguments of a
deployment or an upgrade are refused, or they skip every other local program that the root reaches and
not the program itself. -/
theorem leo_skips_exactly (parseImports : JsString → List JsString → List JsString)
    (discovered : List DiscoveredUnit) (ctx : LeoContext) (opts : RequestOptions)
    (rootId : JsString) :
    (∀ options config programId graph plan argv,
      (resolveDependencies parseImports discovered).mapError ResolveError.message = .ok graph →
      validateDeployRename options config graph = .ok plan → sourceOf plan programId = rootId →
      deployArgv parseImports discovered ctx opts options config programId = .ok argv →
      SkipsExactly parseImports discovered rootId programId argv) ∧
    ∀ programId argv, upgradeArgv parseImports discovered ctx opts rootId programId = .ok argv →
      SkipsExactly parseImports discovered rootId programId argv := by
  constructor
  · intro options config programId graph plan argv hgraph hplan hsource h
    obtain ⟨graph', hgraph', h⟩ := Fallible.bind_ok.mp h
    cases hgraph.symm.trans hgraph'
    obtain ⟨plan', hplan', h⟩ := Fallible.bind_ok.mp h
    cases hplan.symm.trans hplan'
    subst hsource
    exact skipsExactly_of_argv ((follows ((resolved hgraph).2)).preflightGraph hplan) rfl h
  · intro programId argv h
    obtain ⟨deps, hdeps, h⟩ := Fallible.bind_ok.mp h
    obtain ⟨graph, hgraph, hdeps⟩ := Fallible.bind_ok.mp hdeps
    cases hdeps
    exact skipsExactly_of_argv (follows ((resolved hgraph).2)) rfl h

def vaultContext : LeoContext where
  packageDir := id
  saveDir := js "save"
  jsonOutputPath := js "out.json"
  networkId := js "testnet"
  endpoint := js "local"
  devnode := true
  consensusHeights := none
  logLevel := none

def vaultRequest : RequestOptions where
  aleoSource := []
  fee := 0
  privateFee := false
  signerPrivateKey := none
  prove := false

theorem leo_skips_exactly_vault : ∃ argv,
    deployArgv vaultImports vaultProject vaultContext vaultRequest vaultOptions vaultConfig
      (js "safe.aleo") = .ok argv ∧
    SkipsExactly vaultImports vaultProject (js "vault.aleo") (js "safe.aleo") argv := by
  refine ⟨_, rfl, ?_⟩
  exact (leo_skips_exactly vaultImports vaultProject vaultContext vaultRequest
    (js "vault.aleo")).1 vaultOptions vaultConfig (js "safe.aleo") _ _ _ rfl rfl rfl rfl

end Lionden.Targets
