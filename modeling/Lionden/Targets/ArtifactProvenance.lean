import Lionden.Build.InStep
import Lionden.Build.RejectedRename
import Lionden.Network.KeyArtifacts
import Lionden.Targets.DeployAction

/-!
# Provenance of artifacts (`key-artifacts.ts`, `deploy-task.ts`, `upgrade-task.ts`)

The metadata beside the artifacts of a program say which source it was compiled from. A compilation
writes them; a deployment under another name that does not compile, and an upgrade, read them.

* `readProgramArtifactProvenance`, `resolveUpgradeSourceProgramId`: what is read, and its use.
* `metadataOf`: the metadata of the compiler, as they are written.
* `compiled_provenance`: what is read after a compilation.
-/

namespace Lionden.Targets

open Network.KeyCache (KeyArtifactsFile KEY_ARTIFACTS_FORMAT isDigest)
open Network.KeyArtifacts

/-! ## Reading -/

/-- `ProgramArtifactProvenance` of `key-artifacts.ts`; `ProgramArtifactProvenance` is what a deployment
looks at. -/
structure WrittenProvenance where
  programId : JsString
  sourceProgramId : JsString
  format : JsString

def WrittenProvenance.toDeploy (provenance : WrittenProvenance) : ProgramArtifactProvenance where
  programId := provenance.programId
  sourceProgramId := some provenance.sourceProgramId

section Reading

variable (syntaxError : JsString → JsString) (pathJoin : List JsString → JsString)

def keyArtifactsMetadataPath (artifactsDir programId : JsString) : JsString :=
  pathJoin [artifactsDir, programId, js "lionden-key-artifacts.json"]

def readKeyArtifactsMetadata (filePath : JsString) (files : Files) :
    Except JsString (Option KeyArtifactsFile) :=
  keyArtifacts.read syntaxError filePath files

def readProgramArtifactProvenance (artifactsDir programId : JsString) (files : Files) :
    Except JsString (Option WrittenProvenance) := do
  let metadata ← readKeyArtifactsMetadata syntaxError
    (keyArtifactsMetadataPath pathJoin artifactsDir programId) files
  .ok (metadata.map fun metadata =>
    { programId := metadata.programId
      sourceProgramId := metadata.sourceProgramId
      format := KEY_ARTIFACTS_FORMAT })

/-- The source of a program that is upgraded; the record of its deployment may name one. -/
def resolveUpgradeSourceProgramId (artifactsDir : JsString) (existingRecord : ExistingRecord)
    (programId : JsString) (files : Files) : Except JsString JsString :=
  match ExistingRecord.source (some existingRecord) with
  | some sourceProgramId => .ok sourceProgramId
  | none =>
    match readProgramArtifactProvenance syntaxError pathJoin artifactsDir programId files with
    | .error message => .error (js "Artifact provenance metadata is invalid for upgrade target \"" ++
        programId ++ js "\". Recompile the runtime artifact or restore a valid deployment record. " ++
        js "Cause: " ++ message)
    | .ok none => .ok programId
    | .ok (some provenance) =>
      if provenance.programId ≠ programId then
        .error (js "Artifact provenance metadata is invalid for upgrade target \"" ++ programId ++
          js "\": found programId=\"" ++ provenance.programId ++ js "\", sourceProgramId=\"" ++
          provenance.sourceProgramId ++ js "\".")
      else .ok provenance.sourceProgramId

end Reading

/-! ## Writing -/

def fileRefOf (ref : Build.KeyFileRef) : Network.KeyCache.KeyFileRef where
  path := ref.path
  fingerprint := { sha256 := ref.sha256, size := ref.size }

def functionRefOf (ref : Build.KeyArtifactFunctionRef) : Network.KeyCache.KeyArtifactFunctionRef where
  transition := ref.transition
  prover := some (fileRefOf ref.prover)
  verifier := some (fileRefOf ref.verifier)

/-- The metadata that a compilation writes. -/
def metadataOf (metadata : Build.KeyArtifactsMetadata) : KeyArtifactsFile where
  programId := metadata.programId
  sourceProgramId := metadata.sourceProgramId
  sourceHash := metadata.sourceHash
  importsHash := metadata.importsHash
  functions :=
    if metadata.functions = [] then none else some (metadata.functions.map functionRefOf)

/-- The metadata of the artifacts of a program are in a file, whose sizes are numbers of the
language. -/
def Holds (pathJoin : List JsString → JsString) (config : Build.Config) (disk : Build.Disk)
    (files : Files) (programId : JsString) : Prop :=
  ∀ metadata, (disk.artifacts programId).bind (·.metadata) = some metadata →
    files (keyArtifactsMetadataPath pathJoin config.artifacts programId) =
        .contents (jsonText (metadataOf metadata).value) ∧
      ∀ n ∈ (metadataOf metadata).numbers, IsDouble (n : ℚ)

/-! ### Metadata of the compiler are valid -/

section Valid

variable {sha256 : JsString → JsString} {sortLocale : List JsString → List JsString}

theorem isDigest_ne_nil {s : JsString} (h : isDigest s = true) : s ≠ [] := by
  rintro rfl
  exact absurd h (by decide)

theorem keyFileRef_valid (hsha256 : ∀ text, isDigest (sha256 text) = true)
    {files : Build.Directory} {stem : JsString} {suffix : String} {ref : Build.KeyFileRef}
    (hsuffix : js suffix ≠ []) (h : Build.keyFileRef sha256 files (stem ++ js suffix) = some ref) :
    (fileRefOf ref).Valid := by
  obtain ⟨bytes, -, rfl⟩ := Option.map_eq_some_iff.mp h
  exact ⟨fun hpath => hsuffix (List.append_eq_nil_iff.mp hpath).2, hsha256 bytes⟩

theorem collectKeyArtifactFunctionRefs_valid (hsha256 : ∀ text, isDigest (sha256 text) = true)
    {files : Build.Directory} {programId : JsString} {abi : JsValue}
    {ref : Build.KeyArtifactFunctionRef}
    (h : ref ∈ Build.collectKeyArtifactFunctionRefs sha256 files programId abi) :
    (fileRefOf ref.prover).Valid ∧ (fileRefOf ref.verifier).Valid := by
  obtain ⟨transition, -, h⟩ := List.mem_filterMap.mp h
  obtain ⟨stem, -, h⟩ := Option.bind_eq_some_iff.mp h
  obtain ⟨-, -, h⟩ := Option.bind_eq_some_iff.mp h
  obtain ⟨prover, hprover, h⟩ := Option.bind_eq_some_iff.mp h
  obtain ⟨verifier, hverifier, h⟩ := Option.bind_eq_some_iff.mp h
  cases h
  exact ⟨keyFileRef_valid hsha256 (by decide) hprover, keyFileRef_valid hsha256 (by decide) hverifier⟩

/-- What is checked of the metadata of a compilation is enough. -/
theorem metadataOf_valid (hsha256 : ∀ text, isDigest (sha256 text) = true) {config : Build.Config}
    {imports : Build.Directory} {artifacts : Build.Artifacts} {id source : JsString} {abi : JsValue}
    {metadata : Build.KeyArtifactsMetadata}
    (h : Build.checkMetadata config (Build.buildKeyArtifactsMetadata sha256 sortLocale imports
      artifacts id source abi) = .ok metadata) :
    (metadataOf metadata).Valid ∧ metadata.programId = id ∧ metadata.sourceProgramId = source := by
  unfold Build.checkMetadata at h
  split at h
  · cases h
  · next hid =>
    split at h
    · cases h
    · next hsource =>
      split at h
      · cases h
      · next htransitions =>
        cases h
        refine ⟨⟨hid, hsource, isDigest_ne_nil (hsha256 _), isDigest_ne_nil (hsha256 _), ?_⟩, rfl, rfl⟩
        intro refs hrefs ref href
        have hfunctions : refs = List.map functionRefOf _ :=
          (Option.some.inj (Option.ite_none_left_eq_some.mp hrefs).2).symm
        rw [hfunctions] at href
        obtain ⟨built, hbuilt, rfl⟩ := List.mem_map.mp href
        obtain ⟨hprover, hverifier⟩ := collectKeyArtifactFunctionRefs_valid hsha256 hbuilt
        have htransition : built.transition ≠ [] := fun hempty =>
          htransitions (List.any_eq_true.mpr ⟨built, hbuilt, decide_eq_true hempty⟩)
        refine ⟨htransition, ?_, ?_⟩
        · rintro _ ⟨⟩
          exact hprover
        · rintro _ ⟨⟩
          exact hverifier

end Valid

/-! ## What is read of what was written -/

section Provenance

variable {syntaxError : JsString → JsString} {pathJoin : List JsString → JsString}
  {artifactsDir programId : JsString} {files : Files} {metadata : KeyArtifactsFile}

theorem readProgramArtifactProvenance_eq
    (hread : readKeyArtifactsMetadata syntaxError
      (keyArtifactsMetadataPath pathJoin artifactsDir programId) files = .ok (some metadata)) :
    readProgramArtifactProvenance syntaxError pathJoin artifactsDir programId files =
      .ok (some ⟨metadata.programId, metadata.sourceProgramId, KEY_ARTIFACTS_FORMAT⟩) := by
  unfold readProgramArtifactProvenance
  rw [hread]
  rfl

/-- What a deployment requires. -/
theorem validateRenamed_iff {artifacts : Artifacts} {rename : RenamePlan} {source : JsString}
    (hsource : source ≠ [])
    (hprovenance : artifacts.provenance rename.targetProgramId = .ok (some ⟨programId, some source⟩)) :
    validateRenamedNoCompileArtifactProvenance artifacts rename = .ok () ↔
      programId = rename.targetProgramId ∧ source = rename.sourceProgramId := by
  have hnamed : (some source).filter (· ≠ []) = some source :=
    Option.filter_eq_some_iff.mpr ⟨rfl, decide_eq_true hsource⟩
  unfold validateRenamedNoCompileArtifactProvenance
  rw [hprovenance]
  dsimp only
  rw [hnamed]
  dsimp only
  split
  · next hother =>
    refine ⟨fun h => absurd h (by simp), ?_⟩
    rintro ⟨htarget, hsame⟩
    exact absurd hother (by simp [htarget, hsame])
  · next hsame => exact ⟨fun _ => by simpa [not_or] using hsame, fun _ => rfl⟩

/-- What an upgrade takes for the source. -/
theorem resolveUpgrade_eq
    (hread : readKeyArtifactsMetadata syntaxError
      (keyArtifactsMetadataPath pathJoin artifactsDir programId) files = .ok (some metadata))
    (hsame : metadata.programId = programId) {existingRecord : ExistingRecord}
    (hrecord : ExistingRecord.source (some existingRecord) = none) :
    resolveUpgradeSourceProgramId syntaxError pathJoin artifactsDir existingRecord programId files =
      .ok metadata.sourceProgramId := by
  unfold resolveUpgradeSourceProgramId
  rw [hrecord, readProgramArtifactProvenance_eq hread]
  dsimp only
  rw [hsame, if_neg (by simp)]

end Provenance

/-- **What is deployed without a compilation is what was compiled**: after a compilation that has
returned, whatever was there before, the metadata of each of its programs in whose package no later
unit was compiled are read back from their file. A deployment of the program under its id that does
not compile is allowed exactly if it names the source that was compiled, and an upgrade takes this
source if the record of the deployment names none. -/
theorem compiled_provenance {platform : Build.Platform} {config : Build.Config}
    {env : Build.Environment} {options : Build.CompileOptions} {w w' : Build.World}
    {compiled : Build.CompilePipelineResult}
    (h : Build.run (Build.compilePipeline platform config env options) w = .returned compiled w')
    {done rest : List Build.CompilationResult} {r : Build.CompilationResult}
    {output : Build.ProgramOutput} (hresults : compiled.results = done ++ r :: rest)
    (houtput : r.program = some output) (hlater : ∀ later ∈ rest, later.packageDir ≠ r.packageDir)
    (hsha256 : ∀ text, isDigest (platform.sha256 text) = true)
    (syntaxError : JsString → JsString) (pathJoin : List JsString → JsString) (files : Files)
    (hfiles : Holds pathJoin config w'.disk files output.programId) :
    (∀ (artifacts : Artifacts) (sourceProgramId : JsString),
      artifacts.provenance output.programId = Option.map WrittenProvenance.toDeploy <$>
        readProgramArtifactProvenance syntaxError pathJoin config.artifacts output.programId files →
      (validateRenamedNoCompileArtifactProvenance artifacts
          { sourceProgramId, targetProgramId := output.programId } = .ok () ↔
        output.sourceProgramId = sourceProgramId)) ∧
    ∀ existingRecord : ExistingRecord, ExistingRecord.source (some existingRecord) = none →
      resolveUpgradeSourceProgramId syntaxError pathJoin config.artifacts existingRecord
        output.programId files = .ok output.sourceProgramId := by
  obtain ⟨imports, copied, abi, metadata, hchecked, hrecorded⟩ :=
    (Build.compilePipeline_current h done r rest output hresults houtput hlater).recorded
  obtain ⟨hvalid, hid, hsource⟩ := metadataOf_valid hsha256 hchecked
  obtain ⟨hfile, hnumbers⟩ := hfiles metadata hrecorded
  have hread : readKeyArtifactsMetadata syntaxError
      (keyArtifactsMetadataPath pathJoin config.artifacts output.programId) files =
        .ok (some (metadataOf metadata)) :=
    (read_congr (hfile.trans writeJsonAtomic_self.symm)).trans
      (@read_written _ keyArtifacts _ _ files _ hnumbers hvalid)
  have hname : (metadataOf metadata).sourceProgramId = output.sourceProgramId := hsource
  refine ⟨fun artifacts sourceProgramId hartifacts => ?_, fun existingRecord hrecord => ?_⟩
  · rw [readProgramArtifactProvenance_eq hread] at hartifacts
    refine (validateRenamed_iff hvalid.sourceProgramId hartifacts).trans ?_
    rw [hname]
    exact and_iff_right hid
  · rw [resolveUpgrade_eq hread hid hrecord, hname]

/-- The first 64 units of a text, as digits. -/
def digitsOf (text : JsString) : JsString :=
  (List.range 64).map fun i => digitUnit ((text.getD i 0).toNat % 10)

theorem isDigest_digitsOf (text : JsString) : isDigest (digitsOf text) = true := by
  rw [isDigest, digitsOf, List.length_map, List.length_range, List.all_map, Bool.and_eq_true,
    List.all_eq_true]
  refine ⟨rfl, fun i _ => ?_⟩
  rw [Function.comp_apply, isDigit_digitUnit (Nat.mod_lt _ (by decide)), Bool.true_or]

/-- `compile --program app --rename shop`, where `app` imports `base`. -/
def compileShop : Build.Op Build.CompilePipelineResult :=
  Build.compilePipeline { Build.Renames.platform with sha256 := digitsOf } Build.Project.config
    { Build.Project.environment with buildEnd := fun _ => .succeeds }
    { force := false, program := js "app", rename := some (js "shop"), network := none }

/-- The programs of a compilation that has returned, with their sources and packages, and the numbers
in the metadata of two programs. -/
def compiledSources : Interrupt.Outcome Build.World JsString Build.CompilePipelineResult →
    List (Option (JsString × JsString) × JsString) × List (Option (List Nat))
  | .returned compiled w =>
    (compiled.results.map fun r =>
        (r.program.map fun output => (output.programId, output.sourceProgramId), r.packageDir),
      [js "base.aleo", js "shop.aleo"].map fun programId =>
        ((w.disk.artifacts programId).bind (·.metadata)).map fun metadata =>
          (metadataOf metadata).numbers)
  | _ => ([], [])

/-- The files of the two programs. -/
def shopFiles (disk : Build.Disk) : Files := fun path =>
  match [js "base.aleo", js "shop.aleo"].find? fun programId =>
      decide (keyArtifactsMetadataPath List.flatten Build.Project.config.artifacts programId = path) with
  | some programId =>
    match (disk.artifacts programId).bind (·.metadata) with
    | some metadata => .contents (jsonText (metadataOf metadata).value)
    | none => .missing
  | none => .missing

def shopArtifacts (disk : Build.Disk) : Artifacts where
  programIds := [js "base.aleo", js "shop.aleo"]
  aleoSource _ := none
  hasAbi _ := true
  provenance programId := Option.map WrittenProvenance.toDeploy <$>
    readProgramArtifactProvenance id List.flatten Build.Project.config.artifacts programId
      (shopFiles disk)

/-- `base.aleo` was compiled first, under its own name. -/
theorem compiled_provenance_shop : ∃ compiled w',
    Build.run compileShop ⟨Build.Disk.empty, []⟩ = .returned compiled w' ∧
      compiled.results.length = 2 ∧
      validateRenamedNoCompileArtifactProvenance (shopArtifacts w'.disk)
        { sourceProgramId := js "base.aleo", targetProgramId := js "base.aleo" } = .ok () ∧
      validateRenamedNoCompileArtifactProvenance (shopArtifacts w'.disk)
        { sourceProgramId := js "app.aleo", targetProgramId := js "shop.aleo" } = .ok () := by
  have hsources : compiledSources (Build.run compileShop ⟨Build.Disk.empty, []⟩) =
      ([(some (js "base.aleo", js "base.aleo"), js "artifacts/.build/base.aleo"),
        (some (js "shop.aleo", js "app.aleo"), js "artifacts/.build/shop.aleo")], [some [], some []]) := by
    decide +kernel
  cases hrun : Build.run compileShop ⟨Build.Disk.empty, []⟩ with
  | failed e w' =>
    rw [hrun] at hsources
    cases hsources
  | crashed w' =>
    rw [hrun] at hsources
    cases hsources
  | returned compiled w' =>
    rw [hrun] at hsources
    obtain ⟨houtputs, hmetadata⟩ := Prod.mk.inj hsources
    obtain ⟨base, rest, hresults, hbase, hrest⟩ := List.map_eq_cons_iff.mp houtputs
    obtain ⟨shop, rfl, hshop⟩ := List.map_eq_singleton_iff.mp hrest
    have hapart : ∀ later ∈ [shop], later.packageDir ≠ base.packageDir := by
      intro later hlater
      rw [List.mem_singleton.mp hlater, (Prod.mk.inj hshop).2, (Prod.mk.inj hbase).2]
      decide
    have hallowed {done rest : List Build.CompilationResult} {r : Build.CompilationResult}
        (hsplit : compiled.results = done ++ r :: rest)
        (hapart : ∀ later ∈ rest, later.packageDir ≠ r.packageDir) {programId source : JsString}
        (hr : (r.program.map fun output => (output.programId, output.sourceProgramId)) =
          some (programId, source))
        (hfiles : Holds List.flatten Build.Project.config w'.disk (shopFiles w'.disk) programId) :
        validateRenamedNoCompileArtifactProvenance (shopArtifacts w'.disk)
          { sourceProgramId := source, targetProgramId := programId } = .ok () := by
      obtain ⟨output, houtput, hnames⟩ := Option.map_eq_some_iff.mp hr
      obtain ⟨rfl, hsource⟩ := Prod.mk.inj hnames
      obtain ⟨hdeploy, -⟩ := compiled_provenance hrun hsplit houtput hapart isDigest_digitsOf id
        List.flatten (shopFiles w'.disk) hfiles
      exact (hdeploy (shopArtifacts w'.disk) _ rfl).mpr hsource
    have hfind : ∀ programId ∈ [js "base.aleo", js "shop.aleo"],
        ([js "base.aleo", js "shop.aleo"].find? fun other =>
          decide (keyArtifactsMetadataPath List.flatten Build.Project.config.artifacts other =
            keyArtifactsMetadataPath List.flatten Build.Project.config.artifacts programId)) =
          some programId := by decide
    have hholds {programId : JsString} (hmem : programId ∈ [js "base.aleo", js "shop.aleo"])
        (hnumbers : (((w'.disk.artifacts programId).bind (·.metadata)).map fun metadata =>
          (metadataOf metadata).numbers) = some []) :
        Holds List.flatten Build.Project.config w'.disk (shopFiles w'.disk) programId := by
      intro metadata hstored
      rw [hstored] at hnumbers
      have hnone : (metadataOf metadata).numbers = [] := Option.some.inj hnumbers
      refine ⟨?_, ?_⟩
      · rw [shopFiles, hfind programId hmem]
        dsimp only
        rw [hstored]
      · rw [hnone]
        exact List.forall_mem_nil _
    obtain ⟨hbaseNumbers, hshopNumbers⟩ := List.cons.inj hmetadata
    exact ⟨compiled, w', rfl, congrArg List.length hresults,
      hallowed (hresults.trans (List.nil_append _).symm) hapart (Prod.mk.inj hbase).1
        (hholds (by decide) hbaseNumbers),
      @hallowed [base] [] shop hresults (List.forall_mem_nil _) _ _ (Prod.mk.inj hshop).1
        (hholds (by decide) (List.cons.inj hshopNumbers).1)⟩

end Lionden.Targets
