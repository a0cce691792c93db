import Lionden.Build.UnitEffects

/-!
# Packages and artifacts

What a build leaves stays in the package, and a copy of it is the artifact. A program is `InStep` if
both are the same, and `Current` if the metadata beside the copy name its source, too.

* `collectOutput_current`: a program whose output has been collected is current.
* `compileUnits_current`: so it stays, until another unit is compiled in its package.
* `compilePipeline_current`: the programs of a compilation are current when it ends.
-/

namespace Lionden.Build

open Compiler Interrupt

/-- The copies of the program `id` are what is in its package. -/
structure InStep (disk : Disk) (id : JsString) : Prop where
  same : ∃ artifacts, disk.artifacts id = some artifacts ∧
    artifacts.abi = (resolveBuildArtifacts (disk.builds id) id).abi ∧
    artifacts.aleo = (resolveBuildArtifacts (disk.builds id) id).aleo
  complete : hasRequiredProgramArtifacts (disk.builds id) id = true

/-- The copies are those of a program that was compiled from `source`. -/
structure Current (platform : Platform) (config : Config) (disk : Disk) (id source : JsString) : Prop
    extends InStep disk id where
  recorded : ∃ imports artifacts abi metadata,
    checkMetadata config (buildKeyArtifactsMetadata platform.sha256 platform.sortLocale imports
      artifacts id source abi) = .ok metadata ∧
    (disk.artifacts id).bind (·.metadata) = some metadata

/-- Only the build and the artifacts of `id` matter. -/
theorem Current.of_same {platform : Platform} {config : Config} {disk disk' : Disk}
    {id source : JsString} (h : Current platform config disk id source)
    (hbuilds : disk'.builds id = disk.builds id)
    (hartifacts : disk'.artifacts id = disk.artifacts id) :
    Current platform config disk' id source where
  same := by
    rw [hbuilds, hartifacts]
    exact h.same
  complete := by
    rw [hbuilds]
    exact h.complete
  recorded := by
    rw [hartifacts]
    exact h.recorded

/-- What a unit does to another package. -/
theorem Current.other {platform : Platform} {config : Config} {cacheId other id source : JsString}
    {k : Effect} {w : World} (hk : k.Concerns cacheId other) (hne : id ≠ other)
    (h : Current platform config w.disk id source) :
    Current platform config (k.apply w).disk id source := by
  cases k with
  | hashUnit input => exact h.of_same rfl rfl
  | askCache cacheId effectiveId hash => exact h.of_same rfl rfl
  | build built output =>
    obtain rfl : built = other := hk
    exact h.of_same (Function.update_of_ne hne ..) rfl
  | replaceArtifacts built artifacts =>
    obtain rfl : built = other := hk
    exact h.of_same rfl (Function.update_of_ne hne ..)
  | writeMetadata built metadata =>
    obtain rfl : built = other := hk
    exact h.of_same rfl (Function.update_of_ne hne ..)
  | writeCache written hash => exact h.of_same rfl rfl
  | clearPackage _ => exact hk.elim
  | copySource _ _ _ => exact hk.elim
  | writeProgramJson _ _ => exact hk.elim
  | writeEnv _ _ => exact hk.elim
  | cacheNetworkDep _ _ _ => exact hk.elim
  | writeImport _ _ _ => exact hk.elim

/-- What is copied is what is there. -/
theorem copyArtifacts_ok {config : Config} {build : Option BuildDir} {id : JsString}
    {artifacts : Artifacts} (h : copyArtifacts config build id = .ok artifacts) :
    artifacts.abi = (resolveBuildArtifacts build id).abi ∧
      artifacts.aleo = (resolveBuildArtifacts build id).aleo ∧
      hasRequiredProgramArtifacts build id = true := by
  unfold copyArtifacts at h
  dsimp only at h
  split at h
  · cases h
  · cases h
  · next abi aleo habi haleo =>
    cases h
    refine ⟨habi.symm, haleo.symm, ?_⟩
    unfold hasRequiredProgramArtifacts
    dsimp only
    rw [habi, haleo]
    rfl

section

variable {platform : Platform} {config : Config} {env : Environment} {options : CompileOptions}
  {plan : Plan}

theorem collectOutput_current (programId id : JsString) :
    Ends (fun _ => True) (collectOutput platform config programId id)
      (fun output w => output.programId = id ∧
        Current platform config w.disk id output.sourceProgramId) (fun _ => True) := by
  unfold collectOutput
  refine Triple.read fun w₀ _ => ?_
  refine Triple.bind (M := fun _ w => w = w₀) (Ends.attempt (fun _ _ _ hw => hw)
    fun _ _ _ _ => trivial) fun abi => ?_
  refine Triple.bind (M := fun artifacts w => w = w₀ ∧
    copyArtifacts config (w₀.disk.builds id) id = .ok artifacts)
    (Ends.attempt (fun _ hartifacts _ hw => ⟨hw, hartifacts⟩) fun _ _ _ _ => trivial)
    fun artifacts => ?_
  -- The copies are there before their metadata.
  refine Triple.bind (M := fun _ w => w.disk.builds = w₀.disk.builds ∧
    w.disk.artifacts id = some artifacts ∧
    copyArtifacts config (w₀.disk.builds id) id = .ok artifacts)
    (Ends.perform fun w ⟨hw, hartifacts⟩ => ?_) fun _ => ?_
  · subst hw
    exact ⟨rfl, Function.update_self .., hartifacts⟩
  refine Triple.bind (M := fun metadata w => (w.disk.builds = w₀.disk.builds ∧
    w.disk.artifacts id = some artifacts ∧
    copyArtifacts config (w₀.disk.builds id) id = .ok artifacts) ∧
    checkMetadata config (buildKeyArtifactsMetadata platform.sha256 platform.sortLocale
      ((w₀.disk.packages id).getD Package.empty).imports artifacts id programId abi) = .ok metadata)
    (Ends.attempt (fun _ hmetadata _ hw => ⟨hw, hmetadata⟩) fun _ _ _ _ => trivial)
    fun metadata => ?_
  refine Triple.bind (M := fun _ w => Current platform config w.disk id programId)
    (Ends.perform fun w ⟨⟨hbuilds, hcopied, hartifacts⟩, hmetadata⟩ => ?_) fun _ =>
    Triple.pure fun _ h => ⟨rfl, h⟩
  obtain ⟨habi, haleo, hcomplete⟩ := copyArtifacts_ok hartifacts
  have hwritten : ((Effect.writeMetadata id metadata).apply w).disk.artifacts id =
      some { artifacts with metadata := some metadata } := by
    show Function.update w.disk.artifacts id ((w.disk.artifacts id).map _) id = _
    rw [Function.update_self, hcopied]
    rfl
  have hsame : ((Effect.writeMetadata id metadata).apply w).disk.builds id = w₀.disk.builds id :=
    congrFun hbuilds id
  refine ⟨⟨?_, ?_⟩, ?_⟩
  · rw [hsame]
    exact ⟨_, hwritten, habi, haleo⟩
  · rw [hsame]
    exact hcomplete
  · refine ⟨_, _, _, metadata, hmetadata, ?_⟩
    rw [hwritten]
    rfl

/-- A program that has been compiled is current. -/
theorem compileUnit_current (depHashes : List (JsString × JsString)) (unit : DiscoveredUnit) :
    Ends (fun _ => True) (compileUnit platform config env options plan depHashes unit)
      (fun result w => result.1.packageDir = packagePath config (plan.effectiveId unit) ∧
        ∀ output, result.1.program = some output →
          output.programId = plan.effectiveId unit ∧
            Current platform config w.disk (plan.effectiveId unit) output.sourceProgramId)
      (fun _ => True) := by
  have hperform (k : Effect) : Ends (fun _ => True) (perform k) (fun _ _ => True) fun _ => True :=
    Ends.perform fun _ _ => trivial
  have hbuild : Ends (fun _ => True) (runLeoBuild platform config env (plan.effectiveId unit))
      (fun _ _ => True) fun _ => True :=
    @runLeoBuild_preserves platform config env (fun _ => True) (plan.cacheId unit) _
      fun _ _ _ _ => trivial
  unfold compileUnit
  refine Triple.read fun w₀ _ => ?_
  refine Triple.weaken (P := fun _ => True) ?_ (fun _ _ => trivial) (fun _ _ h => h)
    (fun _ h => h) fun _ h => h
  refine Triple.bind (hperform (.hashUnit _)) fun _ => ?_
  refine ends_skip (fun _ => hperform (.askCache ..)) ?_
  refine ends_skip (fun _ => hbuild) ?_
  cases unit.kind with
  | program programId =>
    refine Triple.bind (collectOutput_current _ _) fun output => ?_
    refine ends_skip (I := fun w => output.programId = plan.effectiveId unit ∧
      Current platform config w.disk (plan.effectiveId unit) output.sourceProgramId)
      (fun _ => Ends.perform fun w h => ?_) ?_
    · exact ⟨h.1, h.2.of_same rfl rfl⟩
    · refine Triple.pure fun w h => ⟨rfl, fun output' houtput => ?_⟩
      obtain rfl := Option.some.inj houtput
      exact h
  | library name =>
    refine ends_skip (fun _ => hperform (.writeCache ..)) ?_
    refine Triple.pure fun w _ => ⟨rfl, fun output houtput => ?_⟩
    cases houtput

/-- The programs whose packages no later unit is compiled in are current, and so are the programs
that were before, and whose packages no unit is compiled in. -/
structure Collected (platform : Platform) (config : Config) (before : Disk)
    (results : List CompilationResult) (disk : Disk) : Prop where
  programs : ∀ done result rest output, results = done ++ result :: rest →
    result.program = some output → (∀ later ∈ rest, later.packageDir ≠ result.packageDir) →
    Current platform config disk output.programId output.sourceProgramId
  others : ∀ id source, Current platform config before id source →
    (∀ result ∈ results, result.packageDir ≠ packagePath config id) →
    Current platform config disk id source

theorem compileUnits_current (depHashes : List (JsString × JsString)) (units : List DiscoveredUnit)
    (w₀ : World) :
    Ends (· = w₀) (compileUnits platform config env options plan depHashes units)
      (fun results w => Collected platform config w₀.disk results w.disk) (fun _ => True) := by
  induction units generalizing depHashes w₀ with
  | nil =>
    refine Triple.pure fun w hw => ⟨fun done result rest output h => ?_, fun id source h _ => hw ▸ h⟩
    simp at h
  | cons unit rest ih =>
    -- What the unit leaves current, and what was so before.
    let Kept (w : World) : Prop :=
      ∀ id source, id ≠ plan.effectiveId unit → Current platform config w₀.disk id source →
        Current platform config w.disk id source
    have hkept : Ends Kept (compileUnit platform config env options plan depHashes unit)
        (fun result w => result.1.unit = unit ∧ Kept w) Kept :=
      compileUnit_preserves depHashes unit fun k w hk hI id source hne hid =>
        (hI id source hne hid).other hk hne
    have hunit : Ends (fun _ => True) (compileUnit platform config env options plan depHashes unit)
        _ _ := compileUnit_current depHashes unit
    have hboth := Triple.and (P := Kept)
      (Triple.weaken hunit (fun _ _ => trivial) (fun _ _ h => h) (fun _ h => h) fun _ h => h) hkept
    have hstart : ∀ w, w = w₀ → Kept w := fun w hw id source _ hid => hw ▸ hid
    refine Triple.bind (Triple.weaken hboth hstart (fun _ _ h => h) (fun _ _ => trivial)
      fun _ h => h.1) fun result => ?_
    refine Triple.known fun w₁ ⟨⟨hdir, hprogram⟩, _, hothers⟩ => ?_
    refine Triple.bind (ih _ w₁) fun results => Triple.pure fun w h => ⟨?_, ?_⟩
    · intro done result' later output hsplit houtput hlater
      cases done with
      | nil =>
        obtain ⟨rfl, rfl⟩ := List.cons.inj hsplit
        obtain ⟨hid, hstep⟩ := hprogram output houtput
        rw [hid]
        refine h.others _ _ hstep fun later hmem => ?_
        rw [← hdir]
        exact hlater later hmem
      | cons first done =>
        obtain ⟨rfl, hrest⟩ := List.cons.inj hsplit
        exact h.programs done result' later output hrest houtput hlater
    · intro id source hid hnone
      obtain ⟨hfirst, hrest⟩ := List.forall_mem_cons.mp hnone
      refine h.others id source (hothers id source (fun heq => hfirst ?_) hid) hrest
      rw [hdir, heq]

end

/-- A run that returns has come through each of its parts. -/
theorem run_bind {α β : Type} {op : Op α} {f : α → Op β} {w w' : World} {b : β}
    (h : run (op >>= f) w = .returned b w') :
    ∃ a w₁, run op w = .returned a w₁ ∧ run (f a) w₁ = .returned b w' := by
  have hbind : Prog.bind op f (fun _ _ => false) w = .returned b w' := h
  unfold Prog.bind at hbind
  cases hop : op (fun _ _ => false) w with
  | returned a w₁ =>
    rw [hop] at hbind
    exact ⟨a, w₁, hop, hbind⟩
  | failed e w₁ =>
    rw [hop] at hbind
    cases hbind
  | crashed w₁ =>
    rw [hop] at hbind
    cases hbind

/-- **Packages and artifacts are in step**: when the pipeline returns, whatever was in the artifacts
directory and whatever was cached, the copies of a program are what is in its package, and their
metadata name its source, unless a later unit of the run has been compiled in that package. -/
theorem compilePipeline_current {platform : Platform} {config : Config} {env : Environment}
    {options : CompileOptions} {w w' : World} {result : CompilePipelineResult}
    (h : run (compilePipeline platform config env options) w = .returned result w') :
    ∀ done r rest output, result.results = done ++ r :: rest → r.program = some output →
      (∀ later ∈ rest, later.packageDir ≠ r.packageDir) →
      Current platform config w'.disk output.programId output.sourceProgramId := by
  unfold compilePipeline at h
  obtain ⟨plan, w₁, -, h⟩ := run_bind h
  obtain ⟨_, w₂, -, h⟩ := run_bind h
  obtain ⟨results, w₃, hresults, h⟩ := run_bind h
  obtain ⟨rfl, rfl⟩ : result = { results, graph := plan.graph } ∧ w' = w₃ := by
    cases h
    exact ⟨rfl, rfl⟩
  exact (Ends.returned (compileUnits_current [] plan.compileOrder w₂) rfl hresults).programs

end Lionden.Build
