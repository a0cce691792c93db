import Lionden.Build.Plans
import Lionden.Build.UnitEffects

/-!
# Targeted compilation

A run that selects a program compiles it with what it imports, each unit from a package that names its
dependencies.

* `LinkedWith`, `Targeted`: what the packages of the selected units are meant to be.
* `compileUnits_spec`: the units are compiled in the order of the plan, and the packages stay.
* `effectiveId_injOn`: the packages of the units are different ones, unless the program is renamed to
  one of its dependencies.
* `targeted_iff`: a run is as it is meant if and only if the program is not renamed so.
-/

namespace Lionden.Build

open Compiler Targets Interrupt

/-! ## What is meant -/

section Meaning

variable (parseImports : JsString → List JsString → List JsString) (units : List DiscoveredUnit)

/-- The unit imports a program that is not a local one. -/
def NetworkImport (unit : DiscoveredUnit) (dep : JsString) : Prop :=
  dep ∈ rawImports parseImports unit ∧ ∀ v ∈ units, dep ∉ lookupKeys v

/-- The local units that a unit needs, with itself. -/
def Needs (a b : DiscoveredUnit) : Prop :=
  Relation.ReflTransGen (LocalImport parseImports units) (unitId a) (unitId b)

def Disk.manifest (disk : Disk) (id : JsString) : Option Manifest :=
  (disk.packages id).bind (·.programJson)

/-- `imports/<dep>` of a package. -/
def Disk.importFile (disk : Disk) (id dep : JsString) : Option JsString :=
  (disk.packages id).bind (·.imports.lookup dep)

/-- The package `b` is a local dependency in the manifest of the package `a`. -/
def Disk.Links (disk : Disk) (a b : JsString) : Prop :=
  ∃ manifest, disk.manifest a = some manifest ∧
    ∃ entry ∈ manifest.dependencies, entry.location = .package b

/-- The package `id` is linked with some local and some network dependencies, and with no others. -/
structure LinkedWith (disk : Disk) (id : JsString) (isLocal isNetwork : JsString → Prop) : Prop where
  manifest : ∃ manifest, disk.manifest id = some manifest ∧
    ∀ entry, entry ∈ manifest.dependencies ↔
      (∃ dep, isLocal dep ∧ entry = { name := normalizeProgramId dep, location := .package dep }) ∨
        ∃ dep, isNetwork dep ∧ entry = { name := dep, location := .network }
  imports : ∀ dep, (disk.importFile id dep).isSome ↔ isNetwork dep

/-- The units `built` are the target and what it needs, in the order of the graph, and their packages
are linked with what they import: each with its own imports, and so all that it reaches with
theirs. -/
structure Targeted (graph : DependencyGraph) (target : DiscoveredUnit)
    (effectiveId : DiscoveredUnit → JsString) (built : List DiscoveredUnit) (disk : Disk) :
    Prop where
  mem : ∀ unit, unit ∈ built ↔ unit ∈ units ∧ Needs parseImports units target unit
  order : built.Sublist graph.order
  linked : ∀ unit ∈ built, LinkedWith disk (effectiveId unit)
    (LocalImport parseImports units (unitId unit)) (NetworkImport parseImports units unit)
  packages : ∀ unit ∈ built, ∀ id, Relation.ReflTransGen disk.Links (effectiveId unit) id ↔
    ∃ other ∈ units, Needs parseImports units unit other ∧ effectiveId other = id
  network : ∀ unit ∈ built, ∀ dep,
    (∃ id, Relation.ReflTransGen disk.Links (effectiveId unit) id ∧
        (disk.importFile id dep).isSome) ↔
      ∃ other ∈ units, Needs parseImports units unit other ∧
        NetworkImport parseImports units other dep

/-- The target is a program, and the package of its new id is that of a local unit that it imports. -/
def RenamedToDependency (config : Config) (target : DiscoveredUnit) (rename : Option JsString) : Prop :=
  target.isProgram = true ∧ ∃ name dep, rename = some name ∧
    Relation.TransGen (LocalImport parseImports units) (unitId target) dep ∧
    packagePath config dep = packagePath config (normalizeProgramId name)

end Meaning

/-- The unit that `options.program` selects. -/
def selectedUnit (options : CompileOptions) (graph : DependencyGraph) : Option DiscoveredUnit :=
  if options.program = [] then none
  else graph.order.find? fun u =>
    unitId u = options.program ∨ unitId u = options.program ++ js ".aleo"

/-! ## The units are compiled -/

section Compile

variable {platform : Platform} {config : Config} {env : Environment} {options : CompileOptions}
  {plan : Plan} {packages : JsString → Option Package}

/-- The units are compiled in their order, and the packages stay as they are, also when a unit
fails. -/
theorem compileUnits_spec (depHashes : List (JsString × JsString)) (units : List DiscoveredUnit) :
    Ends (·.disk.packages = packages)
      (compileUnits platform config env options plan depHashes units)
      (fun results w => results.map (·.unit) = units ∧ w.disk.packages = packages)
      (·.disk.packages = packages) :=
  compileUnits_preserves depHashes units fun _ _ _ w hk hw => (packages_of_concerns hk w.disk).trans hw

/-- What a run does once its packages are prepared. -/
theorem run_compilePipeline {w₀ w : World} (hplan : planCompilation config env options = .ok plan)
    (hprepare : run (prepare platform config env options plan) w₀ = .returned () w) :
    (run (compilePipeline platform config env options) w₀).state.disk.packages =
        w.disk.packages ∧
      ∀ result w', run (compilePipeline platform config env options) w₀ = .returned result w' →
        result.graph = plan.graph ∧ result.results.map (·.unit) = plan.compileOrder := by
  have hrun : run (compilePipeline platform config env options) w₀ =
      run (compileUnits platform config env options plan [] plan.compileOrder >>= fun results =>
        pure { results, graph := plan.graph }) w := by
    unfold compilePipeline
    rw [hplan]
    show Prog.bind (prepare platform config env options plan) _ _ w₀ = _
    unfold Prog.bind
    rw [show prepare platform config env options plan _ w₀ = _ from hprepare]
    rfl
  have hends : Ends (·.disk.packages = w.disk.packages)
      (compileUnits platform config env options plan [] plan.compileOrder >>= fun results =>
        pure (⟨results, plan.graph⟩ : CompilePipelineResult))
      (fun result w' => (result.graph = plan.graph ∧
        result.results.map (·.unit) = plan.compileOrder) ∧ w'.disk.packages = w.disk.packages)
      (·.disk.packages = w.disk.packages) :=
    Triple.bind (compileUnits_spec [] plan.compileOrder) fun _ =>
      Triple.pure fun _ h => ⟨⟨rfl, h.1⟩, h.2⟩
  rw [hrun]
  rcases hends.run rfl with ⟨result, w', heq, hresult, hpackages⟩ | ⟨e, w', heq, hpackages⟩
  · rw [heq]
    refine ⟨hpackages, ?_⟩
    rintro _ _ h
    cases h
    exact hresult
  · rw [heq]
    exact ⟨hpackages, nofun⟩

end Compile

/-! ## Plans with a target -/

section Plans

variable {platform : Platform} {config : Config} {env : Environment} {options : CompileOptions}
  {plan : Plan} {units : List DiscoveredUnit} {target : DiscoveredUnit}

/-- A plan for a target. -/
structure Selected (env : Environment) (options : CompileOptions) (units : List DiscoveredUnit)
    (target : DiscoveredUnit) (plan : Plan) : Prop where
  acyclic : ¬Cyclic env.parseImports units
  graph : WellResolved env.parseImports units plan.graph
  isUnit : target ∈ units
  order : plan.compileOrder = collectTransitiveDeps target plan.graph units
  rename : plan.renamePlan = options.rename.map fun rename =>
    { sourceProgramId := unitId target, targetProgramId := normalizeProgramId rename }

theorem selected (hunits : env.discoverUnits = .ok units)
    (hplan : planCompilation config env options = .ok plan)
    (htarget : selectedUnit options plan.graph = some target) :
    Selected env options units target plan := by
  unfold planCompilation at hplan
  split at hplan
  · exact nomatch hplan
  obtain ⟨network, -, hplan⟩ := Fallible.bind_ok.mp hplan
  obtain ⟨units', hunits', hplan⟩ := Fallible.bind_ok.mp hplan
  obtain rfl : units = units' := Except.ok.inj (hunits.symm.trans hunits')
  obtain ⟨graph, hresolve, hplan⟩ := Fallible.bind_ok.mp hplan
  obtain ⟨hacyclic, hgraph⟩ := resolved hresolve
  unfold selectedUnit at htarget
  split at hplan
  next hprogram =>
    rw [if_pos hprogram] at htarget
    exact nomatch htarget
  next hprogram =>
  rw [if_neg hprogram] at htarget
  split at hplan
  · exact nomatch hplan
  next found hfound =>
  cases hplan
  obtain rfl : found = target := Option.some.inj (hfound.symm.trans htarget)
  exact ⟨hacyclic, hgraph, (hgraph.mem found).mp (List.mem_of_find?_eq_some hfound), rfl, rfl⟩

namespace Selected

variable (h : Selected env options units target plan)

include h

theorem mem_compileOrder {unit : DiscoveredUnit} :
    unit ∈ plan.compileOrder ↔ unit ∈ units ∧ Needs env.parseImports units target unit := by
  rw [h.order]
  exact mem_collectTransitiveDeps (follows h.graph) h.isUnit

theorem target_mem : target ∈ plan.compileOrder :=
  h.mem_compileOrder.mpr ⟨h.isUnit, .refl⟩

/-- A unit that the target needs comes with what it needs. -/
theorem closed {unit other : DiscoveredUnit} (hunit : unit ∈ plan.compileOrder)
    (hother : other ∈ units) (hneeds : Needs env.parseImports units unit other) :
    other ∈ plan.compileOrder :=
  h.mem_compileOrder.mpr ⟨hother, (h.mem_compileOrder.mp hunit).2.trans hneeds⟩

theorem sublist_order : plan.compileOrder.Sublist plan.graph.order := by
  rw [h.order]
  exact List.filter_sublist

/-- Only the target is renamed. -/
theorem effectiveId_of_ne {unit : DiscoveredUnit} (hunit : unit ∈ plan.compileOrder)
    (hne : unit ≠ target) : plan.effectiveId unit = unitId unit := by
  refine effectiveUnitId_of_ne fun renamePlan hplan heq => hne ?_
  rw [h.rename] at hplan
  obtain ⟨rename, -, rfl⟩ := Option.map_eq_some_iff.mp hplan
  exact h.graph.unique unit (h.mem_compileOrder.mp hunit).1 target h.isUnit heq

/-- A unit that another unit imports has its own id: the target is not needed by what it needs. -/
theorem effectiveId_of_import {unit other : DiscoveredUnit} (hunit : unit ∈ plan.compileOrder)
    (hother : other ∈ units)
    (himport : LocalImport env.parseImports units (unitId unit) (unitId other)) :
    other ∈ plan.compileOrder ∧ plan.effectiveId other = unitId other := by
  have hmem := h.closed hunit hother (.single himport)
  refine ⟨hmem, h.effectiveId_of_ne hmem ?_⟩
  rintro rfl
  exact h.acyclic ⟨unitId other, .tail' (h.mem_compileOrder.mp hunit).2 himport⟩

theorem effectiveId_target : plan.effectiveId target = unitId target ∨
    ∃ rename, options.rename = some rename ∧ target.isProgram = true ∧
      plan.effectiveId target = normalizeProgramId rename := by
  unfold Plan.effectiveId effectiveUnitId DiscoveredUnit.isProgram
  rw [h.rename]
  cases hkind : target.kind with
  | library name => exact .inl rfl
  | program programId =>
    cases hrename : options.rename with
    | none => exact .inl rfl
    | some rename =>
      have hid : unitId target = programId := by
        unfold unitId
        rw [hkind]
      exact .inr ⟨rename, rfl, rfl, if_pos hid.symm⟩

/-- Without such a rename the packages of the units are different ones. -/
theorem effectiveId_injOn
    (hrename : ¬RenamedToDependency env.parseImports units config target options.rename) :
    (plan.compileOrder.map plan.effectiveId).Nodup := by
  -- The target has another id than a unit that it needs.
  have htarget (unit : DiscoveredUnit) (hunit : unit ∈ plan.compileOrder) (hne : unit ≠ target) :
      plan.effectiveId target ≠ unitId unit := by
    obtain ⟨hmem, hneeds⟩ := h.mem_compileOrder.mp hunit
    have hid : unitId unit ≠ unitId target := fun heq =>
      hne (h.graph.unique unit hmem target h.isUnit heq)
    rcases h.effectiveId_target with heq | ⟨rename, hsome, hprogram, heq⟩
    · rw [heq]
      exact hid.symm
    · rw [heq]
      intro hname
      refine hrename ⟨hprogram, rename, _, hsome, ?_, rfl⟩
      rw [hname]
      exact (Relation.reflTransGen_iff_eq_or_transGen.mp hneeds).resolve_left hid
  have hnodup : plan.compileOrder.Nodup := h.sublist_order.nodup h.graph.nodup
  refine List.Nodup.map_on (fun unit hunit other hother heq => ?_) hnodup
  by_cases hu : unit = target
  · by_cases ho : other = target
    · rw [hu, ho]
    · rw [hu, h.effectiveId_of_ne hother ho] at heq
      exact absurd heq (htarget other hother ho)
  · by_cases ho : other = target
    · rw [ho, h.effectiveId_of_ne hunit hu] at heq
      exact absurd heq.symm (htarget unit hunit hu)
    · rw [h.effectiveId_of_ne hunit hu, h.effectiveId_of_ne hother ho] at heq
      exact h.graph.unique unit (h.mem_compileOrder.mp hunit).1 other
        (h.mem_compileOrder.mp hother).1 heq

theorem mem_localDepIds {unit : DiscoveredUnit} (hunit : unit ∈ units) {dep : JsString} :
    dep ∈ localDepIds plan unit ↔ LocalImport env.parseImports units (unitId unit) dep :=
  (follows h.graph).edge _ (List.mem_map_of_mem hunit) dep

theorem mem_networkDepIds {unit : DiscoveredUnit} (hunit : unit ∈ units) {dep : JsString} :
    dep ∈ networkDepIds plan unit ↔ NetworkImport env.parseImports units unit dep := by
  rw [Build.mem_networkDepIds, h.graph.imports unit hunit, h.graph.network]
  constructor
  · rintro ⟨⟨v, hv, -, rfl, -⟩ | himport, -, hnone⟩
    · exact absurd (unitId_mem_lookupKeys v) (hnone v hv)
    · exact himport
  · rintro ⟨hraw, hnone⟩
    exact ⟨.inr ⟨hraw, hnone⟩, ⟨unit, hunit, hraw⟩, hnone⟩

/-- The dependencies of a manifest are what the unit imports. -/
theorem mem_buildProgramJson {unit : DiscoveredUnit} (hunit : unit ∈ units) {id : JsString}
    {entry : LeoDepEntry} :
    entry ∈ (buildProgramJson unit plan.graph id).dependencies ↔
      (∃ dep, LocalImport env.parseImports units (unitId unit) dep ∧
          entry = { name := normalizeProgramId dep, location := .package dep }) ∨
        ∃ dep, NetworkImport env.parseImports units unit dep ∧
          entry = { name := dep, location := .network } := by
  simp only [← h.mem_localDepIds hunit, ← h.mem_networkDepIds hunit, localDepIds, networkDepIds,
    List.mem_filter, decide_eq_true_eq]
  unfold buildProgramJson
  rw [List.mem_map]
  constructor
  · rintro ⟨dep, hdep, rfl⟩
    unfold depEntry
    by_cases hnetwork : dep ∈ plan.graph.networkDeps
    · exact .inr ⟨dep, ⟨hdep, hnetwork⟩, if_pos hnetwork⟩
    · exact .inl ⟨dep, ⟨hdep, hnetwork⟩, if_neg hnetwork⟩
  · rintro (⟨dep, ⟨hdep, hnetwork⟩, rfl⟩ | ⟨dep, ⟨hdep, hnetwork⟩, rfl⟩)
    · exact ⟨dep, hdep, if_neg hnetwork⟩
    · exact ⟨dep, hdep, if_pos hnetwork⟩

/-- The packages are linked when they have been prepared. -/
theorem linkedWith {w₀ w : World} {unit : DiscoveredUnit}
    (hrename : ¬RenamedToDependency env.parseImports units config target options.rename)
    (hprepare : run (prepare platform config env options plan) w₀ = .returned () w)
    (hunit : unit ∈ plan.compileOrder) :
    LinkedWith w.disk (plan.effectiveId unit)
      (LocalImport env.parseImports units (unitId unit))
      (NetworkImport env.parseImports units unit) := by
  obtain ⟨⟨-, hpacked⟩, -, hprepared⟩ :=
    (prepare_spec w₀ (h.effectiveId_injOn hrename)).returned rfl hprepare
  have hmem := (h.mem_compileOrder.mp hunit).1
  obtain ⟨package, hpackage, hcontents⟩ := Option.map_eq_some_iff.mp (hpacked unit hunit)
  have hmanifest := congrArg PackageContents.programJson hcontents
  have himports (dep : JsString) := congrFun (congrArg PackageContents.imports hcontents) dep
  refine ⟨⟨buildProgramJson unit plan.graph (plan.effectiveId unit), ?_,
    fun entry => h.mem_buildProgramJson hmem⟩, fun dep => ?_⟩
  · unfold Disk.manifest
    rw [hpackage]
    exact hmanifest
  · unfold Disk.importFile
    rw [hpackage, Option.bind_some, show package.imports.lookup dep = _ from himports dep,
      ← h.mem_networkDepIds hmem]
    show (if _ then _ else _ : Option JsString).isSome = true ↔ _
    by_cases hdep : dep ∈ networkDepIds plan unit
    · have hselected := mem_selectedNetworkDeps.mpr ⟨unit, hunit, hdep⟩
      rw [if_pos ⟨hselected, hdep⟩]
      refine iff_of_true ?_ hdep
      cases hsource : linkedSource platform config env options plan w₀.disk dep with
      | ok text => rfl
      | error e => exact absurd (.inr ⟨dep, hselected, e, hsource⟩) hprepared
    · rw [if_neg fun hboth => hdep hboth.2]
      exact iff_of_false Bool.false_ne_true hdep

end Selected

theorem LinkedWith.links_iff {disk : Disk} {id other : JsString}
    {isLocal isNetwork : JsString → Prop} (h : LinkedWith disk id isLocal isNetwork) :
    disk.Links id other ↔ isLocal other := by
  obtain ⟨manifest, hmanifest, hentries⟩ := h.manifest
  constructor
  · rintro ⟨manifest', hmanifest', entry, hentry, hlocation⟩
    obtain rfl := Option.some.inj (hmanifest.symm.trans hmanifest')
    rcases (hentries entry).mp hentry with ⟨dep, hdep, rfl⟩ | ⟨dep, -, rfl⟩
    · cases hlocation
      exact hdep
    · exact nomatch hlocation
  · intro hlocal
    exact ⟨manifest, hmanifest, _, (hentries _).mpr (.inl ⟨other, hlocal, rfl⟩), rfl⟩

namespace Selected

variable (h : Selected env options units target plan)

include h

/-- What a package reaches by its links are the packages of what its unit needs. -/
theorem reaches_iff {disk : Disk} (hlinked : ∀ unit ∈ plan.compileOrder,
      LinkedWith disk (plan.effectiveId unit) (LocalImport env.parseImports units (unitId unit))
        (NetworkImport env.parseImports units unit))
    {unit : DiscoveredUnit} (hunit : unit ∈ plan.compileOrder) {id : JsString} :
    Relation.ReflTransGen disk.Links (plan.effectiveId unit) id ↔
      ∃ other ∈ units, Needs env.parseImports units unit other ∧ plan.effectiveId other = id := by
  constructor
  · intro hreach
    induction hreach with
    | refl => exact ⟨unit, (h.mem_compileOrder.mp hunit).1, .refl, rfl⟩
    | tail _ hlink ih =>
      obtain ⟨other, hother, hneeds, rfl⟩ := ih
      have hmem := h.closed hunit hother hneeds
      have himport := (hlinked other hmem).links_iff.mp hlink
      obtain ⟨next, hnext, rfl⟩ := List.mem_map.mp himport.mem_units
      exact ⟨next, hnext, hneeds.tail himport, (h.effectiveId_of_import hmem hnext himport).2⟩
  · rintro ⟨other, hother, hneeds, rfl⟩
    -- Every id on the way is that of a unit, whose package is reached.
    have hstep : ∀ id, Relation.ReflTransGen (LocalImport env.parseImports units) (unitId unit) id →
        ∃ v ∈ plan.compileOrder, unitId v = id ∧
          Relation.ReflTransGen disk.Links (plan.effectiveId unit) (plan.effectiveId v) := by
      intro id hid
      induction hid with
      | refl => exact ⟨unit, hunit, rfl, .refl⟩
      | tail _ himport ih =>
        obtain ⟨v, hv, rfl, hreach⟩ := ih
        obtain ⟨next, hnext, rfl⟩ := List.mem_map.mp himport.mem_units
        obtain ⟨hmem, hid⟩ := h.effectiveId_of_import hv hnext himport
        refine ⟨next, hmem, rfl, hreach.tail ?_⟩
        rw [hid]
        exact (hlinked v hv).links_iff.mpr himport
    obtain ⟨v, hv, heq, hreach⟩ := hstep _ hneeds
    rwa [← h.graph.unique v (h.mem_compileOrder.mp hv).1 other hother heq]

/-- If the target is renamed to one of its dependencies, one package stands for two units, and it
cannot be linked with the imports of both. -/
theorem not_linked (hnames : Named units plan.graph options.rename)
    (hrename : RenamedToDependency env.parseImports units config target options.rename)
    {disk : Disk} : ¬∀ unit ∈ plan.compileOrder, LinkedWith disk (plan.effectiveId unit)
      (LocalImport env.parseImports units (unitId unit))
      (NetworkImport env.parseImports units unit) := by
  intro hlinked
  obtain ⟨hprogram, rename, id, hsome, hreach, hpath⟩ := hrename
  have hid : id = normalizeProgramId rename := by
    obtain ⟨unit, hunit, rfl⟩ := List.mem_map.mp (mem_units_of_transGen hreach)
    exact packagePath_injective (hnames.units unit hunit) (hnames.rename rename hsome) hpath
  rw [hid] at hreach
  obtain ⟨dep, hdep, hid⟩ := List.mem_map.mp (mem_units_of_transGen hreach)
  rw [← hid] at hreach
  have hmem := h.closed h.target_mem hdep hreach.to_reflTransGen
  have hne : dep ≠ target := by
    rintro rfl
    exact h.acyclic ⟨unitId dep, hreach⟩
  have hsame : plan.effectiveId target = plan.effectiveId dep := by
    rw [h.effectiveId_of_ne hmem hne, hid]
    unfold Plan.effectiveId effectiveUnitId
    rw [h.rename, hsome]
    unfold DiscoveredUnit.isProgram at hprogram
    cases hkind : target.kind with
    | library name =>
      rw [hkind] at hprogram
      exact nomatch hprogram
    | program programId =>
      have htarget : unitId target = programId := by
        unfold unitId
        rw [hkind]
      exact if_pos htarget.symm
  -- The first import on the way is in the manifest, but the dependency does not import it.
  obtain ⟨next, himport, hrest⟩ := Relation.TransGen.head'_iff.mp hreach
  have hlinks := (hlinked target h.target_mem).links_iff.mpr himport
  rw [hsame] at hlinks
  have hback := (hlinked dep hmem).links_iff.mp hlinks
  exact h.acyclic ⟨unitId dep, Relation.TransGen.head' hback hrest⟩

end Selected

/-- **A run for a selected program compiles it and what it needs, from packages that are linked with
what they import, if and only if the package of its new name is not that of one of its dependencies.**
The names in paths are single ones. The packages are those of the run when they have been prepared, and
they are not changed after it. -/
theorem targeted_iff {w₀ w : World} (hunits : env.discoverUnits = .ok units)
    (hplan : planCompilation config env options = .ok plan)
    (hnames : Named units plan.graph options.rename)
    (htarget : selectedUnit options plan.graph = some target)
    (hprepare : run (prepare platform config env options plan) w₀ = .returned () w) :
    (Targeted env.parseImports units plan.graph target plan.effectiveId plan.compileOrder w.disk ∧
        (run (compilePipeline platform config env options) w₀).state.disk.packages =
          w.disk.packages ∧
        ∀ result w', run (compilePipeline platform config env options) w₀ = .returned result w' →
          result.graph = plan.graph ∧ result.results.map (·.unit) = plan.compileOrder) ↔
      ¬RenamedToDependency env.parseImports units config target options.rename := by
  have h := selected hunits hplan htarget
  constructor
  · exact fun ⟨htargeted, _⟩ hrename => h.not_linked hnames hrename htargeted.linked
  · intro hrename
    have hlinked (unit : DiscoveredUnit) (hunit : unit ∈ plan.compileOrder) :=
      h.linkedWith hrename hprepare hunit
    refine ⟨⟨fun unit => h.mem_compileOrder, h.sublist_order, hlinked,
      fun unit hunit id => h.reaches_iff hlinked hunit, fun unit hunit dep => ?_⟩,
      run_compilePipeline hplan hprepare⟩
    constructor
    · rintro ⟨id, hreach, hfile⟩
      obtain ⟨other, hother, hneeds, rfl⟩ := (h.reaches_iff hlinked hunit).mp hreach
      exact ⟨other, hother, hneeds,
        ((hlinked other (h.closed hunit hother hneeds)).imports dep).mp hfile⟩
    · rintro ⟨other, hother, hneeds, himport⟩
      exact ⟨plan.effectiveId other, (h.reaches_iff hlinked hunit).mpr ⟨other, hother, hneeds, rfl⟩,
        ((hlinked other (h.closed hunit hother hneeds)).imports dep).mpr himport⟩

end Plans

/-! ## A program and the program that it imports -/

namespace Project

def app : DiscoveredUnit where
  kind := .program (js "app.aleo")
  sourceDir := js "programs/app"
  entryFile := js "programs/app/main.leo"
  allSources := [js "main.leo"]
  object := 0

def base : DiscoveredUnit where
  kind := .program (js "base.aleo")
  sourceDir := js "programs/base"
  entryFile := js "programs/base/main.leo"
  allSources := [js "main.leo"]
  object := 1

def config : Config where
  programs := js "programs"
  artifacts := js "artifacts"
  leoVersion := js "4.3.2"
  compiler := { enableDce := true, conditionalBlockMaxDepth := 10, buildTests := false, extraFlags := [] }
  networks := [(js "devnode", .devnode (js "testnet") (js "127.0.0.1:3030"))]
  defaultNetwork := js "devnode"

/-- Nothing can be built; the packages do not depend on it. -/
def platform : Platform where
  sha256 text := text
  sortLocale names := names
  stringOf _ := []
  leoBuild _ _ _ _ := { root := { abi := none, aleo := [], keys := [], interfaces := none }, units := [] }

def environment : Environment where
  discoverUnits := .ok [app, base]
  read dir _ :=
    if dir = app.sourceDir then js "import base.aleo;\nprogram app.aleo \x7b\x7d"
    else js "import credits.aleo;\nprogram base.aleo \x7b\x7d"
  parseImports dir _ := if dir = app.sourceDir then [js "base.aleo"] else [js "credits.aleo"]
  fetchNetworkDep _ _ _ := .ok (js "program credits.aleo;")
  buildEnd _ := .fails (js "leo build failed")

/-- `compile --program app`, with another name for the program. -/
def compileAs (name : JsString) : CompileOptions where
  force := false
  program := js "app"
  rename := some name
  network := none

def isReturned {α : Type} : Outcome World JsString α → Bool
  | .returned .. => true
  | _ => false

/-- The packages of `app` and `base` are prepared, under both names. -/
theorem prepared {name : JsString} (hname : name = js "tenant" ∨ name = js "base") : ∃ plan w,
    planCompilation config environment (compileAs name) = .ok plan ∧
      Named [app, base] plan.graph (some name) ∧
      selectedUnit (compileAs name) plan.graph = some app ∧
      run (prepare platform config environment (compileAs name) plan) ⟨Disk.empty, []⟩ =
        .returned () w := by
  have hprepared : (planCompilation config environment (compileAs name)).toOption.any fun plan =>
      Named [app, base] plan.graph (some name) ∧
      selectedUnit (compileAs name) plan.graph = some app ∧ isReturned
        (run (prepare platform config environment (compileAs name) plan) ⟨Disk.empty, []⟩) := by
    rcases hname with rfl | rfl <;> decide +kernel
  cases hplan : planCompilation config environment (compileAs name) with
  | error e =>
    rw [hplan] at hprepared
    exact nomatch hprepared
  | ok plan =>
    rw [hplan] at hprepared
    obtain ⟨hnames, htarget, hreturned⟩ := of_decide_eq_true hprepared
    cases hrun : run (prepare platform config environment (compileAs name) plan) ⟨Disk.empty, []⟩ with
    | returned a w => exact ⟨plan, w, rfl, hnames, htarget, hrun⟩
    | failed e w =>
      rw [hrun] at hreturned
      exact nomatch hreturned
    | crashed w =>
      rw [hrun] at hreturned
      exact nomatch hreturned

end Project

open Project

theorem targeted_tenant : ∃ plan w,
    planCompilation config environment (compileAs (js "tenant")) = .ok plan ∧
      run (prepare platform config environment (compileAs (js "tenant")) plan) ⟨Disk.empty, []⟩ =
        .returned () w ∧
      Targeted environment.parseImports [app, base] plan.graph app plan.effectiveId
        plan.compileOrder w.disk := by
  obtain ⟨plan, w, hplan, hnames, htarget, hprepare⟩ := prepared (.inl rfl)
  refine ⟨plan, w, hplan, hprepare, ((targeted_iff rfl hplan hnames htarget hprepare).mpr ?_).1⟩
  rintro ⟨-, name, dep, hname, hreach, hpath⟩
  cases hname
  have hapart : ∀ id ∈ [app, base].map unitId,
      packagePath config id ≠ packagePath config (normalizeProgramId (js "tenant")) := by
    decide +kernel
  exact hapart dep (mem_units_of_transGen hreach) hpath

/-- With the name of the program that it imports, `app` takes the package of `base`. -/
theorem renamed_not_targeted : ∃ plan w,
    planCompilation config environment (compileAs (js "base")) = .ok plan ∧
      selectedUnit (compileAs (js "base")) plan.graph = some app ∧
      run (prepare platform config environment (compileAs (js "base")) plan) ⟨Disk.empty, []⟩ =
        .returned () w ∧
      ¬Targeted environment.parseImports [app, base] plan.graph app plan.effectiveId
        plan.compileOrder w.disk := by
  obtain ⟨plan, w, hplan, hnames, htarget, hprepare⟩ := prepared (.inr rfl)
  refine ⟨plan, w, hplan, htarget, hprepare, fun htargeted => ?_⟩
  have himport : LocalImport environment.parseImports [app, base] (unitId app) (unitId base) :=
    ⟨by decide, app, by simp, rfl, base, by simp, rfl, js "base.aleo", by decide, by decide⟩
  have hrename : RenamedToDependency environment.parseImports [app, base] config app
      (compileAs (js "base")).rename :=
    ⟨rfl, js "base", unitId base, rfl, .single himport, rfl⟩
  exact (selected rfl hplan htarget).not_linked hnames hrename htargeted.linked

end Lionden.Build
