import Lionden.Build.Ownership
import Lionden.Lib.Trace

/-!
# Histories of a project

A project is compiled again and again, while its sources, the version of Leo and the options of the runs
change.

* `Workspace`, `Run`, `Workspace.step`: the runs of a project, and what one leaves.
* `Workspace.ReadsFresh`: a unit that a run does not build is read of what a fresh build would leave.
* `Workspace.Careful`: a run trusts no entry that is not for the output that is there.
* `careful_readsFresh`: in a history of such runs every run reads what is fresh.
-/

namespace Lionden.Build

open Compiler Interrupt

/-- What stays the same in all runs of a project. -/
structure Workspace where
  platform : Platform
  settings : Config
  network : Option JsString

/-- What is chosen for a run, and what it finds. -/
structure Run where
  leoVersion : JsString
  env : Environment
  force : Bool
  program : JsString
  rename : Option JsString

/-! ## Fresh builds -/

section Fresh

variable (platform : Platform) (config : Config) (env : Environment) (options : CompileOptions)
  (plan : Plan) (disk : Disk)

/-- The packages of the current sources, with the network dependencies as the cache has them. -/
def Plan.packages (id : JsString) : Option PackageContents :=
  (plan.compileOrder.find? fun unit => plan.effectiveId unit = id).map
    (plan.contents config env (linkedSource platform config env options plan disk)
      (selectedNetworkDeps plan))

/-- What a build of the current sources leaves. -/
def Plan.freshBuild (id : JsString) : BuildDir :=
  platform.leoBuild config.leoVersion (buildFlags config)
    (plan.packages platform config env options disk) id

/-- A program that is not built is read of what a build of the current sources leaves. -/
def IsFresh (compiled : CompilationResult) (w : World) : Prop :=
  compiled.cached = true → compiled.unit.isProgram = true →
    let id := plan.effectiveId compiled.unit
    let fresh := plan.freshBuild platform config env options disk id
    w.disk.builds id = some fresh ∧ ∀ output, compiled.program = some output →
      readProgramAbi platform.stringOf config (some fresh) id = .ok output.abi

/-- What a run hashes of its units, given its packages. -/
def Plan.hashInputs : List (JsString × JsString) → List DiscoveredUnit →
    List (DiscoveredUnit × HashInput)
  | _, [] => []
  | depHashes, unit :: rest =>
    let input := plan.hashInput config env disk depHashes unit
    (unit, input) :: hashInputs ((unitId unit, platform.sha256 (input.text config)) :: depHashes) rest

end Fresh

/-- The units of a run have directories and entries of their own: the names in their paths are single
ones, and no two units have the same. -/
def Plan.Apart (plan : Plan) (rename : Option JsString) : Prop :=
  Named plan.compileOrder plan.graph rename ∧
    (plan.compileOrder.map plan.effectiveId).Nodup ∧ (plan.compileOrder.map plan.cacheId).Nodup

instance (plan : Plan) (rename : Option JsString) : Decidable (plan.Apart rename) :=
  inferInstanceAs (Decidable (_ ∧ _ ∧ _))

namespace Workspace

variable (workspace : Workspace)

def config (r : Run) : Config := workspace.settings.withLeo r.leoVersion

def options (r : Run) : CompileOptions where
  force := r.force
  program := r.program
  rename := r.rename
  network := workspace.network

def compile (r : Run) : Op CompilePipelineResult :=
  compilePipeline workspace.platform (workspace.config r) r.env (workspace.options r)

def prepare (r : Run) (plan : Plan) : Op Unit :=
  Build.prepare workspace.platform (workspace.config r) r.env (workspace.options r) plan

/-- What a run leaves, whether it fails or not. -/
def step (w : World) (r : Run) : World := (run (workspace.compile r) w).state

/-- The project before its first run. -/
def start : World := ⟨Disk.empty, []⟩

/-- What a run reports of the programs that it has not built is fresh. -/
def ReadsFresh (w : World) (r : Run) : Prop :=
  ∀ plan result w', planCompilation (workspace.config r) r.env (workspace.options r) = .ok plan →
    run (workspace.compile r) w = .returned result w' →
    ∀ compiled ∈ result.results, IsFresh workspace.platform (workspace.config r) r.env
      (workspace.options r) plan w.disk compiled w'

/-- The output of a program that is reported, but is not built, is not fresh. -/
def readsStale (w : World) (r : Run) : Bool :=
  (planCompilation (workspace.config r) r.env (workspace.options r)).toOption.any fun plan =>
    match run (workspace.compile r) w with
    | .returned result w' => result.results.any fun compiled =>
      let id := plan.effectiveId compiled.unit
      let fresh := plan.freshBuild workspace.platform (workspace.config r) r.env
        (workspace.options r) w.disk id
      compiled.cached && compiled.unit.isProgram && decide (w'.disk.builds id ≠ some fresh)
    | _ => false

theorem not_readsFresh {workspace : Workspace} {w : World} {r : Run}
    (hstale : workspace.readsStale w r = true) : ¬workspace.ReadsFresh w r := by
  intro hfresh
  unfold readsStale at hstale
  cases hplan : planCompilation (workspace.config r) r.env (workspace.options r) with
  | error e =>
    rw [hplan] at hstale
    cases hstale
  | ok plan =>
    rw [hplan] at hstale
    cases hrun : run (workspace.compile r) w with
    | returned result w' =>
      simp only [hrun, Except.toOption, Option.any_some, List.any_eq_true, Bool.and_eq_true,
        decide_eq_true_eq] at hstale
      obtain ⟨compiled, hmem, ⟨hcached, hprogram⟩, hne⟩ := hstale
      exact hne (hfresh plan result w' hplan hrun compiled hmem hcached hprogram).1
    | failed e w' =>
      rw [hrun] at hstale
      cases hstale
    | crashed w' =>
      rw [hrun] at hstale
      cases hstale

/-- The units and inputs that a run hashes, given the world after its preparation. -/
def inputs (r : Run) (plan : Plan) (w : World) : List (DiscoveredUnit × HashInput) :=
  plan.hashInputs workspace.platform (workspace.config r) r.env w.disk [] plan.compileOrder

/-- Different inputs, of the runs before or of this one, have different texts. -/
def Unambiguous (known : List HashInput) : Prop :=
  ∀ input ∈ known, ∀ input' ∈ known,
    input.text workspace.settings = input'.text workspace.settings → input = input'

instance (known : List HashInput) : Decidable (workspace.Unambiguous known) :=
  inferInstanceAs (Decidable (∀ input ∈ known, ∀ input' ∈ known, _ → _))

/-- If the entry of a program is its hash, it was written for the latest build in its directory. -/
def TrustsOwned (r : Run) (plan : Plan) (w : World) : Prop :=
  ∀ entry ∈ workspace.inputs r plan w, entry.1.isProgram = true →
    isUpToDate (workspace.options r) plan w.disk entry.1
      (workspace.platform.sha256 (entry.2.text workspace.settings)) = true →
    isOwned (plan.cacheId entry.1) (plan.effectiveId entry.1) w.log = true

instance (r : Run) (plan : Plan) (w : World) : Decidable (workspace.TrustsOwned r plan w) :=
  inferInstanceAs (Decidable (∀ entry ∈ _, _ → _ → _))

/-- The units of a run are apart; its inputs and those of the runs before are unambiguous; and it
trusts no entry but those that are for the outputs that are there. -/
def Careful (w : World) (r : Run) : Prop :=
  ∀ plan, planCompilation (workspace.config r) r.env (workspace.options r) = .ok plan →
    plan.Apart r.rename ∧ ∀ w₁, run (workspace.prepare r plan) w = .returned () w₁ →
      workspace.Unambiguous (hashedInputs w.log ++ (workspace.inputs r plan w₁).map (·.2)) ∧
        workspace.TrustsOwned r plan w₁

instance (w : World) (r : Run) : Decidable (workspace.Careful w r) :=
  match hplan : planCompilation (workspace.config r) r.env (workspace.options r) with
  | .error _ => .isTrue fun _ h => nomatch hplan.symm.trans h
  | .ok plan =>
    match hprepare : run (workspace.prepare r plan) w with
    | .returned () w₁ => decidable_of_iff
        (plan.Apart r.rename ∧ workspace.Unambiguous (hashedInputs w.log ++
          (workspace.inputs r plan w₁).map (·.2)) ∧ workspace.TrustsOwned r plan w₁)
        ⟨fun h plan' hplan' => by
          obtain rfl := Except.ok.inj (hplan.symm.trans hplan')
          refine ⟨h.1, fun w' hw' => ?_⟩
          rw [hprepare] at hw'
          cases hw'
          exact h.2,
        fun h => ⟨(h plan hplan).1, (h plan hplan).2 w₁ hprepare⟩⟩
    | .failed .. => decidable_of_iff (plan.Apart r.rename)
        ⟨fun h plan' hplan' => by
          obtain rfl := Except.ok.inj (hplan.symm.trans hplan')
          exact ⟨h, fun w' hw' => nomatch hprepare.symm.trans hw'⟩,
        fun h => (h plan hplan).1⟩
    | .crashed .. => decidable_of_iff (plan.Apart r.rename)
        ⟨fun h plan' hplan' => by
          obtain rfl := Except.ok.inj (hplan.symm.trans hplan')
          exact ⟨h, fun w' hw' => nomatch hprepare.symm.trans hw'⟩,
        fun h => (h plan hplan).1⟩

end Workspace

/-! ## The units of a run -/

section Units

variable {platform : Platform} {settings config : Config} {network leoVersion : JsString}
  {env : Environment} {options : CompileOptions} {plan : Plan} {disk : Disk}

theorem packages_eq (hids : (plan.compileOrder.map plan.effectiveId).Nodup)
    {unit : DiscoveredUnit} (hunit : unit ∈ plan.compileOrder) :
    plan.packages platform config env options disk (plan.effectiveId unit) =
      some (plan.contents config env (linkedSource platform config env options plan disk)
        (selectedNetworkDeps plan) unit) := by
  have hfind : plan.compileOrder.find? (fun other => plan.effectiveId other =
      plan.effectiveId unit) = some unit := by
    cases hfound : plan.compileOrder.find? (fun other => plan.effectiveId other =
        plan.effectiveId unit) with
    | none => exact absurd rfl (of_decide_eq_false
        (Bool.eq_false_iff.mpr (List.find?_eq_none.mp hfound unit hunit)))
    | some other =>
      have hid := List.find?_some hfound
      rw [decide_eq_true_eq] at hid
      rw [List.inj_on_of_nodup_map hids (List.mem_of_find?_eq_some hfound) hunit hid]
  unfold Plan.packages
  rw [hfind]
  rfl

/-- What tells the units of a plan apart. -/
theorem ne_of_order {f : DiscoveredUnit → JsString} (hnodup : (plan.compileOrder.map f).Nodup)
    {done rest : List DiscoveredUnit} {unit other : DiscoveredUnit}
    (horder : plan.compileOrder = done ++ unit :: rest) (hother : other ∈ done ∨ other ∈ rest) :
    f unit ≠ f other := by
  rw [horder, List.map_append, List.map_cons] at hnodup
  intro heq
  rcases hother with hother | hother
  · exact List.disjoint_of_nodup_append hnodup (List.mem_map_of_mem hother)
      (heq ▸ List.mem_cons_self)
  · have hcons := (List.nodup_append.mp hnodup).2.1
    exact (List.nodup_cons.mp hcons).1 (heq ▸ List.mem_map_of_mem hother)

/-- What is hashed of a unit and how it is found in the cache depend on a part of the directory. -/
theorem hashInput_congr {w w' : Disk} (h : w.packages = w'.packages)
    (depHashes : List (JsString × JsString)) (unit : DiscoveredUnit) :
    plan.hashInput config env w depHashes unit = plan.hashInput config env w' depHashes unit := by
  unfold Plan.hashInput
  rw [h]

theorem isUpToDate_congr {w w' : Disk} {unit : DiscoveredUnit} {hash : JsString}
    (hhashes : w.hashes (plan.cacheId unit) = w'.hashes (plan.cacheId unit))
    (hbuilds : w.builds (plan.effectiveId unit) = w'.builds (plan.effectiveId unit)) :
    isUpToDate options plan w unit hash = isUpToDate options plan w' unit hash := by
  unfold isUpToDate isCached
  rw [hhashes, hbuilds]

/-- What concerns a unit alone is as it was in `w₀`. -/
structure Untouched (cacheId id : JsString) (w₀ w : World) : Prop where
  builds : w.disk.builds id = w₀.disk.builds id
  hashes : w.disk.hashes cacheId = w₀.disk.hashes cacheId
  owned : isOwned cacheId id w.log = isOwned cacheId id w₀.log

theorem Untouched.refl (cacheId id : JsString) (w : World) : Untouched cacheId id w w :=
  ⟨rfl, rfl, rfl⟩

/-- An effect of one unit does not touch another. -/
theorem Untouched.apply {cacheId id other otherId : JsString} {w₀ w : World} {k : Effect}
    (h : Untouched cacheId id w₀ w) (hk : k.Concerns other otherId) (hcacheId : other ≠ cacheId)
    (hid : otherId ≠ id) : Untouched cacheId id w₀ (k.apply w) := by
  cases k with
  | build built output =>
    obtain rfl : built = otherId := hk
    refine ⟨(Function.update_of_ne (Ne.symm hid) _ _).trans h.builds, h.hashes, ?_⟩
    show (built != id && isOwned cacheId id w.log) = _
    rw [bne_iff_ne.mpr hid, Bool.true_and, h.owned]
  | writeCache written hash =>
    obtain rfl : written = other := hk
    refine ⟨h.builds, (Function.update_of_ne (Ne.symm hcacheId) _ _).trans h.hashes, ?_⟩
    show (if written = cacheId then _ else isOwned cacheId id w.log) = _
    rw [if_neg hcacheId, h.owned]
  | hashUnit | askCache | replaceArtifacts | writeMetadata => exact ⟨h.builds, h.hashes, h.owned⟩
  | _ => exact hk.elim

/-- What a run has when its packages are prepared; `disk` is the directory before the run. -/
structure Ready (platform : Platform) (settings : Config) (network leoVersion : JsString)
    (env : Environment) (options : CompileOptions) (plan : Plan) (disk : Disk)
    (known : List HashInput) (w₁ : World) : Prop where
  reliable : platform.Reliable
  network_eq : plan.network = network
  ordered : Ordered plan
  units : (plan.compileOrder.map unitId).Nodup
  ids : (plan.compileOrder.map plan.effectiveId).Nodup
  entries : (plan.compileOrder.map plan.cacheId).Nodup
  packed : Packed (settings.withLeo leoVersion) env plan
    (linkedSource platform (settings.withLeo leoVersion) env options plan disk)
    (selectedNetworkDeps plan) plan.compileOrder w₁
  copied : ∀ unit ∈ plan.compileOrder, Copied env plan unit
  unambiguous : Merkle.Unambiguous (scheme platform settings network) (· ∈ known)

/-- A run that has compiled some units and has others before it. -/
structure Running (platform : Platform) (settings : Config) (network leoVersion : JsString)
    (env : Environment) (options : CompileOptions) (plan : Plan) (disk : Disk)
    (known : List HashInput) (w₁ : World) (done rest : List DiscoveredUnit)
    (depHashes : List (JsString × JsString)) (w : World) : Prop where
  sound : Sound platform settings network w
  known : ∀ input ∈ hashedInputs w.log, input ∈ known
  packages : w.disk.packages = w₁.disk.packages
  untouched : ∀ unit ∈ rest, Untouched (plan.cacheId unit) (plan.effectiveId unit) w₁ w
  /-- The inputs of the units that are done describe their packages, as they are and as they are when
  they are fresh. -/
  recorded : ∀ other ∈ done, ∃ input,
    depHashes.lookup (unitId other) = some (platform.sha256 (input.text settings)) ∧
      ∀ world ∈ [w₁.disk.contents,
          plan.packages platform (settings.withLeo leoVersion) env options disk],
        Merkle.Describes (scheme platform settings network) (· ∈ hashedInputs w.log) world
          (unitId other) (plan.effectiveId other) input

section Ready

variable {known : List HashInput} {w₁ w : World} {done rest : List DiscoveredUnit}
  {unit : DiscoveredUnit} {depHashes : List (JsString × JsString)}
  (h : Ready platform settings network leoVersion env options plan disk known w₁)

include h

/-- The input of the next unit describes its package. -/
theorem Running.describes
    (hw : Running platform settings network leoVersion env options plan disk known w₁ done
      (unit :: rest) depHashes w)
    (horder : plan.compileOrder = done ++ unit :: rest)
    {world : JsString → Option PackageContents}
    (hworld : world ∈ [w₁.disk.contents,
      plan.packages platform (settings.withLeo leoVersion) env options disk]) :
    Merkle.Describes (scheme platform settings network)
      (· ∈ plan.hashInput (settings.withLeo leoVersion) env w.disk depHashes unit ::
        hashedInputs w.log)
      world (unitId unit) (plan.effectiveId unit)
      (plan.hashInput (settings.withLeo leoVersion) env w.disk depHashes unit) := by
  have hunit : unit ∈ plan.compileOrder := by
    rw [horder]
    exact List.mem_append_right _ List.mem_cons_self
  have hcontents := h.packed unit hunit
  have hpackage : world (plan.effectiveId unit) = some (plan.contents (settings.withLeo leoVersion)
      env (linkedSource platform (settings.withLeo leoVersion) env options plan disk)
      (selectedNetworkDeps plan) unit) := by
    rcases List.mem_cons.mp hworld with rfl | hworld
    · exact hcontents
    · rw [List.mem_singleton.mp hworld]
      exact packages_eq h.ids hunit
  refine describes_unit rfl h.network_eq (h.copied unit hunit) ?_ hpackage List.mem_cons_self
    fun dep hdep => ?_
  · unfold Disk.contents
    rw [hw.packages]
    exact hcontents
  · obtain ⟨other, hother, rfl, hid⟩ := h.ordered done unit rest horder dep hdep
    obtain ⟨input, hlookup, hdescribes⟩ := hw.recorded other hother
    refine ⟨input, hlookup, ?_⟩
    have hother := hdescribes world hworld
    rw [hid] at hother
    exact hother.mono fun _ hi => List.mem_cons_of_mem _ hi

/-- The unit is compiled, and a program that is not built is read of what is fresh. -/
theorem compileUnit_running
    (hw : Running platform settings network leoVersion env options plan disk known w₁ done
      (unit :: rest) depHashes w)
    (horder : plan.compileOrder = done ++ unit :: rest)
    (hknown : plan.hashInput (settings.withLeo leoVersion) env w.disk depHashes unit ∈ known)
    (howned : unit.isProgram = true → isUpToDate options plan w₁.disk unit (platform.sha256
      ((plan.hashInput (settings.withLeo leoVersion) env w.disk depHashes unit).text settings)) =
        true → isOwned (plan.cacheId unit) (plan.effectiveId unit) w₁.log = true) :
    Ends (· = w)
      (compileUnit platform (settings.withLeo leoVersion) env options plan depHashes unit)
      (fun result w' => (result.1.unit = unit ∧
          Running platform settings network leoVersion env options plan disk known w₁
            (done ++ [unit]) rest ((unitId unit, result.2) :: depHashes) w') ∧
        result.2 = platform.sha256
          ((plan.hashInput (settings.withLeo leoVersion) env w.disk depHashes unit).text settings) ∧
        IsFresh platform (settings.withLeo leoVersion) env options plan disk result.1 w')
      (fun w' => Sound platform settings network w' ∧
        ∀ input ∈ hashedInputs w'.log, input ∈ known) := by
  have hcontents : w.disk.contents = w₁.disk.contents := by
    unfold Disk.contents
    rw [hw.packages]
  have hdescribes := hw.describes h horder List.mem_cons_self
  rw [← hcontents] at hdescribes
  have hfresh := hw.describes h horder (List.mem_cons_of_mem _ List.mem_cons_self)
  generalize hinput : plan.hashInput (settings.withLeo leoVersion) env w.disk depHashes unit = input at *
  have hinputs {w' : World} (hhashed : hashedInputs w'.log = input :: hashedInputs w.log) :
      ∀ input ∈ hashedInputs w'.log, input ∈ known := by
    rw [hhashed]
    exact List.forall_mem_cons.mpr ⟨hknown, hw.known⟩
  -- What the effects of this unit leave as it is.
  let kept (w' : World) : Prop := w'.disk.packages = w₁.disk.packages ∧
    ∀ other ∈ rest, Untouched (plan.cacheId other) (plan.effectiveId other) w₁ w'
  have hkept : Ends (· = w)
      (compileUnit platform (settings.withLeo leoVersion) env options plan depHashes unit)
      (fun result w' => result.1.unit = unit ∧ kept w') kept := by
    refine Triple.weaken (compileUnit_preserves (I := kept) depHashes unit fun k w' hk hw' => ?_)
      (fun _ hw' => ?_) (fun _ _ h => h) (fun _ h => h) fun _ h => h
    · refine ⟨(packages_of_concerns hk w'.disk).trans hw'.1, fun other hother => ?_⟩
      refine (hw'.2 other hother).apply hk ?_ ?_
      · exact ne_of_order h.entries horder (.inr hother)
      · exact ne_of_order h.ids horder (.inr hother)
    · subst hw'
      exact ⟨hw.packages, fun other hother => hw.untouched other (List.mem_cons_of_mem _ hother)⟩
  refine Triple.weaken (Triple.and (compileUnit_spec rfl hinput hw.sound hdescribes) hkept)
    (fun _ h => h) (fun result w' h' => ?_) (fun w' h' => ⟨h'.1.2, hinputs h'.1.1⟩) fun _ h => h.1
  obtain ⟨hcompiled, hunit, hpackages, huntouched⟩ := h'
  refine ⟨⟨hunit, hcompiled.sound, hinputs hcompiled.hashed, hpackages, huntouched, ?_⟩,
    hcompiled.hash, fun hcached hprogram => ?_⟩
  · intro other hother
    rw [List.lookup_cons]
    rcases List.mem_append.mp hother with hother | hother
    · obtain ⟨recorded, hlookup, hdescribed⟩ := hw.recorded other hother
      have hne : (unitId other == unitId unit) = false :=
        beq_eq_false_iff_ne.mpr (ne_of_order h.units horder (.inl hother)).symm
      rw [hne]
      exact ⟨recorded, hlookup, fun world hworld => (hdescribed world hworld).mono fun i hi => by
        rw [hcompiled.hashed]
        exact List.mem_cons_of_mem _ hi⟩
    · obtain rfl := List.mem_singleton.mp hother
      rw [beq_self_eq_true, hcompiled.hash]
      refine ⟨input, rfl, fun world hworld => ?_⟩
      rw [hcompiled.hashed, ← hinput]
      exact hw.describes h horder hworld
  · -- The entry is the hash, so it owns the directory.
    have huntouched := hw.untouched unit List.mem_cons_self
    have hupToDate := hcompiled.upToDate hcached
    have hbefore : isUpToDate options plan w.disk unit result.2 =
        isUpToDate options plan w₁.disk unit result.2 :=
      isUpToDate_congr huntouched.hashes huntouched.builds
    rw [hcompiled.hash] at hupToDate hbefore
    have hown := howned (hunit ▸ hprogram) (hbefore.symm.trans hupToDate)
    rw [← huntouched.owned] at hown
    have hentry : isCached w.disk (plan.cacheId unit) (platform.sha256 (input.text settings)) =
        true := by
      unfold isUpToDate at hupToDate
      rw [Bool.and_eq_true, Bool.and_eq_true] at hupToDate
      exact hupToDate.1.2
    have hbuild := Sound.fresh h.reliable h.unambiguous hw.known hw.sound hown hentry
      (hfresh.mono fun i hi => (List.forall_mem_cons.mpr ⟨hknown, hw.known⟩) i hi)
    have hversion : input.compilerVersion = leoVersion := by
      rw [← hinput]
      rfl
    rw [hversion] at hbuild
    rw [hunit]
    refine ⟨(hcompiled.builds hcached).trans hbuild, fun output houtput => ?_⟩
    have habi := hcompiled.abi hcached output houtput
    rw [hbuild] at habi
    exact habi

/-- The units are compiled, and every program that is not built is read of what is fresh. -/
theorem compileUnits_running (depHashes : List (JsString × JsString))
    (done rest : List DiscoveredUnit) (horder : plan.compileOrder = done ++ rest)
    (hentries : ∀ entry ∈ plan.hashInputs platform (settings.withLeo leoVersion) env w₁.disk depHashes
        rest, entry.2 ∈ known ∧ (entry.1.isProgram = true →
      isUpToDate options plan w₁.disk entry.1 (platform.sha256 (entry.2.text settings)) = true →
        isOwned (plan.cacheId entry.1) (plan.effectiveId entry.1) w₁.log = true)) :
    Ends (Running platform settings network leoVersion env options plan disk known w₁ done rest
        depHashes)
      (compileUnits platform (settings.withLeo leoVersion) env options plan depHashes rest)
      (fun results w => (Sound platform settings network w ∧
          ∀ input ∈ hashedInputs w.log, input ∈ known) ∧
        ∀ compiled ∈ results,
          IsFresh platform (settings.withLeo leoVersion) env options plan disk compiled w)
      (fun w => Sound platform settings network w ∧
        ∀ input ∈ hashedInputs w.log, input ∈ known) := by
  induction rest generalizing done depHashes with
  | nil => exact Triple.pure fun w hw => ⟨⟨hw.sound, hw.known⟩, List.forall_mem_nil _⟩
  | cons unit rest ih =>
    refine Triple.known fun w hw => ?_
    have hinput : plan.hashInput (settings.withLeo leoVersion) env w.disk depHashes unit =
        plan.hashInput (settings.withLeo leoVersion) env w₁.disk depHashes unit :=
      hashInput_congr hw.packages depHashes unit
    obtain ⟨⟨hknown, howned⟩, hrest⟩ := List.forall_mem_cons.mp hentries
    dsimp only at hknown howned
    rw [← hinput] at hknown howned
    refine Triple.bind (compileUnit_running h hw horder hknown howned) fun result => ?_
    obtain ⟨compiled, hash⟩ := result
    refine Triple.known fun w' ⟨⟨hunit, hw'⟩, hhash, hfresh⟩ => ?_
    dsimp only at hunit hw' hhash hfresh ⊢
    rw [hinput] at hhash
    subst hhash
    have hwhole : plan.compileOrder = (done ++ [unit]) ++ rest := by
      rw [horder, List.append_assoc]
      rfl
    -- The units that follow leave the output of this one as it is.
    have hothers (depHashes : List (JsString × JsString)) :
        Ends (· = w') (compileUnits platform (settings.withLeo leoVersion) env options plan depHashes rest)
          (fun _ w => w.disk.builds (plan.effectiveId unit) = w'.disk.builds (plan.effectiveId unit))
          (fun _ => True) := by
      refine Triple.weaken (compileUnits_preserves (I := fun w =>
        w.disk.builds (plan.effectiveId unit) = w'.disk.builds (plan.effectiveId unit)) depHashes rest
        fun other hother k w hk hw => ?_) (fun _ h => h ▸ rfl) (fun _ _ h => h.2)
        (fun _ _ => trivial) fun _ h => h
      have hkept := (Untouched.refl (plan.cacheId unit) (plan.effectiveId unit) w).apply hk
        (ne_of_order h.entries horder (.inr hother)).symm
        (ne_of_order h.ids horder (.inr hother)).symm
      exact hkept.builds.trans hw
    have hrest : Ends (· = w') (compileUnits platform (settings.withLeo leoVersion) env options plan _
        rest) _ _ :=
      Triple.weaken (ih _ _ hwhole hrest) (fun _ h => h ▸ hw') (fun _ _ h => h) (fun _ h => h)
        fun _ h => h
    have hrest := Triple.and hrest (hothers _)
    refine Triple.bind (Triple.weaken hrest (fun _ h => h) (fun _ _ h => h) (fun _ h => h.1)
      fun _ h => h.1) fun results => Triple.pure fun w'' ⟨hends, hbuilds⟩ => ⟨hends.1, ?_⟩
    refine List.forall_mem_cons.mpr ⟨fun hcached hprogram => ?_, hends.2⟩
    obtain ⟨hbuild, habi⟩ := hfresh hcached hprogram
    rw [← hunit] at hbuilds
    exact ⟨hbuilds.trans hbuild, habi⟩

end Ready

end Units

/-! ## The runs -/

namespace Workspace

variable (workspace : Workspace)

/-- The network that dependencies come from. -/
def networkName : JsString := workspace.network.getD workspace.settings.defaultNetwork

/-- The outputs are sound, and what has been hashed is unambiguous. -/
structure Good (w : World) : Prop where
  sound : Sound workspace.platform workspace.settings workspace.networkName w
  unambiguous : workspace.Unambiguous (hashedInputs w.log)

theorem good_start : workspace.Good start :=
  ⟨fun _ _ h => (nomatch h), fun _ h => (nomatch h)⟩

variable {workspace} {w w₁ : World} {r : Run} {plan : Plan}

theorem Unambiguous.scheme (hreliable : workspace.platform.Reliable) {known : List HashInput}
    (h : workspace.Unambiguous known) :
    Merkle.Unambiguous (scheme workspace.platform workspace.settings workspace.networkName)
      (· ∈ known) :=
  fun input input' hinput hinput' heq =>
    h input hinput input' hinput' (hreliable.sha256_injective heq)

theorem Unambiguous.mono {known known' : List HashInput} (h : workspace.Unambiguous known)
    (hmem : ∀ input ∈ known', input ∈ known) : workspace.Unambiguous known' :=
  fun input hinput input' hinput' => h input (hmem input hinput) input' (hmem input' hinput')

theorem Good.calm (h : workspace.Good w) (hcalm : Calm w w₁) : workspace.Good w₁ := by
  obtain ⟨new, hlog, hnew⟩ := hcalm.log
  refine ⟨h.sound.calm hcalm, ?_⟩
  rw [hlog, hashedInputs_append_preparations hnew]
  exact h.unambiguous

/-- The units of a careful run whose packages are prepared. -/
theorem Careful.compileUnits (hreliable : workspace.platform.Reliable) (hgood : workspace.Good w)
    (hcareful : workspace.Careful w r)
    (hplan : planCompilation (workspace.config r) r.env (workspace.options r) = .ok plan)
    (hprepare : run (workspace.prepare r plan) w = .returned () w₁) :
    Ends (· = w₁) (Build.compileUnits workspace.platform (workspace.config r) r.env
        (workspace.options r) plan [] plan.compileOrder)
      (fun results w' => workspace.Good w' ∧ ∀ compiled ∈ results, IsFresh workspace.platform
        (workspace.config r) r.env (workspace.options r) plan w.disk compiled w')
      workspace.Good := by
  obtain ⟨⟨-, hids, hentries⟩, hinputs⟩ := hcareful plan hplan
  obtain ⟨hunambiguous, howned⟩ := hinputs w₁ hprepare
  obtain ⟨hunits, hnetwork⟩ := planCompilation_units hplan
  obtain ⟨⟨hframe, hpacked⟩, hcopied, -⟩ := (prepare_spec w hids).returned rfl hprepare
  obtain ⟨new, hlog, hnew⟩ := hframe.log
  have hhashed : hashedInputs w₁.log = hashedInputs w.log := by
    rw [hlog, hashedInputs_append_preparations hnew]
  have hready : Ready workspace.platform workspace.settings workspace.networkName r.leoVersion r.env
      (workspace.options r) plan w.disk
      (hashedInputs w.log ++ (workspace.inputs r plan w₁).map (·.2)) w₁ :=
    ⟨hreliable, hnetwork, planCompilation_ordered hplan, hunits, hids, hentries, hpacked, hcopied,
      hunambiguous.scheme hreliable⟩
  refine Triple.weaken (compileUnits_running hready [] [] plan.compileOrder rfl fun entry hentry =>
      ⟨List.mem_append_right _ (List.mem_map_of_mem hentry), fun hprogram hupToDate => ?_⟩) ?_ ?_ ?_
    fun _ h => h
  · exact howned entry hentry hprogram hupToDate
  · rintro _ rfl
    refine ⟨(hgood.calm hframe.calm).sound, fun input hinput => ?_, rfl,
      fun _ _ => Untouched.refl .., List.forall_mem_nil _⟩
    rw [hhashed] at hinput
    exact List.mem_append_left _ hinput
  · intro results w' h'
    exact ⟨⟨h'.1.1, hunambiguous.mono h'.1.2⟩, h'.2⟩
  · exact fun w' h' => ⟨h'.1, hunambiguous.mono h'.2⟩

/-- **A careful run reads what is fresh**, and leaves the outputs sound, whether it fails or not. -/
theorem Careful.compile (hreliable : workspace.platform.Reliable) (hgood : workspace.Good w)
    (hcareful : workspace.Careful w r) :
    workspace.Good (workspace.step w r) ∧ workspace.ReadsFresh w r := by
  have hends : Ends (· = w) (workspace.compile r)
      (fun result w' => workspace.Good w' ∧
        ∀ plan, planCompilation (workspace.config r) r.env (workspace.options r) = .ok plan →
          ∀ compiled ∈ result.results, IsFresh workspace.platform (workspace.config r) r.env
            (workspace.options r) plan w.disk compiled w')
      workspace.Good := by
    refine Triple.bind (M := fun plan w' => planCompilation (workspace.config r) r.env
      (workspace.options r) = .ok plan ∧ w' = w) (Ends.attempt (fun plan hplan _ hw' => ⟨hplan, hw'⟩)
      fun _ _ _ hw' => hw' ▸ hgood) fun plan => ?_
    refine Triple.known fun w' ⟨hplan, hw'⟩ => ?_
    subst hw'
    have hids := (hcareful plan hplan).1.2.1
    refine Triple.bind (Triple.weaken (Ends.result (prepare_spec w' hids)) (fun _ h => h)
      (fun _ _ h => h) (fun w₁ h => hgood.calm h.1.calm) fun _ h => h) fun _ => ?_
    refine Triple.known fun w₁ ⟨hprepare, _⟩ => ?_
    refine Triple.bind (hcareful.compileUnits hreliable hgood hplan hprepare) fun results => ?_
    refine Triple.pure fun w'' h' => ⟨h'.1, fun plan' hplan' => ?_⟩
    obtain rfl := Except.ok.inj (hplan.symm.trans hplan')
    exact h'.2
  constructor
  · unfold step
    rcases hends.run rfl with ⟨result, w', hrun, h', -⟩ | ⟨e, w', hrun, h'⟩
    · rw [hrun]
      exact h'
    · rw [hrun]
      exact h'
  · intro plan result w' hplan hrun
    exact (hends.returned rfl hrun).2 plan hplan

end Workspace

/-- **A project whose runs are all careful is sound**: whatever is edited, selected, renamed and
forced between the runs, and whichever of them fail, a program that a run does not build is read of
what a build of its current sources leaves. -/
theorem careful_readsFresh {workspace : Workspace} (hreliable : workspace.platform.Reliable)
    {runs : List Run} (hcareful : Trace.AllSteps workspace.step workspace.Careful Workspace.start runs) :
    Trace.AllSteps workspace.step workspace.ReadsFresh Workspace.start runs := by
  intro k r hr
  have hgood := hcareful.invariant (I := workspace.Good)
    (fun w r hw hr => (hr.compile hreliable hw).1) workspace.good_start k
  exact ((hcareful k r hr).compile hreliable hgood).2

/-! ## Two programs under one name -/

namespace Renames

def program (name : JsString) (object : Nat) : DiscoveredUnit where
  kind := .program (name ++ js ".aleo")
  sourceDir := name
  entryFile := name ++ js "/main.leo"
  allSources := [js "main.leo"]
  object := object

/-- The output of a package has its source, and an ABI of its name. -/
def platform : Platform where
  sha256 text := js "<" ++ text ++ js ">"
  sortLocale names := names
  stringOf _ := []
  leoBuild _ _ packages id :=
    let source := ((packages id).bind fun contents => contents.src (js "main.leo")).getD []
    let abi := js "\x7b\"program\":" ++ jsonStringify id ++
      js ",\"structs\":[],\"records\":[],\"mappings\":[],\"functions\":[]\x7d"
    { root := {
        abi := some { text := abi, mtimeMs := 0 }
        aleo := [(js "main.aleo", { text := source, mtimeMs := 0 })]
        keys := []
        interfaces := none }
      units := [] }

theorem reliable : platform.Reliable where
  sha256_injective text text' h := by
    exact List.append_cancel_left (List.append_cancel_right h)
  sha256_trimmed text := by
    have htrimmed : Trimmed (js "<" ++ text ++ js ">") := by
      refine ⟨List.cons_ne_nil _ _, fun c hc => ?_, fun c hc => ?_⟩
      · obtain rfl := Option.some.inj hc
        decide
      · rw [List.getLast?_append] at hc
        obtain rfl := Option.some.inj hc
        decide
    have hnewline : Spaces newline := by
      unfold Spaces newline
      decide
    exact trim_append_spaces .nil htrimmed hnewline
  leoBuild_local _ _ packages packages' id h := by
    show _ = _
    unfold platform
    dsimp only
    rw [h id .refl]

def workspace : Workspace where
  platform := platform
  settings := {
    programs := js "programs"
    artifacts := js "artifacts"
    leoVersion := js "4.3.2"
    compiler :=
      { enableDce := true, conditionalBlockMaxDepth := 10, buildTests := false, extraFlags := [] }
    networks := [(js "devnode", .devnode (js "testnet") (js "127.0.0.1:3030"))]
    defaultNetwork := js "devnode" }
  network := none

/-- `app` or `base` is compiled under another name. -/
def compileAs (name rename : String) : Run where
  leoVersion := js "4.3.2"
  env := {
    discoverUnits := .ok [program (js "app") 0, program (js "base") 1]
    read dir _ := js "program " ++ dir ++ js ".aleo \x7b\x7d // " ++ dir
    parseImports _ _ := []
    fetchNetworkDep _ _ _ := .error (js "offline")
    buildEnd _ := .succeeds }
  force := false
  program := js name
  rename := some (js rename)

end Renames

open Renames

theorem careful_readsFresh_app : Trace.AllSteps workspace.step workspace.ReadsFresh Workspace.start
    [compileAs "app" "shop", compileAs "app" "store", compileAs "app" "shop"] :=
  careful_readsFresh reliable (by decide +kernel)

/-- When `app` and `base` have both been compiled as `shop`, `app` is read of the output of `base`. -/
theorem shared_not_fresh : platform.Reliable ∧ ¬Trace.AllSteps workspace.step workspace.ReadsFresh
    Workspace.start [compileAs "app" "shop", compileAs "base" "shop", compileAs "app" "shop"] :=
  ⟨reliable, fun h => Workspace.not_readsFresh (by decide +kernel) (h 2 _ rfl)⟩

end Lionden.Build
