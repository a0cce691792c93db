import Lionden.Build.Pipeline

/-!
# Prepared packages

* `Ends`: what an operation that is not interrupted ends in.
* `Plan.contents`: what is in the package of a unit before it is built.
* `prepare_spec`: after `prepare` the packages of all units are so, and nothing has been built.
-/

namespace Lionden.Build

open Compiler Interrupt

/-! ## Operations -/

/-- A triple for operations that are not interrupted. -/
abbrev Ends {α : Type} (P : World → Prop) (op : Op α) (Q : α → World → Prop) (F : World → Prop) :
    Prop :=
  Triple (fun _ _ => False) P op Q F fun _ => False

section Ends

variable {α : Type} {P F : World → Prop} {Q : α → World → Prop}

theorem Ends.perform {k : Effect} {Q : Unit → World → Prop} (h : ∀ w, P w → Q () (k.apply w)) :
    Ends P (perform k) Q F :=
  Triple.perform (fun _ _ hsafe => hsafe) h

theorem Ends.attempt {x : Except JsString α} (hok : ∀ a, x = .ok a → ∀ w, P w → Q a w)
    (herror : ∀ e, x = .error e → ∀ w, P w → F w) : Ends P (attempt x) Q F := by
  cases x with
  | ok a => exact Triple.pure (hok a rfl)
  | error e => exact Triple.fail (herror e rfl)

theorem Ends.run {op : Op α} (h : Ends P op Q F) {w : World} (hw : P w) :
    (∃ a w', run op w = .returned a w' ∧ Q a w') ∨ ∃ e w', run op w = .failed e w' ∧ F w' := by
  have hrun := h (fun _ _ => false) w (fun _ _ hk => nomatch hk) hw
  unfold Build.run
  cases hop : op (fun _ _ => false) w with
  | returned a w' =>
    rw [hop] at hrun
    exact .inl ⟨a, w', rfl, hrun⟩
  | failed e w' =>
    rw [hop] at hrun
    exact .inr ⟨e, w', rfl, hrun⟩
  | crashed w' =>
    rw [hop] at hrun
    exact hrun.elim

theorem Ends.returned {op : Op α} (h : Ends P op Q F) {w w' : World} {a : α} (hw : P w)
    (hrun : Build.run op w = .returned a w') : Q a w' :=
  Triple.returned h (fun _ _ (hk : false = true) => nomatch hk) hw hrun

/-- What a run returns is what it ends in. -/
theorem Ends.result {op : Op α} {w₀ : World} (h : Ends (· = w₀) op Q F) :
    Ends (· = w₀) op (fun a w => Build.run op w₀ = .returned a w ∧ Q a w) F := by
  intro crash w hcrash hw
  have hnever : crash = fun _ _ => false :=
    funext fun k => funext fun w => Bool.eq_false_iff.mpr (hcrash k w)
  subst hw hnever
  rcases h.run rfl with ⟨a, w', hrun, hQ⟩ | ⟨e, w', hrun, hF⟩
  · rw [show op (fun _ _ => false) w = .returned a w' from hrun]
    exact ⟨hrun, hQ⟩
  · rw [show op (fun _ _ => false) w = .failed e w' from hrun]
    exact hF

end Ends

/-! ## Preparations -/

/-- An effect that prepares a package. -/
def Effect.IsPreparation : Effect → Prop
  | hashUnit _ | askCache .. | build .. | writeCache .. => False
  | _ => True

/-- Nothing has been built since `w₀`, and no artifacts were written. -/
structure Frame (w₀ w : World) : Prop where
  builds : w.disk.builds = w₀.disk.builds
  artifacts : w.disk.artifacts = w₀.disk.artifacts
  hashes : w.disk.hashes = w₀.disk.hashes
  log : ∃ new, w.log = new ++ w₀.log ∧ ∀ k ∈ new, k.IsPreparation

theorem Frame.refl (w : World) : Frame w w := ⟨rfl, rfl, rfl, [], rfl, by simp⟩

theorem Frame.trans {w₀ w₁ w₂ : World} (h₁ : Frame w₀ w₁) (h₂ : Frame w₁ w₂) : Frame w₀ w₂ := by
  obtain ⟨new₁, hlog₁, hnew₁⟩ := h₁.log
  obtain ⟨new₂, hlog₂, hnew₂⟩ := h₂.log
  refine ⟨h₂.builds.trans h₁.builds, h₂.artifacts.trans h₁.artifacts, h₂.hashes.trans h₁.hashes,
    new₂ ++ new₁, by rw [hlog₂, hlog₁, List.append_assoc], fun k hk => ?_⟩
  rcases List.mem_append.mp hk with hk | hk
  · exact hnew₂ k hk
  · exact hnew₁ k hk

/-- Nothing but the package `id` has been changed since `w₀`. -/
structure Around (w₀ : World) (id : JsString) (w : World) : Prop extends Frame w₀ w where
  packages : ∀ other, other ≠ id → w.disk.packages other = w₀.disk.packages other
  networkDeps : w.disk.networkDeps = w₀.disk.networkDeps

/-- An effect on the package `id`, and on nothing else. -/
structure Effect.Modifies (k : Effect) (id : JsString) (f : Package → Package) : Prop where
  change : ∀ disk, k.change disk = disk.modifyPackage id f
  preparation : k.IsPreparation

theorem clearPackage_modifies (id : JsString) :
    (Effect.clearPackage id).Modifies id fun _ => Package.empty :=
  ⟨fun _ => rfl, trivial⟩

theorem copySource_modifies (id relPath text : JsString) :
    (Effect.copySource id relPath text).Modifies id fun package =>
      { package with src := package.src.write relPath text } :=
  ⟨fun _ => rfl, trivial⟩

theorem writeProgramJson_modifies (id : JsString) (manifest : Manifest) :
    (Effect.writeProgramJson id manifest).Modifies id fun package =>
      { package with programJson := some manifest } :=
  ⟨fun _ => rfl, trivial⟩

theorem writeEnv_modifies (id env : JsString) :
    (Effect.writeEnv id env).Modifies id fun package => { package with env := some env } :=
  ⟨fun _ => rfl, trivial⟩

theorem writeImport_modifies (id dep text : JsString) :
    (Effect.writeImport id dep text).Modifies id fun package =>
      { package with imports := package.imports.write dep text } :=
  ⟨fun _ => rfl, trivial⟩

theorem Around.refl (w : World) (id : JsString) : Around w id w :=
  ⟨Frame.refl w, fun _ _ => rfl, rfl⟩

theorem Around.modify {w₀ w : World} {id : JsString} {k : Effect} {f : Package → Package}
    (h : Around w₀ id w) (hk : k.Modifies id f) :
    Around w₀ id (k.apply w) ∧
      (k.apply w).disk.packages id = some (f ((w.disk.packages id).getD Package.empty)) := by
  unfold Effect.apply
  rw [hk.change]
  refine ⟨⟨⟨h.builds, h.artifacts, h.hashes, ?_⟩, fun other hne => ?_, h.networkDeps⟩, ?_⟩
  · obtain ⟨new, hlog, hnew⟩ := h.log
    exact ⟨k :: new, by rw [hlog]; rfl, List.forall_mem_cons.mpr ⟨hk.preparation, hnew⟩⟩
  · exact (Function.update_of_ne hne _ _).trans (h.packages other hne)
  · exact Function.update_self ..

section Prepare

variable (platform : Platform) (config : Config) (env : Environment) (options : CompileOptions)
  (plan : Plan)

theorem nodup_eraseDups {α : Type} [BEq α] [LawfulBEq α] (l : List α) : l.eraseDups.Nodup := by
  induction hlength : l.length using Nat.strong_induction_on generalizing l with
  | _ n ih =>
    cases l with
    | nil => simp
    | cons a l =>
      rw [List.eraseDups_cons, List.nodup_cons]
      refine ⟨by simp [List.mem_eraseDups], ih _ ?_ _ rfl⟩
      rw [← hlength]
      exact Nat.lt_succ_of_le (List.length_filter_le _ _)

/-- The source of a network dependency that a run links, given what is in the cache before. -/
def linkedSource (disk : Disk) (dep : JsString) : Except JsString JsString :=
  let networkScope := networkDepCacheScope platform.sha256 config plan.network
  match if options.force then none else disk.networkDeps networkScope.scope dep with
  | some (c :: rest) => .ok (c :: rest)
  | _ => env.fetchNetworkDep dep networkScope.endpoint networkScope.networkHint

/-- The package of a unit, with the network dependencies that are linked so far. -/
def Plan.contents (source : JsString → Except JsString JsString) (linked : List JsString)
    (unit : DiscoveredUnit) : PackageContents where
  src name := if name ∈ unit.allSources then
      (copySource env.read unit plan.renamePlan name).toOption else none
  programJson := some (buildProgramJson unit plan.graph (plan.effectiveId unit))
  env := some (buildDotEnv config plan.network)
  imports dep := if dep ∈ linked ∧ dep ∈ networkDepIds plan unit then (source dep).toOption else none

variable {platform config env options plan}

/-- The sources of a unit can be copied. -/
def Copied (env : Environment) (plan : Plan) (unit : DiscoveredUnit) : Prop :=
  ∀ name ∈ unit.allSources, ∃ text, copySource env.read unit plan.renamePlan name = .ok text

theorem toOption_ok {x : Except JsString JsString} {a : JsString} (h : x = .ok a) :
    x.toOption = some a := by
  rw [h]
  rfl

/-- A unit's own package is written, and nothing else. -/
theorem materializePackage_spec (source : JsString → Except JsString JsString) (w₀ : World)
    (unit : DiscoveredUnit) :
    Ends (· = w₀) (materializePackage config env plan unit)
      (fun _ w => Around w₀ (plan.effectiveId unit) w ∧
        w.disk.contents (plan.effectiveId unit) = some (plan.contents config env source [] unit) ∧
        Copied env plan unit)
      (fun w => Around w₀ (plan.effectiveId unit) w ∧ ¬Copied env plan unit) := by
  generalize hid : plan.effectiveId unit = id
  -- The package, after some of the sources.
  let copied (done : List JsString) (w : World) : Prop := Around w₀ id w ∧
    (∃ src, w.disk.packages id = some { Package.empty with src } ∧ ∀ name, src.lookup name =
      if name ∈ done then (copySource env.read unit plan.renamePlan name).toOption else none) ∧
    ∀ name ∈ done, ∃ text, copySource env.read unit plan.renamePlan name = .ok text
  have hclear (w : World) (hw : w = w₀) : copied [] ((Effect.clearPackage id).apply w) := by
    subst hw
    obtain ⟨haround, hpackage⟩ := (Around.refl w id).modify (clearPackage_modifies id)
    exact ⟨haround, ⟨[], hpackage, fun _ => rfl⟩, fun _ h => absurd h List.not_mem_nil⟩
  have hcopy (done : List JsString) (relPath text : JsString)
      (htext : copySource env.read unit plan.renamePlan relPath = .ok text) (w : World)
      (hw : copied done w) :
      copied (done ++ [relPath]) ((Effect.copySource id relPath text).apply w) := by
    obtain ⟨haround, ⟨src, hpackage, hsrc⟩, hdone⟩ := hw
    obtain ⟨haround, hwritten⟩ := haround.modify (copySource_modifies id relPath text)
    rw [hpackage] at hwritten
    refine ⟨haround, ⟨(relPath, text) :: src, hwritten, fun name => ?_⟩, fun name hname => ?_⟩
    · rw [List.lookup_cons]
      by_cases hname : name = relPath
      · subst hname
        simp only [beq_self_eq_true, List.mem_append, List.mem_singleton, or_true, if_true, htext]
        rfl
      · simp only [beq_eq_false_iff_ne.mpr hname, hsrc, List.mem_append, List.mem_singleton, hname,
          or_false]
    · rcases List.mem_append.mp hname with hname | hname
      · exact hdone name hname
      · exact ⟨text, List.mem_singleton.mp hname ▸ htext⟩
  unfold materializePackage
  rw [hid]
  refine Triple.bind (M := fun _ => copied []) (Ends.perform hclear) fun _ => ?_
  refine Triple.bind (M := fun _ => copied unit.allSources) ?_ fun _ => ?_
  · refine Triple.forM (I := copied) fun done relPath rest hsources => ?_
    refine Triple.bind (M := fun text w => copySource env.read unit plan.renamePlan relPath =
      .ok text ∧ copied done w) ?_ fun text => ?_
    · refine Ends.attempt (fun text htext w hw => ⟨htext, hw⟩) fun e herror w hw =>
        ⟨hw.1, fun hcopied => ?_⟩
      obtain ⟨text, htext⟩ := hcopied relPath (hsources ▸ by simp)
      cases herror.symm.trans htext
    · exact Ends.perform fun w hw => hcopy done relPath text hw.1 w hw.2
  · let written (manifest : Manifest) (w : World) : Prop := Around w₀ id w ∧
      (∃ src, w.disk.packages id = some { Package.empty with src, programJson := some manifest } ∧
        ∀ name, src.lookup name = if name ∈ unit.allSources then
          (copySource env.read unit plan.renamePlan name).toOption else none) ∧
      Copied env plan unit
    refine Triple.bind (M := fun _ => written (buildProgramJson unit plan.graph id)) ?_ fun _ => ?_
    · refine Ends.perform fun w hw => ?_
      obtain ⟨haround, ⟨src, hpackage, hsrc⟩, hcopied⟩ := hw
      obtain ⟨haround, hwritten⟩ := haround.modify (writeProgramJson_modifies id _)
      rw [hpackage] at hwritten
      exact ⟨haround, ⟨src, hwritten, hsrc⟩, hcopied⟩
    · refine Ends.perform fun w hw => ?_
      obtain ⟨haround, ⟨src, hpackage, hsrc⟩, hcopied⟩ := hw
      obtain ⟨haround, hwritten⟩ := haround.modify (writeEnv_modifies id _)
      rw [hpackage] at hwritten
      refine ⟨haround, ?_, hcopied⟩
      unfold Disk.contents Plan.contents
      rw [hwritten, hid, ← funext hsrc]
      rfl

theorem contents_of_around {w₀ w : World} {id other : JsString} (h : Around w₀ id w)
    (hne : other ≠ id) : w.disk.contents other = w₀.disk.contents other := by
  unfold Disk.contents
  rw [h.packages other hne]

/-- The packages of some units, with some of the network dependencies. -/
def Packed (config : Config) (env : Environment) (plan : Plan)
    (source : JsString → Except JsString JsString) (linked : List JsString)
    (units : List DiscoveredUnit) (w : World) : Prop :=
  ∀ unit ∈ units, w.disk.contents (plan.effectiveId unit) =
    some (plan.contents config env source linked unit)

/-- A unit of a list without repeated ids has another id than those before it. -/
theorem effectiveId_ne {done rest : List DiscoveredUnit} {unit other : DiscoveredUnit}
    (hnodup : (plan.compileOrder.map plan.effectiveId).Nodup)
    (horder : plan.compileOrder = done ++ unit :: rest) (hother : other ∈ done) :
    plan.effectiveId other ≠ plan.effectiveId unit := by
  rw [horder, List.map_append, List.map_cons] at hnodup
  intro heq
  exact (List.disjoint_of_nodup_append hnodup) (List.mem_map_of_mem hother)
    (heq ▸ List.mem_cons_self)

theorem materializePackages_spec (source : JsString → Except JsString JsString) (w₀ : World)
    (hnodup : (plan.compileOrder.map plan.effectiveId).Nodup) :
    Ends (· = w₀) (plan.compileOrder.forM (materializePackage config env plan))
      (fun _ w => (Frame w₀ w ∧ w.disk.networkDeps = w₀.disk.networkDeps) ∧
        Packed config env plan source [] plan.compileOrder w ∧
        ∀ unit ∈ plan.compileOrder, Copied env plan unit)
      (fun w => Frame w₀ w ∧ ∃ unit ∈ plan.compileOrder, ¬Copied env plan unit) := by
  let packed (done : List DiscoveredUnit) (w : World) : Prop :=
    (Frame w₀ w ∧ w.disk.networkDeps = w₀.disk.networkDeps) ∧
      Packed config env plan source [] done w ∧ ∀ unit ∈ done, Copied env plan unit
  have hempty (w : World) (hw : w = w₀) : packed [] w := by
    subst hw
    exact ⟨⟨Frame.refl w, rfl⟩, List.forall_mem_nil _, List.forall_mem_nil _⟩
  refine Triple.weaken (Triple.forM (I := packed) fun done unit rest horder => ?_) hempty
    (fun _ _ h => h) (fun _ h => h) (fun _ h => h)
  refine Triple.known fun w₁ hw₁ => ?_
  obtain ⟨⟨hframe, hdeps⟩, hpacked, hcopied⟩ := hw₁
  refine Triple.weaken (materializePackage_spec source w₁ unit) (fun _ h => h) (fun _ w hw => ?_)
    (fun w hw => ⟨hframe.trans hw.1.toFrame, unit, horder ▸ by simp, hw.2⟩) (fun _ h => h)
  obtain ⟨haround, hcontents, hunit⟩ := hw
  refine ⟨⟨hframe.trans haround.toFrame, haround.networkDeps.trans hdeps⟩, fun other hother => ?_,
    fun other hother => ?_⟩
  · rcases List.mem_append.mp hother with hdone | hlast
    · rw [contents_of_around haround (effectiveId_ne hnodup horder hdone)]
      exact hpacked other hdone
    · rw [List.mem_singleton.mp hlast]
      exact hcontents
  · rcases List.mem_append.mp hother with hdone | hlast
    · exact hcopied other hdone
    · rwa [List.mem_singleton.mp hlast]

/-- The packages, when some network dependencies have been linked: the cache still has what it had
of the others. -/
structure Linked (config : Config) (env : Environment) (plan : Plan)
    (source : JsString → Except JsString JsString) (scope : JsString) (w₀ : World)
    (linked : List JsString) (w : World) : Prop extends Frame w₀ w where
  packed : Packed config env plan source linked plan.compileOrder w
  cache : ∀ dep ∉ linked, w.disk.networkDeps scope dep = w₀.disk.networkDeps scope dep

theorem cacheNetworkDep_frame {w₀ w : World} (h : Frame w₀ w) (scope dep text : JsString) :
    Frame w₀ ((Effect.cacheNetworkDep scope dep text).apply w) := by
  obtain ⟨new, hlog, hnew⟩ := h.log
  exact ⟨h.builds, h.artifacts, h.hashes, .cacheNetworkDep scope dep text :: new,
    by rw [← List.cons_append.symm]; exact congrArg _ hlog,
    List.forall_mem_cons.mpr ⟨trivial, hnew⟩⟩

/-- One package gets a network dependency. -/
theorem contents_link {source : JsString → Except JsString JsString} {linked : List JsString}
    {dep text : JsString} {unit : DiscoveredUnit} {w : World} (htext : source dep = .ok text)
    (hdep : dep ∈ networkDepIds plan unit)
    (hcontents : w.disk.contents (plan.effectiveId unit) =
      some (plan.contents config env source linked unit)) :
    ((Effect.writeImport (plan.effectiveId unit) dep text).apply w).disk.contents
        (plan.effectiveId unit) =
      some (plan.contents config env source (linked ++ [dep]) unit) := by
  obtain ⟨package, hpackage, hcontents⟩ := Option.map_eq_some_iff.mp hcontents
  obtain ⟨-, hwritten⟩ := (Around.refl w (plan.effectiveId unit)).modify
    (writeImport_modifies (plan.effectiveId unit) dep text)
  rw [hpackage] at hwritten
  unfold Disk.contents
  rw [hwritten]
  have hsrc : package.contents.src = (plan.contents config env source linked unit).src := by
    rw [hcontents]
  have hjson : package.contents.programJson =
      (plan.contents config env source linked unit).programJson := by rw [hcontents]
  have henv : package.contents.env = (plan.contents config env source linked unit).env := by
    rw [hcontents]
  refine congrArg some (PackageContents.ext hsrc hjson henv (funext fun name => ?_))
  have himports : package.imports.lookup name =
      if name ∈ linked ∧ name ∈ networkDepIds plan unit then (source name).toOption else none :=
    congrFun (congrArg PackageContents.imports hcontents) name
  show List.lookup name ((dep, text) :: package.imports) =
    if name ∈ linked ++ [dep] ∧ name ∈ networkDepIds plan unit then (source name).toOption else none
  rw [List.lookup_cons]
  by_cases hname : name = dep
  · subst hname
    simp only [beq_self_eq_true, List.mem_append, List.mem_singleton, or_true, hdep, true_and,
      if_true]
    exact (toOption_ok htext).symm
  · simp only [beq_eq_false_iff_ne.mpr hname, himports, List.mem_append, List.mem_singleton, hname,
      or_false]

/-- The package of a unit that does not import the dependency is as before. -/
theorem contents_not_linked {source : JsString → Except JsString JsString} {linked : List JsString}
    {dep : JsString} {unit : DiscoveredUnit} (hdep : dep ∉ networkDepIds plan unit) :
    plan.contents config env source (linked ++ [dep]) unit =
      plan.contents config env source linked unit := by
  refine PackageContents.ext rfl rfl rfl (funext fun name => ?_)
  show (if name ∈ linked ++ [dep] ∧ _ then _ else _) = if name ∈ linked ∧ _ then _ else _
  by_cases hname : name = dep
  · subst hname
    simp only [hdep, and_false]
  · simp only [List.mem_append, List.mem_singleton, hname, or_false]

theorem mem_networkDepIds {dep : JsString} {unit : DiscoveredUnit} :
    dep ∈ networkDepIds plan unit ↔
      dep ∈ plan.graph.importsOf (unitId unit) ∧ dep ∈ plan.graph.networkDeps := by
  simp [networkDepIds]

theorem mem_selectedNetworkDeps {dep : JsString} :
    dep ∈ selectedNetworkDeps plan ↔ ∃ unit ∈ plan.compileOrder, dep ∈ networkDepIds plan unit := by
  simp [selectedNetworkDeps, List.mem_eraseDups]

/-- What the cache has of a dependency is used if it is not empty, and else what is fetched. -/
theorem networkDepSource_spec {P : World → Prop} {dep : JsString} {disk : Disk}
    (hcache : ∀ w, P w →
      w.disk.networkDeps (networkDepCacheScope platform.sha256 config plan.network).scope dep =
        disk.networkDeps (networkDepCacheScope platform.sha256 config plan.network).scope dep) :
    Ends P (networkDepSource platform config env options plan dep)
      (fun text w => linkedSource platform config env options plan disk dep = .ok text ∧ P w)
      (fun w => P w ∧ ∃ e, linkedSource platform config env options plan disk dep = .error e) := by
  have hfetch (w : World) (hw : P w) {networkScope : NetworkScope} :
      Ends (· = w) (attempt (env.fetchNetworkDep dep networkScope.endpoint networkScope.networkHint))
        (fun text w => env.fetchNetworkDep dep networkScope.endpoint networkScope.networkHint =
          .ok text ∧ P w)
        (fun w => P w ∧ ∃ e, env.fetchNetworkDep dep networkScope.endpoint
          networkScope.networkHint = .error e) := by
    refine Ends.attempt ?_ ?_
    · rintro text htext _ rfl
      exact ⟨htext, hw⟩
    · rintro e herror _ rfl
      exact ⟨hw, e, herror⟩
  unfold networkDepSource
  refine Triple.read fun w hw => ?_
  unfold linkedSource
  rw [hcache w hw]
  dsimp only
  generalize (if options.force = true then none else disk.networkDeps
    (networkDepCacheScope platform.sha256 config plan.network).scope dep) = kept
  match kept with
  | some (c :: rest) =>
    refine Triple.pure ?_
    rintro _ rfl
    exact ⟨rfl, hw⟩
  | some [] => exact hfetch w hw
  | none => exact hfetch w hw

/-- A dependency comes into the packages of the units that import it. -/
theorem linkToImporters_spec {source : JsString → Except JsString JsString} {w₀ : World}
    {linked : List JsString} {dep : JsString}
    (hsource : source = linkedSource platform config env options plan w₀.disk)
    (hnodup : (plan.compileOrder.map plan.effectiveId).Nodup) (hnew : dep ∉ linked)
    (hdep : dep ∈ plan.graph.networkDeps) :
    Ends (Linked config env plan source
        (networkDepCacheScope platform.sha256 config plan.network).scope w₀ linked)
      (linkToImporters platform config env options plan dep)
      (fun _ w => Linked config env plan source
        (networkDepCacheScope platform.sha256 config plan.network).scope w₀ (linked ++ [dep]) w ∧
        ∃ text, source dep = .ok text)
      (fun w => Frame w₀ w ∧ ∃ e, source dep = .error e) := by
  subst hsource
  generalize hscope : (networkDepCacheScope platform.sha256 config plan.network).scope = scope
  generalize hsource : linkedSource platform config env options plan w₀.disk = source
  -- The packages of the units that are done have the dependency, and the others are as before.
  let linking (done : List DiscoveredUnit) (w : World) : Prop := Frame w₀ w ∧
    (∀ other ∉ linked ++ [dep],
      w.disk.networkDeps scope other = w₀.disk.networkDeps scope other) ∧
    Packed config env plan source (linked ++ [dep]) done w ∧
    ∀ unit ∈ plan.compileOrder, unit ∉ done → w.disk.contents (plan.effectiveId unit) =
      some (plan.contents config env source linked unit)
  have hunit (text : JsString) (htext : source dep = .ok text) (done : List DiscoveredUnit)
      (unit : DiscoveredUnit) (rest : List DiscoveredUnit)
      (horder : plan.compileOrder = done ++ unit :: rest) (himports : dep ∈ networkDepIds plan unit)
      (w : World) (hw : linking done w) :
      linking (done ++ [unit]) ((Effect.writeImport (plan.effectiveId unit) dep text).apply
        ((Effect.cacheNetworkDep scope dep text).apply w)) := by
    obtain ⟨hframe, hcache, hpacked, hrest⟩ := hw
    have hmem : unit ∈ plan.compileOrder := by
      rw [horder]
      exact List.mem_append_right _ List.mem_cons_self
    have hnotDone : unit ∉ done := fun hdone => effectiveId_ne hnodup horder hdone rfl
    have hcontents := contents_link (w := (Effect.cacheNetworkDep scope dep text).apply w) htext
      himports (hrest unit hmem hnotDone)
    have hframe' := cacheNetworkDep_frame hframe scope dep text
    obtain ⟨haround, -⟩ := (Around.refl ((Effect.cacheNetworkDep scope dep text).apply w)
      (plan.effectiveId unit)).modify (writeImport_modifies (plan.effectiveId unit) dep text)
    refine ⟨hframe'.trans haround.toFrame, fun other hother => ?_, fun other hother => ?_,
      fun other hother hnot => ?_⟩
    · have hne : other ≠ dep := by
        rintro rfl
        exact hother (by simp)
      rw [haround.networkDeps, ← hcache other hother]
      show Function.update w.disk.networkDeps scope _ scope other = _
      rw [Function.update_self, Function.update_of_ne hne]
    · rcases List.mem_append.mp hother with hdone | hlast
      · rw [contents_of_around haround (effectiveId_ne hnodup horder hdone)]
        exact hpacked other hdone
      · rw [List.mem_singleton.mp hlast]
        exact hcontents
    · have hne : plan.effectiveId other ≠ plan.effectiveId unit := fun heq =>
        hnot (by
          rw [List.inj_on_of_nodup_map hnodup hother hmem heq]
          simp)
      rw [contents_of_around haround hne]
      exact hrest other hother fun hdone => hnot (List.mem_append_left _ hdone)
  unfold linkToImporters
  refine Triple.bind (M := fun text w => source dep = .ok text ∧
    Linked config env plan source scope w₀ linked w) ?_ fun text => ?_
  · have hkept (w : World) (hw : Linked config env plan source scope w₀ linked w) :
        w.disk.networkDeps (networkDepCacheScope platform.sha256 config plan.network).scope dep =
          w₀.disk.networkDeps (networkDepCacheScope platform.sha256 config plan.network).scope
            dep := by
      rw [hscope]
      exact hw.cache dep hnew
    refine Triple.weaken (networkDepSource_spec hkept) (fun _ h => h) (fun text w hw => ?_)
      (fun w hw => ⟨hw.1.toFrame, hsource ▸ hw.2⟩) (fun _ h => h)
    rw [← hsource]
    rwa [← hsource] at hw
  · rw [hscope]
    refine Triple.weaken (P := fun w => source dep = .ok text ∧ linking [] w)
      (Q := fun _ w => source dep = .ok text ∧ linking plan.compileOrder w)
      (Triple.forM (I := fun done w => source dep = .ok text ∧ linking done w)
        fun done unit rest horder => ?_) (fun w hw => ?_) (fun _ w hw => ?_) (fun _ h => h)
      (fun _ h => h)
    · refine Triple.ite (fun himport => ?_) (fun himport => ?_)
      · have himports := mem_networkDepIds.mpr ⟨himport, hdep⟩
        unfold linkNetworkDependency
        refine Triple.bind (M := fun _ w => ∃ w₁, (source dep = .ok text ∧ linking done w₁) ∧
          w = (Effect.cacheNetworkDep scope dep text).apply w₁)
          (Ends.perform fun w hw => ⟨w, hw, rfl⟩) fun _ => Ends.perform ?_
        rintro _ ⟨w, ⟨htext, hw⟩, rfl⟩
        exact ⟨htext, hunit text htext done unit rest horder himports w hw⟩
      · refine Triple.pure fun w hw => ?_
        obtain ⟨htext, hframe, hcache, hpacked, hrest⟩ := hw
        have hnot : dep ∉ networkDepIds plan unit := fun h => himport (mem_networkDepIds.mp h).1
        refine ⟨htext, hframe, hcache, fun other hother => ?_, fun other hother hdone => ?_⟩
        · rcases List.mem_append.mp hother with hother | hother
          · exact hpacked other hother
          · rw [List.mem_singleton.mp hother, contents_not_linked hnot]
            refine hrest unit ?_ fun hdone => effectiveId_ne hnodup horder hdone rfl
            rw [horder]
            exact List.mem_append_right _ List.mem_cons_self
        · exact hrest other hother fun h => hdone (List.mem_append_left _ h)
    · obtain ⟨htext, hlinked⟩ := hw
      refine ⟨htext, hlinked.toFrame, fun other hother => hlinked.cache other fun h =>
        hother (List.mem_append_left _ h), fun unit hunit => ?_, fun unit hunit _ =>
        hlinked.packed unit hunit⟩
      exact nomatch hunit
    · exact ⟨⟨hw.2.1, hw.2.2.2.1, hw.2.2.1⟩, text, hw.1⟩

/-- A source that cannot be copied, or a network dependency that cannot be had. -/
def Unprepared (env : Environment) (plan : Plan) (source : JsString → Except JsString JsString) :
    Prop :=
  (∃ unit ∈ plan.compileOrder, ¬Copied env plan unit) ∨
    ∃ dep ∈ selectedNetworkDeps plan, ∃ e, source dep = .error e

/-- **After the preparation every unit has its package**, and nothing has been built. Whether it
fails does not depend on what was there before, apart from the network dependencies. -/
theorem prepare_spec (w₀ : World) (hnodup : (plan.compileOrder.map plan.effectiveId).Nodup) :
    Ends (· = w₀) (prepare platform config env options plan)
      (fun _ w => (Frame w₀ w ∧ Packed config env plan
        (linkedSource platform config env options plan w₀.disk) (selectedNetworkDeps plan)
        plan.compileOrder w) ∧
        (∀ unit ∈ plan.compileOrder, Copied env plan unit) ∧
        ¬Unprepared env plan (linkedSource platform config env options plan w₀.disk))
      (fun w => Frame w₀ w ∧
        Unprepared env plan (linkedSource platform config env options plan w₀.disk)) := by
  generalize hsource : linkedSource platform config env options plan w₀.disk = source
  unfold prepare
  refine Triple.bind (Triple.weaken (materializePackages_spec source w₀ hnodup) (fun _ h => h)
    (fun _ _ h => h) (fun w hw => ⟨hw.1, .inl hw.2⟩) fun _ h => h) fun _ =>
    Triple.known fun w₁ hw₁ => ?_
  obtain ⟨⟨hframe, hcache⟩, hpacked, hcopied⟩ := hw₁
  let linking (done : List JsString) (w : World) : Prop := Linked config env plan source
    (networkDepCacheScope platform.sha256 config plan.network).scope w₀ done w ∧
      ∀ dep ∈ done, ∃ text, source dep = .ok text
  have hstart (w : World) (hw : w = w₁) : linking [] w := by
    subst hw
    exact ⟨⟨hframe, hpacked, fun dep _ => by rw [hcache]⟩, List.forall_mem_nil _⟩
  refine Triple.weaken (Triple.forM (I := linking) fun done dep rest horder => ?_) hstart
    (fun _ w hw => ⟨⟨hw.1.toFrame, hw.1.packed⟩, hcopied, ?_⟩) (fun _ h => h) (fun _ h => h)
  · have hdups : (selectedNetworkDeps plan).Nodup := nodup_eraseDups _
    have hmem : dep ∈ selectedNetworkDeps plan := by
      rw [horder]
      exact List.mem_append_right _ List.mem_cons_self
    obtain ⟨unit, -, hunit⟩ := mem_selectedNetworkDeps.mp hmem
    rw [horder] at hdups
    have hnew : dep ∉ done := fun h => List.disjoint_of_nodup_append hdups h List.mem_cons_self
    refine Triple.known fun w₂ hw₂ => ?_
    refine Triple.weaken (linkToImporters_spec hsource.symm hnodup hnew
      (mem_networkDepIds.mp hunit).2) (fun w hw => hw ▸ hw₂.1) (fun _ w hw => ⟨hw.1, ?_⟩)
      (fun w hw => ⟨hw.1, .inr ⟨dep, hmem, hw.2⟩⟩) (fun _ h => h)
    intro other hother
    rcases List.mem_append.mp hother with hdone | hlast
    · exact hw₂.2 other hdone
    · rw [List.mem_singleton.mp hlast]
      exact hw.2
  · rintro (⟨unit, hunit, hnot⟩ | ⟨dep, hdep, e, herror⟩)
    · exact hnot (hcopied unit hunit)
    · obtain ⟨text, htext⟩ := hw.2 dep hdep
      exact nomatch herror.symm.trans htext

end Prepare

end Lionden.Build
