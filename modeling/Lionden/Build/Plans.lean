import Lionden.Build.Pipeline
import Lionden.Lib.Precedence

/-!
# Plans

* `mem_collectTransitiveDeps`: the units that a target needs.
* `Ordered`, `planCompilation_ordered`: in a plan the local dependencies of a unit come before it,
  under their own ids.
* `planCompilation_units`: the units of a plan have different ids.
-/

namespace Lionden.Build

open Compiler Targets

section Units

variable {parseImports : JsString → List JsString → List JsString} {units : List DiscoveredUnit}
  {graph : DependencyGraph}

theorem mem_localImports {allUnits : List DiscoveredUnit} {a b : JsString} :
    b ∈ localImports graph allUnits a ↔ b ∈ localEdges graph a ∧ b ∈ allUnits.map unitId := by
  unfold localImports
  rw [List.mem_filter, decide_eq_true_eq]

/-- A target needs what it reaches by local imports. -/
theorem mem_collectTransitiveDeps {target unit : DiscoveredUnit}
    (hgraph : Follows parseImports units graph) (htarget : target ∈ units) :
    unit ∈ collectTransitiveDeps target graph units ↔ unit ∈ units ∧
      Relation.ReflTransGen (LocalImport parseImports units) (unitId target) (unitId unit) := by
  have hedge : Dfs.Edge (localImports graph units) =
      fun a b => Dfs.Edge (localEdges graph) a b ∧ b ∈ units.map unitId := by
    funext a b
    exact propext mem_localImports
  have hnodes : ∀ x ∈ unitId target :: graphIds graph, ∀ y ∈ localImports graph units x,
      y ∈ unitId target :: graphIds graph := fun x _ y hy =>
    List.mem_cons_of_mem _ (importsOf_mem_graphIds
      (List.mem_filter.mp (mem_localImports.mp hy).1).1)
  unfold collectTransitiveDeps
  rw [List.mem_filter, decide_eq_true_eq, hgraph.order,
    Dfs.mem_reach_iff hnodes List.mem_cons_self (by simp),
    ← reflTransGen_edge_iff hgraph (List.mem_map_of_mem htarget), hedge]
  refine and_congr_right fun _ => ⟨fun h => ?_, fun h => ?_⟩
  · exact Relation.ReflTransGen.mono (fun _ _ hab => hab.1) _ _ h
  -- Every node on the way is a unit.
  have hboth : unitId unit ∈ units.map unitId ∧ Relation.ReflTransGen
      (fun a b => Dfs.Edge (localEdges graph) a b ∧ b ∈ units.map unitId)
      (unitId target) (unitId unit) := by
    generalize unitId unit = id at h
    induction h with
    | refl => exact ⟨List.mem_map_of_mem htarget, .refl⟩
    | tail _ hstep ih =>
      have hmem := ((hgraph.edge _ ih.1 _).mp hstep).mem_units
      exact ⟨hmem, ih.2.tail ⟨hstep, hmem⟩⟩
  exact hboth.2

end Units

/-- The local dependencies of a unit come before it, under their own ids. -/
def Ordered (plan : Plan) : Prop :=
  ∀ done unit rest, plan.compileOrder = done ++ unit :: rest →
    ∀ dep ∈ localDepIds plan unit, ∃ other ∈ done, unitId other = dep ∧ plan.effectiveId other = dep

theorem localDepIds_eq (plan : Plan) (unit : DiscoveredUnit) :
    localDepIds plan unit = localEdges plan.graph (unitId unit) := rfl

theorem effectiveUnitId_of_ne {unit : DiscoveredUnit} {renamePlan : Option RenamePlan}
    (h : ∀ plan, renamePlan = some plan → unitId unit ≠ plan.sourceProgramId) :
    effectiveUnitId unit renamePlan = unitId unit := by
  unfold effectiveUnitId
  cases hkind : unit.kind with
  | library name => rfl
  | program programId =>
    cases renamePlan with
    | none => rfl
    | some plan =>
      have hid : unitId unit = programId := by simp [unitId, hkind]
      exact if_neg (hid ▸ h plan rfl)

theorem planCompilation_ordered {config : Config} {env : Environment} {options : CompileOptions}
    {plan : Plan} (h : planCompilation config env options = .ok plan) : Ordered plan := by
  unfold planCompilation at h
  split at h
  · exact nomatch h
  obtain ⟨network, -, h⟩ := Fallible.bind_ok.mp h
  obtain ⟨units, -, h⟩ := Fallible.bind_ok.mp h
  obtain ⟨graph, hresolve, h⟩ := Fallible.bind_ok.mp h
  obtain ⟨hacyclic, hgraph⟩ := resolved hresolve
  have hfollows := follows hgraph
  -- A local dependency is a unit that is imported.
  have himport (unit : DiscoveredUnit) (hunit : unit ∈ units) (dep : JsString)
      (hdep : dep ∈ localEdges graph (unitId unit)) :
      LocalImport env.parseImports units (unitId unit) dep :=
    (hfollows.edge _ (List.mem_map_of_mem hunit) _).mp hdep
  split at h
  · cases h
    intro done unit rest horder dep hdep
    have hunit : unit ∈ units := (hgraph.mem unit).mp (by
      rw [show graph.order = _ from horder]
      simp)
    have hdep := himport unit hunit dep hdep
    obtain ⟨other, hother, rfl⟩ := List.mem_map.mp hdep.mem_units
    exact ⟨other, hgraph.before done unit rest horder other hother hdep, rfl,
      effectiveUnitId_of_ne fun _ h => nomatch h⟩
  · split at h
    · exact nomatch h
    next target htarget =>
    cases h
    have htarget : target ∈ units := (hgraph.mem target).mp (List.mem_of_find?_eq_some htarget)
    intro done unit rest horder dep hdep
    obtain ⟨before, after, hsplit, hbefore⟩ := Precedence.filter_split horder
    have hmem : unit ∈ collectTransitiveDeps target graph units := by
      rw [show collectTransitiveDeps target graph units = _ from horder]
      simp
    obtain ⟨hunit, hreach⟩ := (mem_collectTransitiveDeps hfollows htarget).mp hmem
    have hdep := himport unit hunit dep hdep
    obtain ⟨other, hother, rfl⟩ := List.mem_map.mp hdep.mem_units
    have hneeded : other ∈ collectTransitiveDeps target graph units :=
      (mem_collectTransitiveDeps hfollows htarget).mpr ⟨hother, hreach.tail hdep⟩
    refine ⟨other, ?_, rfl, effectiveUnitId_of_ne fun renamePlan hplan hsource => ?_⟩
    · rw [← hbefore, List.mem_filter]
      exact ⟨hgraph.before before unit after hsplit other hother hdep,
        (List.mem_filter.mp hneeded).2⟩
    · -- The target is not needed by what it needs.
      obtain ⟨rename, -, rfl⟩ := Option.map_eq_some_iff.mp hplan
      refine hacyclic ⟨unitId unit, Relation.TransGen.head' hdep ?_⟩
      rw [hsource]
      exact hreach

/-- The units of a plan have different ids, and its network is the one of the options. -/
theorem planCompilation_units {config : Config} {env : Environment} {options : CompileOptions}
    {plan : Plan} (h : planCompilation config env options = .ok plan) :
    (plan.compileOrder.map unitId).Nodup ∧
      plan.network = options.network.getD config.defaultNetwork := by
  unfold planCompilation at h
  split at h
  · exact nomatch h
  obtain ⟨network, hnetwork, h⟩ := Fallible.bind_ok.mp h
  obtain ⟨units, -, h⟩ := Fallible.bind_ok.mp h
  obtain ⟨graph, hresolve, h⟩ := Fallible.bind_ok.mp h
  obtain ⟨-, hgraph⟩ := resolved hresolve
  have hgetD : network = options.network.getD config.defaultNetwork := by
    unfold effectiveNetwork at hnetwork
    cases hoptions : options.network with
    | none =>
      rw [hoptions] at hnetwork
      exact (Except.ok.inj hnetwork).symm
    | some name =>
      rw [hoptions] at hnetwork
      dsimp only at hnetwork
      split at hnetwork
      · exact nomatch hnetwork
      · exact (Except.ok.inj hnetwork).symm
  have hnodup : (graph.order.map unitId).Nodup := by
    refine List.Nodup.map_on (fun u hu v hv => ?_) hgraph.nodup
    exact hgraph.unique u ((hgraph.mem u).mp hu) v ((hgraph.mem v).mp hv)
  split at h
  · cases h
    exact ⟨hnodup, hgetD⟩
  · split at h
    · exact nomatch h
    next target htarget =>
    cases h
    exact ⟨hnodup.sublist (List.Sublist.map _ List.filter_sublist), hgetD⟩

end Lionden.Build
