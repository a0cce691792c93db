import Lionden.Compiler.Resolver

/-!
# Deployment closures

A program needs the local programs that it reaches through local imports, also through a library;
network programs end the traversal.

* `collectLocalDeploymentClosure`: the programs of a closure, in the order of the graph.
* `transGen_before`: a unit comes after everything that it reaches.
* `mem_closure_iff`: a closure is the root and the programs that it reaches.
-/

namespace Lionden.Targets

open Compiler

/-- `graph.networkDeps.has(dep)` ends the traversal. -/
def localEdges (graph : DependencyGraph) (id : JsString) : List JsString :=
  (graph.importsOf id).filter (· ∉ graph.networkDeps)

/-- Every id that the graph mentions. -/
def graphIds (graph : DependencyGraph) : List JsString :=
  graph.imports.flatMap fun (id, deps) => id :: deps

/-- The ids that `collectTransitiveProgramDeps` visits; it collects the programs among them. -/
def collectTransitiveProgramDeps (graph : DependencyGraph) (rootId : JsString) : List JsString :=
  Dfs.reach (localEdges graph) ((graphIds graph).length + 2) [] rootId

def programIds (units : List DiscoveredUnit) : List JsString :=
  (units.filter DiscoveredUnit.isProgram).map unitId

/-- `programMap` is the set of its keys. -/
def collectLocalDeploymentClosure (rootId : JsString) (graph : DependencyGraph)
    (programMap : List JsString) : List JsString :=
  let collected := (collectTransitiveProgramDeps graph rootId).filter (· ∈ programMap)
  let ordered := (programIds graph.order).filter (· ∈ collected)
  if rootId ∈ ordered then ordered else ordered ++ [rootId]

/-! ## What a closure is -/

/-- `a` reaches the program `b` by local imports. -/
def Reaches (parseImports : JsString → List JsString → List JsString) (units : List DiscoveredUnit)
    (a b : JsString) : Prop :=
  Relation.TransGen (LocalImport parseImports units) a b ∧ b ∈ programIds units

theorem mem_programIds {units : List DiscoveredUnit} {id : JsString} :
    id ∈ programIds units ↔ ∃ u ∈ units, u.isProgram = true ∧ unitId u = id := by
  simp [programIds, and_assoc]

theorem importsOf_mem_graphIds {graph : DependencyGraph} {a b : JsString}
    (h : b ∈ graph.importsOf a) : b ∈ graphIds graph := by
  unfold DependencyGraph.importsOf at h
  cases hlookup : graph.imports.lookup a with
  | none =>
    rw [hlookup] at h
    exact nomatch h
  | some deps =>
    rw [hlookup] at h
    exact List.mem_flatMap.mpr
      ⟨(a, deps), Fallible.mem_of_lookup hlookup, List.mem_cons_of_mem a h⟩

/-- The traversal comes to what the root reaches in the graph. -/
theorem mem_collect_iff {graph : DependencyGraph} {rootId id : JsString} :
    id ∈ collectTransitiveProgramDeps graph rootId ↔
      Relation.ReflTransGen (Dfs.Edge (localEdges graph)) rootId id := by
  have hnodes : ∀ x ∈ rootId :: graphIds graph, ∀ y ∈ localEdges graph x,
      y ∈ rootId :: graphIds graph := fun x _ y hy =>
    List.mem_cons_of_mem _ (importsOf_mem_graphIds (List.mem_filter.mp hy).1)
  exact Dfs.mem_reach_iff hnodes List.mem_cons_self (by simp)

section Follows

variable {parseImports : JsString → List JsString → List JsString} {units : List DiscoveredUnit}
  {graph : DependencyGraph}

/-- The graph has the units, and the local imports among them. -/
structure Follows (parseImports : JsString → List JsString → List JsString)
    (units : List DiscoveredUnit) (graph : DependencyGraph) : Prop where
  order : ∀ u, u ∈ graph.order ↔ u ∈ units
  edge : ∀ a ∈ units.map unitId, ∀ b,
    Dfs.Edge (localEdges graph) a b ↔ LocalImport parseImports units a b

theorem follows (hgraph : WellResolved parseImports units graph) :
    Follows parseImports units graph := by
  refine ⟨hgraph.mem, fun a ha b => ?_⟩
  obtain ⟨u, hu, rfl⟩ := List.mem_map.mp ha
  unfold Dfs.Edge localEdges
  rw [List.mem_filter, hgraph.imports u hu, decide_eq_true_eq, hgraph.network]
  constructor
  · rintro ⟨⟨v, hv, hne, rfl, himport⟩ | ⟨hraw, hnone⟩, hlocal⟩
    · exact ⟨fun heq => hne (hgraph.unique v hv u hu heq.symm), u, hu, rfl, v, hv, rfl, himport⟩
    · exact absurd ⟨⟨u, hu, hraw⟩, hnone⟩ hlocal
  · rintro ⟨hne, u', hu', heq, v, hv, rfl, himport⟩
    obtain rfl := hgraph.unique u' hu' u hu heq
    refine ⟨.inl ⟨v, hv, fun h => hne (by rw [h]), rfl, himport⟩, fun h => ?_⟩
    exact h.2 v hv (unitId_mem_lookupKeys v)

variable (hgraph : Follows parseImports units graph)

include hgraph

theorem reflTransGen_edge_iff {a b : JsString} (ha : a ∈ units.map unitId) :
    Relation.ReflTransGen (Dfs.Edge (localEdges graph)) a b ↔
      Relation.ReflTransGen (LocalImport parseImports units) a b := by
  constructor
  · intro h
    -- Every node on the way is a unit, as what it is imported as.
    have hboth : b ∈ units.map unitId ∧
        Relation.ReflTransGen (LocalImport parseImports units) a b := by
      induction h with
      | refl => exact ⟨ha, .refl⟩
      | tail _ hstep ih =>
        have himport := (hgraph.edge _ ih.1 _).mp hstep
        exact ⟨himport.mem_units, ih.2.tail himport⟩
    exact hboth.2
  · intro h
    have hboth : b ∈ units.map unitId ∧
        Relation.ReflTransGen (Dfs.Edge (localEdges graph)) a b := by
      induction h with
      | refl => exact ⟨ha, .refl⟩
      | tail _ hstep ih =>
        exact ⟨hstep.mem_units, ih.2.tail ((hgraph.edge _ ih.1 _).mpr hstep)⟩
    exact hboth.2

theorem mem_programIds_order {id : JsString} :
    id ∈ programIds graph.order ↔ id ∈ programIds units := by
  simp only [mem_programIds, hgraph.order]

/-- The programs of the graph that the traversal from a program collects. -/
theorem mem_ordered_iff {rootId id : JsString} (hroot : rootId ∈ programIds units) :
    id ∈ (programIds graph.order).filter
        (· ∈ (collectTransitiveProgramDeps graph rootId).filter (· ∈ programIds units)) ↔
      id = rootId ∨ Reaches parseImports units rootId id := by
  obtain ⟨u, hu, -, rfl⟩ := mem_programIds.mp hroot
  rw [List.mem_filter, decide_eq_true_eq, List.mem_filter, mem_programIds_order hgraph,
    mem_collect_iff, reflTransGen_edge_iff hgraph (List.mem_map_of_mem hu), decide_eq_true_eq,
    Relation.reflTransGen_iff_eq_or_transGen]
  unfold Reaches
  constructor
  · rintro ⟨hid, heq | h, -⟩
    · exact .inl heq
    · exact .inr ⟨h, hid⟩
  · rintro (rfl | ⟨h, hid⟩)
    · exact ⟨hroot, .inl rfl, hroot⟩
    · exact ⟨hid, .inr h, hid⟩

/-- The root is always among them. -/
theorem closure_eq {rootId : JsString} (hroot : rootId ∈ programIds units) :
    collectLocalDeploymentClosure rootId graph (programIds units) = (programIds graph.order).filter
      (· ∈ (collectTransitiveProgramDeps graph rootId).filter (· ∈ programIds units)) := by
  unfold collectLocalDeploymentClosure
  exact if_pos ((mem_ordered_iff hgraph hroot).mpr (.inl rfl))

/-- **What a closure is**: the root, and the programs that it reaches. -/
theorem mem_closure_iff {rootId id : JsString} (hroot : rootId ∈ programIds units) :
    id ∈ collectLocalDeploymentClosure rootId graph (programIds units) ↔
      id = rootId ∨ Reaches parseImports units rootId id := by
  rw [closure_eq hgraph hroot]
  exact mem_ordered_iff hgraph hroot

/-- From whatever id: the programs that it reaches are in the closure. -/
theorem Reaches.mem_closure {rootId id : JsString} (h : Reaches parseImports units rootId id) :
    id ∈ collectLocalDeploymentClosure rootId graph (programIds units) := by
  have hroot : rootId ∈ units.map unitId := by
    obtain ⟨w, ⟨-, u, hu, rfl, -⟩, -⟩ := Relation.TransGen.head'_iff.mp h.1
    exact List.mem_map_of_mem hu
  have hordered : id ∈ (programIds graph.order).filter
      (· ∈ (collectTransitiveProgramDeps graph rootId).filter (· ∈ programIds units)) := by
    rw [List.mem_filter, decide_eq_true_eq, List.mem_filter, mem_programIds_order hgraph,
      mem_collect_iff, reflTransGen_edge_iff hgraph hroot, decide_eq_true_eq]
    exact ⟨h.2, h.1.to_reflTransGen, h.2⟩
  unfold collectLocalDeploymentClosure
  dsimp only
  split
  · exact hordered
  · exact List.mem_append_left _ hordered

end Follows

theorem resolved {parseImports : JsString → List JsString → List JsString}
    {units : List DiscoveredUnit} {graph : DependencyGraph}
    (h : (resolveDependencies parseImports units).mapError ResolveError.message = .ok graph) :
    ¬Cyclic parseImports units ∧ WellResolved parseImports units graph := by
  cases hresolve : resolveDependencies parseImports units with
  | error e =>
    rw [hresolve] at h
    cases h
  | ok graph' =>
    rw [hresolve] at h
    cases h
    exact (resolveDependencies_ok hresolve).2.2

/-- A unit comes after everything that it reaches. -/
theorem transGen_before {parseImports : JsString → List JsString → List JsString}
    {units : List DiscoveredUnit} {graph : DependencyGraph}
    (hgraph : WellResolved parseImports units graph) {earlier later : List DiscoveredUnit}
    {u : DiscoveredUnit} (horder : graph.order = earlier ++ u :: later) {id : JsString}
    (h : Relation.TransGen (LocalImport parseImports units) (unitId u) id) :
    ∃ v ∈ earlier, unitId v = id := by
  induction h with
  | single himport =>
    obtain ⟨v, hv, rfl⟩ := List.mem_map.mp himport.mem_units
    exact ⟨v, hgraph.before earlier u later horder v hv himport, rfl⟩
  | tail _ himport ih =>
    obtain ⟨w, hw, rfl⟩ := ih
    obtain ⟨p, q, rfl⟩ := List.append_of_mem hw
    obtain ⟨v, hv, rfl⟩ := List.mem_map.mp himport.mem_units
    have hvp := hgraph.before p w (q ++ u :: later) (by rw [horder]; simp) v hv himport
    exact ⟨v, List.mem_append_left _ hvp, rfl⟩

end Lionden.Targets
