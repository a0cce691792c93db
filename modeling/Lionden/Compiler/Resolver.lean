import Lionden.Js.Text
import Lionden.Lib.Dfs
import Lionden.Lib.Fallible

/-!
# The dependency graph of the local units

`resolveDependencies` takes the discovered units and what their sources import. A `Map` is a list of
its entries with the newest first, and a `Set` the list of its elements.

* `lookupKeys`, `validateUniqueLookupKeys`: the names under which a unit is imported.
* `resolveImport`, `resolveDependencies`: the graph and its order.
* `LocalImport`, `WellResolved`: what the graph is meant to be.
* `resolveDependencies_correct`: each outcome is what it should be, and a cycle is always found.
-/

namespace Lionden.Compiler

/-! ## Units -/

inductive UnitKind where
  | program (programId : JsString)
  | library (name : JsString)
  deriving DecidableEq

/-- A compilation unit; `object` tells units apart whose fields are the same. -/
structure DiscoveredUnit where
  kind : UnitKind
  sourceDir : JsString
  entryFile : JsString
  allSources : List JsString
  object : Nat
  deriving DecidableEq

def unitId (unit : DiscoveredUnit) : JsString :=
  match unit.kind with
  | .program programId => programId
  | .library name => name

def DiscoveredUnit.isProgram (unit : DiscoveredUnit) : Bool :=
  match unit.kind with
  | .program _ => true
  | .library _ => false

/-- A library is imported under its name, or under its name with `.aleo`. -/
def lookupKeys (unit : DiscoveredUnit) : List JsString :=
  match unit.kind with
  | .program programId => [programId]
  | .library name => [name, name ++ js ".aleo"]

theorem unitId_mem_lookupKeys (unit : DiscoveredUnit) : unitId unit ∈ lookupKeys unit := by
  unfold unitId lookupKeys
  cases unit.kind <;> simp

/-! ## The resolver -/

inductive ResolveError where
  /-- `ReservedUnitNameError`. -/
  | reserved (reservedId : JsString) (unit : DiscoveredUnit)
  /-- `UnitNameCollisionError`. -/
  | collision (key : JsString) (firstUnit secondUnit : DiscoveredUnit)
  /-- `CircularDependencyError`. -/
  | circular (cycle : List JsString)
  /-- The recursion is deeper than there are units. -/
  | deep

def formatUnit (unit : DiscoveredUnit) : JsString :=
  (match unit.kind with
    | .program programId => js "program " ++ programId
    | .library name => js "library " ++ name) ++ js " at " ++ unit.entryFile

/-- The names of a cycle, with an arrow between any two. -/
def arrows : List JsString → JsString
  | [] => []
  | [id] => id
  | id :: rest => id ++ js " → " ++ arrows rest

def ResolveError.message : ResolveError → JsString
  | .reserved reservedId unit =>
    js "Local unit " ++ formatUnit unit ++ js " claims the reserved on-chain builtin id \"" ++
      reservedId ++ js "\". \"" ++ reservedId ++
      js "\" must resolve to the network, so a local unit may not shadow it. " ++
      js "Rename the local unit so its name (and any \".aleo\" alias) does not collide with \"" ++
      reservedId ++ js "\"."
  | .collision key firstUnit secondUnit =>
    js "Local unit name collision for \"" ++ key ++ js "\": " ++ formatUnit firstUnit ++
      js " conflicts with " ++ formatUnit secondUnit ++
      js ". Local unit names and program IDs must be unique."
  | .circular cycle => js "Circular dependency detected: " ++ arrows cycle
  | .deep => js "Maximum call stack size exceeded"

structure DependencyGraph where
  order : List DiscoveredUnit
  imports : List (JsString × List JsString)
  networkDeps : List JsString

/-- `graph.imports.get(id) ?? []`. -/
def DependencyGraph.importsOf (graph : DependencyGraph) (id : JsString) : List JsString :=
  (graph.imports.lookup id).getD []

def RESERVED_BUILTIN_IDS : List JsString := [js "credits.aleo"]

/-- Every name with the unit that it stands for. -/
def claims (units : List DiscoveredUnit) : List (JsString × DiscoveredUnit) :=
  units.flatMap fun unit => (lookupKeys unit).map fun key => (key, unit)

/-- One turn of `validateUniqueLookupKeys`. -/
def claim (claimedBy : List (JsString × DiscoveredUnit)) (entry : JsString × DiscoveredUnit) :
    Except ResolveError (List (JsString × DiscoveredUnit)) :=
  let (key, unit) := entry
  if key ∈ RESERVED_BUILTIN_IDS then .error (.reserved key unit)
  else match claimedBy.lookup key with
    | some existing =>
      if existing ≠ unit then .error (.collision key existing unit) else .ok (entry :: claimedBy)
    | none => .ok (entry :: claimedBy)

def validateUniqueLookupKeys (units : List DiscoveredUnit) :
    Except ResolveError (List (JsString × DiscoveredUnit)) :=
  (claims units).foldlM claim []

/-- The unit that a name stands for. -/
def unitById (units : List DiscoveredUnit) : List (JsString × DiscoveredUnit) :=
  (claims units).reverse

inductive Import where
  | local (id : JsString)
  | network (id : JsString)

def Import.id : Import → JsString
  | .local id | .network id => id

/-- What an import of the unit `id` is recorded as; an import of itself is not. -/
def resolveImport (units : List DiscoveredUnit) (id dep : JsString) : Option Import :=
  match (unitById units).lookup dep with
  | some resolved => if unitId resolved = id then none else some (.local (unitId resolved))
  | none => some (.network dep)

section

variable (parseImports : JsString → List JsString → List JsString)

/-- What the sources of a unit import. -/
def rawImports (unit : DiscoveredUnit) : List JsString :=
  parseImports unit.sourceDir unit.allSources

def resolvedImports (units : List DiscoveredUnit) (unit : DiscoveredUnit) : List Import :=
  (rawImports parseImports unit).filterMap (resolveImport units (unitId unit))

def normalizedImports (units : List DiscoveredUnit) (unit : DiscoveredUnit) : List JsString :=
  (resolvedImports parseImports units unit).map Import.id

def localDeps (units : List DiscoveredUnit) (unit : DiscoveredUnit) : List JsString :=
  (resolvedImports parseImports units unit).filterMap fun
    | .local id => some id
    | .network _ => none

def networkDepsOf (units : List DiscoveredUnit) (unit : DiscoveredUnit) : List JsString :=
  (resolvedImports parseImports units unit).filterMap fun
    | .local _ => none
    | .network id => some id

/-- A `Map` from the id of each unit. -/
def byId {α : Type} (units : List DiscoveredUnit) (f : DiscoveredUnit → α) : List (JsString × α) :=
  (units.map fun unit => (unitId unit, f unit)).reverse

/-- `localAdj.get(id) ?? []`. -/
def localAdj (units : List DiscoveredUnit) (id : JsString) : List JsString :=
  ((byId units (localDeps parseImports units)).lookup id).getD []

def resolveDependencies (units : List DiscoveredUnit) : Except ResolveError DependencyGraph := do
  let _ ← validateUniqueLookupKeys units
  -- `visit` pushes the unit of an id when it has finished the id.
  match Dfs.sort (localAdj parseImports units) (fun id => ((unitById units).lookup id).toList)
      (units.length + 1) (units.map unitId) with
  | .ok s => .ok {
      order := s.out
      imports := byId units (normalizedImports parseImports units)
      networkDeps := (units.flatMap (networkDepsOf parseImports units)).eraseDups }
  | .error (.cycle cycle) => .error (.circular cycle)
  | .error .deep => .error .deep

/-! ## The graph as it is meant -/

/-- The unit `a` imports the unit `b` under one of its names. -/
def LocalImport (units : List DiscoveredUnit) (a b : JsString) : Prop :=
  a ≠ b ∧ ∃ u ∈ units, unitId u = a ∧ ∃ v ∈ units, unitId v = b ∧
    ∃ dep ∈ rawImports parseImports u, dep ∈ lookupKeys v

/-- What an import is recorded as: the unit that it names, other than the importing one, or else the
name itself. -/
def Recorded (units : List DiscoveredUnit) (u : DiscoveredUnit) (id : JsString) : Prop :=
  (∃ v ∈ units, v ≠ u ∧ id = unitId v ∧ ∃ dep ∈ rawImports parseImports u, dep ∈ lookupKeys v) ∨
    id ∈ rawImports parseImports u ∧ ∀ v ∈ units, id ∉ lookupKeys v

structure WellResolved (units : List DiscoveredUnit) (graph : DependencyGraph) : Prop where
  unique : ∀ u ∈ units, ∀ v ∈ units, unitId u = unitId v → u = v
  nodup : graph.order.Nodup
  mem : ∀ u, u ∈ graph.order ↔ u ∈ units
  /-- Dependencies come before their dependents. -/
  before : ∀ earlier u later, graph.order = earlier ++ u :: later →
    ∀ v ∈ units, LocalImport parseImports units (unitId u) (unitId v) → v ∈ earlier
  imports : ∀ u ∈ units, ∀ id, id ∈ graph.importsOf (unitId u) ↔ Recorded parseImports units u id
  notItself : ∀ u ∈ units, unitId u ∉ graph.importsOf (unitId u)
  network : ∀ id, id ∈ graph.networkDeps ↔
    (∃ u ∈ units, id ∈ rawImports parseImports u) ∧ ∀ v ∈ units, id ∉ lookupKeys v
  disjoint : ∀ id ∈ graph.networkDeps, ∀ u ∈ units, id ≠ unitId u

def Reserved (units : List DiscoveredUnit) : Prop :=
  ∃ u ∈ units, ∃ key ∈ lookupKeys u, key ∈ RESERVED_BUILTIN_IDS

/-- Two units are imported under one name. -/
def Collide (units : List DiscoveredUnit) : Prop :=
  ∃ u ∈ units, ∃ v ∈ units, u ≠ v ∧ ∃ key ∈ lookupKeys u, key ∈ lookupKeys v

def Cyclic (units : List DiscoveredUnit) : Prop :=
  ∃ id, Relation.TransGen (LocalImport parseImports units) id id

/-- A path of local imports that ends where it begins. -/
def IsImportCycle (units : List DiscoveredUnit) (cycle : List JsString) : Prop :=
  ∃ x inner, cycle = x :: (inner ++ [x]) ∧ List.IsChain (LocalImport parseImports units) cycle

end

theorem LocalImport.mem_units {parseImports : JsString → List JsString → List JsString}
    {units : List DiscoveredUnit} {a b : JsString} (h : LocalImport parseImports units a b) :
    b ∈ units.map unitId := by
  obtain ⟨-, -, -, -, v, hv, rfl, -⟩ := h
  exact List.mem_map_of_mem hv

theorem mem_units_of_transGen {parseImports : JsString → List JsString → List JsString}
    {units : List DiscoveredUnit} {a b : JsString}
    (h : Relation.TransGen (LocalImport parseImports units) a b) : b ∈ units.map unitId := by
  obtain ⟨c, -, hc⟩ := Relation.TransGen.tail'_iff.mp h
  exact hc.mem_units

/-! ## Names -/

section Names

variable {units : List DiscoveredUnit}

theorem mem_claims {key : JsString} {u : DiscoveredUnit} :
    (key, u) ∈ claims units ↔ u ∈ units ∧ key ∈ lookupKeys u := by
  simp [claims]

/-- Every name is claimed by one unit, and by none if it is reserved. -/
structure Unique (entries : List (JsString × DiscoveredUnit)) : Prop where
  same : ∀ key u v, (key, u) ∈ entries → (key, v) ∈ entries → u = v
  free : ∀ key u, (key, u) ∈ entries → key ∉ RESERVED_BUILTIN_IDS

theorem Unique.cons {entries : List (JsString × DiscoveredUnit)} {key : JsString}
    {unit : DiscoveredUnit} (h : Unique entries) (hfree : key ∉ RESERVED_BUILTIN_IDS)
    (hsame : ∀ v, (key, v) ∈ entries → v = unit) : Unique ((key, unit) :: entries) := by
  refine ⟨fun k u v hu hv => ?_, fun k u hu => ?_⟩
  · rcases List.mem_cons.mp hu with hu | hu <;> rcases List.mem_cons.mp hv with hv | hv
    · cases hu
      cases hv
      rfl
    · cases hu
      exact (hsame v hv).symm
    · cases hv
      exact hsame u hu
    · exact h.same k u v hu hv
  · rcases List.mem_cons.mp hu with hu | hu
    · cases hu
      exact hfree
    · exact h.free k u hu

/-- A claim that succeeds is of a name that is free, or the unit's own. -/
theorem claim_ok {claimedBy result : List (JsString × DiscoveredUnit)}
    {entry : JsString × DiscoveredUnit} (h : claim claimedBy entry = .ok result)
    (hunique : Unique claimedBy) : result = entry :: claimedBy ∧ Unique result := by
  obtain ⟨key, unit⟩ := entry
  unfold claim at h
  dsimp only at h
  split at h
  · cases h
  next hfree =>
  split at h
  · next existing hlookup =>
    split at h
    · cases h
    · next hsame =>
      cases h
      refine ⟨rfl, hunique.cons hfree fun v hv => ?_⟩
      rw [← not_not.mp hsame]
      exact hunique.same key v existing hv (Fallible.mem_of_lookup hlookup)
  · next hlookup =>
    cases h
    exact ⟨rfl, hunique.cons hfree fun v hv => absurd hv (Fallible.lookup_none.mp hlookup v)⟩

/-- A claim fails if the name is reserved, or another unit's. -/
theorem claim_error {claimedBy : List (JsString × DiscoveredUnit)}
    {entry : JsString × DiscoveredUnit} {e : ResolveError} (h : claim claimedBy entry = .error e) :
    e = .reserved entry.1 entry.2 ∧ entry.1 ∈ RESERVED_BUILTIN_IDS ∨
      ∃ existing, e = .collision entry.1 existing entry.2 ∧ existing ≠ entry.2 ∧
        (entry.1, existing) ∈ claimedBy := by
  obtain ⟨key, unit⟩ := entry
  unfold claim at h
  dsimp only at h
  split at h
  · next hreserved =>
    cases h
    exact .inl ⟨rfl, hreserved⟩
  split at h
  · next existing hlookup =>
    split at h
    · next hne =>
      cases h
      exact .inr ⟨existing, rfl, hne, Fallible.mem_of_lookup hlookup⟩
    · cases h
  · cases h

theorem foldlM_claim_ok {entries claimedBy result : List (JsString × DiscoveredUnit)}
    (h : entries.foldlM claim claimedBy = .ok result) (hunique : Unique claimedBy) :
    result = entries.reverse ++ claimedBy ∧ Unique result := by
  induction entries generalizing claimedBy with
  | nil =>
    cases h
    exact ⟨rfl, hunique⟩
  | cons entry entries ih =>
    rw [List.foldlM_cons] at h
    obtain ⟨claimedBy', hclaim, h⟩ := Fallible.bind_ok.mp h
    obtain ⟨rfl, hunique'⟩ := claim_ok hclaim hunique
    obtain ⟨rfl, hresult⟩ := ih h hunique'
    exact ⟨by simp, hresult⟩

theorem foldlM_claim_error {entries claimedBy : List (JsString × DiscoveredUnit)} {e : ResolveError}
    (h : entries.foldlM claim claimedBy = .error e) (hunique : Unique claimedBy) :
    (∃ entry ∈ entries, e = .reserved entry.1 entry.2 ∧ entry.1 ∈ RESERVED_BUILTIN_IDS) ∨
      ∃ entry ∈ entries, ∃ existing, e = .collision entry.1 existing entry.2 ∧
        existing ≠ entry.2 ∧ (entry.1, existing) ∈ entries ++ claimedBy := by
  induction entries generalizing claimedBy with
  | nil => cases h
  | cons entry entries ih =>
    rw [List.foldlM_cons] at h
    rcases Fallible.bind_error.mp h with h | ⟨claimedBy', hclaim, h⟩
    · rcases claim_error h with ⟨he, hreserved⟩ | ⟨existing, he, hne, hmem⟩
      · exact .inl ⟨entry, List.mem_cons_self, he, hreserved⟩
      · exact .inr ⟨entry, List.mem_cons_self, existing, he, hne, by simp [hmem]⟩
    · obtain ⟨rfl, hunique'⟩ := claim_ok hclaim hunique
      rcases ih h hunique' with ⟨d, hd, hreserved⟩ | ⟨d, hd, existing, he, hne, hmem⟩
      · exact .inl ⟨d, List.mem_cons_of_mem entry hd, hreserved⟩
      · refine .inr ⟨d, List.mem_cons_of_mem entry hd, existing, he, hne, ?_⟩
        simp only [List.mem_append, List.mem_cons] at hmem ⊢
        tauto

theorem unique_nil : Unique [] := ⟨by simp, by simp⟩

/-- The validation passes exactly if no name is reserved and none is claimed twice. -/
theorem validate_ok {result : List (JsString × DiscoveredUnit)}
    (h : validateUniqueLookupKeys units = .ok result) : Unique (claims units) := by
  obtain ⟨rfl, hunique⟩ := foldlM_claim_ok h unique_nil
  exact ⟨fun key u v hu hv => hunique.same key u v (by simpa using hu) (by simpa using hv),
    fun key u hu => hunique.free key u (by simpa using hu)⟩

theorem validate_error {e : ResolveError} (h : validateUniqueLookupKeys units = .error e) :
    (∃ u ∈ units, ∃ key ∈ lookupKeys u, key ∈ RESERVED_BUILTIN_IDS ∧ e = .reserved key u) ∨
      ∃ u ∈ units, ∃ v ∈ units, u ≠ v ∧ ∃ key ∈ lookupKeys u, key ∈ lookupKeys v ∧
        e = .collision key u v := by
  rcases foldlM_claim_error h unique_nil with
    ⟨⟨key, u⟩, hmem, he, hreserved⟩ | ⟨⟨key, v⟩, hmem, u, he, hne, hmem'⟩
  · obtain ⟨hu, hkey⟩ := mem_claims.mp hmem
    exact .inl ⟨u, hu, key, hkey, hreserved, he⟩
  · obtain ⟨hv, hkeyv⟩ := mem_claims.mp hmem
    obtain ⟨hu, hkeyu⟩ := mem_claims.mp (by simpa using hmem')
    exact .inr ⟨u, hu, v, hv, hne, key, hkeyu, hkeyv, he⟩

variable (hunique : Unique (claims units))

include hunique

theorem Unique.eq {u v : DiscoveredUnit} (hu : u ∈ units) (hv : v ∈ units) {key : JsString}
    (hku : key ∈ lookupKeys u) (hkv : key ∈ lookupKeys v) : u = v :=
  hunique.same key u v (mem_claims.mpr ⟨hu, hku⟩) (mem_claims.mpr ⟨hv, hkv⟩)

theorem Unique.eq_of_unitId {u v : DiscoveredUnit} (hu : u ∈ units) (hv : v ∈ units)
    (h : unitId u = unitId v) : u = v :=
  hunique.eq hu hv (unitId_mem_lookupKeys u) (h ▸ unitId_mem_lookupKeys v)

theorem lookup_unitById {u : DiscoveredUnit} (hu : u ∈ units) {key : JsString}
    (hkey : key ∈ lookupKeys u) : (unitById units).lookup key = some u := by
  refine Fallible.lookup_of_unique (fun v hv => ?_) ?_
  · exact hunique.same key v u (by simpa [unitById] using hv) (mem_claims.mpr ⟨hu, hkey⟩)
  · simpa [unitById] using mem_claims.mpr ⟨hu, hkey⟩

omit hunique in
theorem lookup_unitById_none {key : JsString} :
    (unitById units).lookup key = none ↔ ∀ v ∈ units, key ∉ lookupKeys v := by
  rw [Fallible.lookup_none]
  simp only [unitById, List.mem_reverse, mem_claims, not_and]

theorem lookup_byId {α : Type} (f : DiscoveredUnit → α) {u : DiscoveredUnit} (hu : u ∈ units) :
    (byId units f).lookup (unitId u) = some (f u) := by
  refine Fallible.lookup_of_unique (fun a ha => ?_) ?_
  · obtain ⟨v, hv, heq⟩ := by simpa [byId] using ha
    rw [← heq.2, hunique.eq_of_unitId hv hu heq.1]
  · simpa [byId] using ⟨u, hu, rfl, rfl⟩

/-- What an import is recorded as: nothing, the unit that it names, or a program of the network. -/
theorem resolveImport_eq_some {u : DiscoveredUnit} (hu : u ∈ units) {dep : JsString} {i : Import} :
    resolveImport units (unitId u) dep = some i ↔
      (∃ v ∈ units, dep ∈ lookupKeys v ∧ v ≠ u ∧ i = .local (unitId v)) ∨
        (∀ v ∈ units, dep ∉ lookupKeys v) ∧ i = .network dep := by
  unfold resolveImport
  cases hlookup : (unitById units).lookup dep with
  | none =>
    have hnone := lookup_unitById_none.mp hlookup
    simp only [Option.some.injEq]
    exact ⟨fun h => .inr ⟨hnone, h.symm⟩, fun h => (h.resolve_left fun ⟨v, hv, hdep, _⟩ =>
      hnone v hv hdep).2.symm⟩
  | some w =>
    obtain ⟨hw, hdep⟩ := mem_claims.mp (by simpa [unitById] using Fallible.mem_of_lookup hlookup)
    by_cases hself : unitId w = unitId u
    · obtain rfl := hunique.eq_of_unitId hw hu hself
      simp only [if_true]
      refine ⟨nofun, ?_⟩
      rintro (⟨v, hv, hdep', hne, -⟩ | ⟨hnone, -⟩)
      · exact absurd (hunique.eq hv hw hdep' hdep) hne
      · exact absurd hdep (hnone w hw)
    · simp only [hself, if_false, Option.some.injEq]
      constructor
      · rintro rfl
        exact .inl ⟨w, hw, hdep, fun h => hself (by rw [h]), rfl⟩
      · rintro (⟨v, hv, hdep', -, rfl⟩ | ⟨hnone, -⟩)
        · rw [hunique.eq hv hw hdep' hdep]
        · exact absurd hdep (hnone w hw)

end Names

/-! ## The graph -/

section Graph

variable {parseImports : JsString → List JsString → List JsString} {units : List DiscoveredUnit}
  (hunique : Unique (claims units))

include hunique

theorem mem_resolvedImports {u : DiscoveredUnit} (hu : u ∈ units) {i : Import} :
    i ∈ resolvedImports parseImports units u ↔
      (∃ v ∈ units, v ≠ u ∧ i = .local (unitId v) ∧
        ∃ dep ∈ rawImports parseImports u, dep ∈ lookupKeys v) ∨
      ∃ dep ∈ rawImports parseImports u, (∀ v ∈ units, dep ∉ lookupKeys v) ∧ i = .network dep := by
  simp only [resolvedImports, List.mem_filterMap, resolveImport_eq_some hunique hu]
  constructor
  · rintro ⟨dep, hdep, ⟨v, hv, hkey, hne, hi⟩ | ⟨hnone, hi⟩⟩
    · exact .inl ⟨v, hv, hne, hi, dep, hdep, hkey⟩
    · exact .inr ⟨dep, hdep, hnone, hi⟩
  · rintro (⟨v, hv, hne, hi, dep, hdep, hkey⟩ | ⟨dep, hdep, hnone, hi⟩)
    · exact ⟨dep, hdep, .inl ⟨v, hv, hkey, hne, hi⟩⟩
    · exact ⟨dep, hdep, .inr ⟨hnone, hi⟩⟩

theorem mem_normalizedImports {u : DiscoveredUnit} (hu : u ∈ units) {id : JsString} :
    id ∈ normalizedImports parseImports units u ↔ Recorded parseImports units u id := by
  simp only [normalizedImports, List.mem_map, mem_resolvedImports hunique hu, Recorded]
  constructor
  · rintro ⟨i, ⟨v, hv, hne, rfl, himport⟩ | ⟨dep, hdep, hnone, rfl⟩, rfl⟩
    · exact .inl ⟨v, hv, hne, rfl, himport⟩
    · exact .inr ⟨hdep, hnone⟩
  · rintro (⟨v, hv, hne, rfl, himport⟩ | ⟨hdep, hnone⟩)
    · exact ⟨.local (unitId v), .inl ⟨v, hv, hne, rfl, himport⟩, rfl⟩
    · exact ⟨.network id, .inr ⟨id, hdep, hnone, rfl⟩, rfl⟩

theorem mem_localDeps {u : DiscoveredUnit} (hu : u ∈ units) {id : JsString} :
    id ∈ localDeps parseImports units u ↔ LocalImport parseImports units (unitId u) id := by
  simp only [localDeps, List.mem_filterMap, mem_resolvedImports hunique hu]
  constructor
  · rintro ⟨i, ⟨v, hv, hne, rfl, himport⟩ | ⟨dep, hdep, hnone, rfl⟩, hi⟩
    · cases hi
      exact ⟨fun h => hne (hunique.eq_of_unitId hv hu h.symm), u, hu, rfl, v, hv, rfl, himport⟩
    · cases hi
  · rintro ⟨hne, u', hu', heq, v, hv, rfl, himport⟩
    obtain rfl := hunique.eq_of_unitId hu' hu heq
    exact ⟨.local (unitId v), .inl ⟨v, hv, fun h => hne (by rw [h]), rfl, himport⟩, rfl⟩

theorem mem_networkDepsOf {u : DiscoveredUnit} (hu : u ∈ units) {id : JsString} :
    id ∈ networkDepsOf parseImports units u ↔
      id ∈ rawImports parseImports u ∧ ∀ v ∈ units, id ∉ lookupKeys v := by
  simp only [networkDepsOf, List.mem_filterMap, mem_resolvedImports hunique hu]
  constructor
  · rintro ⟨i, ⟨v, hv, hne, rfl, himport⟩ | ⟨dep, hdep, hnone, rfl⟩, hi⟩
    · cases hi
    · cases hi
      exact ⟨hdep, hnone⟩
  · rintro ⟨hdep, hnone⟩
    exact ⟨.network id, .inr ⟨id, hdep, hnone, rfl⟩, rfl⟩

/-- The edges that the search follows are the local imports. -/
theorem edge_iff (a b : JsString) :
    Dfs.Edge (localAdj parseImports units) a b ↔ LocalImport parseImports units a b := by
  by_cases ha : ∃ u ∈ units, unitId u = a
  · obtain ⟨u, hu, rfl⟩ := ha
    unfold Dfs.Edge localAdj
    rw [lookup_byId hunique _ hu, Option.getD_some]
    exact mem_localDeps hunique hu
  · have hnone : (byId units (localDeps parseImports units)).lookup a = none := by
      rw [Fallible.lookup_none]
      intro deps hdeps
      obtain ⟨u, hu, heq⟩ := by simpa [byId] using hdeps
      exact ha ⟨u, hu, heq.1⟩
    unfold Dfs.Edge localAdj
    rw [hnone, Option.getD_none]
    exact ⟨nofun, fun ⟨_, u, hu, heq, _⟩ => absurd ⟨u, hu, heq⟩ ha⟩

theorem edge_eq : Dfs.Edge (localAdj parseImports units) = LocalImport parseImports units := by
  funext a b
  exact propext (edge_iff hunique a b)

theorem localAdj_subset : ∀ x ∈ units.map unitId, ∀ y ∈ localAdj parseImports units x,
    y ∈ units.map unitId := by
  intro x _ y hy
  obtain ⟨-, -, -, -, v, hv, rfl, -⟩ := (edge_iff hunique x y).mp hy
  exact List.mem_map_of_mem hv

/-- The units of the nodes that the search has finished. -/
theorem map_unitId_flatMap {ids : List JsString} (hids : ∀ id ∈ ids, id ∈ units.map unitId) :
    (ids.flatMap fun id => ((unitById units).lookup id).toList).map unitId = ids ∧
      ∀ u ∈ ids.flatMap fun id => ((unitById units).lookup id).toList, u ∈ units := by
  induction ids with
  | nil => simp
  | cons id ids ih =>
    obtain ⟨hid, hrest⟩ := List.forall_mem_cons.mp hids
    obtain ⟨u, hu, rfl⟩ := List.mem_map.mp hid
    obtain ⟨hmap, hmem⟩ := ih hrest
    rw [List.flatMap_cons, lookup_unitById hunique hu (unitId_mem_lookupKeys u)]
    exact ⟨by simp [hmap], List.forall_mem_cons.mpr ⟨hu, hmem⟩⟩

/-- A graph that is returned is as it is meant. -/
theorem wellResolved {s : Dfs.State JsString DiscoveredUnit}
    (h : Dfs.sort (localAdj parseImports units) (fun id => ((unitById units).lookup id).toList)
      (units.length + 1) (units.map unitId) = .ok s) :
    WellResolved parseImports units {
      order := s.out
      imports := byId units (normalizedImports parseImports units)
      networkDeps := (units.flatMap (networkDepsOf parseImports units)).eraseDups } := by
  obtain ⟨hs, hvisited⟩ := Dfs.sort_ok (localAdj_subset hunique) h
  have hids : ∀ id ∈ s.visited, id ∈ units.map unitId := fun id hid => (hvisited id).mp hid
  obtain ⟨hmap, hmem⟩ := map_unitId_flatMap hunique hids
  rw [← hs.out] at hmap hmem
  have hall (u : DiscoveredUnit) (hu : u ∈ units) : u ∈ s.out := by
    have hid : unitId u ∈ s.out.map unitId := by
      rw [hmap]
      exact (hvisited _).mpr (List.mem_map_of_mem hu)
    obtain ⟨v, hv, heq⟩ := List.mem_map.mp hid
    rwa [← hunique.eq_of_unitId (hmem v hv) hu heq]
  have himports (u : DiscoveredUnit) (hu : u ∈ units) (id : JsString) :
      id ∈ ((byId units (normalizedImports parseImports units)).lookup (unitId u)).getD [] ↔
        Recorded parseImports units u id := by
    rw [lookup_byId hunique _ hu, Option.getD_some]
    exact mem_normalizedImports hunique hu
  have hnetwork (id : JsString) :
      id ∈ (units.flatMap (networkDepsOf parseImports units)).eraseDups ↔
        (∃ u ∈ units, id ∈ rawImports parseImports u) ∧ ∀ v ∈ units, id ∉ lookupKeys v := by
    rw [List.mem_eraseDups, List.mem_flatMap]
    constructor
    · rintro ⟨u, hu, hid⟩
      obtain ⟨hdep, hnone⟩ := (mem_networkDepsOf hunique hu).mp hid
      exact ⟨⟨u, hu, hdep⟩, hnone⟩
    · rintro ⟨⟨u, hu, hdep⟩, hnone⟩
      exact ⟨u, hu, (mem_networkDepsOf hunique hu).mpr ⟨hdep, hnone⟩⟩
  refine {
    unique := fun u hu v hv => hunique.eq_of_unitId hu hv
    nodup := List.Nodup.of_map unitId (hmap ▸ hs.nodup)
    mem := fun u => ⟨hmem u, hall u⟩
    before := fun earlier u later heq v hv himport => ?_
    imports := himports
    notItself := fun u hu hself => ?_
    network := hnetwork
    disjoint := fun id hid u hu heq => ?_ }
  · have hsplit : s.visited = earlier.map unitId ++ unitId u :: later.map unitId := by
      rw [← hmap, show s.out = _ from heq, List.map_append, List.map_cons]
    have hearlier := hs.closed _ _ _ hsplit (unitId v) ((edge_iff hunique _ _).mpr himport)
    obtain ⟨w, hw, hwv⟩ := List.mem_map.mp hearlier
    have hwout : w ∈ s.out := by
      rw [show s.out = _ from heq]
      exact List.mem_append_left _ hw
    rwa [← hunique.eq_of_unitId (hmem w hwout) hv hwv]
  · rcases (himports u hu _).mp hself with ⟨v, hv, hne, hid, -⟩ | ⟨-, hnone⟩
    · exact hne (hunique.eq_of_unitId hv hu hid.symm)
    · exact hnone u hu (unitId_mem_lookupKeys u)
  · exact ((hnetwork id).mp hid).2 u hu (heq ▸ unitId_mem_lookupKeys u)

end Graph

/-- What an outcome of `resolveDependencies` has to be. -/
def OutcomeIsRight (parseImports : JsString → List JsString → List JsString)
    (units : List DiscoveredUnit) : Except ResolveError DependencyGraph → Prop
  | .ok graph => ¬Reserved units ∧ ¬Collide units ∧ ¬Cyclic parseImports units ∧
      WellResolved parseImports units graph
  | .error (.reserved key u) => u ∈ units ∧ key ∈ lookupKeys u ∧ key ∈ RESERVED_BUILTIN_IDS
  | .error (.collision key u v) =>
      u ∈ units ∧ v ∈ units ∧ u ≠ v ∧ key ∈ lookupKeys u ∧ key ∈ lookupKeys v
  | .error (.circular cycle) =>
      Cyclic parseImports units ∧ IsImportCycle parseImports units cycle
  | .error .deep => False

theorem not_reserved_of_unique {units : List DiscoveredUnit} (h : Unique (claims units)) :
    ¬Reserved units ∧ ¬Collide units :=
  ⟨fun ⟨u, hu, key, hkey, hreserved⟩ => h.free key u (mem_claims.mpr ⟨hu, hkey⟩) hreserved,
    fun ⟨_, hu, _, hv, hne, _, hku, hkv⟩ => hne (h.eq hu hv hku hkv)⟩

/-- The traversal of units that import each other in a circle finds a cycle. -/
theorem sort_of_cyclic_units {parseImports : JsString → List JsString → List JsString}
    {units : List DiscoveredUnit} (hunique : Unique (claims units))
    (hcyclic : Cyclic parseImports units) : ∃ path,
      Dfs.sort (localAdj parseImports units) (fun id => ((unitById units).lookup id).toList)
        (units.length + 1) (units.map unitId) = .error (.cycle path) := by
  obtain ⟨id, hid⟩ := hcyclic
  exact Dfs.sort_of_cyclic (localAdj_subset hunique) (by simp) (mem_units_of_transGen hid)
    (edge_eq hunique ▸ hid)

/-- **A graph that is returned is as it is meant.** -/
theorem resolveDependencies_ok {parseImports : JsString → List JsString → List JsString}
    {units : List DiscoveredUnit} {graph : DependencyGraph}
    (h : resolveDependencies parseImports units = .ok graph) :
    ¬Reserved units ∧ ¬Collide units ∧ ¬Cyclic parseImports units ∧
      WellResolved parseImports units graph := by
  obtain ⟨result, hvalid, h⟩ := Fallible.bind_ok.mp h
  have hunique := validate_ok hvalid
  obtain ⟨hreserved, hcollide⟩ := not_reserved_of_unique hunique
  cases hsort : Dfs.sort (localAdj parseImports units)
      (fun id => ((unitById units).lookup id).toList) (units.length + 1) (units.map unitId) with
  | ok s =>
    rw [hsort] at h
    cases h
    refine ⟨hreserved, hcollide, fun hcyclic => ?_, wellResolved hunique hsort⟩
    obtain ⟨path, hpath⟩ := sort_of_cyclic_units hunique hcyclic
    exact nomatch hsort.symm.trans hpath
  | error e =>
    rw [hsort] at h
    cases e <;> cases h

/-- **The graph is right, for every list of units**: an error names what is wrong, a cycle that is the
only fault is reported, and a graph that is returned is as it is meant. -/
theorem resolveDependencies_correct (parseImports : JsString → List JsString → List JsString)
    (units : List DiscoveredUnit) :
    OutcomeIsRight parseImports units (resolveDependencies parseImports units) ∧
      (¬Reserved units → ¬Collide units → Cyclic parseImports units →
        ∃ cycle, resolveDependencies parseImports units = .error (.circular cycle)) := by
  cases hresolve : resolveDependencies parseImports units with
  | ok graph =>
    have hok := resolveDependencies_ok hresolve
    exact ⟨hok, fun _ _ hcyclic => absurd hcyclic hok.2.2.1⟩
  | error e =>
    rcases Fallible.bind_error.mp hresolve with hvalid | ⟨result, hvalid, hsorted⟩
    · rcases validate_error hvalid with
        ⟨u, hu, key, hkey, hreserved, rfl⟩ | ⟨u, hu, v, hv, hne, key, hku, hkv, rfl⟩
      · exact ⟨⟨hu, hkey, hreserved⟩, fun hnot => absurd ⟨u, hu, key, hkey, hreserved⟩ hnot⟩
      · exact ⟨⟨hu, hv, hne, hku, hkv⟩,
          fun _ hnot => absurd ⟨u, hu, v, hv, hne, key, hku, hkv⟩ hnot⟩
    have hunique := validate_ok hvalid
    cases hsort : Dfs.sort (localAdj parseImports units)
        (fun id => ((unitById units).lookup id).toList) (units.length + 1) (units.map unitId) with
    | ok s =>
      rw [hsort] at hsorted
      cases hsorted
    | error failure =>
      rw [hsort] at hsorted
      cases failure with
      | deep => exact absurd hsort (Dfs.sort_not_deep (localAdj_subset hunique) (by simp))
      | cycle path =>
        cases hsorted
        have hpath := Dfs.sort_cycle hsort
        obtain ⟨x, -, hx⟩ := hpath.transGen
        rw [edge_eq hunique] at hx
        obtain ⟨y, inner, heq, hchain⟩ := hpath
        rw [edge_eq hunique] at hchain
        exact ⟨⟨⟨x, hx⟩, y, inner, heq, hchain⟩, fun _ _ _ => ⟨path, rfl⟩⟩

end Lionden.Compiler
