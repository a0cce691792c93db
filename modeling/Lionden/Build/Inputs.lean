import Lionden.Build.Plans
import Lionden.Build.Prepared
import Lionden.Lib.Merkle

/-!
# What the inputs of a unit say about its package

* `Platform.Reliable`: what is relied on of SHA-256 and of Leo.
* `scheme`: the package of a unit, as its input has it.
* `describes_unit`: the input of a unit describes its package and those below it.
-/

namespace Lionden.Build

open Compiler Targets

/-- The packages of the local dependencies. -/
def Location.package? : Location → Option JsString
  | .package id => some id
  | .network => none

def PackageContents.deps (contents : PackageContents) : List JsString :=
  match contents.programJson with
  | none => []
  | some manifest => manifest.dependencies.filterMap fun entry => entry.location.package?

/-- SHA-256 has no collisions, and its digests no white space around them; a build depends on the
packages that it comes to. -/
structure Platform.Reliable (platform : Platform) : Prop where
  sha256_injective : Function.Injective platform.sha256
  sha256_trimmed : ∀ text, trim (platform.sha256 text ++ newline) = platform.sha256 text
  leoBuild_local : ∀ leoVersion flags packages packages' id,
    Merkle.Same PackageContents.deps packages packages' id →
      platform.leoBuild leoVersion flags packages id = platform.leoBuild leoVersion flags packages' id

/-- The configuration with another version of Leo. -/
def Config.withLeo (settings : Config) (leoVersion : JsString) : Config :=
  { settings with leoVersion }

/-- The package of the unit `unit` under the id `id`. -/
def viewOf (settings : Config) (network unit id : JsString) (input : HashInput) :
    PackageContents where
  src file := (input.files.lookup file).bind fun text =>
    if unit ≠ id ∧ file = js "main.leo" then
      (rewriteMainProgramDeclaration text ⟨unit, id⟩).toOption
    else some text
  programJson := input.programJson
  env := some (buildDotEnv settings network)
  imports dep := input.networkDeps.lookup dep

/-- How packages are read off the inputs of units. -/
def scheme (platform : Platform) (settings : Config) (network : JsString) :
    Merkle.Scheme JsString PackageContents HashInput JsString where
  succ := PackageContents.deps
  own id := id
  view := viewOf settings network
  fingerprint input := platform.sha256 (input.text settings)
  recorded input dep := input.deps.lookup dep

section Unit

variable {platform : Platform} {settings config : Config} {leoVersion : JsString}
  {env : Environment} {plan : Plan} {unit : DiscoveredUnit} {disk : Disk}
  {depHashes : List (JsString × JsString)} {source : JsString → Except JsString JsString}
  {linked : List JsString} {network : JsString}

theorem mem_sortNames {name : JsString} {names : List JsString} :
    name ∈ sortNames names ↔ name ∈ names :=
  List.mem_insertionSort _

/-- A source as the view has it. -/
theorem copySource_view {file text : JsString}
    (h : copySource env.read unit plan.renamePlan file = .ok text) :
    (if unitId unit ≠ plan.effectiveId unit ∧ file = js "main.leo" then
      (rewriteMainProgramDeclaration (env.read unit.sourceDir file)
        ⟨unitId unit, plan.effectiveId unit⟩).toOption
    else some (env.read unit.sourceDir file)) = some text := by
  unfold copySource at h
  unfold Plan.effectiveId effectiveUnitId
  cases hkind : unit.kind with
  | library name =>
    rw [hkind] at h
    cases h
    simp
  | program programId =>
    have hid : unitId unit = programId := by simp [unitId, hkind]
    rw [hkind] at h
    cases hplan : plan.renamePlan with
    | none =>
      rw [hplan] at h
      cases h
      simp
    | some rename =>
      rw [hplan] at h
      dsimp only at h ⊢
      rw [hid]
      obtain ⟨source, target⟩ := rename
      by_cases hsource : programId = source
      · subst hsource
        by_cases hfile : file = js "main.leo"
        · simp only [hfile, and_self, if_true] at h
          by_cases htarget : programId = target
          · subst htarget
            simp [hfile, rewrite_self h]
          · simp [hfile, htarget, h, Except.toOption]
        · simp only [hfile, and_false, if_false] at h
          cases h
          simp [hfile]
      · simp only [hsource, false_and, if_false] at h
        cases h
        simp [hsource]

/-- The prepared package of a unit is the one that its input has. -/
theorem contents_eq_view (hconfig : config = settings.withLeo leoVersion)
    (hnetwork : plan.network = network) (hcopied : Copied env plan unit)
    (hcontents : disk.contents (plan.effectiveId unit) =
      some (plan.contents config env source linked unit)) :
    plan.contents config env source linked unit = viewOf settings network (unitId unit)
      (plan.effectiveId unit) (plan.hashInput config env disk depHashes unit) := by
  subst hconfig
  obtain ⟨package, hpackage, hpackaged⟩ := Option.map_eq_some_iff.mp hcontents
  have hget : (disk.packages (plan.effectiveId unit)).getD Package.empty = package := by
    rw [hpackage]
    rfl
  have himports (dep : JsString) : package.imports.lookup dep =
      if dep ∈ linked ∧ dep ∈ networkDepIds plan unit then (source dep).toOption else none :=
    congrFun (congrArg PackageContents.imports hpackaged) dep
  have hjson : package.programJson =
      some (buildProgramJson unit plan.graph (plan.effectiveId unit)) :=
    congrArg PackageContents.programJson hpackaged
  refine PackageContents.ext (funext fun file => ?_) ?_ ?_ (funext fun dep => ?_)
  · unfold Plan.contents viewOf Plan.hashInput hashInput
    dsimp only
    have hlookup := Fallible.lookup_filterMap (fun file => some (env.read unit.sourceDir file))
      (sortNames unit.allSources) file
    simp only [Option.map_some, List.filterMap_eq_map', mem_sortNames] at hlookup
    rw [hlookup]
    by_cases hfile : file ∈ unit.allSources
    · obtain ⟨text, htext⟩ := hcopied file hfile
      rw [if_pos hfile, if_pos hfile, Option.bind_some, copySource_view htext, htext]
      rfl
    · rw [if_neg hfile, if_neg hfile]
      rfl
  · show some _ = ((disk.packages (plan.effectiveId unit)).getD Package.empty).programJson
    rw [hget, hjson]
  · unfold Plan.contents
    rw [hnetwork]
    rfl
  · unfold Plan.contents viewOf Plan.hashInput hashInput
    dsimp only
    rw [Fallible.lookup_filterMap, hget, himports]
    simp only [mem_sortNames]
    by_cases hdep : dep ∈ networkDepIds plan unit <;> simp [hdep]

theorem package?_depEntry (graph : DependencyGraph) (dep : JsString) :
    (depEntry graph dep).location.package? =
      if dep ∈ graph.networkDeps then none else some dep := by
  unfold depEntry
  split <;> rfl

/-- The package of a unit leads to its local dependencies. -/
theorem deps_contents :
    (plan.contents config env source linked unit).deps = localDepIds plan unit := by
  show ((plan.graph.importsOf (unitId unit)).map (depEntry plan.graph)).filterMap
    (fun entry => entry.location.package?) = _
  unfold localDepIds
  induction plan.graph.importsOf (unitId unit) with
  | nil => rfl
  | cons dep imports ih =>
    rw [List.map_cons, List.filterMap_cons, package?_depEntry, List.filter_cons]
    by_cases hdep : dep ∈ plan.graph.networkDeps
    · simp only [hdep, if_true, not_true, decide_false, ih]
      rfl
    · simp only [hdep, if_false, not_false_eq_true, decide_true, ih, if_true]

/-- **The input of a unit describes its package**, and those of its dependencies, wherever they are
what they are when they have been prepared. -/
theorem describes_unit {known : HashInput → Prop} {world : JsString → Option PackageContents}
    (hconfig : config = settings.withLeo leoVersion) (hnetwork : plan.network = network)
    (hcopied : Copied env plan unit)
    (hcontents : disk.contents (plan.effectiveId unit) =
      some (plan.contents config env source linked unit))
    (hworld : world (plan.effectiveId unit) = some (plan.contents config env source linked unit))
    (hknown : known (plan.hashInput config env disk depHashes unit))
    (hdeps : ∀ dep ∈ localDepIds plan unit, ∃ input,
      depHashes.lookup dep = some (platform.sha256 (input.text settings)) ∧
        Merkle.Describes (scheme platform settings network) known world dep dep input) :
    Merkle.Describes (scheme platform settings network) known world (unitId unit)
      (plan.effectiveId unit) (plan.hashInput config env disk depHashes unit) := by
  have hview : plan.contents config env source linked unit = viewOf settings network (unitId unit)
      (plan.effectiveId unit) (plan.hashInput config env disk depHashes unit) :=
    contents_eq_view hconfig hnetwork hcopied hcontents
  have hsucc : (scheme platform settings network).succ ((scheme platform settings network).view
      (unitId unit) (plan.effectiveId unit) (plan.hashInput config env disk depHashes unit)) =
        localDepIds plan unit := by
    show (viewOf settings _ _ _ _).deps = _
    rw [← hview, deps_contents]
  choose! inputOf hinputOf using hdeps
  refine .node _ _ _ inputOf hknown (by rw [hworld, hview]; rfl) (fun dep hdep => ?_)
    (fun dep hdep => ?_)
  · rw [hsucc] at hdep
    show ((sortNames (localDepIds plan unit)).filterMap _).lookup dep = _
    rw [Fallible.lookup_filterMap, if_pos (mem_sortNames.mpr hdep)]
    exact (hinputOf dep hdep).1
  · rw [hsucc] at hdep
    exact (hinputOf dep hdep).2

end Unit

end Lionden.Build
