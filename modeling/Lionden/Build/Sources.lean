import Lionden.Build.Discovery
import Lionden.Build.ImportParser
import Lionden.Build.Plans

/-!
# From files to a plan

The units and their imports are read from one directory: `discoverUnits` finds the units, and
`parseImports` reads their files.

* `sourceEnvironment`: an environment whose sources are the files of a directory.
* `references_compiled_first`: what a unit refers to in its code is compiled before it.
-/

namespace Lionden.Build

open Compiler Targets FileTree

section

variable (programsDir : JsString) (programs : Listing)

/-- The text of the file with this path. -/
def readSource (dir relPath : JsString) : JsString :=
  ((programs.files.find? fun e => pathUnder programsDir e.1 = joinPath dir relPath).map
    (·.2)).getD []

/-- The sources are the files of a directory; the rest is left to the network and to Leo. -/
def sourceEnvironment
    (fetchNetworkDep : JsString → JsString → Option JsString → Except JsString JsString)
    (buildEnd : JsString → BuildEnd) : Environment where
  discoverUnits := discoverUnits programsDir (some programs)
  read := readSource programsDir programs
  parseImports := parseImports (readSource programsDir programs)
  fetchNetworkDep := fetchNetworkDep
  buildEnd := buildEnd

end

variable {programsDir : JsString} {t : Listing}

/-- A file is read by its path. -/
theorem readSource_eq (hnames : t.Names FileName) (hdistinct : t.Distinct) {path : List JsString}
    {text dir relPath : JsString} (hfile : Tree.FileAt t path text)
    (hpath : joinPath dir relPath = pathUnder programsDir path) :
    readSource programsDir t dir relPath = text := by
  unfold readSource
  rw [hpath]
  have hmem := Tree.mem_files.mpr hfile
  cases hfind : t.files.find? fun e => pathUnder programsDir e.1 = pathUnder programsDir path with
  | none =>
    have hnone := List.find?_eq_none.mp hfind (path, text) hmem
    simp at hnone
  | some e =>
    obtain ⟨path', text'⟩ := e
    have hmem' := List.mem_of_find?_eq_some hfind
    have heq : pathUnder programsDir path' = pathUnder programsDir path := by
      simpa using List.find?_some hfind
    have hsame : path' = path := pathUnder_injective (hnames.file hmem') (hnames.file hmem)
      (Tree.fileAt_ne_nil (Tree.mem_files.mp hmem')) (Tree.fileAt_ne_nil hfile) heq
    subst hsame
    exact congrArg Prod.snd (List.inj_on_of_nodup_map (Tree.files_nodup hdistinct) hmem' hmem rfl)

/-- **What the code refers to is compiled first.** Let a plan be made for the files of a directory. A
Leo file of a unit of the plan that refers, outside of comments and literals, to another unit under
one of its names stands in a unit that comes after that one. -/
theorem references_compiled_first (hnames : t.Names FileName) (hdistinct : t.Distinct)
    {fetchNetworkDep : JsString → JsString → Option JsString → Except JsString JsString}
    {buildEnd : JsString → BuildEnd} {config : Config} {options : CompileOptions} {plan : Plan}
    (h : planCompilation config (sourceEnvironment programsDir t fetchNetworkDep buildEnd) options =
      .ok plan) :
    ∃ units, discoverUnits programsDir (some t) = .ok units ∧
      ∀ done unit rest, plan.compileOrder = done ++ unit :: rest →
      ∀ path text, Tree.FileAt t path text → pathUnder programsDir path ∈ sourcePaths [unit] →
      ∀ lexemes, Lexical lexemes → sourceOf lexemes = text →
      ∀ id, Refers (lexemes.flatMap Lexeme.scrubbed) id →
      ∀ other ∈ units, id ∈ lookupKeys other → unitId other ≠ unitId unit → other ∈ done := by
  have hordered := planCompilation_ordered h
  unfold planCompilation at h
  split at h
  · cases h
  obtain ⟨network, -, h⟩ := Fallible.bind_ok.mp h
  obtain ⟨units, hunits, h⟩ := Fallible.bind_ok.mp h
  obtain ⟨graph, hresolve, h⟩ := Fallible.bind_ok.mp h
  obtain ⟨-, hgraph⟩ := resolved hresolve
  refine ⟨units, hunits, ?_⟩
  -- The units of the plan are units of the graph.
  have hplan : plan.graph = graph ∧ ∀ unit ∈ plan.compileOrder, unit ∈ units := by
    split at h
    · cases h
      exact ⟨rfl, fun unit hunit => (hgraph.mem unit).mp hunit⟩
    · split at h
      · cases h
      · cases h
        exact ⟨rfl, fun unit hunit => (hgraph.mem unit).mp (List.mem_of_mem_filter hunit)⟩
  intro done unit rest horder path text hfile hsource lexemes hlexical htext id hrefers other hother
    hkey hne
  have hunit : unit ∈ units := hplan.2 unit (by rw [horder]; simp)
  -- The reference is found in the file, which is read by its path.
  have himport : id ∈ rawImports (sourceEnvironment programsDir t fetchNetworkDep
      buildEnd).parseImports unit := by
    obtain ⟨relFile, hrel, hpath⟩ : ∃ relFile ∈ unit.allSources,
        joinPath unit.sourceDir relFile = pathUnder programsDir path := by
      simpa [sourcePaths] using hsource
    refine mem_parseImports.mpr ⟨relFile, hrel, ?_⟩
    rw [readSource_eq hnames hdistinct hfile hpath, ← htext, scrub_sourceOf hlexical]
    exact hrefers
  have hlocal : LocalImport (sourceEnvironment programsDir t fetchNetworkDep buildEnd).parseImports
      units (unitId unit) (unitId other) :=
    ⟨Ne.symm hne, unit, hunit, rfl, other, hother, rfl, id, himport, hkey⟩
  have hdep : unitId other ∈ localDepIds plan unit := by
    rw [localDepIds_eq, hplan.1]
    exact ((follows hgraph).edge _ (List.mem_map_of_mem hunit) _).mpr hlocal
  obtain ⟨found, hfound, hid, -⟩ := hordered done unit rest horder _ hdep
  have hmem : found ∈ units := hplan.2 found (by rw [horder]; exact List.mem_append_left _ hfound)
  exact hgraph.unique found hmem other hother hid ▸ hfound

/-! ## Two programs -/

def appSource : JsString := js "// base\nimport base.aleo;\nprogram app.aleo \x7b\x7d"

/-- A program, and the one that it imports. -/
def sourcesTree : Listing :=
  .dir (js "app") (.file (js "main.leo") appSource .nil)
    (.dir (js "base") (.file (js "main.leo") (js "program base.aleo \x7b\x7d") .nil) .nil)

def workspaceUnit (name : JsString) (object : Nat) : DiscoveredUnit where
  kind := .program (name ++ js ".aleo")
  sourceDir := js "/programs/" ++ name
  entryFile := js "/programs/" ++ name ++ js "/main.leo"
  allSources := [js "main.leo"]
  object := object

def sourcesConfig : Config where
  programs := js "/programs"
  artifacts := js "/artifacts"
  leoVersion := js "4.3.2"
  compiler := { enableDce := true, conditionalBlockMaxDepth := 10, buildTests := false,
                extraFlags := [] }
  networks := []
  defaultNetwork := js "devnode"

def sourcesPlan : Except JsString Plan :=
  planCompilation sourcesConfig (sourceEnvironment (js "/programs") sourcesTree
    (fun _ _ _ => .error []) fun _ => .succeeds)
    { force := false, program := [], rename := none, network := none }

theorem references_compiled_first_app : ∃ plan done, sourcesPlan = .ok plan ∧
    plan.compileOrder = done ++ [workspaceUnit (js "app") 0] ∧
    workspaceUnit (js "base") 1 ∈ done := by
  have hname (name : JsString) (h : (name ≠ [] ∧ slash ∉ name ∧ name ≠ [unit '.'] ∧
      name ≠ [unit '.', unit '.']) := by decide) : FileName name :=
    ⟨h.1, h.2.1, h.2.2.1, h.2.2.2⟩
  have hnames : sourcesTree.Names FileName :=
    ⟨hname _, ⟨hname _, trivial⟩, hname _, ⟨hname _, trivial⟩, trivial⟩
  have hdistinct : sourcesTree.Distinct :=
    ⟨by decide, ⟨by decide, trivial⟩, by decide, ⟨by decide, trivial⟩, trivial⟩
  have hfound : discoverUnits (js "/programs") (some sourcesTree) =
      .ok [workspaceUnit (js "app") 0, workspaceUnit (js "base") 1] := by decide +kernel
  have horder : sourcesPlan.toOption.map (fun plan => plan.compileOrder.getLast?) =
      some (some (workspaceUnit (js "app") 0)) := by decide +kernel
  have hrefers : js "base.aleo" ∈ importsOf (stripCommentsAndStrings appSource) := by
    decide +kernel
  cases hplan : sourcesPlan with
  | error e =>
    rw [hplan] at horder
    cases horder
  | ok plan =>
    rw [hplan] at horder
    obtain ⟨done, hdone⟩ := List.getLast?_eq_some_iff.mp (Option.some.inj horder)
    obtain ⟨lexemes, hlexical, hsource⟩ := exists_lexical appSource
    rw [← hsource, scrub_sourceOf hlexical] at hrefers
    obtain ⟨units, hunits, h⟩ := references_compiled_first hnames hdistinct hplan
    obtain rfl := Except.ok.inj (hfound.symm.trans hunits)
    refine ⟨plan, done, rfl, hdone, ?_⟩
    exact h done _ [] hdone [js "app", js "main.leo"] appSource (Tree.mem_files.mp (by decide))
      (by decide) lexemes hlexical hsource (js "base.aleo") (mem_importsOf.mp hrefers) _ (by simp)
      (by decide) (by decide)

end Lionden.Build
