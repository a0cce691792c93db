import Lionden.Build.Rename
import Lionden.Compiler.Resolver
import Lionden.Lib.FileTree
import Lionden.Lib.Paths

/-!
# Source discovery (`source-discovery.ts`)

The programs directory is scanned for the roots of programs and libraries. A root is not scanned for
more roots: all that is below it are its sources.

* `collectLeoFiles`, `scanDir`, `discoverUnits`: the scan.
* `IsUnit`: the unit of a root.
* `scanDir_eq`: the scan finds the units of the outermost roots, in their order.
* `discovery_complete`: it returns just if they all are what their names say; every root is then in
  one unit, and no unit is in another.
-/

namespace Lionden.Build

open Compiler Targets FileTree

/-- A directory: the names of the files with their texts. -/
abbrev Listing : Type := Tree JsString JsString

def slash : CodeUnit := unit '/'

/-- `path.join(dir, name)`, for the name of an entry. -/
def joinPath (dir name : JsString) : JsString := dir ++ [slash] ++ name

def basename (path : JsString) : JsString := (path.reverse.takeWhile (· ≠ slash)).reverse

/-! ## The scan -/

/-- `base ? path.join(base, name) : name`. -/
def relativePath (base name : JsString) : JsString := if base = [] then name else joinPath base name

def collectLeoFiles (base : JsString) : Listing → List JsString
  | .nil => []
  | .file name _ rest =>
    (if endsWith name (js ".leo") then [relativePath base name] else []) ++ collectLeoFiles base rest
  | .dir name entries rest =>
    collectLeoFiles (relativePath base name) entries ++ collectLeoFiles base rest

def missingProgramDeclaration (entryFile : JsString) : JsString :=
  js "Invalid Leo program root: " ++ entryFile ++
    js " is missing a program <name>.aleo declaration."

def folderNameMismatch (sourceDir programId : JsString) : JsString :=
  let actualDirName := basename sourceDir
  js "Leo program folder name mismatch: folder \"" ++ actualDirName ++ js "\" declares program \"" ++
    programId ++ js "\". " ++ js "Program folder names must match the declared program name. " ++
    js "Rename the folder to \"" ++ bareProgramName programId ++ js "\" or change the \"program ...\"" ++
    js " declaration in main.leo to \"program " ++ actualDirName ++ js ".aleo\"."

/-- What `readFileSync` reads of an entry. -/
def readEntry : Entry JsString JsString → Except JsString JsString
  | .file text => .ok text
  | .dir _ => .error (js "EISDIR: illegal operation on a directory, read")

/-- The unit is the object of number `object`. -/
def discoverProgram (sourceDir : JsString) (main : Entry JsString JsString) (entries : Listing)
    (object : Nat) : Except JsString DiscoveredUnit := do
  let content ← readEntry main
  let entryFile := joinPath sourceDir (js "main.leo")
  match extractProgramId content with
  | none => .error (missingProgramDeclaration entryFile)
  | some programId =>
    if basename sourceDir ≠ bareProgramName programId then
      .error (folderNameMismatch sourceDir programId)
    else
      .ok { kind := .program programId
            sourceDir
            entryFile
            allSources := collectLeoFiles [] entries
            object }

def discoverLibrary (sourceDir dirName : JsString) (entries : Listing) (object : Nat) :
    DiscoveredUnit where
  kind := .library dirName
  sourceDir := sourceDir
  entryFile := joinPath sourceDir (js "lib.leo")
  allSources := collectLeoFiles [] entries
  object := object

def scanDir (dir : JsString) : Listing → List DiscoveredUnit → Except JsString (List DiscoveredUnit)
  | .nil, units => .ok units
  | .file _ _ rest, units => scanDir dir rest units
  | .dir name entries rest, units => do
    let dirPath := joinPath dir name
    let units ← match entries.get? (js "main.leo"), entries.get? (js "lib.leo") with
      | some main, _ => do
        let unit ← discoverProgram dirPath main entries units.length
        .ok (units ++ [unit])
      | none, some _ => .ok (units ++ [discoverLibrary dirPath name entries units.length])
      | none, none => scanDir dirPath entries units
    scanDir dir rest units

/-- `programs` is what is in the directory, if it is there. -/
def discoverUnits (programsDir : JsString) (programs : Option Listing) :
    Except JsString (List DiscoveredUnit) :=
  match programs with
  | none => .ok []
  | some entries => scanDir programsDir entries []

/-! ## Paths -/

/-- What an entry of a directory can be called. -/
abbrev FileName (name : JsString) : Prop := Paths.IsName slash (unit '.') name

/-- The directory with the names of `path` below `dir`. -/
def pathUnder (dir : JsString) (path : List JsString) : JsString := path.foldl joinPath dir

theorem pathUnder_eq (dir : JsString) {path : List JsString} (hne : path ≠ []) :
    pathUnder dir path = dir ++ slash :: Paths.text slash path := by
  induction path generalizing dir with
  | nil => exact absurd rfl hne
  | cons name path ih =>
    show pathUnder (joinPath dir name) path = _
    cases path with
    | nil => simp [pathUnder, joinPath, Paths.text]
    | cons next path =>
      rw [ih _ (by simp)]
      simp [joinPath, Paths.text, List.intercalate]

theorem basename_joinPath {dir name : JsString} (hname : slash ∉ name) :
    basename (joinPath dir name) = name := by
  unfold basename joinPath
  rw [List.reverse_append, List.reverse_append, List.takeWhile_append_of_pos, List.reverse_singleton,
    List.singleton_append, List.takeWhile_cons_of_neg (by simp), List.append_nil,
    List.reverse_reverse]
  intro c hc
  rw [decide_eq_true_eq]
  rintro rfl
  exact hname (List.mem_reverse.mp hc)

/-! ## Units -/

/-- A directory in which there is a program or a library. -/
def isRoot (entries : Listing) : Bool :=
  (entries.get? (js "main.leo")).isSome || (entries.get? (js "lib.leo")).isSome

/-- The sources below a root, with their paths from it. -/
def leoFiles (entries : Listing) : List JsString :=
  (entries.files.filter fun e => e.1.getLast?.any (endsWith · (js ".leo"))).map fun e =>
    Paths.text slash e.1

/-- The unit of the root with the path `path`: a program is declared under the name of its folder. -/
structure IsUnit (programsDir : JsString) (root : (List JsString × Listing) × Nat)
    (unit : DiscoveredUnit) : Prop where
  sourceDir : unit.sourceDir = pathUnder programsDir root.1.1
  allSources : unit.allSources = leoFiles root.1.2
  object : unit.object = root.2
  kind : (∃ text name, root.1.2.get? (js "main.leo") = some (.file text) ∧
      root.1.1.getLast? = some name ∧ extractProgramId text = some (name ++ js ".aleo") ∧
      unit.kind = .program (name ++ js ".aleo") ∧
      unit.entryFile = joinPath unit.sourceDir (js "main.leo")) ∨
    ∃ name, root.1.2.get? (js "main.leo") = none ∧ root.1.1.getLast? = some name ∧
      unit.kind = .library name ∧ unit.entryFile = joinPath unit.sourceDir (js "lib.leo")

theorem bareProgramName_aleo (word : JsString) : bareProgramName (word ++ js ".aleo") = word := by
  have hlength : (word ++ js ".aleo").length - 5 = word.length := by
    rw [List.length_append]
    show word.length + 5 - 5 = word.length
    omega
  unfold bareProgramName
  have hends : endsWith (word ++ js ".aleo") (js ".aleo") = true :=
    decide_eq_true (List.suffix_append ..)
  rw [if_pos hends, hlength, List.take_left]

theorem extractProgramId_isProgramId {text id : JsString} (h : extractProgramId text = some id) :
    IsProgramId id := by
  obtain ⟨⟨k, id'⟩, hfind, rfl⟩ := Option.map_eq_some_iff.mp h
  obtain ⟨_, _, j, _, _, hmatch, _⟩ := findDeclaration_eq_some.mp hfind
  obtain ⟨_, word, _, _, _, _, _, _, hword, _, _, _, hid⟩ := matchDeclaration_eq_some.mp hmatch
  exact ⟨word, hword, hid⟩

/-- A declared id is a name with the extension. -/
theorem extractProgramId_bare {text id : JsString} (h : extractProgramId text = some id) :
    id = bareProgramName id ++ js ".aleo" := by
  obtain ⟨word, -, rfl⟩ := extractProgramId_isProgramId h
  rw [bareProgramName_aleo]

theorem IsProgramId.normalized {id : JsString} (h : IsProgramId id) : normalizeProgramId id = id := by
  obtain ⟨word, -, rfl⟩ := h
  exact if_pos (decide_eq_true (List.suffix_append ..))

theorem IsProgramId.trim {id : JsString} (h : IsProgramId id) : Lionden.trim id = id := by
  obtain ⟨word, ⟨hne, hword⟩, rfl⟩ := h
  refine trim_eq_self (Trimmed.of_forall (by simp [hne]) fun c hc => ?_)
  rcases List.mem_append.mp hc with hc | hc
  · by_contra hspace
    have hpart := hword c hc
    rw [isIdentifierPart_of_space (Bool.eq_true_of_not_eq_false hspace)] at hpart
    cases hpart
  · have haleo : ∀ c ∈ js ".aleo", isWhiteSpace c = false := by decide
    exact haleo c hc

theorem discoverProgram_ok {sourceDir : JsString} {main : Entry JsString JsString}
    {entries : Listing} {object : Nat} {unit : DiscoveredUnit} :
    discoverProgram sourceDir main entries object = .ok unit ↔ ∃ text, main = .file text ∧
      extractProgramId text = some (basename sourceDir ++ js ".aleo") ∧
      unit = { kind := .program (basename sourceDir ++ js ".aleo")
               sourceDir
               entryFile := joinPath sourceDir (js "main.leo")
               allSources := collectLeoFiles [] entries
               object } := by
  unfold discoverProgram
  constructor
  · intro h
    obtain ⟨content, hcontent, h⟩ := Fallible.bind_ok.mp h
    cases main with
    | dir sub => cases hcontent
    | file text =>
      obtain rfl : text = content := Except.ok.inj hcontent
      dsimp only at h
      split at h
      · cases h
      · next id hid =>
        split at h
        · cases h
        next hname =>
        have hid' : id = basename sourceDir ++ js ".aleo" := by
          rw [not_not.mp hname]
          exact extractProgramId_bare hid
        subst hid'
        exact ⟨text, rfl, hid, (Except.ok.inj h).symm⟩
  · rintro ⟨text, rfl, hid, rfl⟩
    refine Fallible.bind_ok.mpr ⟨text, rfl, ?_⟩
    dsimp only
    rw [hid]
    dsimp only
    rw [if_neg (not_not.mpr (bareProgramName_aleo _).symm)]

/-- A program is found under the id that it declares. -/
theorem isProgramId_of_scanDir {dir : JsString} {t : Listing} {units found : List DiscoveredUnit}
    (h : scanDir dir t units = .ok found) (hunits : ∀ id ∈ programIds units, IsProgramId id) :
    ∀ id ∈ programIds found, IsProgramId id := by
  induction t generalizing dir units found with
  | nil =>
    cases h
    exact hunits
  | file name text rest ih => exact ih h hunits
  | dir name entries rest ihsub ihrest =>
    have hadd {unit : DiscoveredUnit} (hunit : unit.isProgram = true → IsProgramId (unitId unit)) :
        ∀ id ∈ programIds (units ++ [unit]), IsProgramId id := by
      rw [programIds, List.filter_append, List.map_append]
      refine List.forall_mem_append.mpr ⟨hunits, fun id hid => ?_⟩
      obtain ⟨found, hfound, rfl⟩ := List.mem_map.mp hid
      obtain ⟨hmem, hprogram⟩ := List.mem_filter.mp hfound
      obtain rfl := List.mem_singleton.mp hmem
      exact hunit hprogram
    rw [scanDir] at h
    split at h
    · obtain ⟨unit, hunit, h⟩ := Fallible.bind_ok.mp h
      obtain ⟨text, -, hid, rfl⟩ := discoverProgram_ok.mp hunit
      exact ihrest h (hadd fun _ => extractProgramId_isProgramId hid)
    · exact ihrest h (hadd fun hprogram => absurd hprogram Bool.false_ne_true)
    · obtain ⟨units', hentries, hrest⟩ := Fallible.bind_ok.mp h
      exact ihrest hrest (ihsub hentries hunits)

theorem isProgramId_of_discoverUnits {programsDir : JsString} {programs : Option Listing}
    {units : List DiscoveredUnit} (h : discoverUnits programsDir programs = .ok units) :
    ∀ id ∈ programIds units, IsProgramId id := by
  cases programs with
  | none =>
    cases h
    exact List.forall_mem_nil _
  | some entries => exact isProgramId_of_scanDir h (List.forall_mem_nil _)

/-- The unit of the root with the path `root.1`. -/
def rootUnit (programsDir : JsString) (root : List JsString × Listing) (object : Nat) :
    Except JsString DiscoveredUnit :=
  let sourceDir := pathUnder programsDir root.1
  match root.2.get? (js "main.leo") with
  | some main => discoverProgram sourceDir main root.2 object
  | none => .ok (discoverLibrary sourceDir (basename sourceDir) root.2 object)

def addUnit (programsDir : JsString) (units : List DiscoveredUnit)
    (root : List JsString × Listing) : Except JsString (List DiscoveredUnit) := do
  let unit ← rootUnit programsDir root units.length
  .ok (units ++ [unit])

/-- The scan adds the units of the outermost roots, one after another. -/
theorem scanDir_eq {dir : JsString} {t : Listing} {units : List DiscoveredUnit}
    (h : t.Names FileName) : scanDir dir t units = (t.outermost isRoot).foldlM (addUnit dir) units := by
  induction t generalizing dir units with
  | nil => rfl
  | file name text rest ih => exact ih h.2
  | dir name sub rest ihsub ihrest =>
    obtain ⟨hname, hsub, hrest⟩ := h
    have hbase : basename (joinPath dir name) = name := basename_joinPath hname.sep_notMem
    have hfold (units : List DiscoveredUnit) : (rest.outermost isRoot).foldlM (addUnit dir) units =
        scanDir dir rest units := (ihrest hrest).symm
    rw [scanDir, Tree.outermost, List.foldlM_append]
    simp only [hfold]
    cases hmain : sub.get? (js "main.leo") with
    | some main =>
      have hroot : isRoot sub = true := by simp [isRoot, hmain]
      have hunit : rootUnit dir ([name], sub) units.length =
          discoverProgram (joinPath dir name) main sub units.length := by
        unfold rootUnit
        dsimp only
        rw [hmain]
        rfl
      simp only [if_pos hroot, List.foldlM_cons, List.foldlM_nil, bind_pure, addUnit, hunit]
      cases discoverProgram (joinPath dir name) main sub units.length <;> rfl
    | none =>
      cases hlib : sub.get? (js "lib.leo") with
      | some lib =>
        have hroot : isRoot sub = true := by simp [isRoot, hlib]
        have hunit : rootUnit dir ([name], sub) units.length =
            .ok (discoverLibrary (joinPath dir name) name sub units.length) := by
          unfold rootUnit
          dsimp only
          rw [hmain]
          show Except.ok (discoverLibrary _ (basename (joinPath dir name)) _ _) = _
          rw [hbase]
          rfl
        simp only [if_pos hroot, List.foldlM_cons, List.foldlM_nil, bind_pure, addUnit, hunit]
        rfl
      | none =>
        have hroot : isRoot sub = false := by simp [isRoot, hmain, hlib]
        rw [hroot, if_neg (by simp), List.foldlM_map]
        exact congrArg (· >>= scanDir dir rest) (ihsub hsub)

/-- The units are added in the order of the roots, and numbered in it. -/
theorem foldlM_addUnit {dir : JsString} {roots : List (List JsString × Listing)}
    {units units' : List DiscoveredUnit} :
    roots.foldlM (addUnit dir) units = .ok units' ↔ ∃ new, units' = units ++ new ∧
      List.Forall₂ (fun root unit => rootUnit dir root.1 root.2 = .ok unit)
        (roots.zipIdx units.length) new := by
  induction roots generalizing units with
  | nil =>
    rw [List.foldlM_nil, List.zipIdx_nil]
    constructor
    · intro h
      exact ⟨[], by rw [List.append_nil]; exact (Except.ok.inj h).symm, .nil⟩
    · rintro ⟨new, rfl, hnew⟩
      cases hnew
      rw [List.append_nil]
      rfl
  | cons root roots ih =>
    rw [List.foldlM_cons, Fallible.bind_ok, List.zipIdx_cons]
    constructor
    · rintro ⟨units₁, hadd, h⟩
      obtain ⟨unit, hunit, hadd⟩ := Fallible.bind_ok.mp hadd
      obtain rfl : units ++ [unit] = units₁ := Except.ok.inj hadd
      obtain ⟨new, rfl, hnew⟩ := ih.mp h
      rw [List.length_append, List.length_singleton] at hnew
      exact ⟨unit :: new, by rw [List.append_assoc, List.singleton_append], .cons hunit hnew⟩
    · rintro ⟨new, rfl, hnew⟩
      cases hnew with
      | @cons _ unit _ new hunit hnew =>
        refine ⟨units ++ [unit], Fallible.bind_ok.mpr ⟨unit, hunit, rfl⟩, ih.mpr ⟨new, ?_, ?_⟩⟩
        · rw [List.append_assoc, List.singleton_append]
        · rw [List.length_append, List.length_singleton]
          exact hnew

/-! ## The sources of a unit -/

theorem relativePath_cons {base name : JsString} (hname : name ≠ []) {path : List JsString}
    (hpath : path ≠ []) : relativePath (relativePath base name) (Paths.text slash path) =
      relativePath base (Paths.text slash (name :: path)) := by
  have htext : Paths.text slash (name :: path) = joinPath name (Paths.text slash path) := by
    obtain ⟨next, path, rfl⟩ := List.exists_cons_of_ne_nil hpath
    simp [Paths.text, joinPath, List.intercalate]
  have hjoin : joinPath base name ≠ [] := by simp [joinPath]
  unfold relativePath
  by_cases hbase : base = []
  · rw [if_pos hbase, if_pos hbase, if_neg hname, htext]
  · rw [if_neg hbase, if_neg hbase, if_neg hjoin, htext]
    simp [joinPath]

theorem collectLeoFiles_eq {base : JsString} {t : Listing} (h : t.Names FileName) :
    collectLeoFiles base t = (leoFiles t).map (relativePath base) := by
  unfold leoFiles
  rw [List.map_map]
  induction t generalizing base with
  | nil => rfl
  | file name text rest ih =>
    rw [collectLeoFiles, ih h.2, Tree.files]
    by_cases hleo : endsWith name (js ".leo") = true
    · rw [if_pos hleo, List.filter_cons_of_pos (by simpa using hleo), List.map_cons]
      simp [Paths.text, List.intercalate]
    · rw [if_neg hleo, List.filter_cons_of_neg (by simpa using hleo), List.nil_append]
  | dir name sub rest ihsub ihrest =>
    obtain ⟨hname, hsub, hrest⟩ := h
    rw [collectLeoFiles, ihsub hsub, ihrest hrest, Tree.files, List.filter_append, List.map_append]
    congr 1
    rw [List.filter_map, List.map_map]
    -- Only files are listed, so no path is empty.
    have hpath : ∀ e ∈ sub.files, e.1 ≠ [] := fun e he => Tree.fileAt_ne_nil (Tree.mem_files.mp he)
    have hfilter : (sub.files.filter fun e => e.1.getLast?.any (endsWith · (js ".leo"))) =
        sub.files.filter ((fun e : List JsString × JsString =>
          e.1.getLast?.any (endsWith · (js ".leo"))) ∘ fun e => (name :: e.1, e.2)) := by
      refine List.filter_congr fun e he => ?_
      obtain ⟨next, path, hcons⟩ := List.exists_cons_of_ne_nil (hpath e he)
      rw [Function.comp_apply, hcons, List.getLast?_cons_cons]
    rw [← hfilter]
    refine List.map_congr_left fun e he => ?_
    exact relativePath_cons hname.ne_nil (hpath e (List.mem_of_mem_filter he))

theorem collectLeoFiles_root {t : Listing} (h : t.Names FileName) :
    collectLeoFiles [] t = leoFiles t := by
  rw [collectLeoFiles_eq h]
  exact List.map_id' ..

/-- A root has a unit just if it is what its name says. -/
theorem rootUnit_ok {dir : JsString} {path : List JsString} {t : Listing} {object : Nat}
    {unit : DiscoveredUnit} (hpath : path ≠ []) (hnames : ∀ name ∈ path, FileName name)
    (ht : t.Names FileName) :
    rootUnit dir (path, t) object = .ok unit ↔ IsUnit dir ((path, t), object) unit := by
  obtain ⟨front, name, rfl⟩ := (List.eq_nil_or_concat' path).resolve_left hpath
  have hname : FileName name := hnames name (by simp)
  have hbase : basename (pathUnder dir (front ++ [name])) = name := by
    rw [pathUnder, List.foldl_concat]
    exact basename_joinPath hname.sep_notMem
  have hlast : (front ++ [name]).getLast? = some name := List.getLast?_concat
  unfold rootUnit
  dsimp only
  cases hmain : t.get? (js "main.leo") with
  | some main =>
    dsimp only
    rw [discoverProgram_ok, hbase, collectLeoFiles_root ht]
    constructor
    · rintro ⟨text, rfl, hid, rfl⟩
      exact ⟨rfl, rfl, rfl, .inl ⟨text, name, hmain, hlast, hid, rfl, rfl⟩⟩
    · intro h
      rcases h.kind with ⟨text, name', hmain', hlast', hid, hkind, hentry⟩ | ⟨_, hnone, _⟩
      · rw [hmain] at hmain'
        obtain rfl : name = name' := Option.some.inj (hlast.symm.trans hlast')
        refine ⟨text, Option.some.inj hmain', hid, ?_⟩
        obtain ⟨kind, sourceDir, entryFile, allSources, object'⟩ := unit
        obtain rfl : sourceDir = pathUnder dir (front ++ [name]) := h.sourceDir
        obtain rfl : allSources = leoFiles t := h.allSources
        obtain rfl : object' = object := h.object
        rw [show kind = _ from hkind, show entryFile = _ from hentry]
      · rw [hmain] at hnone
        cases hnone
  | none =>
    dsimp only
    rw [hbase]
    constructor
    · intro h
      obtain rfl := Except.ok.inj h
      exact ⟨rfl, collectLeoFiles_root ht, rfl, .inr ⟨name, hmain, hlast, rfl, rfl⟩⟩
    · intro h
      rcases h.kind with ⟨text, _, hmain', _⟩ | ⟨name', _, hlast', hkind, hentry⟩
      · rw [hmain] at hmain'
        cases hmain'
      · obtain rfl : name = name' := Option.some.inj (hlast.symm.trans hlast')
        obtain ⟨kind, sourceDir, entryFile, allSources, object'⟩ := unit
        obtain rfl : sourceDir = pathUnder dir (front ++ [name]) := h.sourceDir
        obtain rfl : allSources = leoFiles t := h.allSources
        obtain rfl : object' = object := h.object
        rw [show kind = _ from hkind, show entryFile = _ from hentry, discoverLibrary,
          collectLeoFiles_root ht]

/-! ## All sources -/

/-- The paths of the sources of all units. -/
def sourcePaths (units : List DiscoveredUnit) : List JsString :=
  units.flatMap fun unit => unit.allSources.map (joinPath unit.sourceDir)

theorem joinPath_pathUnder {dir : JsString} {path rest : List JsString} (hrest : rest ≠ []) :
    joinPath (pathUnder dir path) (Paths.text slash rest) = pathUnder dir (path ++ rest) := by
  rw [pathUnder, pathUnder, List.foldl_append]
  show _ = pathUnder (path.foldl joinPath dir) rest
  rw [pathUnder_eq _ hrest]
  simp [joinPath]

/-- Names lead to one place only. -/
theorem pathUnder_injective {dir : JsString} {path path' : List JsString}
    (h : ∀ name ∈ path, FileName name) (h' : ∀ name ∈ path', FileName name) (hne : path ≠ [])
    (hne' : path' ≠ []) (heq : pathUnder dir path = pathUnder dir path') : path = path' := by
  rw [pathUnder_eq dir hne, pathUnder_eq dir hne'] at heq
  have htext := (List.cons.inj (List.append_cancel_left heq)).2
  have hsplit := List.splitOn_intercalate slash (fun name hname => (h name hname).sep_notMem) hne
  have hsplit' := List.splitOn_intercalate slash (fun name hname => (h' name hname).sep_notMem) hne'
  unfold Paths.text at htext
  rw [← hsplit, ← hsplit', htext]

/-- The paths of the Leo files below some roots. -/
def filesUnder (roots : List (List JsString × Listing)) : List (List JsString) :=
  roots.flatMap fun root =>
    (root.2.files.filter fun e => e.1.getLast?.any (endsWith · (js ".leo"))).map fun e =>
      root.1 ++ e.1

theorem sourcePaths_eq {dir : JsString} {roots : List (List JsString × Listing)}
    {k : Nat} {units : List DiscoveredUnit}
    (h : List.Forall₂ (IsUnit dir) (roots.zipIdx k) units) :
    sourcePaths units = (filesUnder roots).map (pathUnder dir) := by
  induction roots generalizing k units with
  | nil =>
    cases h
    rfl
  | cons root roots ih =>
    rw [List.zipIdx_cons] at h
    cases h with
    | cons hunit hrest =>
      rw [sourcePaths, filesUnder, List.flatMap_cons, List.flatMap_cons, List.map_append]
      refine congrArg₂ (· ++ ·) ?_ (ih hrest)
      rw [hunit.allSources, hunit.sourceDir, leoFiles, List.map_map, List.map_map]
      refine List.map_congr_left fun e he => ?_
      exact joinPath_pathUnder (Tree.fileAt_ne_nil (Tree.mem_files.mp (List.mem_of_mem_filter he)))

section

variable {t : Listing} {dir : JsString} {units : List DiscoveredUnit}

theorem filesUnder_names (h : t.Names FileName) {path : List JsString}
    (hpath : path ∈ filesUnder (t.outermost isRoot)) : path ≠ [] ∧ ∀ name ∈ path, FileName name := by
  obtain ⟨⟨names, root⟩, hroot, hpath⟩ := List.mem_flatMap.mp hpath
  obtain ⟨⟨rest, text⟩, hrest, rfl⟩ := List.mem_map.mp hpath
  obtain ⟨hne, hbelow, -⟩ := Tree.below_of_outermost hroot
  obtain ⟨hnames, hsub⟩ := h.below hbelow
  have hfile := hsub.file (List.mem_of_mem_filter hrest)
  exact ⟨by simp [hne], fun name hname => (List.mem_append.mp hname).elim (hnames name) (hfile name)⟩

/-- No file is below two roots. -/
theorem filesUnder_nodup (h : t.Distinct) : (filesUnder (t.outermost isRoot)).Nodup := by
  refine List.nodup_flatMap.mpr ⟨fun ⟨names, root⟩ hroot => ?_, ?_⟩
  · obtain ⟨-, hbelow, -⟩ := Tree.below_of_outermost hroot
    have hfiles : (root.files.map Prod.fst).Nodup := Tree.files_nodup (h.below hbelow)
    have hmap : ((root.files.filter fun e => e.1.getLast?.any (endsWith · (js ".leo"))).map
        fun e => names ++ e.1) = ((root.files.filter fun e =>
          e.1.getLast?.any (endsWith · (js ".leo"))).map Prod.fst).map (names ++ ·) := by
      rw [List.map_map]
      rfl
    dsimp only
    rw [hmap]
    exact (hfiles.sublist (List.filter_sublist.map _)).map fun a b hab => List.append_cancel_left hab
  · refine (Tree.outermost_disjoint h).imp fun {a b} hab => ?_
    intro path ha hb
    obtain ⟨e, -, rfl⟩ := List.mem_map.mp ha
    obtain ⟨e', -, heq⟩ := List.mem_map.mp hb
    rcases List.prefix_or_prefix_of_prefix (List.prefix_append a.1 e.1)
      (heq ▸ List.prefix_append b.1 e'.1) with hpre | hpre
    · exact hab.1 hpre
    · exact hab.2 hpre

/-- The Leo files at or below roots. -/
theorem mem_filesUnder {path : List JsString} : path ∈ filesUnder (t.outermost isRoot) ↔
    ∃ names rest sub text, path = names ++ rest ∧ names ≠ [] ∧ Tree.Below t names sub ∧
      isRoot sub = true ∧ Tree.FileAt sub rest text ∧
      rest.getLast?.any (endsWith · (js ".leo")) = true := by
  constructor
  · intro h
    obtain ⟨⟨names, root⟩, hroot, hpath⟩ := List.mem_flatMap.mp h
    obtain ⟨⟨rest, text⟩, hrest, rfl⟩ := List.mem_map.mp hpath
    obtain ⟨hne, hbelow, hp⟩ := Tree.below_of_outermost hroot
    obtain ⟨hfile, hleo⟩ := List.mem_filter.mp hrest
    exact ⟨names, rest, root, text, rfl, hne, hbelow, hp, Tree.mem_files.mp hfile, hleo⟩
  · rintro ⟨names, rest, sub, text, rfl, hne, hbelow, hp, hfile, hleo⟩
    obtain ⟨outer, inner, root, rfl, hroot, hinner⟩ := Tree.outermost_covers hbelow hne hp
    refine List.mem_flatMap.mpr ⟨(outer, root), hroot, List.mem_map.mpr
      ⟨(inner ++ rest, text), List.mem_filter.mpr ⟨?_, ?_⟩, (List.append_assoc ..).symm⟩⟩
    · exact Tree.mem_files.mpr (Tree.fileAt_below hinner hfile)
    · obtain ⟨last, hlast⟩ := Option.ne_none_iff_exists'.mp
        (fun hnone => Tree.fileAt_ne_nil hfile (List.getLast?_eq_none_iff.mp hnone))
      rw [List.getLast?_append, hlast]
      rwa [hlast] at hleo

theorem forall₂_rootUnit (hnames : t.Names FileName) :
    List.Forall₂ (fun root unit => rootUnit dir root.1 root.2 = .ok unit)
      (t.outermost isRoot).zipIdx units ↔
    List.Forall₂ (IsUnit dir) (t.outermost isRoot).zipIdx units := by
  have hroots : ∀ root ∈ (t.outermost isRoot).zipIdx, root.1.1 ≠ [] ∧
      (∀ name ∈ root.1.1, FileName name) ∧ root.1.2.Names FileName := by
    rintro ⟨⟨path, sub⟩, k⟩ hroot
    obtain ⟨hne, hbelow, -⟩ := Tree.below_of_outermost (List.fst_mem_of_mem_zipIdx hroot)
    exact ⟨hne, hnames.below hbelow⟩
  constructor
  · intro h
    exact ((List.forall₂_and_left _ _).mpr ⟨hroots, h⟩).imp fun root unit ⟨⟨hne, hpath, hsub⟩, hunit⟩ =>
      (rootUnit_ok hne hpath hsub).mp hunit
  · intro h
    exact ((List.forall₂_and_left _ _).mpr ⟨hroots, h⟩).imp fun root unit ⟨⟨hne, hpath, hsub⟩, hunit⟩ =>
      (rootUnit_ok hne hpath hsub).mpr hunit

/-- **Discovery is complete.** In a directory as they are, the scan returns just the units of the
outermost roots, in the order of the listing, if each program has the name of its folder; and then
the sources of all units together are the Leo files at or below a root, each once. -/
theorem discovery_complete (hnames : t.Names FileName) (hdistinct : t.Distinct) :
    (discoverUnits dir (some t) = .ok units ↔
      List.Forall₂ (IsUnit dir) (t.outermost isRoot).zipIdx units) ∧
    (discoverUnits dir (some t) = .ok units → (sourcePaths units).Nodup ∧
      ∀ path, path ∈ sourcePaths units ↔ ∃ names rest sub text,
        path = pathUnder dir (names ++ rest) ∧ names ≠ [] ∧ Tree.Below t names sub ∧
        isRoot sub = true ∧ Tree.FileAt sub rest text ∧
        rest.getLast?.any (endsWith · (js ".leo")) = true) := by
  have hunits : discoverUnits dir (some t) = .ok units ↔
      List.Forall₂ (IsUnit dir) (t.outermost isRoot).zipIdx units := by
    rw [discoverUnits, scanDir_eq hnames, foldlM_addUnit, List.length_nil,
      ← forall₂_rootUnit hnames]
    simp
  refine ⟨hunits, fun h => ?_⟩
  have hpaths : sourcePaths units = (filesUnder (t.outermost isRoot)).map (pathUnder dir) :=
    sourcePaths_eq (hunits.mp h)
  constructor
  · rw [hpaths]
    refine (List.nodup_map_iff_inj_on (filesUnder_nodup hdistinct)).mpr fun a ha b hb => ?_
    obtain ⟨hne, hname⟩ := filesUnder_names hnames ha
    obtain ⟨hne', hname'⟩ := filesUnder_names hnames hb
    exact pathUnder_injective hname hname' hne hne'
  · intro path
    rw [hpaths, List.mem_map]
    constructor
    · rintro ⟨names, hmem, rfl⟩
      obtain ⟨front, rest, sub, text, rfl, h⟩ := mem_filesUnder.mp hmem
      exact ⟨front, rest, sub, text, rfl, h⟩
    · rintro ⟨front, rest, sub, text, rfl, h⟩
      exact ⟨_, mem_filesUnder.mpr ⟨front, rest, sub, text, rfl, h⟩, rfl⟩

end

/-- A program with a module, and a file that is in no unit. -/
def programs : Listing :=
  .dir (js "token")
    (.file (js "main.leo") (js "program token.aleo \x7b\x7d")
      (.dir (js "util") (.file (js "helpers.leo") [] .nil) .nil))
    (.file (js "notes.txt") [] .nil)

def token : DiscoveredUnit where
  kind := .program (js "token.aleo")
  sourceDir := js "/programs/token"
  entryFile := js "/programs/token/main.leo"
  allSources := [js "main.leo", js "util/helpers.leo"]
  object := 0

theorem discovery_complete_token :
    js "/programs/token/util/helpers.leo" ∈ sourcePaths [token] := by
  have hname (name : JsString) (h : (name ≠ [] ∧ slash ∉ name ∧ name ≠ [unit '.'] ∧
      name ≠ [unit '.', unit '.']) := by decide) : FileName name :=
    ⟨h.1, h.2.1, h.2.2.1, h.2.2.2⟩
  have hnames : programs.Names FileName :=
    ⟨hname _, ⟨hname _, hname _, ⟨hname _, trivial⟩, trivial⟩, hname _, trivial⟩
  have hdistinct : programs.Distinct :=
    ⟨by decide, ⟨by decide, by decide, ⟨by decide, trivial⟩, trivial⟩, by decide, trivial⟩
  have hfound : discoverUnits (js "/programs") (some programs) = .ok [token] := by decide +kernel
  have hpaths := ((discovery_complete hnames hdistinct).2 hfound).2
    (js "/programs/token/util/helpers.leo")
  refine hpaths.mpr ⟨[js "token"], [js "util", js "helpers.leo"], _, [], by decide, by simp,
    .step List.mem_cons_self .refl, by decide, ?_, by decide⟩
  exact Tree.mem_files.mp (by decide)

end Lionden.Build
