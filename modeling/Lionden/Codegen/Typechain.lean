import Lionden.Codegen.Names
import Lionden.Js.RegExp
import Lionden.Lib.Fallible
import Mathlib.Logic.Function.Basic

/-!
# The typechain directory (`plugin-leo/src/index.ts`, `typescript-generator.ts`)

A compilation writes one module of bindings for each of its programs, in a file that is named after
the class of the program. Other programs may have a class of the same name, or one that the host takes
for the same name of a file. A full compilation writes the modules of all programs; a targeted one
writes those of some, and looks first whose modules are there.

* `moduleText`, `readGeneratedModuleSourceProgramId`, `read_moduleText`: a module names its program.
* `assertTypechainModuleNamesUnique`, `assertNoExistingTypechainModuleCollision`: the checks.
* `CompileRun.run`: what a compilation does to the directory, and where it stops.
* `typechain_kept`: in any sequence of compilations, what is in the directory, and how a module is lost.
-/

namespace Lionden.Codegen.Typechain

open Bindings (programIdToClassName)
open RegExp

/-! ## Modules -/

/-- Which names are those of one file. A name may be compared without the case of its letters. -/
structure FileSystem where
  file : JsString → JsString
  lower_eq : ∀ name name', file name = file name' → lower name = lower name'

/-- The texts of the files, by what `FileSystem.file` gives for their names. -/
abbrev Directory := JsString → Option JsString

/-- The line above the one that names the program. -/
def noticeLine : JsString := js "// Auto-generated by @lionden/leo-compiler — do not edit"

/-- The module of a program; `body` is what follows its first two lines. -/
def moduleText (programId body : JsString) : JsString :=
  noticeLine ++ js "\n" ++ (js "// Program: " ++ programId ++ js "\n" ++ body)

/-- `/^\/\/ Program: (.+)$/m` at the beginning of a line. -/
def matchProgram (s : JsString) : Option JsString := do
  let rest ← after (js "// Program: ") s
  let line := rest.takeWhile fun c => !isLineTerminator c
  if line = [] then none else some line

def readGeneratedModuleSourceProgramId (source : JsString) : Option JsString :=
  firstAtLine matchProgram true source

def RESERVED_TYPECHAIN_FILE_STEM : JsString := js "BaseContract"

/-! ## Checks -/

/-- What programs are told apart by. -/
def stemKey (programId : JsString) : JsString := lower (programIdToClassName programId)

/-- The loop of `assertTypechainModuleNamesUnique`, with the keys that are taken. -/
def claimStems : List (JsString × JsString) → List JsString → Except JsString Unit
  | _, [] => .ok ()
  | seen, programId :: rest =>
    let stem := programIdToClassName programId
    let key := stemKey programId
    if key = lower RESERVED_TYPECHAIN_FILE_STEM then
      .error (js "Program '" ++ programId ++ js "' generates typechain/" ++ stem ++
        js ".ts, which collides with the reserved generated file '" ++
        RESERVED_TYPECHAIN_FILE_STEM ++ js ".ts' (file names are compared case-insensitively). " ++
        js "Rename the program (its id maps to the class name '" ++ stem ++ js "').")
    else
    match seen.lookup key with
    | some existing => .error (js "Programs '" ++ existing ++ js "' and '" ++ programId ++
        js "' both generate typechain/" ++ stem ++
        js ".ts (file names are compared case-insensitively): their program ids map to the same " ++
        js "module file. Rename one of them so each program maps to a distinct typechain module.")
    | none => claimStems ((key, programId) :: seen) rest

def assertTypechainModuleNamesUnique (programIds : List JsString) : Except JsString Unit :=
  claimStems [] programIds

section FileSystem

variable (fs : FileSystem)

def moduleFile (programId : JsString) : JsString :=
  fs.file (programIdToClassName programId ++ js ".ts")

def baseContractFile : JsString := fs.file (RESERVED_TYPECHAIN_FILE_STEM ++ js ".ts")

def assertNoExistingTypechainModuleCollision (dir : Directory) (sourceProgramId : JsString) :
    Except JsString Unit :=
  let fileName := programIdToClassName sourceProgramId ++ js ".ts"
  match dir (moduleFile fs sourceProgramId) with
  | none => .ok ()
  | some source =>
    match readGeneratedModuleSourceProgramId source with
    | none => .error (js "Typechain module '" ++ fileName ++
        js "' already exists, but its source program could not be determined. " ++
        js "Targeted compile for '" ++ sourceProgramId ++
        js "' might overwrite an unrelated generated module. Run a full compile instead.")
    | some existing =>
      if existing = sourceProgramId then .ok ()
      else .error (js "Typechain module '" ++ fileName ++
        js "' already exists for source program '" ++ existing ++
        js "', so targeted compile for '" ++ sourceProgramId ++
        js "' would overwrite an unrelated generated module. Run a full compile instead.")

/-! ## Compilations -/

/-- A program of a compilation, with what `generateBindings` gives after the first two lines. -/
structure ProgramResult where
  sourceProgramId : JsString
  body : Except JsString JsString

/-- What the generation of bindings begins with. -/
structure CompileRun where
  targetedCompile : Bool
  programs : List ProgramResult
  baseContract : JsString
  /-- Where `resolveDynamicRecordHelpers` throws. -/
  helpers : Except JsString Unit

def CompileRun.programIds (run : CompileRun) : List JsString :=
  run.programs.map (·.sourceProgramId)

/-- The loop that writes the modules. -/
def writeModules : List ProgramResult → Directory → Directory × Except JsString Unit
  | [], dir => (dir, .ok ())
  | program :: rest, dir =>
    match program.body with
    | .error message => (dir, .error message)
    | .ok body =>
      writeModules rest (Function.update dir (moduleFile fs program.sourceProgramId)
        (some (moduleText program.sourceProgramId body)))

/-- The checks before anything is written. -/
def CompileRun.check (run : CompileRun) (dir : Directory) : Except JsString Unit := do
  assertTypechainModuleNamesUnique run.programIds
  if run.targetedCompile then
    run.programIds.forM (assertNoExistingTypechainModuleCollision fs dir)
  else .ok ()

def CompileRun.run (run : CompileRun) (dir : Directory) : Directory × Except JsString Unit :=
  match run.check fs dir with
  | .error message => (dir, .error message)
  | .ok () =>
    let dir := Function.update dir (baseContractFile fs) (some run.baseContract)
    match run.helpers with
    | .error message => (dir, .error message)
    | .ok () => writeModules fs run.programs dir

/-- The directory after compilations, of which some may have stopped. -/
def runAll (runs : List CompileRun) (dir : Directory) : Directory :=
  runs.foldl (fun dir run => (run.run fs dir).1) dir

end FileSystem

/-! ## A module names its program -/

/-- A program id without line terminators. -/
structure OneLine (programId : JsString) : Prop where
  ne_nil : programId ≠ []
  unbroken : ∀ c ∈ programId, isLineTerminator c = false

theorem matchProgram_header {programId body : JsString} (h : OneLine programId) :
    matchProgram (js "// Program: " ++ programId ++ js "\n" ++ body) = some programId := by
  have hline : (programId ++ js "\n" ++ body).takeWhile (fun c => !isLineTerminator c) =
      programId := by
    rw [List.append_assoc]
    refine (takeWhile_dropWhile (fun c hc => ?_) fun c hc => ?_).1
    · rw [h.unbroken c hc]
      rfl
    · cases hc
      decide
  have hrest : after (js "// Program: ") (js "// Program: " ++ programId ++ js "\n" ++ body) =
      some (programId ++ js "\n" ++ body) :=
    after_eq_some.mpr (by simp)
  unfold matchProgram
  rw [hrest]
  dsimp only [Option.bind_eq_bind, Option.bind_some]
  rw [hline, if_neg h.ne_nil]

/-- The rest of a line has no match. -/
theorem firstAtLine_rest {α : Type} {pattern : JsString → Option α} {line rest : JsString}
    (h : ∀ c ∈ line, isLineTerminator c = false) :
    firstAtLine pattern false (line ++ 10 :: rest) = firstAtLine pattern true rest := by
  induction line with
  | nil => rfl
  | cons c line ih =>
    obtain ⟨hc, hline⟩ := List.forall_mem_cons.mp h
    show firstAtLine pattern (isLineTerminator c) (line ++ 10 :: rest) = _
    rw [hc, ih hline]

theorem read_moduleText {programId : JsString} (h : OneLine programId) (body : JsString) :
    readGeneratedModuleSourceProgramId (moduleText programId body) = some programId := by
  have hnotice : ∀ c ∈ noticeLine.tail, isLineTerminator c = false := by decide
  have hfirst : matchProgram (moduleText programId body) = none := rfl
  have hrest : readGeneratedModuleSourceProgramId (moduleText programId body) =
      firstAtLine matchProgram false (noticeLine.tail ++ 10 ::
        (js "// Program: " ++ programId ++ js "\n" ++ body)) := by
    unfold readGeneratedModuleSourceProgramId firstAtLine
    rw [if_pos rfl, hfirst]
    rfl
  rw [hrest, firstAtLine_rest hnotice]
  unfold firstAtLine
  rw [if_pos rfl, matchProgram_header h]

/-! ## Programs of one compilation have different files -/

section FileSystem

variable {fs : FileSystem} {dir : Directory}

theorem claimStems_ok {seen : List (JsString × JsString)} {programIds : List JsString}
    (h : claimStems seen programIds = .ok ()) :
    (programIds.map stemKey).Nodup ∧ ∀ programId ∈ programIds,
      stemKey programId ≠ lower RESERVED_TYPECHAIN_FILE_STEM ∧
        seen.lookup (stemKey programId) = none := by
  induction programIds generalizing seen with
  | nil => exact ⟨List.nodup_nil, List.forall_mem_nil _⟩
  | cons programId rest ih =>
    unfold claimStems at h
    dsimp only at h
    split at h
    · cases h
    next hreserved =>
    split at h
    · cases h
    next hfree =>
    obtain ⟨hdistinct, hrest⟩ := ih h
    -- The key is taken for the rest.
    have htaken : ∀ other ∈ rest, stemKey other ≠ stemKey programId ∧
        seen.lookup (stemKey other) = none := by
      intro other hother
      have hlookup := (hrest other hother).2
      have hne : stemKey other ≠ stemKey programId := by
        intro heq
        rw [heq, List.lookup_cons_self] at hlookup
        cases hlookup
      rw [List.lookup_cons, beq_eq_false_iff_ne.mpr hne] at hlookup
      exact ⟨hne, hlookup⟩
    refine ⟨List.nodup_cons.mpr ⟨fun hmem => ?_, hdistinct⟩, ?_⟩
    · obtain ⟨other, hother, heq⟩ := List.mem_map.mp hmem
      exact (htaken other hother).1 heq
    · refine List.forall_mem_cons.mpr ⟨⟨hreserved, hfree⟩, fun other hother => ?_⟩
      exact ⟨(hrest other hother).1, (htaken other hother).2⟩

/-- Programs of one file have one key. -/
theorem stemKey_eq {programId other : JsString}
    (h : moduleFile fs programId = moduleFile fs other) : stemKey programId = stemKey other := by
  have hlower := fs.lower_eq _ _ h
  rw [lower_append, lower_append] at hlower
  exact List.append_cancel_right hlower

theorem moduleFile_ne_base {programId : JsString}
    (h : stemKey programId ≠ lower RESERVED_TYPECHAIN_FILE_STEM) :
    moduleFile fs programId ≠ baseContractFile fs := by
  intro heq
  have hlower := fs.lower_eq _ _ heq
  rw [lower_append, lower_append] at hlower
  exact h (List.append_cancel_right hlower)

/-! ## What a compilation writes -/

/-- A file is left as it is, or it is the module of one of the programs. -/
theorem writeModules_cases (programs : List ProgramResult) (dir : Directory) (file : JsString) :
    (writeModules fs programs dir).1 file = dir file ∨
      ∃ program ∈ programs, ∃ body, program.body = .ok body ∧
        moduleFile fs program.sourceProgramId = file ∧
        (writeModules fs programs dir).1 file = some (moduleText program.sourceProgramId body) := by
  induction programs generalizing dir with
  | nil => exact .inl rfl
  | cons program rest ih =>
    unfold writeModules
    cases hbody : program.body with
    | error message => exact .inl rfl
    | ok body =>
      dsimp only
      rcases ih (Function.update dir (moduleFile fs program.sourceProgramId)
        (some (moduleText program.sourceProgramId body))) with hsame | ⟨other, hother, hwritten⟩
      · rw [hsame]
        by_cases hfile : file = moduleFile fs program.sourceProgramId
        · subst hfile
          exact .inr ⟨program, List.mem_cons_self, body, hbody, rfl, Function.update_self ..⟩
        · exact .inl (Function.update_of_ne hfile ..)
      · exact .inr ⟨other, List.mem_cons_of_mem _ hother, hwritten⟩

/-- All modules are written, if none of two have one file. -/
theorem writeModules_ok {programs : List ProgramResult}
    (hdistinct : (programs.map fun program => moduleFile fs program.sourceProgramId).Nodup)
    (h : (writeModules fs programs dir).2 = .ok ()) :
    ∀ program ∈ programs, ∃ body, program.body = .ok body ∧
      (writeModules fs programs dir).1 (moduleFile fs program.sourceProgramId) =
        some (moduleText program.sourceProgramId body) := by
  induction programs generalizing dir with
  | nil => exact List.forall_mem_nil _
  | cons program rest ih =>
    obtain ⟨hfirst, hrest⟩ := List.nodup_cons.mp hdistinct
    unfold writeModules at h ⊢
    cases hbody : program.body with
    | error message =>
      rw [hbody] at h
      cases h
    | ok body =>
      rw [hbody] at h
      refine List.forall_mem_cons.mpr ⟨⟨body, hbody, ?_⟩, ih hrest h⟩
      dsimp only
      rcases writeModules_cases rest (Function.update dir (moduleFile fs program.sourceProgramId)
        (some (moduleText program.sourceProgramId body)))
        (moduleFile fs program.sourceProgramId) with hsame | ⟨other, hother, _, -, hfile, -⟩
      · rw [hsame, Function.update_self]
      · exact absurd (List.mem_map.mpr ⟨other, hother, hfile⟩) hfirst

theorem check_ok {run : CompileRun} (h : run.check fs dir = .ok ()) :
    assertTypechainModuleNamesUnique run.programIds = .ok () ∧
      (run.targetedCompile = true → ∀ programId ∈ run.programIds,
        assertNoExistingTypechainModuleCollision fs dir programId = .ok ()) := by
  obtain ⟨_, hunique, hrest⟩ := Fallible.bind_ok.mp h
  refine ⟨hunique, fun htargeted => ?_⟩
  rw [if_pos htargeted] at hrest
  exact Fallible.forM_ok.mp hrest

/-- A file other than `BaseContract.ts` is left as it is, or the checks have passed and it is the
module of one of the programs. -/
theorem run_cases (run : CompileRun) (dir : Directory) {file : JsString}
    (hfile : file ≠ baseContractFile fs) :
    (run.run fs dir).1 file = dir file ∨
      run.check fs dir = .ok () ∧ ∃ program ∈ run.programs, ∃ body, program.body = .ok body ∧
        moduleFile fs program.sourceProgramId = file ∧
        (run.run fs dir).1 file = some (moduleText program.sourceProgramId body) := by
  unfold CompileRun.run
  cases hcheck : run.check fs dir with
  | error message => exact .inl rfl
  | ok _ =>
    dsimp only
    cases run.helpers with
    | error message => exact .inl (Function.update_of_ne hfile ..)
    | ok _ =>
      dsimp only
      rcases writeModules_cases run.programs (Function.update dir (baseContractFile fs)
        (some run.baseContract)) file with hsame | hwritten
      · exact .inl (hsame.trans (Function.update_of_ne hfile ..))
      · exact .inr ⟨rfl, hwritten⟩

/-- The modules of a compilation that has returned. -/
theorem run_ok {run : CompileRun} (h : (run.run fs dir).2 = .ok ()) :
    ∀ program ∈ run.programs, moduleFile fs program.sourceProgramId ≠ baseContractFile fs ∧
      ∃ body, program.body = .ok body ∧
        (run.run fs dir).1 (moduleFile fs program.sourceProgramId) =
          some (moduleText program.sourceProgramId body) := by
  unfold CompileRun.run at h ⊢
  cases hcheck : run.check fs dir with
  | error message =>
    rw [hcheck] at h
    cases h
  | ok _ =>
    rw [hcheck] at h
    dsimp only at h ⊢
    cases hhelpers : run.helpers with
    | error message =>
      rw [hhelpers] at h
      cases h
    | ok _ =>
      rw [hhelpers] at h
      obtain ⟨hkeys, hstems⟩ := claimStems_ok (check_ok hcheck).1
      have hdistinct : (run.programs.map fun program =>
          moduleFile fs program.sourceProgramId).Nodup := by
        unfold CompileRun.programIds at hkeys
        rw [List.Nodup, List.pairwise_map, List.pairwise_map] at hkeys
        exact List.pairwise_map.mpr (hkeys.imp fun hne heq => hne (stemKey_eq heq))
      intro program hprogram
      refine ⟨moduleFile_ne_base (hstems _ (List.mem_map_of_mem hprogram)).1, ?_⟩
      exact writeModules_ok hdistinct h program hprogram

/-! ## Sequences of compilations -/

/-- The module of the program is in the directory. -/
def Holds (fs : FileSystem) (dir : Directory) (programId : JsString) : Prop :=
  ∃ body, dir (moduleFile fs programId) = some (moduleText programId body)

/-- A full compilation of another program whose module is in the same file. -/
def Displaces (fs : FileSystem) (run : CompileRun) (programId : JsString) : Prop :=
  run.targetedCompile = false ∧ ∃ other ∈ run.programIds, other ≠ programId ∧
    moduleFile fs other = moduleFile fs programId

/-- A module that is not displaced is still there, as it was unless its program was compiled. -/
theorem holds_run {run : CompileRun} {programId body : JsString} (hid : OneLine programId)
    (hfile : moduleFile fs programId ≠ baseContractFile fs)
    (hkept : ¬Displaces fs run programId)
    (h : dir (moduleFile fs programId) = some (moduleText programId body)) :
    Holds fs (run.run fs dir).1 programId ∧
      (programId ∉ run.programIds →
        (run.run fs dir).1 (moduleFile fs programId) = some (moduleText programId body)) := by
  rcases run_cases run dir hfile with hsame | ⟨hcheck, program, hprogram, body', -, hsamefile, hwritten⟩
  · rw [Holds, hsame, h]
    exact ⟨⟨body, rfl⟩, fun _ => rfl⟩
  have hmem : program.sourceProgramId ∈ run.programIds := List.mem_map_of_mem hprogram
  have hsame : program.sourceProgramId = programId := by
    by_contra hne
    cases htargeted : run.targetedCompile with
    | false => exact hkept ⟨htargeted, _, hmem, hne, hsamefile⟩
    | true =>
      -- The check has read the other program's name.
      have hrefused := (check_ok hcheck).2 htargeted _ hmem
      unfold assertNoExistingTypechainModuleCollision at hrefused
      rw [hsamefile, h] at hrefused
      dsimp only at hrefused
      rw [read_moduleText hid] at hrefused
      dsimp only at hrefused
      rw [if_neg (Ne.symm hne)] at hrefused
      cases hrefused
  rw [hsame] at hwritten hmem
  exact ⟨⟨body', hwritten⟩, fun hnot => absurd hmem hnot⟩

theorem holds_runAll {runs : List CompileRun} {programId body : JsString} (hid : OneLine programId)
    (hfile : moduleFile fs programId ≠ baseContractFile fs)
    (hkept : ∀ run ∈ runs, ¬Displaces fs run programId)
    (h : dir (moduleFile fs programId) = some (moduleText programId body)) :
    Holds fs (runAll fs runs dir) programId ∧
      ((∀ run ∈ runs, programId ∉ run.programIds) →
        runAll fs runs dir (moduleFile fs programId) = some (moduleText programId body)) := by
  unfold runAll
  induction runs generalizing dir body with
  | nil => exact ⟨⟨body, h⟩, fun _ => h⟩
  | cons run runs ih =>
    obtain ⟨hrun, hruns⟩ := List.forall_mem_cons.mp hkept
    obtain ⟨⟨body', hholds⟩, hunchanged⟩ := holds_run hid hfile hrun h
    rw [List.foldl_cons]
    refine ⟨(ih hruns hholds).1, fun hnone => ?_⟩
    obtain ⟨hfirst, hrest⟩ := List.forall_mem_cons.mp hnone
    exact (ih hruns (hunchanged hfirst)).2 hrest

/-- Every file is the module of one of the programs, or `BaseContract.ts`. -/
def Generated (fs : FileSystem) (programIds : List JsString) (dir : Directory) : Prop :=
  ∀ file text, file ≠ baseContractFile fs → dir file = some text →
    ∃ programId ∈ programIds, moduleFile fs programId = file ∧
      readGeneratedModuleSourceProgramId text = some programId

theorem Generated.run {run : CompileRun} {programIds : List JsString}
    (h : Generated fs programIds dir) (hids : ∀ programId ∈ run.programIds, OneLine programId)
    (hmem : run.programIds ⊆ programIds) : Generated fs programIds (run.run fs dir).1 := by
  intro file text hfile htext
  rcases run_cases run dir hfile with hsame | ⟨-, program, hprogram, body, -, hprogramFile, hwritten⟩
  · exact h file text hfile (hsame ▸ htext)
  · have hid : program.sourceProgramId ∈ run.programIds := List.mem_map_of_mem hprogram
    obtain rfl := Option.some.inj (htext.symm.trans hwritten)
    exact ⟨_, hmem hid, hprogramFile, read_moduleText (hids _ hid) body⟩

theorem Generated.runAll {runs : List CompileRun} {programIds : List JsString}
    (h : Generated fs programIds dir)
    (hids : ∀ run ∈ runs, ∀ programId ∈ run.programIds, OneLine programId)
    (hmem : ∀ run ∈ runs, run.programIds ⊆ programIds) :
    Generated fs programIds (runAll fs runs dir) := by
  unfold Typechain.runAll
  induction runs generalizing dir with
  | nil => exact h
  | cons run runs ih =>
    obtain ⟨hrun, hruns⟩ := List.forall_mem_cons.mp hids
    obtain ⟨hfirst, hrest⟩ := List.forall_mem_cons.mp hmem
    exact ih (h.run hrun hfirst) hruns hrest

end FileSystem

/-- **A module is lost only to a full compilation.** In any sequence of compilations, of which some may
stop on their way, every file but `BaseContract.ts` is at last the module of a program that was
compiled and whose file it is. And after a compilation has returned, the module of each of its programs
is there for good, unless a full compilation has another program with that file: nothing that a targeted
compilation does takes it away, and while the program is not compiled again it is the same text. -/
theorem typechain_kept (fs : FileSystem) (runs : List CompileRun)
    (hids : ∀ run ∈ runs, ∀ programId ∈ run.programIds, OneLine programId) :
    Generated fs (runs.flatMap CompileRun.programIds) (runAll fs runs fun _ => none) ∧
    ∀ dir earlier run later, runs = earlier ++ run :: later →
      (run.run fs (runAll fs earlier dir)).2 = .ok () →
      ∀ program ∈ run.programs,
        (∀ other ∈ later, ¬Displaces fs other program.sourceProgramId) →
        Holds fs (runAll fs runs dir) program.sourceProgramId ∧
          ((∀ other ∈ later, program.sourceProgramId ∉ other.programIds) →
            ∃ body, program.body = .ok body ∧
              runAll fs runs dir (moduleFile fs program.sourceProgramId) =
                some (moduleText program.sourceProgramId body)) := by
  refine ⟨Generated.runAll (fun _ _ _ h => by cases h) hids fun run hrun id hid =>
    List.mem_flatMap.mpr ⟨run, hrun, hid⟩, ?_⟩
  rintro dir earlier run later rfl hreturned program hprogram hkept
  obtain ⟨hfile, body, hbody, hwritten⟩ := run_ok hreturned program hprogram
  have hid : OneLine program.sourceProgramId :=
    hids run (List.mem_append_right _ List.mem_cons_self) _ (List.mem_map_of_mem hprogram)
  obtain ⟨hholds, hunchanged⟩ := holds_runAll hid hfile hkept hwritten
  have hsplit : runAll fs (earlier ++ run :: later) dir =
      runAll fs later (run.run fs (runAll fs earlier dir)).1 := by
    unfold runAll
    rw [List.foldl_append, List.foldl_cons]
  rw [hsplit]
  exact ⟨hholds, fun hnone => ⟨body, hbody, hunchanged hnone⟩⟩

/-- Names are compared without the case of their letters. -/
def caseInsensitive : FileSystem where
  file := lower
  lower_eq _ _ h := h

/-- A compilation of one program. -/
def compileOne (targetedCompile : Bool) (programId : JsString) : CompileRun where
  targetedCompile := targetedCompile
  programs := [{ sourceProgramId := programId, body := .ok (js "export {};\n") }]
  baseContract := js "export class BaseContract {}\n"
  helpers := .ok ()

/-- `ToKen.ts` would take the place of `Token.ts`. -/
theorem typechain_kept_token : Holds caseInsensitive (runAll caseInsensitive
    [compileOne false (js "token.aleo"), compileOne true (js "to_ken.aleo")] fun _ => none)
    (js "token.aleo") := by
  have hids : ∀ run ∈ [compileOne false (js "token.aleo"), compileOne true (js "to_ken.aleo")],
      ∀ programId ∈ run.programIds, OneLine programId := by
    refine List.forall_mem_cons.mpr ⟨?_, List.forall_mem_singleton.mpr ?_⟩
    · exact List.forall_mem_singleton.mpr ⟨by decide, by decide⟩
    · exact List.forall_mem_singleton.mpr ⟨by decide, by decide⟩
  refine ((typechain_kept caseInsensitive _ hids).2 (fun _ => none) [] _ [_] rfl rfl _
    List.mem_cons_self ?_).1
  exact List.forall_mem_singleton.mpr fun hdisplaces => absurd hdisplaces.1 (by decide)

end Lionden.Codegen.Typechain
