import Lionden.Network.ProgramImports
import Lionden.Network.SidecarKeys
import Lionden.Targets.Selection

/-!
# Runtime imports (`execution-imports.ts`, `config-resolution.ts`, `connection.ts`)

The configuration names, for a program, others that it calls without importing them, by their ids or
by the paths of their sources, and a call may name more.

* `normalizeRuntimeImportRef`: what a name stands for.
* `validateExecutionUserConfig`, `resolveExecutionConfig`: the check of a configuration, and what it
  says of each program.
* `collectRuntimeImports`: the imports of a call.
* `collectRuntimeImports_iff`: they are a set, whatever the spelling, the order and the repetitions.
* `validated_configured`: nothing of a configuration without errors is left out.
-/

namespace Lionden.Network.RuntimeImports

open ProgramImports (RuntimeImportRef isWord)
open Targets (normalizeProgramId)

/-- What is used of `node:path`, `node:os` and `node:fs`. A resolved path is absolute, and an absolute
path has a separator. -/
structure Host where
  isAbsolute : JsString → Bool
  resolve : List JsString → JsString
  join : List JsString → JsString
  homedir : JsString
  existsSync : JsString → Bool
  isAbsolute_resolve : ∀ paths, isAbsolute (resolve paths) = true
  separator_of_isAbsolute : ∀ path, isAbsolute path = true → unit '/' ∈ path ∨ unit '\\' ∈ path

/-- Without Windows; `join` of a directory and a path below it. -/
def Host.posix (cwd homedir : JsString) (existsSync : JsString → Bool) : Host where
  isAbsolute := KeyCache.isAbsolutePosix
  resolve := KeyCache.resolvePosix cwd
  join paths := KeyCache.resolvePosix cwd paths
  homedir := homedir
  existsSync := existsSync
  isAbsolute_resolve _ := decide_eq_true rfl
  separator_of_isAbsolute _ habsolute := .inl (List.mem_of_head? (of_decide_eq_true habsolute))

/-! ## References -/

/-- `BARE_NAME_PATTERN`. -/
def isBareName (raw : JsString) : Bool :=
  raw ≠ [] && !raw.head?.any isDigit && raw.all isWord

/-- `PROGRAM_ID_PATTERN`. -/
def isProgramId (raw : JsString) : Bool :=
  endsWith raw (js ".aleo") && isBareName (raw.take (raw.length - 5))

/-- `MAP_KEY_PATTERN`. -/
def isValidExecutionImportsMapKey (raw : JsString) : Bool := isProgramId raw || isBareName raw

def looksLikePath (raw : JsString) : Bool :=
  raw.contains (unit '/') || raw.contains (unit '\\') || raw.head? = some (unit '~')

inductive RefKind where
  | programId
  | path
  | invalid
  deriving DecidableEq

def classifyRuntimeImportRef (raw : JsString) : RefKind :=
  if raw = [] then .invalid
  else if looksLikePath raw then .path
  else if isProgramId raw || isBareName raw then .programId
  else .invalid

section Host

variable (host : Host) (projectRoot : JsString)

def expandHome (p : JsString) : JsString :=
  if p = js "~" then host.homedir
  else if (js "~/").isPrefixOf p || (js "~\\").isPrefixOf p then host.join [host.homedir, p.drop 2]
  else p

def resolveAbsolutePath (raw : JsString) : JsString :=
  let expanded := expandHome host raw
  if host.isAbsolute expanded then expanded else host.resolve [projectRoot, expanded]

def normalizeRuntimeImportRef (raw : JsString) : Except JsString RuntimeImportRef :=
  match classifyRuntimeImportRef raw with
  | .invalid => .error (js "Invalid runtime import ref: " ++ jsonStringify raw ++
      js " — must be a Leo program id or a path to a .aleo file")
  | .programId => .ok (.programId (normalizeProgramId raw))
  | .path => .ok (.path (resolveAbsolutePath host projectRoot raw))

/-! ## Lists of references -/

/-- What references are sorted by. -/
def refValue : RuntimeImportRef → JsString
  | .programId programId => programId
  | .path absolutePath => absolutePath

/-- What tells references apart. -/
def refKey : RuntimeImportRef → JsString
  | .programId programId => js "id:" ++ programId
  | .path absolutePath => js "path:" ++ absolutePath

def dedupRuntimeImports : List JsString → List RuntimeImportRef → List RuntimeImportRef
  | _, [] => []
  | seen, ref :: refs =>
    if refKey ref ∈ seen then dedupRuntimeImports seen refs
    else ref :: dedupRuntimeImports (refKey ref :: seen) refs

def dedupAndSortRuntimeImports (refs : List RuntimeImportRef) : List RuntimeImportRef :=
  (dedupRuntimeImports [] refs).insertionSort fun a b => refValue a ≤ refValue b

/-! ## Configuration -/

/-- The references of the elements of an array that are valid. -/
def refsOf (elements : List (Option JsValue)) : List RuntimeImportRef :=
  elements.filterMap fun
    | some (.string raw) =>
      if raw = [] then none
      else if classifyRuntimeImportRef raw = .invalid then none
      else (normalizeRuntimeImportRef host projectRoot raw).toOption
    | _ => none

/-- One turn of the loop over `Object.entries(raw)`. -/
def addEntry (byKey : InsertionMap JsString (List RuntimeImportRef)) (entry : JsString × JsValue) :
    InsertionMap JsString (List RuntimeImportRef) :=
  if !isValidExecutionImportsMapKey entry.1 then byKey
  else
  match entry.2 with
  | .array elements =>
    let canonicalKey := normalizeProgramId entry.1
    byKey.set canonicalKey ((byKey.get? canonicalKey).getD [] ++ refsOf host projectRoot elements)
  | _ => byKey

/-- The references of `imports`, by their keys. An array has no valid key. -/
def collectEntries (imports : JsValue) : InsertionMap JsString (List RuntimeImportRef) :=
  match imports with
  | .object props _ => props.foldl (addEntry host projectRoot) .empty
  | _ => .empty

/-- `resolveExecutionConfig`, at a program. -/
def resolveExecutionConfig (imports : JsValue) (programId : JsString) :
    Option (List RuntimeImportRef) :=
  ((collectEntries host projectRoot imports).get? programId).map dedupAndSortRuntimeImports

structure ConfigValidationError where
  path : JsString
  message : JsString

def validateRef (path : JsString) (element : Option JsValue) : List ConfigValidationError :=
  match element with
  -- `forEach` passes a hole over.
  | none => []
  | some (.string raw) =>
    if classifyRuntimeImportRef raw = .invalid then
      [{ path
         message := js "Ref " ++ jsonStringify raw ++
          js " is neither a Leo program id (bare or .aleo) nor a path (contains `/`, `\\\\`, " ++
          js "or starts with `~`)." }]
    else []
  | some raw => [{ path, message := js "Ref must be a string, got " ++ raw.typeof ++ js "." }]

def validateEntry (entry : JsString × JsValue) : List ConfigValidationError :=
  let path := js "execution.imports[" ++ jsonStringify entry.1 ++ js "]"
  if !isValidExecutionImportsMapKey entry.1 then
    [{ path
       message := js "Map keys must be Leo program ids (bare or .aleo). Got " ++
        jsonStringify entry.1 ++ js "." }]
  else
  match entry.2 with
  | .array elements =>
    if elements = [] then
      [{ path, message := js "Array must be non-empty (omit the key instead of providing [])." }]
    else elements.zipIdx.flatMap fun element =>
      validateRef (path ++ js "[" ++ decimal element.2 ++ js "]") element.1
  | _ => [{ path, message := js "Value must be an array of program-id or path refs." }]

def validateExecutionUserConfig (imports : JsValue) : List ConfigValidationError :=
  match imports with
  | .undefined => []
  | .object props _ => props.flatMap validateEntry
  | _ => [{
      path := js "execution.imports"
      message := js "Must be an object mapping program ids to import-ref arrays." }]

/-! ## Calls -/

def callRef (raw : JsString) : Except JsString RuntimeImportRef := do
  let ref ← normalizeRuntimeImportRef host projectRoot raw
  match ref with
  | .path absolutePath =>
    if !host.existsSync absolutePath then
      .error (js "Runtime import path not found: " ++ absolutePath ++
        js " (from per-call options.imports " ++ jsonStringify raw ++ js ")")
    else .ok ref
  | .programId _ => .ok ref

/-- `collectRuntimeImports`, with the configuration's `imports`. -/
def collectRuntimeImports (imports : JsValue) (programId : JsString)
    (callRefs : Option (List JsString)) : Except JsString (List RuntimeImportRef) := do
  let fromConfig := (resolveExecutionConfig host projectRoot imports programId).getD []
  let fromCall ← (callRefs.getD []).mapM (callRef host projectRoot)
  .ok (dedupAndSortRuntimeImports (fromConfig ++ fromCall))

end Host

/-! ## References are told apart by their values -/

/-- A program id is one, and a path has a separator. -/
def Proper : RuntimeImportRef → Prop
  | .programId programId => isProgramId programId = true
  | .path absolutePath => unit '/' ∈ absolutePath ∨ unit '\\' ∈ absolutePath

theorem isWord_of_mem_bareName {raw : JsString} (h : isBareName raw = true) :
    ∀ c ∈ raw, isWord c = true := by
  unfold isBareName at h
  simp only [Bool.and_eq_true, List.all_eq_true] at h
  exact h.2

/-- A program id has no separators. -/
theorem isProgramId_units {raw : JsString} (h : isProgramId raw = true) :
    ∀ c ∈ raw, isWord c = true ∨ c ∈ js ".aleo" := by
  unfold isProgramId at h
  obtain ⟨hsuffix, hname⟩ := Bool.and_eq_true_iff.mp h
  obtain ⟨name, rfl⟩ := of_decide_eq_true hsuffix
  rw [List.length_append, show (js ".aleo").length = 5 from rfl, Nat.add_sub_cancel,
    List.take_left' rfl] at hname
  intro c hc
  exact (List.mem_append.mp hc).imp (isWord_of_mem_bareName hname c) fun h => h

theorem not_separator {raw : JsString} (h : isProgramId raw = true) :
    unit '/' ∉ raw ∧ unit '\\' ∉ raw := by
  constructor <;> intro hmem <;> rcases isProgramId_units h _ hmem with hword | hsuffix
  · exact absurd hword (by decide)
  · exact absurd hsuffix (by decide)
  · exact absurd hword (by decide)
  · exact absurd hsuffix (by decide)

theorem isProgramId_append {raw : JsString} (h : isBareName raw = true) :
    isProgramId (raw ++ js ".aleo") = true := by
  unfold isProgramId endsWith
  rw [List.length_append, show (js ".aleo").length = 5 from rfl, Nat.add_sub_cancel,
    List.take_left' rfl, h, Bool.and_true]
  exact decide_eq_true (List.suffix_append ..)

/-- The normalized form of a name is an id. -/
theorem isProgramId_normalize {raw : JsString} (h : isValidExecutionImportsMapKey raw = true) :
    isProgramId (normalizeProgramId raw) = true := by
  unfold isValidExecutionImportsMapKey at h
  unfold normalizeProgramId
  by_cases hsuffix : endsWith raw (js ".aleo") = true
  · rw [if_pos hsuffix]
    rcases Bool.or_eq_true_iff.mp h with hid | hbare
    · exact hid
    · obtain ⟨name, rfl⟩ := of_decide_eq_true hsuffix
      exact absurd (isWord_of_mem_bareName hbare (unit '.') (by simp [js])) (by decide)
  · rw [if_neg hsuffix]
    rcases Bool.or_eq_true_iff.mp h with hid | hbare
    · exact absurd (Bool.and_eq_true_iff.mp hid).1 hsuffix
    · exact isProgramId_append hbare

section Proper

variable {host : Host} {projectRoot : JsString}

theorem isAbsolute_resolveAbsolutePath (raw : JsString) :
    host.isAbsolute (resolveAbsolutePath host projectRoot raw) = true := by
  unfold resolveAbsolutePath
  dsimp only
  split
  · next habsolute => exact habsolute
  · exact host.isAbsolute_resolve _

theorem normalize_proper {raw : JsString} {ref : RuntimeImportRef}
    (h : normalizeRuntimeImportRef host projectRoot raw = .ok ref) : Proper ref := by
  unfold normalizeRuntimeImportRef at h
  split at h
  · cases h
  · next hkind =>
    cases h
    refine isProgramId_normalize ?_
    unfold classifyRuntimeImportRef at hkind
    split at hkind
    · cases hkind
    · split at hkind
      · cases hkind
      · split at hkind
        · next hname => exact hname
        · cases hkind
  · cases h
    exact host.separator_of_isAbsolute _ (isAbsolute_resolveAbsolutePath raw)

end Proper

theorem refValue_injective {a b : RuntimeImportRef} (ha : Proper a) (hb : Proper b)
    (h : refValue a = refValue b) : a = b := by
  have hkinds {programId absolutePath : JsString} (hid : isProgramId programId = true)
      (hpath : unit '/' ∈ absolutePath ∨ unit '\\' ∈ absolutePath) : programId ≠ absolutePath := by
    rintro rfl
    exact hpath.elim (not_separator hid).1 (not_separator hid).2
  cases a with
  | path absolutePath =>
    cases b with
    | path other => exact congrArg _ h
    | programId programId => exact absurd h.symm (hkinds hb ha)
  | programId programId =>
    cases b with
    | path absolutePath => exact absurd h (hkinds ha hb)
    | programId other => exact congrArg _ h

theorem refKey_injective {a b : RuntimeImportRef} (h : refKey a = refKey b) : a = b := by
  cases a <;> cases b <;> simp_all [refKey, js, unit]

/-! ## Sets of references -/

theorem mem_dedupRuntimeImports {seen : List JsString} {refs : List RuntimeImportRef}
    {ref : RuntimeImportRef} :
    ref ∈ dedupRuntimeImports seen refs ↔ ref ∈ refs ∧ refKey ref ∉ seen := by
  induction refs generalizing seen with
  | nil => simp [dedupRuntimeImports]
  | cons first refs ih =>
    unfold dedupRuntimeImports
    by_cases hseen : refKey first ∈ seen
    · rw [if_pos hseen, ih, List.mem_cons]
      constructor
      · exact fun h => ⟨.inr h.1, h.2⟩
      · rintro ⟨rfl | hmem, hnot⟩
        · exact absurd hseen hnot
        · exact ⟨hmem, hnot⟩
    · rw [if_neg hseen, List.mem_cons, List.mem_cons, ih, List.mem_cons, not_or]
      constructor
      · rintro (rfl | ⟨hmem, -, hnot⟩)
        · exact ⟨.inl rfl, hseen⟩
        · exact ⟨.inr hmem, hnot⟩
      · rintro ⟨rfl | hmem, hnot⟩
        · exact .inl rfl
        · by_cases hfirst : ref = first
          · exact .inl hfirst
          · exact .inr ⟨hmem, fun hkey => hfirst (refKey_injective hkey), hnot⟩

theorem nodup_dedupRuntimeImports {seen : List JsString} {refs : List RuntimeImportRef} :
    (dedupRuntimeImports seen refs).Nodup := by
  induction refs generalizing seen with
  | nil => exact List.nodup_nil
  | cons first refs ih =>
    unfold dedupRuntimeImports
    split
    · exact ih
    · refine List.nodup_cons.mpr ⟨fun hmem => ?_, ih⟩
      exact (mem_dedupRuntimeImports.mp hmem).2 List.mem_cons_self

theorem mem_dedupAndSort {refs : List RuntimeImportRef} {ref : RuntimeImportRef} :
    ref ∈ dedupAndSortRuntimeImports refs ↔ ref ∈ refs := by
  unfold dedupAndSortRuntimeImports
  rw [List.mem_insertionSort, mem_dedupRuntimeImports]
  exact and_iff_left List.not_mem_nil

/-- Sorted by their values, which are all different. -/
def Ascending (refs : List RuntimeImportRef) : Prop :=
  refs.Pairwise fun a b => refValue a < refValue b

theorem dedupAndSort_ascending {refs : List RuntimeImportRef} (h : ∀ ref ∈ refs, Proper ref) :
    Ascending (dedupAndSortRuntimeImports refs) := by
  have hsorted : (dedupAndSortRuntimeImports refs).Pairwise
      fun a b => refValue a ≤ refValue b := by
    have : Std.Total fun a b : RuntimeImportRef => refValue a ≤ refValue b :=
      ⟨fun a b => List.le_total (refValue a) (refValue b)⟩
    have : IsTrans RuntimeImportRef fun a b => refValue a ≤ refValue b :=
      ⟨fun a b c => List.le_trans⟩
    exact List.pairwise_insertionSort _ _
  have hnodup : (dedupAndSortRuntimeImports refs).Nodup :=
    (List.perm_insertionSort _ _).nodup_iff.mpr nodup_dedupRuntimeImports
  refine (hsorted.and hnodup).imp_of_mem fun {a b} ha hb hab => ?_
  refine Std.lt_of_le_of_ne hab.1 fun hvalue => hab.2 ?_
  exact refValue_injective (h a (mem_dedupAndSort.mp ha)) (h b (mem_dedupAndSort.mp hb)) hvalue

/-- A set of references has one ascending list. -/
theorem Ascending.eq_of_mem_iff {refs refs' : List RuntimeImportRef} (h : Ascending refs)
    (h' : Ascending refs') (hmem : ∀ ref, ref ∈ refs ↔ ref ∈ refs') : refs = refs' := by
  have : Std.Irrefl fun a b : RuntimeImportRef => refValue a < refValue b := ⟨fun a => List.lt_irrefl _⟩
  have : Std.Antisymm fun a b : RuntimeImportRef => refValue a < refValue b :=
    ⟨fun a b hab hba => absurd hba (List.lt_asymm hab)⟩
  exact List.Pairwise.eq_of_mem_iff h h' hmem

/-! ## The configuration -/

section Configured

variable {host : Host} {projectRoot : JsString}

/-- The array of an entry names the reference. -/
def Names (host : Host) (projectRoot : JsString) (elements : List (Option JsValue))
    (ref : RuntimeImportRef) : Prop :=
  ∃ raw, some (.string raw) ∈ elements ∧ normalizeRuntimeImportRef host projectRoot raw = .ok ref

/-- An entry names the reference for the program. -/
def EntryNames (host : Host) (projectRoot : JsString) (entry : JsString × JsValue)
    (programId : JsString) (ref : RuntimeImportRef) : Prop :=
  isValidExecutionImportsMapKey entry.1 = true ∧ normalizeProgramId entry.1 = programId ∧
    ∃ elements, entry.2 = .array elements ∧ Names host projectRoot elements ref

/-- `imports` names the reference for the program, under some spelling of its id. -/
def Configured (host : Host) (projectRoot : JsString) (imports : JsValue) (programId : JsString)
    (ref : RuntimeImportRef) : Prop :=
  ∃ props raw, imports = .object props raw ∧
    ∃ entry ∈ props, EntryNames host projectRoot entry programId ref

theorem classify_of_ok {raw : JsString} {ref : RuntimeImportRef}
    (h : normalizeRuntimeImportRef host projectRoot raw = .ok ref) :
    classifyRuntimeImportRef raw ≠ .invalid := by
  intro hinvalid
  unfold normalizeRuntimeImportRef at h
  rw [hinvalid] at h
  cases h

theorem normalize_ok {raw : JsString} (h : classifyRuntimeImportRef raw ≠ .invalid) :
    ∃ ref, normalizeRuntimeImportRef host projectRoot raw = .ok ref := by
  unfold normalizeRuntimeImportRef
  cases hkind : classifyRuntimeImportRef raw with
  | invalid => exact absurd hkind h
  | programId => exact ⟨_, rfl⟩
  | path => exact ⟨_, rfl⟩

theorem mem_refsOf {elements : List (Option JsValue)} {ref : RuntimeImportRef} :
    ref ∈ refsOf host projectRoot elements ↔ Names host projectRoot elements ref := by
  unfold refsOf
  rw [List.mem_filterMap]
  constructor
  · rintro ⟨element, helement, href⟩
    split at href
    · next raw =>
      split at href
      · cases href
      · split at href
        · cases href
        · refine ⟨raw, helement, ?_⟩
          cases hraw : normalizeRuntimeImportRef host projectRoot raw with
          | error message =>
            rw [hraw] at href
            cases href
          | ok named =>
            rw [hraw] at href
            exact congrArg _ (Option.some.inj href)
    · cases href
  · rintro ⟨raw, helement, href⟩
    refine ⟨_, helement, ?_⟩
    have hkind := classify_of_ok href
    have hne : raw ≠ [] := by
      rintro rfl
      exact hkind rfl
    dsimp only
    rw [if_neg hne, if_neg hkind, href]
    rfl

/-- What one entry adds. -/
theorem mem_addEntry {byKey : InsertionMap JsString (List RuntimeImportRef)}
    {entry : JsString × JsValue} {programId : JsString} {ref : RuntimeImportRef} :
    ref ∈ ((addEntry host projectRoot byKey entry).get? programId).getD [] ↔
      ref ∈ (byKey.get? programId).getD [] ∨ EntryNames host projectRoot entry programId ref := by
  obtain ⟨key, value⟩ := entry
  unfold addEntry EntryNames
  by_cases hkey : isValidExecutionImportsMapKey key = true
  · rw [hkey, if_neg (by decide)]
    cases value with
    | array elements =>
      dsimp only
      rw [InsertionMap.get?_set]
      by_cases hid : programId = normalizeProgramId key
      · subst hid
        rw [if_pos rfl, Option.getD_some, List.mem_append, mem_refsOf]
        simp
      · rw [if_neg hid]
        simp [Ne.symm hid]
    | _ => simp
  · rw [if_pos (by simpa using hkey)]
    simp [hkey]

theorem mem_foldl_addEntry {props : List (JsString × JsValue)}
    {byKey : InsertionMap JsString (List RuntimeImportRef)} {programId : JsString}
    {ref : RuntimeImportRef} :
    ref ∈ ((props.foldl (addEntry host projectRoot) byKey).get? programId).getD [] ↔
      ref ∈ (byKey.get? programId).getD [] ∨
        ∃ entry ∈ props, EntryNames host projectRoot entry programId ref := by
  induction props generalizing byKey with
  | nil => simp
  | cons entry props ih =>
    rw [List.foldl_cons, ih, mem_addEntry, List.exists_mem_cons_iff]
    exact or_assoc

/-- The references of a program, in any order of the entries. -/
theorem mem_resolveExecutionConfig {imports : JsValue} {programId : JsString}
    {ref : RuntimeImportRef} :
    ref ∈ (resolveExecutionConfig host projectRoot imports programId).getD [] ↔
      Configured host projectRoot imports programId ref := by
  have hcollected : ref ∈ (resolveExecutionConfig host projectRoot imports programId).getD [] ↔
      ref ∈ ((collectEntries host projectRoot imports).get? programId).getD [] := by
    unfold resolveExecutionConfig
    cases (collectEntries host projectRoot imports).get? programId with
    | none => simp
    | some refs => exact mem_dedupAndSort
  rw [hcollected]
  unfold collectEntries Configured
  cases imports with
  | object props raw =>
    dsimp only
    rw [mem_foldl_addEntry]
    simp
  | _ => simp

theorem Configured.proper {imports : JsValue} {programId : JsString} {ref : RuntimeImportRef}
    (h : Configured host projectRoot imports programId ref) : Proper ref := by
  obtain ⟨_, _, -, _, -, -, -, _, -, _, -, hraw⟩ := h
  exact normalize_proper hraw

/-! ## The imports of a call -/

theorem callRef_ok {raw : JsString} {ref : RuntimeImportRef} :
    callRef host projectRoot raw = .ok ref ↔
      normalizeRuntimeImportRef host projectRoot raw = .ok ref ∧
        ∀ absolutePath, ref = .path absolutePath → host.existsSync absolutePath = true := by
  unfold callRef
  rw [Fallible.bind_ok]
  constructor
  · rintro ⟨named, hnamed, h⟩
    cases named with
    | path absolutePath =>
      dsimp only at h
      split at h
      · cases h
      · next hexists =>
        cases h
        refine ⟨hnamed, ?_⟩
        rintro _ ⟨⟩
        simpa using hexists
    | programId programId =>
      cases h
      refine ⟨hnamed, ?_⟩
      rintro _ ⟨⟩
  · rintro ⟨hnamed, hexists⟩
    refine ⟨ref, hnamed, ?_⟩
    cases ref with
    | path absolutePath =>
      dsimp only
      rw [hexists absolutePath rfl, if_neg (by decide)]
    | programId programId => rfl

/-- The call names the reference. -/
def Called (host : Host) (projectRoot : JsString) (callRefs : Option (List JsString))
    (ref : RuntimeImportRef) : Prop :=
  ∃ raw ∈ callRefs.getD [], normalizeRuntimeImportRef host projectRoot raw = .ok ref

/-- What the call names is a reference, and a path is that of something that exists. -/
def Accepted (host : Host) (projectRoot : JsString) (callRefs : Option (List JsString)) : Prop :=
  ∀ raw ∈ callRefs.getD [], ∃ ref, callRef host projectRoot raw = .ok ref

theorem mapM_callRef {raws : List JsString} {refs : List RuntimeImportRef}
    (h : raws.mapM (callRef host projectRoot) = .ok refs) :
    (∀ raw ∈ raws, ∃ ref, callRef host projectRoot raw = .ok ref) ∧
      ∀ ref, ref ∈ refs ↔ ∃ raw ∈ raws, normalizeRuntimeImportRef host projectRoot raw = .ok ref := by
  have hall := Fallible.mapM_ok.mp h
  clear h
  induction hall with
  | nil => simp
  | cons href _ ih =>
    obtain ⟨haccepted, hmem⟩ := ih
    refine ⟨List.forall_mem_cons.mpr ⟨⟨_, href⟩, haccepted⟩, fun ref => ?_⟩
    rw [List.mem_cons, List.exists_mem_cons_iff, hmem, (callRef_ok.mp href).1]
    simp [eq_comm]

/-- **The imports of a call are a set.** A call is refused exactly if it names something that is no
reference, or a path where there is nothing. Otherwise its imports are the references that it or the
configuration names, under any spelling of the program's id, in ascending order and each of them once:
a list that depends on nothing else. -/
theorem collectRuntimeImports_iff (host : Host) (projectRoot : JsString) (imports : JsValue)
    (programId : JsString) (callRefs : Option (List JsString)) (refs : List RuntimeImportRef) :
    collectRuntimeImports host projectRoot imports programId callRefs = .ok refs ↔
      Accepted host projectRoot callRefs ∧ Ascending refs ∧
        ∀ ref, ref ∈ refs ↔ Configured host projectRoot imports programId ref ∨
          Called host projectRoot callRefs ref := by
  have hrun {fromCall : List RuntimeImportRef}
      (hcall : (callRefs.getD []).mapM (callRef host projectRoot) = .ok fromCall) :
      let collected := dedupAndSortRuntimeImports
        ((resolveExecutionConfig host projectRoot imports programId).getD [] ++ fromCall)
      Ascending collected ∧ ∀ ref, ref ∈ collected ↔
        Configured host projectRoot imports programId ref ∨ Called host projectRoot callRefs ref := by
    have hmem (ref : RuntimeImportRef) : ref ∈ dedupAndSortRuntimeImports
        ((resolveExecutionConfig host projectRoot imports programId).getD [] ++ fromCall) ↔
          Configured host projectRoot imports programId ref ∨ Called host projectRoot callRefs ref := by
      rw [mem_dedupAndSort, List.mem_append, mem_resolveExecutionConfig, (mapM_callRef hcall).2]
      rfl
    refine ⟨dedupAndSort_ascending fun ref href => ?_, hmem⟩
    rcases (hmem ref).mp (mem_dedupAndSort.mpr href) with hconfigured | ⟨raw, -, hraw⟩
    · exact hconfigured.proper
    · exact normalize_proper hraw
  constructor
  · intro h
    obtain ⟨fromCall, hcall, h⟩ := Fallible.bind_ok.mp h
    cases h
    exact ⟨(mapM_callRef hcall).1, hrun hcall⟩
  · rintro ⟨haccepted, hascending, hmem⟩
    cases hcall : (callRefs.getD []).mapM (callRef host projectRoot) with
    | error message =>
      obtain ⟨raw, hraw, hrefused⟩ := Fallible.mapM_error hcall
      obtain ⟨ref, href⟩ := haccepted raw hraw
      cases hrefused.symm.trans href
    | ok fromCall =>
      obtain ⟨hsorted, hcollected⟩ := hrun hcall
      refine Fallible.bind_ok.mpr ⟨fromCall, hcall, congrArg _ ?_⟩
      exact hsorted.eq_of_mem_iff hascending fun ref => (hcollected ref).trans (hmem ref).symm

/-- One program under two names, one file under two paths, and a call that names both again. -/
example : (collectRuntimeImports (.posix (js "/") (js "/home/me") fun _ => true) (js "/app")
    (.object
      [(js "dao", .array [some (.string (js "vault")), some (.string (js "./lib/oracle.aleo"))]),
        (js "dao.aleo", .array [some (.string (js "vault.aleo")), none])] none)
    (js "dao.aleo") (some [js "lib/../lib/oracle.aleo", js "vault"])).toOption =
      some [.path (js "/app/lib/oracle.aleo"), .programId (js "vault.aleo")] := by
  decide +kernel

/-! ## The check of a configuration -/

/-- A reference without an error. -/
theorem validateRef_nil {path : JsString} {element : Option JsValue} :
    validateRef path element = [] ↔ ∀ v, element = some v →
      ∃ raw ref, v = .string raw ∧ normalizeRuntimeImportRef host projectRoot raw = .ok ref := by
  unfold validateRef
  split
  · simp
  · next raw =>
    by_cases hkind : classifyRuntimeImportRef raw = .invalid
    · rw [if_pos hkind]
      simp only [List.cons_ne_nil, false_iff]
      intro h
      obtain ⟨_, ref, ⟨⟩, href⟩ := h _ rfl
      exact classify_of_ok href hkind
    · rw [if_neg hkind]
      simp only [true_iff]
      rintro _ ⟨⟩
      obtain ⟨ref, href⟩ := @normalize_ok host projectRoot raw hkind
      exact ⟨raw, ref, rfl, href⟩
  · next v hstring =>
    simp only [List.cons_ne_nil, false_iff]
    intro h
    obtain ⟨raw, _, rfl, -⟩ := h v rfl
    exact hstring raw rfl

/-- An entry without an error. -/
theorem validateEntry_nil {entry : JsString × JsValue} :
    validateEntry entry = [] ↔ isValidExecutionImportsMapKey entry.1 = true ∧
      ∃ elements, entry.2 = .array elements ∧ elements ≠ [] ∧ ∀ v, some v ∈ elements →
        ∃ raw ref, v = .string raw ∧ normalizeRuntimeImportRef host projectRoot raw = .ok ref := by
  obtain ⟨key, value⟩ := entry
  unfold validateEntry
  by_cases hkey : isValidExecutionImportsMapKey key = true
  · rw [hkey, if_neg (by decide)]
    cases value with
    | array elements =>
      dsimp only
      by_cases hempty : elements = []
      · rw [if_pos hempty]
        simp [hempty]
      · rw [if_neg hempty, List.flatMap_eq_nil_iff]
        simp only [@validateRef_nil host projectRoot]
        constructor
        · refine fun h => ⟨trivial, elements, rfl, hempty, fun v hv => ?_⟩
          obtain ⟨i, hi, hget⟩ := List.mem_iff_getElem.mp hv
          exact h (elements[i], i) (List.mem_zipIdx_iff_getElem?.mpr (by simp [hi])) v hget
        · rintro ⟨-, _, ⟨⟩, -, h⟩ element helement v hv
          exact h v (hv ▸ List.fst_mem_of_mem_zipIdx helement)
    | _ => simp
  · rw [if_pos (by simpa using hkey)]
    simp [hkey]

/-- **What is accepted is not skipped.** A configuration has no error exactly if there is none, or it is
an object and every entry of it counts: its key is the id of a program, it names something, and all
that it names are references, which are among those of this program. -/
theorem validated_configured (host : Host) (projectRoot : JsString) (imports : JsValue) :
    validateExecutionUserConfig imports = [] ↔
      imports = .undefined ∨ ∃ props raw, imports = .object props raw ∧ ∀ entry ∈ props,
        isValidExecutionImportsMapKey entry.1 = true ∧
        ∃ elements, entry.2 = .array elements ∧ elements ≠ [] ∧ ∀ v, some v ∈ elements →
          ∃ name ref, v = .string name ∧ normalizeRuntimeImportRef host projectRoot name = .ok ref ∧
            ref ∈ (resolveExecutionConfig host projectRoot imports
              (normalizeProgramId entry.1)).getD [] := by
  simp only [mem_resolveExecutionConfig]
  unfold validateExecutionUserConfig
  cases imports with
  | undefined => simp
  | object props raw =>
    dsimp only
    rw [List.flatMap_eq_nil_iff]
    simp only [@validateEntry_nil host projectRoot]
    constructor
    · refine fun h => .inr ⟨props, raw, rfl, fun entry hentry => ?_⟩
      obtain ⟨hkey, elements, helements, hne, hnames⟩ := h entry hentry
      refine ⟨hkey, elements, helements, hne, fun v hv => ?_⟩
      obtain ⟨name, ref, rfl, href⟩ := hnames v hv
      exact ⟨name, ref, rfl, href, props, raw, rfl, entry, hentry, hkey, rfl, elements, helements,
        name, hv, href⟩
    · rintro (h | ⟨_, _, ⟨⟩, h⟩) entry hentry
      · cases h
      · obtain ⟨hkey, elements, helements, hne, hnames⟩ := h entry hentry
        refine ⟨hkey, elements, helements, hne, fun v hv => ?_⟩
        obtain ⟨name, ref, hname, href, -⟩ := hnames v hv
        exact ⟨name, ref, hname, href⟩
  | _ => simp

end Configured

end Lionden.Network.RuntimeImports
