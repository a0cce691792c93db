import Lionden.Codegen.Abi
import Mathlib.Data.List.Basic

/-!
# The names of generated bindings (`typescript-generator.ts`, `type-mapper.ts`)

How the generator makes TypeScript names of the names of a program, and the names that
`BaseContract` takes. Names of a Leo program are identifiers, a path is a list of them, and a
program id is one with the suffix `.aleo`.

* `pathToTsName`, `programIdToClassName`: the names of types and of the contract class.
* `pathKey`, `externalRefKey`: the keys by which the generator finds a type, one for each.
-/

namespace Lionden.Codegen.Bindings

/-! ## Leo names -/

/-- An identifier of the Leo language: a letter, then letters, digits and underscores. -/
def isLeoIdentifier : JsString → Bool
  | [] => false
  | c :: rest => isLetter c && rest.all isIdentifierPart

/-- The path of a type: an identifier for each module that it is in, and its own. -/
def isPath (path : List JsString) : Bool := !path.isEmpty && path.all isLeoIdentifier

/-- `programId.replace(/\.aleo$/, "")`. -/
def stripAleo (programId : JsString) : JsString :=
  if endsWith programId (js ".aleo") then programId.take (programId.length - 5) else programId

def isProgramId (programId : JsString) : Bool :=
  endsWith programId (js ".aleo") && isLeoIdentifier (stripAleo programId)

/-- A reference to a type, with the program that declares it unless it is the program's own. -/
def isRef (ref : StructRef) : Bool := isPath ref.path && ref.program.all isProgramId

/-! ## TypeScript names -/

/-- `c.toUpperCase()`, of an ASCII character. -/
def toUpperCase (c : CodeUnit) : CodeUnit := if inRange 'a' 'z' c then c - 32 else c

/-- `capitalize(s)`. -/
def capitalize : JsString → JsString
  | [] => []
  | c :: rest => toUpperCase c :: rest

/-- `pathToTsName(path)`. -/
def pathToTsName : List JsString → JsString
  | [s] => s
  | path => (js "_").intercalate (path.map capitalize)

/-- `/[_\-.]/`. -/
def isWordBreak (c : CodeUnit) : Bool := c = unit '_' || c = unit '-' || c = unit '.'

/-- `programIdToClassName(programId)`. -/
def programIdToClassName (programId : JsString) : JsString :=
  ((stripAleo programId).splitOnP isWordBreak).flatMap capitalize

/-- `pathKey(path)`. -/
def pathKey (path : List JsString) : JsString := (js "::").intercalate path

/-- `externalRefKey(ref)`. -/
def externalRefKey (ref : StructRef) : JsString :=
  ref.program.getD [] ++ unit ':' :: pathKey ref.path

/-- The candidates that a loop tries which appends underscores to `preferred`. -/
def underscored (preferred : JsString) (k : ℕ) : JsString := preferred ++ List.replicate k (unit '_')

/-- The candidates of `disambiguateInputName(base, reserved)`. -/
def inputCandidate (base : JsString) (k : ℕ) : JsString := underscored base k ++ js "Input"

/-- The candidates of `resolveContractClassName(abi)`. -/
def classCandidate (base : JsString) (k : ℕ) : JsString :=
  base ++ (List.replicate k (js "Contract")).flatten

/-! ## The first character -/

def isUpper (c : CodeUnit) : Bool := inRange 'A' 'Z' c

/-- The first character of `s` is such a one. -/
def Begins (p : CodeUnit → Bool) (s : JsString) : Prop := s.head?.any p = true

instance (p : CodeUnit → Bool) (s : JsString) : Decidable (Begins p s) :=
  inferInstanceAs (Decidable (_ = true))

theorem Begins.append {p : CodeUnit → Bool} {s : JsString} (h : Begins p s) (t : JsString) :
    Begins p (s ++ t) := by
  cases s with
  | nil => cases h
  | cons c rest => exact h

theorem Begins.mono {p q : CodeUnit → Bool} (hpq : ∀ c, p c = true → q c = true) {s : JsString}
    (h : Begins p s) : Begins q s := by
  cases s with
  | nil => cases h
  | cons c rest => exact hpq c h

theorem Begins.ne {p : CodeUnit → Bool} {s t : JsString} (hs : Begins p s) (ht : ¬Begins p t) :
    s ≠ t := fun h => ht (h ▸ hs)

theorem isLetter_of_isUpper (c : CodeUnit) (h : isUpper c = true) : isLetter c = true :=
  Bool.or_eq_true_iff.mpr (.inl h)

theorem isUpper_toUpperCase {c : CodeUnit} (h : isLetter c = true) :
    isUpper (toUpperCase c) = true := by
  unfold toUpperCase
  split
  · next hlower =>
    simp only [inRange, Bool.and_eq_true, decide_eq_true_eq] at hlower
    have hlo : 97 ≤ c.toNat := hlower.1
    have hhi : c.toNat ≤ 122 := hlower.2
    have hsub : (c - 32).toNat = c.toNat - 32 :=
      UInt16.toNat_sub_of_le c 32 (UInt16.le_iff_toNat_le.mpr (by change 32 ≤ c.toNat; omega))
    simp only [isUpper, inRange, Bool.and_eq_true, decide_eq_true_eq, hsub]
    exact ⟨by change 65 ≤ _; omega, by change _ ≤ 90; omega⟩
  · next hlower => exact (Bool.or_eq_true_iff.mp h).resolve_right hlower

theorem begins_identifier {s : JsString} (h : isLeoIdentifier s = true) : Begins isLetter s := by
  cases s with
  | nil => cases h
  | cons c rest => exact (Bool.and_eq_true_iff.mp h).1

theorem begins_capitalize {s : JsString} (h : Begins isLetter s) :
    Begins isUpper (capitalize s) := by
  cases s with
  | nil => cases h
  | cons c rest => exact isUpper_toUpperCase h

/-- The segments of a path. -/
theorem isPath_cons {path : List JsString} (h : isPath path = true) :
    ∃ s rest, path = s :: rest ∧ isLeoIdentifier s = true ∧
      ∀ t ∈ rest, isLeoIdentifier t = true := by
  cases path with
  | nil => cases h
  | cons s rest =>
    have hall := List.all_eq_true.mp (Bool.and_eq_true_iff.mp h).2
    exact ⟨s, rest, rfl, hall s List.mem_cons_self, fun t ht => hall t (List.mem_cons_of_mem _ ht)⟩

theorem begins_pathToTsName {path : List JsString} (h : isPath path = true) :
    Begins isLetter (pathToTsName path) := by
  obtain ⟨s, rest, rfl, hs, -⟩ := isPath_cons h
  have hletter := begins_identifier hs
  cases rest with
  | nil => exact hletter
  | cons t rest =>
    refine Begins.mono isLetter_of_isUpper ?_
    change Begins isUpper ((js "_").intercalate (capitalize s :: capitalize t :: _))
    rw [List.intercalate_cons_cons, List.append_assoc]
    exact (begins_capitalize hletter).append _

theorem begins_programIdToClassName {programId : JsString} (h : isProgramId programId = true) :
    Begins isUpper (programIdToClassName programId) := by
  have hletter := begins_identifier (Bool.and_eq_true_iff.mp h).2
  unfold programIdToClassName
  cases hname : stripAleo programId with
  | nil => rw [hname] at hletter; cases hletter
  | cons c rest =>
    rw [hname] at hletter
    have hbreak : isWordBreak c = false := by
      by_contra hne
      simp only [isWordBreak, Bool.not_eq_false, Bool.or_eq_true, decide_eq_true_eq] at hne
      change isLetter c = true at hletter
      obtain (rfl | rfl) | rfl := hne <;> revert hletter <;> decide
    rw [List.splitOnP_cons_eq_if_modifyHead, hbreak]
    obtain ⟨word, words, hwords⟩ := List.exists_cons_of_ne_nil (List.splitOnP_ne_nil isWordBreak rest)
    simp only [hwords, Bool.false_eq_true, if_false, List.modifyHead_cons, List.flatMap_cons]
    exact Begins.append (begins_capitalize (s := c :: word) hletter) _

/-! ## Keys -/

/-- A character that is in no identifier. -/
theorem notMem_identifier {c : CodeUnit} (hc : isIdentifierPart c = false) {s : JsString}
    (h : isLeoIdentifier s = true) : c ∉ s := by
  cases s with
  | nil => cases h
  | cons d rest =>
    obtain ⟨hd, hrest⟩ := Bool.and_eq_true_iff.mp h
    have hpart : isIdentifierPart d = true := by
      simp [isIdentifierPart, isIdentifierStart, hd]
    intro hmem
    obtain rfl | hmem := List.mem_cons.mp hmem
    · exact Bool.false_ne_true (hc.symm.trans hpart)
    · exact Bool.false_ne_true (hc.symm.trans (List.all_eq_true.mp hrest c hmem))

/-- What stands before the first `c` and after it. -/
theorem append_cons_inj {c : CodeUnit} {s s' t t' : JsString} (hs : c ∉ s) (hs' : c ∉ s')
    (h : s ++ c :: t = s' ++ c :: t') : s = s' ∧ t = t' := by
  induction s generalizing s' with
  | nil =>
    cases s' with
    | nil => exact ⟨rfl, (List.cons.inj h).2⟩
    | cons d s' => exact absurd ((List.cons.inj h).1 ▸ List.mem_cons_self) hs'
  | cons d s ih =>
    cases s' with
    | nil => exact absurd ((List.cons.inj h).1 ▸ List.mem_cons_self) hs
    | cons d' s' =>
      obtain ⟨rfl, htail⟩ := List.cons.inj h
      obtain ⟨rfl, rfl⟩ := ih (fun hmem => hs (List.mem_cons_of_mem _ hmem))
        (fun hmem => hs' (List.mem_cons_of_mem _ hmem)) htail
      exact ⟨rfl, rfl⟩

theorem pathKey_singleton (s : JsString) : pathKey [s] = s := List.intercalate_singleton

theorem pathKey_cons_cons (s t : JsString) (rest : List JsString) :
    pathKey (s :: t :: rest) = s ++ unit ':' :: unit ':' :: pathKey (t :: rest) := by
  rw [pathKey, List.intercalate_cons_cons, List.append_assoc]
  rfl

theorem notMem_pathKey {c : CodeUnit} (hc : isIdentifierPart c = false) (hcolon : c ≠ unit ':') :
    ∀ {path : List JsString}, isPath path = true → c ∉ pathKey path
  | [s], h => by
    rw [pathKey_singleton]
    exact notMem_identifier hc (List.all_eq_true.mp (Bool.and_eq_true_iff.mp h).2 s (by simp))
  | s :: t :: rest, h => by
    obtain ⟨_, _, heq, hs, hrest⟩ := isPath_cons h
    cases heq
    have htail : isPath (t :: rest) = true :=
      Bool.and_eq_true_iff.mpr ⟨rfl, List.all_eq_true.mpr hrest⟩
    rw [pathKey_cons_cons]
    simp only [List.mem_append, List.mem_cons, not_or]
    exact ⟨notMem_identifier hc hs, hcolon, hcolon, notMem_pathKey hc hcolon htail⟩

/-- A key says which path it was made of. -/
theorem pathKey_inj : ∀ {p q : List JsString}, isPath p = true → isPath q = true →
    pathKey p = pathKey q → p = q
  | s :: rest, s' :: rest', hp, hq, h => by
    obtain ⟨_, _, heq, hs, hrest⟩ := isPath_cons hp
    cases heq
    obtain ⟨_, _, heq, hs', hrest'⟩ := isPath_cons hq
    cases heq
    have hcolon := notMem_identifier (c := unit ':') (by decide) hs
    have hcolon' := notMem_identifier (c := unit ':') (by decide) hs'
    cases rest with
    | nil =>
      cases rest' with
      | nil => rwa [pathKey_singleton, pathKey_singleton, ← List.singleton_inj] at h
      | cons t' rest' =>
        rw [pathKey_singleton, pathKey_cons_cons] at h
        exact absurd (h ▸ List.mem_append_right s' List.mem_cons_self) hcolon
    | cons t rest =>
      cases rest' with
      | nil =>
        rw [pathKey_singleton, pathKey_cons_cons] at h
        exact absurd (h ▸ List.mem_append_right s List.mem_cons_self) hcolon'
      | cons t' rest' =>
        rw [pathKey_cons_cons, pathKey_cons_cons] at h
        obtain ⟨rfl, hkeys⟩ := append_cons_inj hcolon hcolon' h
        have hpaths : t :: rest = t' :: rest' :=
          pathKey_inj (Bool.and_eq_true_iff.mpr ⟨rfl, List.all_eq_true.mpr hrest⟩)
            (Bool.and_eq_true_iff.mpr ⟨rfl, List.all_eq_true.mpr hrest'⟩) (List.cons.inj hkeys).2
        rw [hpaths]

theorem isProgramId_eq {programId : JsString} (h : isProgramId programId = true) :
    programId = stripAleo programId ++ js ".aleo" := by
  have hends := (Bool.and_eq_true_iff.mp h).1
  obtain ⟨name, rfl⟩ := of_decide_eq_true hends
  rw [stripAleo, if_pos hends, List.length_append]
  exact congrArg (· ++ js ".aleo") (List.take_left' rfl).symm

theorem colon_notMem_programId {programId : JsString} (h : isProgramId programId = true) :
    unit ':' ∉ programId := by
  rw [isProgramId_eq h, List.mem_append, not_or]
  exact ⟨notMem_identifier (by decide) (Bool.and_eq_true_iff.mp h).2, by decide⟩

/-- A reference to a type of another program. -/
def isExternalRef (ref : StructRef) : Bool := isRef ref && ref.program.isSome

theorem isExternalRef_iff {ref : StructRef} : isExternalRef ref = true ↔
    ∃ program, ref.program = some program ∧ isPath ref.path = true ∧
      isProgramId program = true := by
  obtain ⟨path, program⟩ := ref
  cases program <;> simp [isExternalRef, isRef]

theorem externalRefKey_inj {ref ref' : StructRef} (hr : isExternalRef ref = true)
    (hr' : isExternalRef ref' = true) (h : externalRefKey ref = externalRefKey ref') :
    ref = ref' := by
  obtain ⟨program, hprogram, hpath, hid⟩ := isExternalRef_iff.mp hr
  obtain ⟨program', hprogram', hpath', hid'⟩ := isExternalRef_iff.mp hr'
  simp only [externalRefKey, hprogram, hprogram', Option.getD_some] at h
  obtain ⟨heq, hkeys⟩ := append_cons_inj (colon_notMem_programId hid)
    (colon_notMem_programId hid') h
  have hpaths := pathKey_inj hpath hpath' hkeys
  obtain ⟨path, _⟩ := ref
  obtain ⟨path', _⟩ := ref'
  subst hprogram hprogram' heq
  exact congrArg (StructRef.mk · _) hpaths

/-- The key of a type of another program is none of the program's own: it has the dot of the
program id. -/
theorem externalRefKey_ne_pathKey {ref : StructRef} (hr : isExternalRef ref = true)
    {path : List JsString} (hpath : isPath path = true) : externalRefKey ref ≠ pathKey path := by
  obtain ⟨program, hprogram, -, hid⟩ := isExternalRef_iff.mp hr
  intro h
  refine notMem_pathKey (c := unit '.') (by decide) (by decide) hpath ?_
  rw [← h, externalRefKey, hprogram, Option.getD_some, isProgramId_eq hid]
  simp [js]

/-! ## Candidates -/

theorem underscored_injective (preferred : JsString) : (underscored preferred).Injective := by
  intro k k' h
  simpa [underscored] using congrArg List.length h

theorem inputCandidate_injective (base : JsString) : (inputCandidate base).Injective := by
  intro k k' h
  simpa [inputCandidate, underscored] using congrArg List.length h

theorem classCandidate_injective (base : JsString) : (classCandidate base).Injective := by
  intro k k' h
  have hlength := congrArg List.length h
  simp only [classCandidate, List.length_append, List.length_flatten, List.map_replicate,
    List.sum_replicate_nat] at hlength
  have height : (js "Contract").length = 8 := rfl
  rw [height] at hlength
  omega

/-! ## The names of `BaseContract` -/

/-- `BASE_CONTRACT_TYPE_IMPORT_NAMES`. -/
def baseContractTypeImportNames : List JsString :=
  ["AcceptedTransition", "AddressInput", "BaseContractOptions", "CapturedRecord",
    "ConfirmedTransitionRecord", "DecryptionKey", "DynamicRecordInput", "EncryptedRecord",
    "EncryptedValue", "FieldInput", "GroupInput", "IdentifierInput", "IdOnlyDynamicRecordHandle",
    "IdOnlyExternalRecordHandle", "IdOnlyRecordSource", "LeoAddress", "LeoDynamicRecord",
    "LeoField", "LeoGroup", "LeoIdentifier", "LeoPlaintext", "LeoScalar", "LocalExecutionOptions",
    "LocalTransitionError", "OnChainExecutionOptions", "PlaintextInput", "RawTransitionOutput",
    "RecordDecryptionKey", "RecordOutputMatcher", "RejectedTransition", "ScalarInput",
    "SettledTransition", "SubmittedTransition", "TransitionInputContext"].map js

/-- `RESERVED_BASE_CONTRACT_TYPE_IMPORT_NAMES`. -/
def reservedBaseContractTypeImportNames : List JsString :=
  js "BaseContract" :: baseContractTypeImportNames

/-- `baseContractValueImportNames(includeLeo)`. -/
def baseContractValueImportNames (includeLeo : Bool) : List JsString :=
  js "BaseContract" :: (if includeLeo then [js "Leo", js "bindDynamicRecordHelperProgram"] else []) ++
    [js "createRecordOutputMatcher"]

/-- `reservedBaseContractImportNames(includeLeoValueImport)`. -/
def reservedBaseContractImportNames (includeLeoValueImport : Bool) : List JsString :=
  baseContractValueImportNames includeLeoValueImport ++ reservedBaseContractTypeImportNames

/-- `RESERVED_INPUT_IMPORTS`. -/
def reservedInputImports : List JsString :=
  ["AddressInput", "FieldInput", "GroupInput", "ScalarInput", "IdentifierInput",
    "DynamicRecordInput", "PlaintextInput", "WidenInput"].map js

/-- `RESERVED_CONTRACT_INSTANCE_MEMBERS`. -/
def reservedContractInstanceMembers : List JsString :=
  ["constructor", "sourceProgramId", "programId", "instanceImports", "lre", "signer", "connect",
    "address", "withSigner", "inputContext", "getLre", "getNetwork", "executeLocal",
    "expectLocalFailure", "submitTransition", "settleTransition", "expectAccepted",
    "expectRejected", "settleTyped", "expectAcceptedTyped", "runProjector",
    "beginTransitionLogBlock", "logTransitionStart", "logTransitionDone",
    "formatTransitionDetails", "formatTransitionCall", "formatSignerSuffix", "outputAt",
    "executeRaw", "queryViewRaw", "buildEffectiveOptions", "queryMapping", "mappingContains",
    "requireMappingRaw", "queryStorage", "requireStorageRaw", "queryStorageVectorLength",
    "queryStorageVector", "requireStorageVectorRaw", "queryStorageVectorAll",
    "selectAcceptedTransition", "selectRejectedTransitionOutputs"].map js

end Lionden.Codegen.Bindings
