import Lionden.Compiler.AbiIdempotent
import Lionden.Js.Stringify

/-!
# Well-formed ABIs

* `WellFormed`: an ABI without gaps, in a format of any line of Leo, in an older one or in the one
  that `parseAbi` gives, also with entries of several of them.
* `isData_normalizeAbi`: nothing of what a well-formed ABI is normalised to is lost in JSON.
-/

namespace Lionden.Compiler

open Fallible (bind_ok)

/-! ## Well-formed ABIs -/

/-- A property or an element that is there. -/
def Present (v : JsValue) : Prop := v ≠ .undefined

/-- A plaintext type with all its parts. -/
inductive CompletePlaintext : JsValue → Prop where
  | struct {raw : JsValue} (h : raw.hasOwn (js "Struct") = true) : CompletePlaintext raw
  | array {raw elem length : JsValue} (hstruct : raw.hasOwn (js "Struct") = false)
    (h : arrayParts (raw.property (js "Array")) = some (elem, length))
    (helem : CompletePlaintext elem) (hlength : Present length) : CompletePlaintext raw
  | optional {raw : JsValue} (hstruct : raw.hasOwn (js "Struct") = false)
    (harray : arrayParts (raw.property (js "Array")) = none)
    (h : raw.hasOwn (js "Optional") = true)
    (hinner : CompletePlaintext (raw.property (js "Optional"))) : CompletePlaintext raw
  | other {raw : JsValue} (hstruct : raw.hasOwn (js "Struct") = false)
    (harray : arrayParts (raw.property (js "Array")) = none)
    (hoptional : raw.hasOwn (js "Optional") = false) (h : Present raw) : CompletePlaintext raw

/-- A storage type; an old one is a plaintext without a tag. -/
inductive CompleteStorageType : JsValue → Prop where
  | plaintext {raw : JsValue} (h : raw.hasOwn (js "Plaintext") = true)
    (hty : CompletePlaintext (raw.property (js "Plaintext"))) : CompleteStorageType raw
  | vector {raw : JsValue} (hplaintext : raw.hasOwn (js "Plaintext") = false)
    (h : raw.hasOwn (js "Vector") = true)
    (helem : CompleteStorageType (raw.property (js "Vector"))) : CompleteStorageType raw
  | bare {raw : JsValue} (hplaintext : raw.hasOwn (js "Plaintext") = false)
    (hvector : raw.hasOwn (js "Vector") = false) (hty : CompletePlaintext raw) :
    CompleteStorageType raw

/-- The type of a wrapped element. -/
structure CompleteAleoType (raw : JsValue) : Prop where
  present : Present raw
  plaintext : raw.hasOwn (js "Plaintext") = true →
    CompletePlaintext (raw.property (js "Plaintext"))

/-- An input or an output: a plaintext that is given by position comes with its type, and so does a
wrapped element. -/
def CompleteElement (raw : JsValue) : Prop :=
  match detectInputShape raw with
  | .bare => True
  | .positional => raw.hasOwn (js "Plaintext") = true →
      CompletePlaintext ((raw.property (js "Plaintext")).property (js "ty"))
  | .wrapper => CompleteAleoType (raw.property (js "ty"))

/-- The elements of a list, if there is one. -/
def Elements (p : JsValue → Prop) (raw : JsValue) : Prop :=
  ∀ elements, raw = .array elements → ∀ v, some v ∈ elements → p v

/-- A function or a view. -/
structure CompleteEntry (raw : JsValue) : Prop where
  name : Present (raw.property (js "name"))
  inputs : Elements CompleteElement (raw.property (js "inputs"))
  outputs : Elements CompleteElement (raw.property (js "outputs"))

structure CompleteField (raw : JsValue) : Prop where
  name : Present (raw.property (js "name"))
  ty : CompletePlaintext (raw.property (js "ty"))

/-- A struct or a record. -/
def CompleteComposite (raw : JsValue) : Prop := Elements CompleteField (raw.property (js "fields"))

structure CompleteMapping (raw : JsValue) : Prop where
  name : Present (raw.property (js "name"))
  key : CompletePlaintext (raw.property (js "key"))
  value : CompletePlaintext (raw.property (js "value"))

structure CompleteStorageVariable (raw : JsValue) : Prop where
  name : Present (raw.property (js "name"))
  ty : CompleteStorageType (raw.property (js "ty"))

/-- An ABI whose entries are complete. Its numbers are finite, and none is a negative zero: JSON has
no other numbers, but a text may name one that no double holds. -/
structure WellFormed (raw : JsValue) : Prop where
  numbers : IsData JsNumber.Finite raw
  structs : Elements CompleteComposite (raw.property (js "structs"))
  records : Elements CompleteComposite (raw.property (js "records"))
  mappings : Elements CompleteMapping (raw.property (js "mappings"))
  storageVariables : Elements CompleteStorageVariable (raw.property (js "storage_variables"))
  functions : Elements CompleteEntry (rawFunctions raw)
  views : Elements CompleteEntry (raw.property (js "views"))

/-! ## Data -/

variable {stringOf : JsValue → JsString} {programId : JsString} {number : JsNumber → Prop}

theorem isData_tagged (key : String) {v : JsValue} (h : IsData number v) :
    IsData number (tagged key v) :=
  .object (List.nodup_singleton _) (List.forall_mem_singleton.mpr h)

theorem isData_elementAt {elements : List (Option JsValue)} (h : IsData number (.array elements))
    {index : Nat} (hpresent : Present (elementAt elements index)) :
    IsData number (elementAt elements index) := by
  unfold elementAt at hpresent ⊢
  cases helem : elements[index]? with
  | none => exact absurd (by rw [helem]; rfl) hpresent
  | some x =>
    obtain ⟨v, rfl, hv⟩ := isData_array.mp h x (List.mem_of_getElem? helem)
    exact hv

/-- The parts of an array type that are there. -/
theorem isData_arrayParts {v elem length : JsValue} (h : IsData number v)
    (hparts : arrayParts v = some (elem, length)) :
    (Present elem → IsData number elem) ∧ (Present length → IsData number length) := by
  cases v with
  | array elements =>
    cases hparts
    exact ⟨isData_elementAt h, isData_elementAt h⟩
  | object props symbol =>
    cases hparts
    exact ⟨h.property rfl, h.property rfl⟩
  | _ => cases hparts

theorem isData_toRef {raw : JsValue} (h : IsData number raw) :
    IsData number (toRef stringOf programId raw) := by
  obtain ⟨path, program, hform, hsource⟩ := @toRef_form stringOf programId raw
  rw [hform]
  have hpath : IsData number (.array path) := by
    rcases hsource with ⟨hpath, -⟩ | ⟨⟨name, rfl⟩, -⟩
    · rw [← hpath]
      exact h.property rfl (by rw [hpath]; nofun)
    · exact @IsData.array _ [.string name] (List.forall_mem_singleton.mpr (.string name))
  have hprogram : IsData number (orElse program .null) := by
    unfold orElse
    split_ifs with hnullish
    · exact .null
    · rcases hsource with ⟨-, rfl⟩ | ⟨-, rfl⟩
      · refine h.property rfl fun hundefined => hnullish ?_
        rw [hundefined]
        rfl
      · exact .null
  have hcanonical : IsData number (canonicalizeRefProgram programId (orElse program .null)) := by
    unfold canonicalizeRefProgram
    split
    · split_ifs
      · exact .null
      · exact hprogram
    · exact hprogram
  have hkeys : [js "path", js "program"].Nodup := by decide
  exact .object hkeys (by simpa using ⟨hpath, hcanonical⟩)

/-! ## Types -/

theorem CompletePlaintext.present {raw : JsValue} (h : CompletePlaintext raw) : Present raw := by
  rintro rfl
  cases h with
  | struct h => cases h
  | array _ h => cases h
  | optional _ _ h => cases h
  | other _ _ _ h => exact h rfl

theorem isData_normalizePlaintext {raw : JsValue} (hraw : IsData number raw)
    (h : CompletePlaintext raw) : IsData number (normalizePlaintext stringOf programId raw) := by
  induction h with
  | struct h =>
    rw [normalizePlaintext_of_struct h]
    exact isData_tagged _ (isData_toRef (hraw.property_of_hasOwn h))
  | @array raw elem length hstruct h helem hlength ih =>
    rw [normalizePlaintext_of_array hstruct h]
    have hparts : IsData number (raw.property (js "Array")) :=
      hraw.property rfl fun hundefined => by rw [hundefined] at h; cases h
    obtain ⟨helemData, hlengthData⟩ := isData_arrayParts hparts h
    refine isData_tagged _ (isData_array.mpr ?_)
    simpa using ⟨ih (helemData helem.present), hlengthData hlength⟩
  | optional hstruct harray h _ ih =>
    rw [normalizePlaintext_of_optional hstruct harray h]
    exact isData_tagged _ (ih (hraw.property_of_hasOwn h))
  | other hstruct harray hoptional _ =>
    rw [normalizePlaintext_of_other hstruct harray hoptional]
    exact hraw

theorem isData_normalizeStorageType {raw : JsValue} (hraw : IsData number raw)
    (h : CompleteStorageType raw) :
    IsData number (normalizeStorageType stringOf programId raw) := by
  induction h with
  | plaintext h hty =>
    rw [normalizeStorageType_of_plaintext h]
    exact isData_tagged _ (isData_normalizePlaintext (hraw.property_of_hasOwn h) hty)
  | vector hplaintext h _ ih =>
    rw [normalizeStorageType_of_vector hplaintext h]
    exact isData_tagged _ (ih (hraw.property_of_hasOwn h))
  | bare hplaintext hvector hty =>
    rw [normalizeStorageType_of_bare hplaintext hvector]
    exact isData_tagged _ (isData_normalizePlaintext hraw hty)

theorem isData_normalizeAleoType {raw : JsValue} (hraw : IsData number raw)
    (h : raw.hasOwn (js "Plaintext") = true → CompletePlaintext (raw.property (js "Plaintext"))) :
    IsData number (normalizeAleoType stringOf programId raw) := by
  by_cases hstring : ∃ s, raw = .string s
  · obtain ⟨s, rfl⟩ := hstring
    rw [normalizeAleoType_string]
    split_ifs
    · exact isData_tagged _ (.string programId)
    · exact .string s
  · rw [normalizeAleoType_of_ne_string fun s hs => hstring ⟨s, hs⟩]
    split_ifs with hrecord hfuture hplaintext
    · exact isData_tagged _ (isData_toRef (hraw.property_of_hasOwn hrecord))
    · exact isData_tagged _ (hraw.property_of_hasOwn hfuture)
    · exact isData_tagged _
        (isData_normalizePlaintext (hraw.property_of_hasOwn hplaintext) (h hplaintext))
    · exact hraw

/-! ## Elements -/

theorem isData_modeOr {rawMode default : JsValue} (h : IsData number default) :
    IsData number (modeOr rawMode default) := by
  unfold modeOr
  split
  · split_ifs
    · exact .string _
    · exact h
  · exact h

theorem isData_canonicalizePlaintextMode (rawMode : JsValue) (ioContext : IoContext) :
    IsData number (canonicalizePlaintextMode rawMode ioContext) := isData_modeOr (.string _)

theorem isData_modeForAleoType (ty rawMode : JsValue) (ioContext : IoContext) :
    IsData number (modeForAleoType ty rawMode ioContext) := by
  unfold modeForAleoType
  split_ifs
  · exact isData_canonicalizePlaintextMode rawMode ioContext
  · exact .string _

theorem member_ok {v w : JsValue} {key : String} (h : member v key = .ok w) :
    w = v.property (js key) := by
  unfold member at h
  split at h
  · cases h
  · cases h
  · exact (Except.ok.inj h).symm

theorem isData_normalizeElement {raw ty mode : JsValue} {ioContext : IoContext}
    (hraw : IsData number raw) (hcomplete : CompleteElement raw)
    (h : normalizeElement stringOf programId raw ioContext = .ok (ty, mode)) :
    IsData number ty ∧ IsData number mode := by
  unfold normalizeElement at h
  unfold CompleteElement at hcomplete
  dsimp only at h
  split at h
  · next hshape =>
    rw [hshape] at hcomplete
    split_ifs at h with hplaintext hrecord
    · cases h
      have hty := hcomplete hplaintext
      exact ⟨isData_tagged _ (isData_normalizePlaintext
        ((hraw.property_of_hasOwn hplaintext).property rfl hty.present) hty),
        isData_canonicalizePlaintextMode _ _⟩
    · cases h
      exact ⟨isData_tagged _ (isData_toRef (hraw.property_of_hasOwn hrecord)), .string _⟩
    · cases h
      have hfuture : raw.hasOwn (js "Future") = true := by
        unfold detectInputShape at hshape
        split at hshape
        · cases hshape
        · split_ifs at hshape with hty hany
          exact (hany.resolve_left hplaintext).resolve_left hrecord
      exact ⟨isData_tagged _ (hraw.property_of_hasOwn hfuture), .string _⟩
  · next hshape =>
    cases h
    refine ⟨isData_normalizeAleoType hraw fun hplaintext => ?_, .string _⟩
    cases raw with
    | string s => cases hplaintext
    | _ =>
      unfold detectInputShape at hshape
      dsimp only at hshape
      split_ifs at hshape
  · next hshape =>
    rw [hshape] at hcomplete
    obtain ⟨rawTy, hrawTy, h⟩ := bind_ok.mp h
    obtain rfl := member_ok hrawTy
    cases h
    exact ⟨isData_normalizeAleoType (hraw.property rfl hcomplete.present) hcomplete.plaintext,
      isData_modeForAleoType _ _ _⟩

theorem isData_normalizeInput {raw v : JsValue} {ioContext : IoContext} {index : Nat}
    (hraw : IsData number raw) (hcomplete : CompleteElement raw)
    (h : normalizeInput stringOf programId ioContext index raw = .ok v) : IsData number v := by
  obtain ⟨⟨ty, mode⟩, helement, hv⟩ := bind_ok.mp h
  obtain ⟨name, hname⟩ := inputName_form raw index
  rw [hname] at hv
  cases hv
  obtain ⟨hty, hmode⟩ := isData_normalizeElement hraw hcomplete helement
  have hkeys : [js "name", js "ty", js "mode"].Nodup := by decide
  exact .object hkeys (by simpa using ⟨.string name, hty, hmode⟩)

theorem isData_normalizeOutput {raw v : JsValue} {ioContext : IoContext}
    (hraw : IsData number raw) (hcomplete : CompleteElement raw)
    (h : normalizeOutput stringOf programId ioContext raw = .ok v) : IsData number v := by
  obtain ⟨⟨ty, mode⟩, helement, hv⟩ := bind_ok.mp h
  cases hv
  obtain ⟨hty, hmode⟩ := isData_normalizeElement hraw hcomplete helement
  have hkeys : [js "ty", js "mode"].Nodup := by decide
  exact .object hkeys (by simpa using ⟨hty, hmode⟩)

/-! ## Lists -/

/-- Data with a property of its own, all the elements of a list. -/
def AllData (number : JsNumber → Prop) (p : JsValue → Prop) (elements : List (Option JsValue)) :
    Prop := ∀ x ∈ elements, ∃ v, x = some v ∧ IsData number v ∧ p v

theorem isData_mapElements {f : Nat → JsValue → Except JsString JsValue} {p : JsValue → Prop}
    (hf : ∀ index v w, IsData number v → p v → f index v = .ok w → IsData number w) {index : Nat}
    {xs ys : List (Option JsValue)} (hxs : AllData number p xs)
    (h : mapElements f index xs = .ok ys) : IsData number (.array ys) := by
  refine isData_array.mpr ?_
  induction xs generalizing index ys with
  | nil =>
    cases h
    nofun
  | cons x xs ih =>
    obtain ⟨⟨v, rfl, hv, hp⟩, hrest⟩ := List.forall_mem_cons.mp hxs
    obtain ⟨w, hw, h⟩ := bind_ok.mp h
    obtain ⟨zs, hzs, h⟩ := bind_ok.mp h
    cases h
    exact List.forall_mem_cons.mpr ⟨⟨w, rfl, hf index v w hv hp hw⟩, ih hrest hzs⟩

/-- The elements of a list that is there. -/
theorem allData_of_array {raw : JsValue} {p : JsValue → Prop} {elements : List (Option JsValue)}
    (hraw : IsData number raw) (hp : Elements p raw) (h : raw = .array elements) :
    AllData number p elements := by
  subst h
  intro x hx
  obtain ⟨v, rfl, hv⟩ := isData_array.mp hraw x hx
  exact ⟨v, rfl, hv, hp elements rfl v hx⟩

theorem allData_asArray {raw : JsValue} {p : JsValue → Prop} {fieldName : String}
    {elements : List (Option JsValue)} (hraw : Present raw → IsData number raw)
    (hp : Elements p raw) (h : asArray raw fieldName = .ok elements) :
    AllData number p elements := by
  unfold asArray at h
  split at h
  · cases h
    nofun
  · cases h
    nofun
  · cases h
    exact allData_of_array (hraw nofun) hp rfl
  · cases h

theorem isData_asArray {raw : JsValue} {fieldName : String} {elements : List (Option JsValue)}
    (hraw : Present raw → IsData number raw) (h : asArray raw fieldName = .ok elements) :
    IsData number (.array elements) := by
  refine isData_array.mpr fun x hx => ?_
  obtain ⟨v, hv, hdata, -⟩ := allData_asArray (p := fun _ => True) hraw
    (fun _ _ _ _ => trivial) h x hx
  exact ⟨v, hv, hdata⟩

theorem isData_normalizeElements {f : Nat → JsValue → Except JsString JsValue}
    {p : JsValue → Prop}
    (hf : ∀ index v w, IsData number v → p v → f index v = .ok w → IsData number w)
    {raw v : JsValue} (hraw : Present raw → IsData number raw) (hp : Elements p raw)
    (h : normalizeElements f raw = .ok v) : IsData number v := by
  unfold normalizeElements at h
  split at h
  · cases h
    exact isData_array.mpr nofun
  · obtain ⟨ys, hys, h⟩ := bind_ok.mp h
    cases h
    exact isData_mapElements hf (allData_of_array (hraw nofun) hp rfl) hys
  · next hundefined _ =>
    cases h
    exact hraw hundefined

/-! ## Entries -/

theorem mem_unlessEmpty {key : String} {elements : List (Option JsValue)}
    {p : JsString × JsValue} (h : p ∈ unlessEmpty key elements) :
    p = (js key, .array elements) := by
  unfold unlessEmpty at h
  split_ifs at h
  · cases h
  · exact List.mem_singleton.mp h

theorem notMem_unlessEmpty {props : List (JsString × JsValue)} {key other : String}
    (elements : List (Option JsValue)) (hprops : js other ∉ props.map Prod.fst)
    (hne : js key ≠ js other) : js other ∉ (props ++ unlessEmpty key elements).map Prod.fst := by
  intro hmem
  rw [List.map_append] at hmem
  rcases List.mem_append.mp hmem with hmem | hmem
  · exact hprops hmem
  · obtain ⟨p, hp, hfst⟩ := List.mem_map.mp hmem
    rw [mem_unlessEmpty hp] at hfst
    exact hne hfst

theorem isData_unlessEmpty {props : List (JsString × JsValue)} {key : String}
    {elements : List (Option JsValue)} (hprops : IsData number (.object props none))
    (hkey : js key ∉ props.map Prod.fst) (helements : IsData number (.array elements)) :
    IsData number (.object (props ++ unlessEmpty key elements) none) := by
  cases hprops with
  | object hkeys hprops =>
    refine .object ?_ (List.forall_mem_append.mpr ⟨hprops, fun p hp => ?_⟩)
    · unfold unlessEmpty
      split_ifs
      · rwa [List.append_nil]
      · rw [List.map_append]
        refine List.nodup_append.mpr ⟨hkeys, List.nodup_singleton _, fun a ha b hb heq => hkey ?_⟩
        have hb' : b = js key := List.mem_singleton.mp hb
        rwa [← hb', ← heq]
    · rw [mem_unlessEmpty hp]
      exact helements

theorem isData_normalizeFunction {raw v : JsValue} (hraw : IsData number raw)
    (hcomplete : CompleteEntry raw) (h : normalizeFunction stringOf programId raw = .ok v) :
    IsData number v := by
  unfold normalizeFunction at h
  by_cases hobject : ¬ raw.isObject
  · rw [if_pos hobject] at h
    cases h
    exact hraw
  rw [if_neg hobject] at h
  obtain ⟨inputs, hinputs, h⟩ := bind_ok.mp h
  obtain ⟨outputs, houtputs, h⟩ := bind_ok.mp h
  obtain ⟨async, -, h⟩ := bind_ok.mp h
  obtain ⟨constParameters, hconst, h⟩ := bind_ok.mp h
  cases h
  have hkeys : [js "name", js "is_async", js "inputs", js "outputs"].Nodup := by decide
  have hkey : js "const_parameters" ∉ [js "name", js "is_async", js "inputs", js "outputs"] := by
    decide
  refine isData_unlessEmpty (.object hkeys ?_) hkey (isData_asArray (hraw.property rfl) hconst)
  simpa using ⟨hraw.property rfl hcomplete.name, .boolean async,
    isData_normalizeElements (fun _ _ _ => isData_normalizeInput) (hraw.property rfl)
      hcomplete.inputs hinputs,
    isData_normalizeElements (fun _ _ _ => isData_normalizeOutput) (hraw.property rfl)
      hcomplete.outputs houtputs⟩

theorem isData_normalizeView {raw v : JsValue} (hraw : IsData number raw)
    (hcomplete : CompleteEntry raw) (h : normalizeView stringOf programId raw = .ok v) :
    IsData number v := by
  unfold normalizeView at h
  by_cases hobject : ¬ raw.isObject
  · rw [if_pos hobject] at h
    cases h
    exact hraw
  rw [if_neg hobject] at h
  obtain ⟨inputs, hinputs, h⟩ := bind_ok.mp h
  obtain ⟨outputs, houtputs, h⟩ := bind_ok.mp h
  obtain ⟨constParameters, hconst, h⟩ := bind_ok.mp h
  cases h
  have hkeys : [js "name", js "inputs", js "outputs"].Nodup := by decide
  have hkey : js "const_parameters" ∉ [js "name", js "inputs", js "outputs"] := by decide
  refine isData_unlessEmpty (.object hkeys ?_) hkey (isData_asArray (hraw.property rfl) hconst)
  simpa using ⟨hraw.property rfl hcomplete.name,
    isData_normalizeElements (fun _ _ _ => isData_normalizeInput) (hraw.property rfl)
      hcomplete.inputs hinputs,
    isData_normalizeElements (fun _ _ _ => isData_normalizeOutput) (hraw.property rfl)
      hcomplete.outputs houtputs⟩

theorem isData_extractPath {raw path : JsValue} (hraw : IsData number raw)
    (h : extractPath raw = .ok path) : IsData number path := by
  unfold extractPath at h
  split at h
  · next hpath =>
    cases h
    rw [← hpath]
    exact hraw.property rfl (by rw [hpath]; nofun)
  · next name _ _ =>
    cases h
    exact @IsData.array _ [.string name] (List.forall_mem_singleton.mpr (.string name))
  · cases h

theorem isData_normalizeComposite {fieldName : String}
    {normalizeField : JsValue → Except JsString JsValue}
    (hfield : ∀ v w, IsData number v → CompleteField v → normalizeField v = .ok w →
      IsData number w) {raw v : JsValue} (hraw : IsData number raw)
    (hcomplete : CompleteComposite raw)
    (h : normalizeComposite fieldName normalizeField raw = .ok v) : IsData number v := by
  unfold normalizeComposite at h
  by_cases hobject : ¬ raw.isObject
  · rw [if_pos hobject] at h
    cases h
    exact hraw
  rw [if_neg hobject] at h
  obtain ⟨path, hpath, h⟩ := bind_ok.mp h
  obtain ⟨rawFields, hrawFields, h⟩ := bind_ok.mp h
  obtain ⟨fields, hfields, h⟩ := bind_ok.mp h
  cases h
  have hkeys : [js "path", js "fields"].Nodup := by decide
  refine .object hkeys ?_
  simpa using ⟨isData_extractPath hraw hpath, isData_mapElements (fun _ => hfield)
    (allData_asArray (hraw.property rfl) hcomplete hrawFields) hfields⟩

theorem isData_normalizeStructField {raw v : JsValue} (hraw : IsData number raw)
    (hcomplete : CompleteField raw) (h : normalizeStructField stringOf programId raw = .ok v) :
    IsData number v := by
  obtain ⟨name, hname, h⟩ := bind_ok.mp h
  obtain rfl := member_ok hname
  cases h
  have hkeys : [js "name", js "ty"].Nodup := by decide
  refine .object hkeys ?_
  simpa using ⟨hraw.property rfl hcomplete.name,
    isData_normalizePlaintext (hraw.property rfl hcomplete.ty.present) hcomplete.ty⟩

theorem isData_normalizeRecordField {raw v : JsValue} (hraw : IsData number raw)
    (hcomplete : CompleteField raw) (h : normalizeRecordField stringOf programId raw = .ok v) :
    IsData number v := by
  obtain ⟨name, hname, h⟩ := bind_ok.mp h
  obtain rfl := member_ok hname
  cases h
  have hkeys : [js "name", js "ty", js "mode"].Nodup := by decide
  refine .object hkeys ?_
  simpa using ⟨hraw.property rfl hcomplete.name,
    isData_normalizePlaintext (hraw.property rfl hcomplete.ty.present) hcomplete.ty,
    isData_modeOr (.string _)⟩

theorem isData_normalizeMapping {raw : JsValue} (hraw : IsData number raw)
    (hcomplete : CompleteMapping raw) :
    IsData number (normalizeMapping stringOf programId raw) := by
  unfold normalizeMapping
  split_ifs
  · have hkeys : [js "name", js "key", js "value"].Nodup := by decide
    refine .object hkeys ?_
    simpa using ⟨hraw.property rfl hcomplete.name,
      isData_normalizePlaintext (hraw.property rfl hcomplete.key.present) hcomplete.key,
      isData_normalizePlaintext (hraw.property rfl hcomplete.value.present) hcomplete.value⟩
  · exact hraw

theorem CompleteStorageType.present {raw : JsValue} (h : CompleteStorageType raw) :
    Present raw := by
  rintro rfl
  cases h with
  | plaintext h => cases h
  | vector _ h => cases h
  | bare _ _ h => exact h.present rfl

theorem isData_normalizeStorageVariable {raw : JsValue} (hraw : IsData number raw)
    (hcomplete : CompleteStorageVariable raw) :
    IsData number (normalizeStorageVariable stringOf programId raw) := by
  unfold normalizeStorageVariable
  split_ifs
  · have hkeys : [js "name", js "ty"].Nodup := by decide
    refine .object hkeys ?_
    simpa using ⟨hraw.property rfl hcomplete.name,
      isData_normalizeStorageType (hraw.property rfl hcomplete.ty.present) hcomplete.ty⟩
  · exact hraw

theorem isData_normalizeInterfaceRef {raw : JsValue} (hraw : IsData number raw) :
    IsData number (normalizeInterfaceRef stringOf raw) := by
  obtain ⟨s, h⟩ | ⟨path, program, h, elements, helements, rfl⟩ :=
    @normalizeInterfaceRef_form stringOf raw
  · rw [h]
    exact .string s
  · rw [h]
    have hdata : IsData number (.array elements) := by
      rw [← helements]
      exact hraw.property rfl (by rw [helements]; nofun)
    have hkeys : [js "path", js "program"].Nodup := by decide
    refine .object hkeys ?_
    have hpath : IsData number (.array ((elements.map (·.map (textOf stringOf))).map
        (·.map .string))) := by
      refine isData_array.mpr fun x hx => ?_
      obtain ⟨y, hy, rfl⟩ := List.mem_map.mp hx
      obtain ⟨z, hz, rfl⟩ := List.mem_map.mp hy
      obtain ⟨v, rfl, -⟩ := isData_array.mp hdata z hz
      exact ⟨_, rfl, .string _⟩
    have hprogram : IsData number ((program.map JsValue.string).getD .null) := by
      cases program with
      | none => exact .null
      | some p => exact .string p
    exact List.forall_mem_cons.mpr ⟨hpath, List.forall_mem_singleton.mpr hprogram⟩

/-! ## Programs -/

theorem NormalizesTo.isData {f : JsValue → Except JsString JsValue} {p : JsValue → Prop}
    (hf : ∀ v w, IsData number v → p v → f v = .ok w → IsData number w) {raw : JsValue}
    {fieldName : String} {elements : List (Option JsValue)}
    (h : NormalizesTo f raw fieldName elements) (hraw : Present raw → IsData number raw)
    (hp : Elements p raw) : IsData number (.array elements) := by
  obtain ⟨rawElements, hrawElements, hmap⟩ := h
  exact isData_mapElements (fun _ => hf) (allData_asArray hraw hp hrawElements) hmap

theorem isData_rawFunctions {raw : JsValue} (hraw : IsData number raw)
    (h : Present (rawFunctions raw)) : IsData number (rawFunctions raw) := by
  unfold rawFunctions orElse at h ⊢
  split_ifs at h ⊢ with hnullish
  · exact hraw.property rfl h
  · exact hraw.property rfl h

/-- A well-formed ABI is normalised to data. -/
theorem isData_normalizeAbi {raw abi : JsValue} (hraw : IsData number raw) (hwf : WellFormed raw)
    (h : normalizeAbi stringOf programId raw = .ok abi) : IsData number abi := by
  obtain ⟨n, hn, rfl⟩ := normalizeAbi_ok.mp h
  have hlist {f : JsValue → JsValue} {p : JsValue → Prop}
      (hf : ∀ v, IsData number v → p v → IsData number (f v)) (v w : JsValue)
      (hv : IsData number v) (hp : p v)
      (h : ((Except.ok ∘ f) v : Except JsString JsValue) = .ok w) : IsData number w := by
    cases h
    exact hf v hv hp
  have hstructs := hn.structs.isData (fun _ _ => isData_normalizeComposite fun _ _ =>
    isData_normalizeStructField) (hraw.property rfl) hwf.structs
  have hrecords := hn.records.isData (fun _ _ => isData_normalizeComposite fun _ _ =>
    isData_normalizeRecordField) (hraw.property rfl) hwf.records
  have hmappings := hn.mappings.isData (hlist fun _ => isData_normalizeMapping)
    (hraw.property rfl) hwf.mappings
  have hstorage := hn.storageVariables.isData (hlist fun _ => isData_normalizeStorageVariable)
    (hraw.property rfl) hwf.storageVariables
  have htransitions := hn.transitions.isData (fun _ _ => isData_normalizeFunction)
    (isData_rawFunctions hraw) hwf.functions
  have hviews := hn.views.isData (fun _ _ => isData_normalizeView) (hraw.property rfl) hwf.views
  have hinterfaces := hn.interfaces.isData
    (hlist (p := fun _ => True) fun _ hv _ => isData_normalizeInterfaceRef hv)
    (hraw.property rfl) fun _ _ _ _ => trivial
  have hkeys : [js "program", js "structs", js "records", js "mappings", js "storage_variables",
      js "transitions"].Nodup := by decide
  have hview : js "views" ∉ [js "program", js "structs", js "records", js "mappings",
      js "storage_variables", js "transitions"] := by decide
  have himplements : js "implements" ∉ [js "program", js "structs", js "records", js "mappings",
      js "storage_variables", js "transitions"] := by decide
  refine isData_unlessEmpty (isData_unlessEmpty (.object hkeys ?_) hview hviews)
    (notMem_unlessEmpty _ himplements (by decide)) hinterfaces
  simpa using ⟨.string programId, hstructs, hrecords, hmappings, hstorage, htransitions⟩

end Lionden.Compiler
