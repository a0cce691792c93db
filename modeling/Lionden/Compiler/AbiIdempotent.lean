import Lionden.Compiler.AbiParser

/-!
# Normalising twice

What a normaliser of the ABI parser returns is normalised to itself, entry by entry and at every
nesting of types.

* `normalizePlaintext_idem`, `normalizeStorageType_idem`, `normalizeAleoType_idem`: types.
* `normalizeInput_idem`, `normalizeFunction_idem` and the like: elements and entries.
* `normalizeAbi_idem`: programs.
-/

namespace Lionden.Compiler

open Fallible (bind_ok)

variable {stringOf : JsValue → JsString} {programId : JsString}

/-! ## References -/

/-- A reference is an object with a path, and names no program or another one. -/
theorem toRef_form (raw : JsValue) : ∃ path program,
    toRef stringOf programId raw = .object [(js "path", .array path), (js "program",
      canonicalizeRefProgram programId (orElse program .null))] none ∧
    (raw.property (js "path") = .array path ∧ program = raw.property (js "program") ∨
      (∃ name, path = [some (.string name)]) ∧ program = .null) := by
  unfold toRef
  dsimp only
  split
  · next path hpath => exact ⟨path, raw.property (js "program"), rfl, .inl ⟨hpath, rfl⟩⟩
  · split
    · next name _ => exact ⟨[some (.string name)], .null, rfl, .inr ⟨⟨name, rfl⟩, rfl⟩⟩
    · exact ⟨[some (.string (stringOf raw))], .null, rfl, .inr ⟨⟨stringOf raw, rfl⟩, rfl⟩⟩

theorem canonicalizeRefProgram_idem (program : JsValue) :
    canonicalizeRefProgram programId
        (orElse (canonicalizeRefProgram programId (orElse program .null)) .null) =
      canonicalizeRefProgram programId (orElse program .null) := by
  cases program with
  | string p =>
    by_cases hself : p = programId
    · simp [orElse, JsValue.isNullish, canonicalizeRefProgram, hself]
    · simp [orElse, JsValue.isNullish, canonicalizeRefProgram, hself]
  | _ => rfl

theorem toRef_idem (raw : JsValue) :
    toRef stringOf programId (toRef stringOf programId raw) = toRef stringOf programId raw := by
  obtain ⟨path, program, hform, -⟩ := @toRef_form stringOf programId raw
  rw [hform]
  change JsValue.object [_, (_, canonicalizeRefProgram programId (orElse
    (canonicalizeRefProgram programId (orElse program .null)) .null))] none = _
  rw [canonicalizeRefProgram_idem]

/-! ## Plaintexts -/

theorem normalizePlaintext_of_struct {raw : JsValue} (h : raw.hasOwn (js "Struct") = true) :
    normalizePlaintext stringOf programId raw =
      tagged "Struct" (toRef stringOf programId (raw.property (js "Struct"))) := by
  cases raw with
  | object props symbol => rw [normalizePlaintext, if_pos h]; rfl
  | _ => cases h

theorem normalizePlaintext_of_array {raw elem length : JsValue}
    (hstruct : raw.hasOwn (js "Struct") = false)
    (h : arrayParts (raw.property (js "Array")) = some (elem, length)) :
    normalizePlaintext stringOf programId raw =
      tagged "Array" (.array [some (normalizePlaintext stringOf programId elem), some length]) := by
  cases raw with
  | object props symbol =>
    rw [normalizePlaintext, if_neg (by rw [hstruct]; decide)]
    split
    · next elem' length' h' =>
      cases h'.symm.trans h
      rfl
    · next h' => cases h'.symm.trans h
  | _ => cases h

theorem normalizePlaintext_of_optional {raw : JsValue}
    (hstruct : raw.hasOwn (js "Struct") = false)
    (harray : arrayParts (raw.property (js "Array")) = none)
    (h : raw.hasOwn (js "Optional") = true) :
    normalizePlaintext stringOf programId raw =
      tagged "Optional"
        (normalizePlaintext stringOf programId (raw.property (js "Optional"))) := by
  cases raw with
  | object props symbol =>
    rw [normalizePlaintext, if_neg (by rw [hstruct]; decide)]
    split
    · next elem length h' => cases h'.symm.trans harray
    · rw [if_pos h]
      rfl
  | _ => cases h

theorem normalizePlaintext_of_other {raw : JsValue} (hstruct : raw.hasOwn (js "Struct") = false)
    (harray : arrayParts (raw.property (js "Array")) = none)
    (hoptional : raw.hasOwn (js "Optional") = false) :
    normalizePlaintext stringOf programId raw = raw := by
  cases raw with
  | object props symbol =>
    rw [normalizePlaintext, if_neg (by rw [hstruct]; decide)]
    split
    · next elem length h' => cases h'.symm.trans harray
    · rw [if_neg (by rw [hoptional]; decide)]
  | _ =>
    rw [normalizePlaintext]
    rintro _ _ ⟨⟩

theorem normalizePlaintext_idem (raw : JsValue) :
    normalizePlaintext stringOf programId (normalizePlaintext stringOf programId raw) =
      normalizePlaintext stringOf programId raw := by
  induction raw using normalizePlaintext.induct with
  | case1 props symbol h =>
    rw [normalizePlaintext_of_struct h, normalizePlaintext_struct, toRef_idem]
  | case2 props symbol elem length harray _ hstruct ih =>
    have hparts : arrayParts (JsValue.property (tagged "Array" (.array
        [some (normalizePlaintext stringOf programId elem), some length])) (js "Array")) =
        some (normalizePlaintext stringOf programId elem, length) := rfl
    rw [normalizePlaintext_of_array (Bool.eq_false_iff.mpr hstruct) harray,
      normalizePlaintext_of_array rfl hparts, ih]
  | case3 props symbol harray _ hstruct hoptional ih =>
    rw [normalizePlaintext_of_optional (Bool.eq_false_iff.mpr hstruct) harray hoptional,
      normalizePlaintext_optional]
    exact congrArg (tagged "Optional") ih
  | case4 props symbol harray _ hstruct hoptional =>
    have hother : normalizePlaintext stringOf programId (.object props symbol) =
        .object props symbol :=
      normalizePlaintext_of_other (Bool.eq_false_iff.mpr hstruct) harray
        (Bool.eq_false_iff.mpr hoptional)
    rw [hother, hother]
  | case5 raw hraw =>
    have hother : normalizePlaintext stringOf programId raw = raw := by
      rw [normalizePlaintext]
      exact hraw
    rw [hother, hother]

/-! ## Storage types and types of elements -/

theorem normalizeStorageType_plaintext (ty : JsValue) :
    normalizeStorageType stringOf programId (tagged "Plaintext" ty) =
      tagged "Plaintext" (normalizePlaintext stringOf programId ty) := by
  unfold tagged
  rw [normalizeStorageType]
  rfl

theorem normalizeStorageType_vector (ty : JsValue) :
    normalizeStorageType stringOf programId (tagged "Vector" ty) =
      tagged "Vector" (normalizeStorageType stringOf programId ty) := by
  unfold tagged
  rw [normalizeStorageType]
  rfl

theorem normalizeStorageType_of_plaintext {raw : JsValue}
    (h : raw.hasOwn (js "Plaintext") = true) :
    normalizeStorageType stringOf programId raw =
      tagged "Plaintext"
        (normalizePlaintext stringOf programId (raw.property (js "Plaintext"))) := by
  cases raw with
  | object props symbol => rw [normalizeStorageType, if_pos h]; rfl
  | _ => cases h

theorem normalizeStorageType_of_vector {raw : JsValue}
    (hplaintext : raw.hasOwn (js "Plaintext") = false) (h : raw.hasOwn (js "Vector") = true) :
    normalizeStorageType stringOf programId raw =
      tagged "Vector" (normalizeStorageType stringOf programId (raw.property (js "Vector"))) := by
  cases raw with
  | object props symbol =>
    rw [normalizeStorageType, if_neg (by rw [hplaintext]; decide), if_pos h]
    rfl
  | _ => cases h

theorem normalizeStorageType_of_bare {raw : JsValue}
    (hplaintext : raw.hasOwn (js "Plaintext") = false) (hvector : raw.hasOwn (js "Vector") = false) :
    normalizeStorageType stringOf programId raw =
      tagged "Plaintext" (normalizePlaintext stringOf programId raw) := by
  cases raw with
  | object props symbol =>
    rw [normalizeStorageType, if_neg (by rw [hplaintext]; decide),
      if_neg (by rw [hvector]; decide)]
  | _ =>
    rw [normalizeStorageType, normalizePlaintext]
    all_goals rintro _ _ ⟨⟩

theorem normalizeStorageType_idem (raw : JsValue) :
    normalizeStorageType stringOf programId (normalizeStorageType stringOf programId raw) =
      normalizeStorageType stringOf programId raw := by
  induction raw using normalizeStorageType.induct with
  | case1 props symbol _ h =>
    rw [normalizeStorageType_of_plaintext h, normalizeStorageType_plaintext,
      normalizePlaintext_idem]
  | case2 props symbol _ hplaintext h ih =>
    rw [normalizeStorageType_of_vector (Bool.eq_false_iff.mpr hplaintext) h,
      normalizeStorageType_vector]
    exact congrArg (tagged "Vector") ih
  | case3 props symbol _ hplaintext hvector =>
    rw [normalizeStorageType_of_bare (Bool.eq_false_iff.mpr hplaintext)
      (Bool.eq_false_iff.mpr hvector), normalizeStorageType_plaintext, normalizePlaintext_idem]
  | case4 raw hraw =>
    have hbare : normalizeStorageType stringOf programId raw = tagged "Plaintext" raw := by
      rw [normalizeStorageType]
      exact hraw
    have hplaintext : normalizePlaintext stringOf programId raw = raw := by
      rw [normalizePlaintext]
      exact hraw
    rw [hbare, normalizeStorageType_plaintext, hplaintext]

theorem normalizeAleoType_string (s : JsString) :
    normalizeAleoType stringOf programId (.string s) =
      if s = js "Final" ∨ s = js "Future" then tagged "Future" (.string programId)
      else .string s := rfl

/-- What `normalizeAleoType` does with anything but a string. -/
theorem normalizeAleoType_of_ne_string {raw : JsValue} (h : ∀ s, raw ≠ .string s) :
    normalizeAleoType stringOf programId raw =
      if raw.hasOwn (js "Record") then
        tagged "Record" (toRef stringOf programId (raw.property (js "Record")))
      else if raw.hasOwn (js "Future") then tagged "Future" (raw.property (js "Future"))
      else if raw.hasOwn (js "Plaintext") then
        tagged "Plaintext" (normalizePlaintext stringOf programId (raw.property (js "Plaintext")))
      else raw := by
  cases raw with
  | string s => exact absurd rfl (h s)
  | _ => rfl

theorem normalizeAleoType_plaintext (ty : JsValue) :
    normalizeAleoType stringOf programId (tagged "Plaintext" ty) =
      tagged "Plaintext" (normalizePlaintext stringOf programId ty) := rfl

theorem normalizeAleoType_record (ref : JsValue) :
    normalizeAleoType stringOf programId (tagged "Record" ref) =
      tagged "Record" (toRef stringOf programId ref) := rfl

theorem normalizeAleoType_future (program : JsValue) :
    normalizeAleoType stringOf programId (tagged "Future" program) = tagged "Future" program := rfl

theorem normalizeAleoType_idem (raw : JsValue) :
    normalizeAleoType stringOf programId (normalizeAleoType stringOf programId raw) =
      normalizeAleoType stringOf programId raw := by
  by_cases hstring : ∃ s, raw = .string s
  · obtain ⟨s, rfl⟩ := hstring
    rw [normalizeAleoType_string]
    split_ifs with hfuture
    · rw [normalizeAleoType_future]
    · rw [normalizeAleoType_string, if_neg hfuture]
  · have hne : ∀ s, raw ≠ .string s := fun s h => hstring ⟨s, h⟩
    have hraw := @normalizeAleoType_of_ne_string stringOf programId _ hne
    split_ifs at hraw with hrecord hfuture hplaintext
    · rw [hraw, normalizeAleoType_record, toRef_idem]
    · rw [hraw, normalizeAleoType_future]
    · rw [hraw, normalizeAleoType_plaintext, normalizePlaintext_idem]
    · rw [hraw, hraw]

/-! ## Elements -/

theorem modeOr_idem (rawMode default : JsValue) :
    modeOr (modeOr rawMode default) default = modeOr rawMode default := by
  have hdefault : modeOr default default = default := by
    unfold modeOr
    split
    · split_ifs <;> rfl
    · rfl
  cases rawMode with
  | string mode =>
    have hmode : modeOr (.string mode) default =
        if mode = js "Public" ∨ mode = js "Private" ∨ mode = js "Constant" then .string mode
        else default := rfl
    rw [hmode]
    split_ifs with hknown
    · rw [hmode, if_pos hknown]
    · exact hdefault
  | _ => exact hdefault

theorem modeForAleoType_idem (ty rawMode : JsValue) (ioContext : IoContext) :
    modeForAleoType ty (modeForAleoType ty rawMode ioContext) ioContext =
      modeForAleoType ty rawMode ioContext := by
  unfold modeForAleoType
  split_ifs
  · exact modeOr_idem _ _
  · rfl

/-- The type and the mode of a normalised element are normal. -/
theorem normalizeElement_normal {raw ty mode : JsValue} {ioContext : IoContext}
    (h : normalizeElement stringOf programId raw ioContext = .ok (ty, mode)) :
    normalizeAleoType stringOf programId ty = ty ∧ modeForAleoType ty mode ioContext = mode := by
  unfold normalizeElement at h
  dsimp only at h
  split at h
  · split_ifs at h
    · cases h
      exact ⟨by rw [normalizeAleoType_plaintext, normalizePlaintext_idem], modeOr_idem _ _⟩
    · cases h
      exact ⟨by rw [normalizeAleoType_record, toRef_idem], rfl⟩
    · cases h
      exact ⟨normalizeAleoType_future _, rfl⟩
  · next hshape =>
    -- A bare element is a string, which no plaintext is normalised from.
    cases h
    refine ⟨normalizeAleoType_idem raw, ?_⟩
    cases raw with
    | string s =>
      rw [normalizeAleoType_string]
      split_ifs <;> rfl
    | _ =>
      unfold detectInputShape at hshape
      dsimp only at hshape
      split_ifs at hshape
  · obtain ⟨rawTy, -, h⟩ := bind_ok.mp h
    cases h
    exact ⟨normalizeAleoType_idem rawTy, modeForAleoType_idem _ _ _⟩

theorem normalizeElement_wrapped {v ty mode : JsValue} {ioContext : IoContext}
    (hshape : detectInputShape v = .wrapper) (hty : member v "ty" = .ok ty)
    (hmode : v.property (js "mode") = mode)
    (hnormal : normalizeAleoType stringOf programId ty = ty ∧
      modeForAleoType ty mode ioContext = mode) :
    normalizeElement stringOf programId v ioContext = .ok (ty, mode) := by
  unfold normalizeElement
  simp only [hshape, hty, hmode, bind, Except.bind, hnormal.1, hnormal.2]

theorem inputName_form (raw : JsValue) (index : Nat) :
    ∃ name, inputName raw index = .string name := by
  unfold inputName
  dsimp only
  split
  · next name _ _ => exact ⟨name, rfl⟩
  · exact ⟨_, rfl⟩

theorem normalizeInput_idem {ioContext : IoContext} {index : Nat} {raw v : JsValue}
    (h : normalizeInput stringOf programId ioContext index raw = .ok v) :
    normalizeInput stringOf programId ioContext index v = .ok v := by
  obtain ⟨⟨ty, mode⟩, helement, hv⟩ := bind_ok.mp h
  obtain ⟨name, hname⟩ := inputName_form raw index
  rw [hname] at hv
  cases hv
  have hwrapped := normalizeElement_wrapped (v := .object [(js "name", .string name),
    (js "ty", ty), (js "mode", mode)] none) rfl rfl rfl (normalizeElement_normal helement)
  unfold normalizeInput
  rw [hwrapped]
  rfl

theorem normalizeOutput_idem {ioContext : IoContext} {raw v : JsValue}
    (h : normalizeOutput stringOf programId ioContext raw = .ok v) :
    normalizeOutput stringOf programId ioContext v = .ok v := by
  obtain ⟨⟨ty, mode⟩, helement, hv⟩ := bind_ok.mp h
  cases hv
  have hwrapped := normalizeElement_wrapped (v := .object [(js "ty", ty), (js "mode", mode)] none)
    rfl rfl rfl (normalizeElement_normal helement)
  unfold normalizeOutput
  rw [hwrapped]
  rfl

/-! ## Lists -/

theorem mapElements_idem {f : Nat → JsValue → Except JsString JsValue}
    (hf : ∀ index x y, f index x = .ok y → f index y = .ok y) {index : Nat}
    {xs ys : List (Option JsValue)} (h : mapElements f index xs = .ok ys) :
    mapElements f index ys = .ok ys := by
  induction xs generalizing index ys with
  | nil =>
    cases h
    rfl
  | cons x xs ih =>
    cases x with
    | none =>
      obtain ⟨zs, hzs, h⟩ := bind_ok.mp h
      cases h
      exact bind_ok.mpr ⟨zs, ih hzs, rfl⟩
    | some x =>
      obtain ⟨y, hy, h⟩ := bind_ok.mp h
      obtain ⟨zs, hzs, h⟩ := bind_ok.mp h
      cases h
      exact bind_ok.mpr ⟨y, hf index x y hy, bind_ok.mpr ⟨zs, ih hzs, rfl⟩⟩

theorem normalizeElements_idem {f : Nat → JsValue → Except JsString JsValue}
    (hf : ∀ index x y, f index x = .ok y → f index y = .ok y) {raw v : JsValue}
    (h : normalizeElements f raw = .ok v) : normalizeElements f v = .ok v := by
  unfold normalizeElements at h
  split at h
  · cases h
    rfl
  · obtain ⟨ys, hys, h⟩ := bind_ok.mp h
    cases h
    exact bind_ok.mpr ⟨ys, mapElements_idem hf hys, rfl⟩
  · next hundefined harray =>
    cases h
    unfold normalizeElements
    split
    · exact absurd rfl hundefined
    · next elements => exact absurd rfl (harray elements)
    · rfl

/-! ## Entries -/

/-- What follows the named properties of an entry. -/
theorem asArray_constParameters_last {props : List (JsString × JsValue)} (fieldName : String)
    (elements : List (Option JsValue)) (hprops : props.lookup (js "const_parameters") = none) :
    asArray (JsValue.property (.object (props ++ unlessEmpty "const_parameters" elements) none)
      (js "const_parameters")) fieldName = .ok elements := by
  have h := @asArray_unlessEmpty _ [] _ fieldName elements hprops rfl rfl
  rwa [List.append_nil] at h

theorem normalizeFunction_idem {raw v : JsValue}
    (h : normalizeFunction stringOf programId raw = .ok v) :
    normalizeFunction stringOf programId v = .ok v := by
  unfold normalizeFunction at h
  by_cases hobject : ¬ raw.isObject
  · rw [if_pos hobject] at h
    cases h
    unfold normalizeFunction
    rw [if_pos hobject]
  rw [if_neg hobject] at h
  obtain ⟨inputs, hinputs, h⟩ := bind_ok.mp h
  obtain ⟨outputs, houtputs, h⟩ := bind_ok.mp h
  obtain ⟨async, -, h⟩ := bind_ok.mp h
  obtain ⟨constParameters, -, h⟩ := bind_ok.mp h
  cases h
  unfold normalizeFunction
  rw [if_neg fun h => h rfl]
  exact bind_ok.mpr ⟨inputs, normalizeElements_idem
    (f := normalizeInput stringOf programId .transition) (fun _ _ _ => normalizeInput_idem) hinputs,
    bind_ok.mpr ⟨outputs, normalizeElements_idem (fun _ _ _ => normalizeOutput_idem) houtputs,
    bind_ok.mpr ⟨async, rfl, bind_ok.mpr ⟨constParameters,
      asArray_constParameters_last _ _ rfl, rfl⟩⟩⟩⟩

theorem normalizeView_idem {raw v : JsValue} (h : normalizeView stringOf programId raw = .ok v) :
    normalizeView stringOf programId v = .ok v := by
  unfold normalizeView at h
  by_cases hobject : ¬ raw.isObject
  · rw [if_pos hobject] at h
    cases h
    unfold normalizeView
    rw [if_pos hobject]
  rw [if_neg hobject] at h
  obtain ⟨inputs, hinputs, h⟩ := bind_ok.mp h
  obtain ⟨outputs, houtputs, h⟩ := bind_ok.mp h
  obtain ⟨constParameters, -, h⟩ := bind_ok.mp h
  cases h
  unfold normalizeView
  rw [if_neg fun h => h rfl]
  exact bind_ok.mpr ⟨inputs, normalizeElements_idem
    (f := normalizeInput stringOf programId .view) (fun _ _ _ => normalizeInput_idem) hinputs,
    bind_ok.mpr ⟨outputs, normalizeElements_idem (fun _ _ _ => normalizeOutput_idem) houtputs,
    bind_ok.mpr ⟨constParameters, asArray_constParameters_last _ _ rfl, rfl⟩⟩⟩

theorem extractPath_form {raw path : JsValue} (h : extractPath raw = .ok path) :
    ∃ segment rest, path = .array (segment :: rest) := by
  unfold extractPath at h
  split at h
  · next segment rest _ =>
    cases h
    exact ⟨segment, rest, rfl⟩
  · cases h
    exact ⟨_, _, rfl⟩
  · cases h

theorem normalizeComposite_idem {fieldName : String}
    {normalizeField : JsValue → Except JsString JsValue}
    (hfield : ∀ x y, normalizeField x = .ok y → normalizeField y = .ok y) {raw v : JsValue}
    (h : normalizeComposite fieldName normalizeField raw = .ok v) :
    normalizeComposite fieldName normalizeField v = .ok v := by
  unfold normalizeComposite at h
  by_cases hobject : ¬ raw.isObject
  · rw [if_pos hobject] at h
    cases h
    unfold normalizeComposite
    rw [if_pos hobject]
  rw [if_neg hobject] at h
  obtain ⟨path, hpath, h⟩ := bind_ok.mp h
  obtain ⟨rawFields, -, h⟩ := bind_ok.mp h
  obtain ⟨fields, hfields, h⟩ := bind_ok.mp h
  cases h
  obtain ⟨segment, rest, rfl⟩ := extractPath_form hpath
  unfold normalizeComposite
  rw [if_neg fun h => h rfl]
  exact bind_ok.mpr ⟨_, rfl, bind_ok.mpr ⟨fields, rfl,
    bind_ok.mpr ⟨fields, mapElements_idem (fun _ => hfield) hfields, rfl⟩⟩⟩

theorem normalizeStructField_idem {raw v : JsValue}
    (h : normalizeStructField stringOf programId raw = .ok v) :
    normalizeStructField stringOf programId v = .ok v := by
  obtain ⟨name, -, h⟩ := bind_ok.mp h
  cases h
  refine bind_ok.mpr ⟨name, rfl, ?_⟩
  exact congrArg (fun ty => Except.ok (JsValue.object [(js "name", name), (js "ty", ty)] none))
    (normalizePlaintext_idem _)

theorem normalizeRecordField_idem {raw v : JsValue}
    (h : normalizeRecordField stringOf programId raw = .ok v) :
    normalizeRecordField stringOf programId v = .ok v := by
  obtain ⟨name, -, h⟩ := bind_ok.mp h
  cases h
  refine bind_ok.mpr ⟨name, rfl, ?_⟩
  exact congrArg₂ (fun ty mode => Except.ok (JsValue.object
    [(js "name", name), (js "ty", ty), (js "mode", mode)] none))
    (normalizePlaintext_idem _) (modeOr_idem _ _)

theorem normalizeMapping_idem (raw : JsValue) :
    normalizeMapping stringOf programId (normalizeMapping stringOf programId raw) =
      normalizeMapping stringOf programId raw := by
  by_cases hobject : ¬ raw.isObject
  · have hraw : normalizeMapping stringOf programId raw = raw := if_pos hobject
    rw [hraw, hraw]
  · have hraw : normalizeMapping stringOf programId raw = _ := if_neg hobject
    rw [hraw]
    exact congrArg₂ (fun key value => JsValue.object [(js "name", raw.property (js "name")),
      (js "key", key), (js "value", value)] none)
      (normalizePlaintext_idem _) (normalizePlaintext_idem _)

theorem normalizeStorageVariable_idem (raw : JsValue) :
    normalizeStorageVariable stringOf programId (normalizeStorageVariable stringOf programId raw) =
      normalizeStorageVariable stringOf programId raw := by
  by_cases hobject : ¬ raw.isObject
  · have hraw : normalizeStorageVariable stringOf programId raw = raw := if_pos hobject
    rw [hraw, hraw]
  · have hraw : normalizeStorageVariable stringOf programId raw = _ := if_neg hobject
    rw [hraw]
    exact congrArg (fun ty => JsValue.object [(js "name", raw.property (js "name")),
      (js "ty", ty)] none) (normalizeStorageType_idem _)

/-- An interface is named by a string, or by strings and a program. -/
theorem normalizeInterfaceRef_form (raw : JsValue) :
    (∃ s, normalizeInterfaceRef stringOf raw = .string s) ∨
      ∃ (path : List (Option JsString)) (program : Option JsString),
        normalizeInterfaceRef stringOf raw = .object
          [(js "path", .array (path.map (·.map .string))),
            (js "program", (program.map JsValue.string).getD .null)] none ∧
        ∃ elements, raw.property (js "path") = .array elements ∧
          path = elements.map (·.map (textOf stringOf)) := by
  unfold normalizeInterfaceRef
  split
  · next path hpath =>
    have hsegments : (path.map (·.map (textOf stringOf))).map (·.map JsValue.string) =
        path.map (·.map fun segment => .string (textOf stringOf segment)) := by
      rw [List.map_map]
      refine List.map_congr_left fun segment _ => ?_
      cases segment <;> rfl
    have hform (program : JsValue) := congrArg (fun path => JsValue.object
      [(js "path", .array path), (js "program", program)] none) hsegments.symm
    cases raw.property (js "program") with
    | string p =>
      exact .inr ⟨path.map (·.map (textOf stringOf)), some p, hform (.string p), path, hpath, rfl⟩
    | _ => exact .inr ⟨path.map (·.map (textOf stringOf)), none, hform .null, path, hpath, rfl⟩
  · exact .inl ⟨_, rfl⟩

theorem normalizeInterfaceRef_idem (raw : JsValue) :
    normalizeInterfaceRef stringOf (normalizeInterfaceRef stringOf raw) =
      normalizeInterfaceRef stringOf raw := by
  obtain ⟨s, h⟩ | ⟨path, program, h, -⟩ := @normalizeInterfaceRef_form stringOf raw
  · rw [h]
    rfl
  · rw [h]
    have hsegments : (path.map (·.map JsValue.string)).map
        (·.map fun segment => JsValue.string (textOf stringOf segment)) =
          path.map (·.map JsValue.string) := by
      rw [List.map_map]
      refine List.map_congr_left fun segment _ => ?_
      cases segment <;> rfl
    cases program with
    | none => exact congrArg (fun path => JsValue.object
        [(js "path", .array path), (js "program", .null)] none) hsegments
    | some p => exact congrArg (fun path => JsValue.object
        [(js "path", .array path), (js "program", .string p)] none) hsegments

/-! ## Programs -/

/-- The normalised lists of a program. -/
structure Normalized where
  structs : List (Option JsValue)
  records : List (Option JsValue)
  mappings : List (Option JsValue)
  storageVariables : List (Option JsValue)
  transitions : List (Option JsValue)
  views : List (Option JsValue)
  interfaces : List (Option JsValue)

/-- The program that the lists are of. -/
def Normalized.abi (n : Normalized) (programId : JsString) : JsValue :=
  .object ([(js "program", .string programId), (js "structs", .array n.structs),
    (js "records", .array n.records), (js "mappings", .array n.mappings),
    (js "storage_variables", .array n.storageVariables),
    (js "transitions", .array n.transitions)] ++
    unlessEmpty "views" n.views ++ unlessEmpty "implements" n.interfaces) none

/-- The entries of a list, normalised. -/
def NormalizesTo (f : JsValue → Except JsString JsValue) (raw : JsValue) (fieldName : String)
    (elements : List (Option JsValue)) : Prop :=
  ∃ rawElements, asArray raw fieldName = .ok rawElements ∧
    mapElements (fun _ => f) 0 rawElements = .ok elements

/-- The list of functions, under either name. -/
def rawFunctions (raw : JsValue) : JsValue :=
  orElse (raw.property (js "functions")) (raw.property (js "transitions"))

/-- How the lists come about. -/
structure NormalizedFrom (stringOf : JsValue → JsString) (programId : JsString) (raw : JsValue)
    (n : Normalized) : Prop where
  structs : NormalizesTo (normalizeStruct stringOf programId) (raw.property (js "structs"))
    "structs" n.structs
  records : NormalizesTo (normalizeRecord stringOf programId) (raw.property (js "records"))
    "records" n.records
  mappings : NormalizesTo (.ok ∘ normalizeMapping stringOf programId)
    (raw.property (js "mappings")) "mappings" n.mappings
  storageVariables : NormalizesTo (.ok ∘ normalizeStorageVariable stringOf programId)
    (raw.property (js "storage_variables")) "storage_variables" n.storageVariables
  transitions : NormalizesTo (normalizeFunction stringOf programId) (rawFunctions raw)
    "functions/transitions" n.transitions
  views : NormalizesTo (normalizeView stringOf programId) (raw.property (js "views")) "views"
    n.views
  interfaces : NormalizesTo (.ok ∘ normalizeInterfaceRef stringOf)
    (raw.property (js "implements")) "implements" n.interfaces
  validTransitions : validateEntries "Transition" n.transitions = .ok ()
  validViews : validateEntries "View" n.views = .ok ()

theorem normalizeAbi_ok {raw abi : JsValue} :
    normalizeAbi stringOf programId raw = .ok abi ↔
      ∃ n, NormalizedFrom stringOf programId raw n ∧ abi = n.abi programId := by
  unfold normalizeAbi
  simp only [bind_ok]
  constructor
  · rintro ⟨structs, ⟨rs, hrs, hs⟩, records, ⟨rr, hrr, hr⟩, mappings, ⟨rm, hrm, hm⟩,
      storageVariables, ⟨rv, hrv, hv⟩, rf, hrf, transitions, ht, views, ⟨rawViews, hrw, hw⟩, interfaces,
      ⟨ri, hri, hi⟩, ⟨⟩, hvt, ⟨⟩, hvv, h⟩
    exact ⟨⟨structs, records, mappings, storageVariables, transitions, views, interfaces⟩,
      ⟨⟨rs, hrs, hs⟩, ⟨rr, hrr, hr⟩, ⟨rm, hrm, hm⟩, ⟨rv, hrv, hv⟩, ⟨rf, hrf, ht⟩, ⟨rawViews, hrw, hw⟩,
        ⟨ri, hri, hi⟩, hvt, hvv⟩, (Except.ok.inj h).symm⟩
  · rintro ⟨n, h, rfl⟩
    obtain ⟨rf, hrf, ht⟩ := h.transitions
    exact ⟨_, h.structs, _, h.records, _, h.mappings, _, h.storageVariables, rf, hrf, _, ht, _,
      h.views, _, h.interfaces, (), h.validTransitions, (), h.validViews, rfl⟩

theorem NormalizesTo.idem {f : JsValue → Except JsString JsValue}
    (hf : ∀ x y, f x = .ok y → f y = .ok y) {raw raw' : JsValue} {fieldName : String}
    {elements : List (Option JsValue)} (h : NormalizesTo f raw fieldName elements)
    (hraw' : asArray raw' fieldName = .ok elements) :
    NormalizesTo f raw' fieldName elements := by
  obtain ⟨rawElements, -, hmap⟩ := h
  exact ⟨elements, hraw', mapElements_idem (fun _ => hf) hmap⟩

theorem ok_comp_idem {f : JsValue → JsValue} (hf : ∀ x, f (f x) = f x) (x y : JsValue)
    (h : ((Except.ok ∘ f) x : Except JsString JsValue) = .ok y) :
    ((Except.ok ∘ f) y : Except JsString JsValue) = .ok y := by
  cases h
  exact congrArg Except.ok (hf x)

section Lists

variable (n : Normalized)

theorem Normalized.asArray_views : asArray ((n.abi programId).property (js "views")) "views" =
    .ok n.views :=
  asArray_unlessEmpty _ _ rfl (lookup_unlessEmpty _ rfl) rfl

theorem Normalized.asArray_interfaces :
    asArray ((n.abi programId).property (js "implements")) "implements" = .ok n.interfaces := by
  have h := @asArray_unlessEmpty ([(js "program", .string programId),
      (js "structs", .array n.structs), (js "records", .array n.records),
      (js "mappings", .array n.mappings), (js "storage_variables", .array n.storageVariables),
      (js "transitions", .array n.transitions)] ++ unlessEmpty "views" n.views) [] "implements"
    "implements" n.interfaces (by rw [List.lookup_append, lookup_unlessEmpty _ rfl]; rfl) rfl rfl
  rwa [List.append_nil] at h

theorem Normalized.rawFunctions : rawFunctions (n.abi programId) = .array n.transitions := by
  have hnone : (n.abi programId).property (js "functions") = .undefined := by
    change JsValue.get _ _ = _
    unfold JsValue.get
    rw [List.lookup_append, List.lookup_append, lookup_unlessEmpty _ rfl, lookup_unlessEmpty _ rfl]
    rfl
  unfold Compiler.rawFunctions
  rw [hnone]
  rfl

end Lists

/-- A normalised program is normalised to itself. -/
theorem normalizeAbi_idem {raw abi : JsValue} (h : normalizeAbi stringOf programId raw = .ok abi) :
    normalizeAbi stringOf programId abi = .ok abi := by
  obtain ⟨n, hn, rfl⟩ := normalizeAbi_ok.mp h
  refine normalizeAbi_ok.mpr ⟨n, ?_, rfl⟩
  exact {
    structs := hn.structs.idem (fun _ _ => normalizeComposite_idem fun _ _ =>
      normalizeStructField_idem) rfl
    records := hn.records.idem (fun _ _ => normalizeComposite_idem fun _ _ =>
      normalizeRecordField_idem) rfl
    mappings := hn.mappings.idem (ok_comp_idem normalizeMapping_idem) rfl
    storageVariables := hn.storageVariables.idem (ok_comp_idem normalizeStorageVariable_idem) rfl
    transitions := hn.transitions.idem (fun _ _ => normalizeFunction_idem)
      (by rw [n.rawFunctions]; rfl)
    views := hn.views.idem (fun _ _ => normalizeView_idem) n.asArray_views
    interfaces := hn.interfaces.idem (ok_comp_idem normalizeInterfaceRef_idem)
      n.asArray_interfaces
    validTransitions := hn.validTransitions
    validViews := hn.validViews }

end Lionden.Compiler
