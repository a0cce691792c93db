import Lionden.Compiler.AbiVersions

/-!
# ABIs of one program

* `parseAbi_encode`: the ABI that a line of Leo writes of a program is parsed to `normal`.
* `versions_agree`: what is left of a program does not depend on the line, apart from the modes of
  record fields.
-/

namespace Lionden.Compiler

open Codegen (PrimitiveType PlaintextType)

/-! ## What `parseAbi` makes of it -/

section Types

variable {stringOf : JsValue → JsString} {self : JsString}

theorem toRef_encodeRef (path : List JsString) (program : Option JsString) :
    toRef stringOf self (encodeRef path program) =
      encodeRef path (if program = some self then none else program) := by
  cases program with
  | none => rfl
  | some p =>
    by_cases hself : p = self
    · subst hself
      simp only [if_pos]
      change JsValue.object [_, (_, if p = p then JsValue.null else _)] none = _
      rw [if_pos rfl]
      rfl
    · rw [if_neg fun h => hself (Option.some.inj h)]
      change JsValue.object [_, (_, if p = self then JsValue.null else _)] none = _
      rw [if_neg hself]
      rfl

theorem normalizePlaintext_primitive (prim : PrimitiveType) :
    normalizePlaintext stringOf self (tagged "Primitive" (encodePrimitive prim)) =
      tagged "Primitive" (encodePrimitive prim) := by
  unfold tagged
  rw [normalizePlaintext]
  rfl

theorem normalizePlaintext_encode (ty : PlaintextType) :
    normalizePlaintext stringOf self (encodePlaintext ty) = normalPlaintext self ty := by
  induction ty with
  | primitive prim => exact normalizePlaintext_primitive prim
  | struct ref =>
    rw [encodePlaintext, normalizePlaintext_struct, toRef_encodeRef]
    rfl
  | array elem length ih =>
    rw [encodePlaintext, normalizePlaintext_array, ih]
    rfl
  | optional inner ih =>
    rw [encodePlaintext, normalizePlaintext_optional, ih]
    rfl

theorem normalizeStorageType_encode (ty : StorageType) :
    normalizeStorageType stringOf self (encodeStorageType ty) = normalStorageType self ty := by
  induction ty with
  | plaintext ty =>
    unfold encodeStorageType tagged
    rw [normalizeStorageType]
    exact congrArg (tagged "Plaintext") (normalizePlaintext_encode ty)
  | vector elem ih =>
    unfold encodeStorageType tagged
    rw [normalizeStorageType]
    exact congrArg (tagged "Vector") ih

theorem normalizeAleoType_encode (ty : IoType) :
    normalizeAleoType stringOf self (encodeIoType ty) = normalIoType self ty := by
  cases ty with
  | plaintext ty => exact congrArg (tagged "Plaintext") (normalizePlaintext_encode ty)
  | record ref => exact congrArg (tagged "Record") (toRef_encodeRef ref.path ref.program)
  | future program => rfl
  | final => rfl
  | dynamicRecord => rfl

/-! ### Elements -/

theorem canonicalizePlaintextMode_name (mode : Visibility) (ioContext : IoContext) :
    canonicalizePlaintextMode (.string mode.name) ioContext = .string (mode.resolve ioContext) := by
  cases mode <;> cases ioContext <;> rfl

theorem canonicalizePlaintextMode_resolve (mode : Visibility) (ioContext : IoContext) :
    canonicalizePlaintextMode (.string (mode.resolve ioContext)) ioContext =
      .string (mode.resolve ioContext) := by
  cases mode <;> cases ioContext <;> rfl

/-- A wrapped element, with or without a name. -/
theorem modeForAleoType_encode (ty : IoType) (mode : Visibility) (ioContext : IoContext) :
    modeForAleoType (normalIoType self ty) (.string mode.name) ioContext =
      normalMode ioContext ty mode := by
  cases ty with
  | plaintext ty => exact canonicalizePlaintextMode_name mode ioContext
  | _ => rfl

theorem normalizeElement_wrapper {raw : JsValue} {ioContext : IoContext} {ty : IoType}
    {mode : Visibility} (hshape : detectInputShape raw = .wrapper)
    (hty : member raw "ty" = .ok (encodeIoType ty))
    (hmode : raw.property (js "mode") = .string mode.name) :
    normalizeElement stringOf self raw ioContext =
      .ok (normalIoType self ty, normalMode ioContext ty mode) := by
  unfold normalizeElement
  simp only [hshape, hty, hmode, bind, Except.bind, normalizeAleoType_encode,
    modeForAleoType_encode]

theorem normalizeElement_positional (ioContext : IoContext) (ty : IoType) (mode : Visibility) :
    normalizeElement stringOf self (encodePositional ioContext ty mode) ioContext =
      .ok (normalIoType self ty, normalMode ioContext ty mode) := by
  cases ty with
  | plaintext ty =>
    change Except.ok (tagged "Plaintext" _, _) = Except.ok (tagged "Plaintext" _, _)
    rw [← normalizePlaintext_encode ty]
    exact congrArg (fun m => Except.ok (tagged "Plaintext" _, m))
      (canonicalizePlaintextMode_resolve mode ioContext)
  | record ref =>
    exact congrArg (fun r => Except.ok (tagged "Record" r, JsValue.string (js "Private")))
      (toRef_encodeRef ref.path ref.program)
  | future program => rfl
  | final => rfl
  | dynamicRecord => rfl

theorem normalizeElement_input (line : Line) (ioContext : IoContext) (input : Input) :
    normalizeElement stringOf self (encodeInput line ioContext input) ioContext =
      .ok (normalIoType self input.ty, normalMode ioContext input.ty input.mode) := by
  cases line with
  | v41 => exact normalizeElement_wrapper rfl rfl rfl
  | _ => exact normalizeElement_positional ioContext input.ty input.mode

theorem normalizeElement_output (line : Line) (ioContext : IoContext) (output : Output) :
    normalizeElement stringOf self (encodeOutput line ioContext output) ioContext =
      .ok (normalIoType self output.ty, normalMode ioContext output.ty output.mode) := by
  cases line with
  | v41 => exact normalizeElement_wrapper rfl rfl rfl
  | _ => exact normalizeElement_positional ioContext output.ty output.mode

theorem inputName_encode (line : Line) (ioContext : IoContext) (input : Input) (index : Nat) :
    inputName (encodeInput line ioContext input) index =
      .string (if line = .v41 then input.name else js "arg" ++ decimal index) := by
  obtain ⟨name, ty, mode⟩ := input
  cases line with
  | v41 => rfl
  | _ => cases ty <;> rfl

theorem normalizeInput_encode (line : Line) (ioContext : IoContext) (index : Nat) (input : Input) :
    normalizeInput stringOf self ioContext index (encodeInput line ioContext input) =
      .ok (normalInput self line ioContext index input) := by
  unfold normalizeInput
  rw [normalizeElement_input, inputName_encode]
  rfl

theorem normalizeOutput_encode (line : Line) (ioContext : IoContext) (output : Output) :
    normalizeOutput stringOf self ioContext (encodeOutput line ioContext output) =
      .ok (normalOutput self ioContext output) := by
  unfold normalizeOutput
  rw [normalizeElement_output]
  rfl

/-! ### Lists -/

theorem indexed_const {α β : Type} (f : α → β) (index : Nat) (l : List α) :
    indexed (fun _ => f) index l = l.map f := by
  induction l generalizing index with
  | nil => rfl
  | cons x l ih => exact congrArg (f x :: ·) (ih (index + 1))

theorem mapElements_encode {α : Type} {f : Nat → JsValue → Except JsString JsValue}
    {encode : α → JsValue} {normal : Nat → α → JsValue}
    (h : ∀ index x, f index (encode x) = .ok (normal index x)) (index : Nat) (l : List α) :
    mapElements f index (l.map fun x => some (encode x)) =
      .ok (indexed (fun index x => some (normal index x)) index l) := by
  induction l generalizing index with
  | nil => rfl
  | cons x l ih =>
    simp only [List.map_cons, mapElements, h, ih, bind, Except.bind]
    rfl

/-- For a normaliser that does not depend on the index. -/
theorem mapElements_arrayOf {α : Type} {f : JsValue → Except JsString JsValue}
    {encode normal : α → JsValue} (h : ∀ x, f (encode x) = .ok (normal x)) (l : List α) :
    mapElements (fun _ => f) 0 (l.map fun x => some (encode x)) =
      .ok (l.map fun x => some (normal x)) := by
  rw [mapElements_encode (fun _ => h), indexed_const]

theorem normalizeElements_encode {α : Type} {f : Nat → JsValue → Except JsString JsValue}
    {encode : α → JsValue} {normal : Nat → α → JsValue}
    (h : ∀ index x, f index (encode x) = .ok (normal index x)) (l : List α) :
    normalizeElements f (arrayOf encode l) =
      .ok (.array (indexed (fun index x => some (normal index x)) 0 l)) := by
  unfold arrayOf normalizeElements
  simp only [mapElements_encode h, bind, Except.bind]

theorem normalizeInputs_encode (line : Line) (ioContext : IoContext) (inputs : List Input) :
    normalizeElements (normalizeInput stringOf self ioContext)
        (arrayOf (encodeInput line ioContext) inputs) =
      .ok (normalInputs self line ioContext inputs) :=
  normalizeElements_encode (normalizeInput_encode line ioContext) inputs

theorem normalizeOutputs_encode (line : Line) (ioContext : IoContext) (outputs : List Output) :
    normalizeElements (fun _ => normalizeOutput stringOf self ioContext)
        (arrayOf (encodeOutput line ioContext) outputs) =
      .ok (arrayOf (normalOutput self ioContext) outputs) := by
  rw [normalizeElements_encode fun _ => normalizeOutput_encode line ioContext, indexed_const]
  rfl

/-- Without a flag, a function is known to be asynchronous by its futures. -/
theorem any_isFutureOutput (ioContext : IoContext) (outputs : List Output) :
    (outputs.map fun output => some (normalOutput self ioContext output)).any
        (fun output => (output.map isFutureOutput).getD false) =
      outputs.any (·.ty.isFuture) := by
  rw [List.any_map]
  congr 1
  funext output
  obtain ⟨ty, mode⟩ := output
  cases ty <;> rfl

/-- The constant parameters of an entry. -/
theorem asArray_constParameters (line : Line) (entry : Entry) {raw : JsValue}
    {props : List (JsString × JsValue)} (fieldName : String)
    (hraw : raw = .object (props ++ normalConstParameters line entry) none)
    (hprops : props.lookup (js "const_parameters") = none) :
    asArray (raw.property (js "const_parameters")) fieldName =
      .ok (if line = .v41 then entry.constParameters.map some else []) := by
  subst hraw
  change asArray (JsValue.get _ _) fieldName = _
  unfold normalConstParameters
  split
  next =>
    rw [← List.append_nil (props ++ _)]
    exact asArray_unlessEmpty _ _ hprops rfl rfl
  next =>
    rw [List.append_nil]
    unfold JsValue.get
    rw [hprops]
    rfl

theorem normalConstParameters_eq (line : Line) (entry : Entry) :
    unlessEmpty "const_parameters" (if line = .v41 then entry.constParameters.map some else []) =
      normalConstParameters line entry := by
  unfold normalConstParameters
  split <;> rfl

theorem normalizeFunction_encode (line : Line) (entry : Entry) :
    normalizeFunction stringOf self (encodeFunction line entry) =
      .ok (normalFunction self line entry) := by
  have hobject : ¬ ¬ (encodeFunction line entry).isObject := by
    cases line <;> exact fun h => h rfl
  have hname : (encodeFunction line entry).property (js "name") = .string entry.name := by
    cases line <;> rfl
  have hinputs : (encodeFunction line entry).property (js "inputs") =
      arrayOf (encodeInput line .transition) entry.inputs := by
    cases line <;> rfl
  have houtputs : (encodeFunction line entry).property (js "outputs") =
      arrayOf (encodeOutput line .transition) entry.outputs := by
    cases line <;> rfl
  have hasync : isAsync (encodeFunction line entry)
      (arrayOf (normalOutput self .transition) entry.outputs) = .ok entry.isFinal := by
    cases line with
    | v41 =>
      obtain ⟨name, inputs, outputs, constParameters⟩ := entry
      cases constParameters <;> rfl
    | _ => exact congrArg Except.ok (any_isFutureOutput .transition entry.outputs)
  have hconst : asArray ((encodeFunction line entry).property (js "const_parameters"))
      "function.const_parameters" =
        .ok (if line = .v41 then entry.constParameters.map some else []) := by
    cases line with
    | v41 => exact asArray_constParameters .v41 entry _ rfl rfl
    | _ => rfl
  unfold normalizeFunction
  rw [if_neg hobject, hname, hinputs, houtputs, hconst, normalizeInputs_encode,
    normalizeOutputs_encode]
  simp only [bind, Except.bind, hasync, normalConstParameters_eq]
  rfl

theorem normalizeView_encode (line : Line) (entry : Entry) :
    normalizeView stringOf self (encodeView line entry) = .ok (normalView self line entry) := by
  have hconst : asArray ((encodeView line entry).property (js "const_parameters"))
      "view.const_parameters" =
        .ok (if line = .v41 then entry.constParameters.map some else []) := by
    cases line <;> exact asArray_constParameters _ entry _ rfl rfl
  have hname : (encodeView line entry).property (js "name") = .string entry.name := rfl
  have hinputs : (encodeView line entry).property (js "inputs") =
      arrayOf (encodeInput line .view) entry.inputs := rfl
  have houtputs : (encodeView line entry).property (js "outputs") =
      arrayOf (encodeOutput line .view) entry.outputs := rfl
  unfold normalizeView
  rw [if_neg (fun h => h rfl), hname, hinputs, houtputs, hconst, normalizeInputs_encode,
    normalizeOutputs_encode]
  simp only [bind, Except.bind, normalConstParameters_eq]
  rfl

/-! ### Entries -/

theorem extractPath_encode (path : Path) (fields : JsValue) :
    extractPath (.object [(js "path", arrayOf .string path.segments), (js "fields", fields)]
      none) = .ok (arrayOf .string path.segments) := by
  obtain ⟨segments, hne⟩ := path
  cases segments with
  | nil => exact absurd rfl hne
  | cons segment path => rfl

theorem normalizeComposite_encode {α : Type} {fieldName : String}
    {f : JsValue → Except JsString JsValue} {encode normal : α → JsValue}
    (h : ∀ x, f (encode x) = .ok (normal x)) (path : Path) (fields : List α) :
    normalizeComposite fieldName f (.object [(js "path", arrayOf .string path.segments),
        (js "fields", arrayOf encode fields)] none) =
      .ok (.object [(js "path", arrayOf .string path.segments),
        (js "fields", arrayOf normal fields)] none) := by
  have hfields : asArray (JsValue.property (.object [(js "path", arrayOf .string path.segments),
      (js "fields", arrayOf encode fields)] none) (js "fields")) fieldName =
        .ok (fields.map fun x => some (encode x)) := rfl
  unfold normalizeComposite
  rw [if_neg (fun h => h rfl), extractPath_encode, hfields]
  simp only [bind, Except.bind, mapElements_arrayOf h]
  rfl

theorem normalizeStruct_encode (definition : StructDefinition) :
    normalizeStruct stringOf self (encodeStruct definition) =
      .ok (normalStruct self definition) := by
  refine normalizeComposite_encode (fun field => ?_) definition.path definition.fields
  obtain ⟨name, ty⟩ := field
  exact congrArg
    (fun ty => Except.ok (JsValue.object [(js "name", .string name), (js "ty", ty)] none))
    (normalizePlaintext_encode ty)

theorem canonicalizeRecordFieldMode_encode (mode : Visibility) :
    canonicalizeRecordFieldMode (.string mode.name) = .string (mode.resolve .transition) := by
  cases mode <;> rfl

theorem normalizeRecord_encode (line : Line) (definition : RecordDefinition) :
    normalizeRecord stringOf self (encodeRecord line definition) =
      .ok (normalRecord self line definition) := by
  refine normalizeComposite_encode (fun field => ?_) definition.path definition.fields
  have hmode : canonicalizeRecordFieldMode ((encodeRecordField line field).property (js "mode")) =
      .string (normalFieldMode line field.mode) := by
    cases line with
    | v41 => exact canonicalizeRecordFieldMode_encode field.mode
    | _ => rfl
  have hname : member (encodeRecordField line field) "name" = .ok (.string field.name) := by
    cases line <;> rfl
  have hty : (encodeRecordField line field).property (js "ty") = encodePlaintext field.ty := by
    cases line <;> rfl
  unfold normalizeRecordField
  rw [hname, hty, hmode, normalizePlaintext_encode]
  rfl

theorem normalizeMapping_encode (mapping : Mapping) :
    normalizeMapping stringOf self (encodeMapping mapping) = normalMapping self mapping := by
  have hkey : normalizePlaintext stringOf self (encodePlaintext mapping.key) = _ :=
    normalizePlaintext_encode mapping.key
  have hvalue : normalizePlaintext stringOf self (encodePlaintext mapping.value) = _ :=
    normalizePlaintext_encode mapping.value
  unfold normalMapping
  rw [← hkey, ← hvalue]
  rfl

theorem normalizeStorageVariable_encode (declared : JsString × StorageType) :
    normalizeStorageVariable stringOf self (encodeStorageVariable declared) =
      normalStorageVariable self declared := by
  obtain ⟨name, ty⟩ := declared
  exact congrArg (fun ty => JsValue.object [(js "name", .string name), (js "ty", ty)] none)
    (normalizeStorageType_encode ty)

theorem normalizeInterfaceRef_encode (ref : InterfaceRef) :
    normalizeInterfaceRef stringOf (encodeInterface ref) = encodeInterface ref := by
  cases ref with
  | named name => rfl
  | ref path program =>
    have hpath : (path.map fun x => some (JsValue.string x)).map
        (·.map fun segment => JsValue.string (textOf stringOf segment)) =
          path.map fun x => some (JsValue.string x) := by
      rw [List.map_map]
      rfl
    cases program with
    | none => exact congrArg (fun path => JsValue.object [(js "path", .array path), _] none) hpath
    | some p => exact congrArg (fun path => JsValue.object [(js "path", .array path), _] none) hpath

/-! ### Programs -/

theorem validateEntries_arrayOf {α : Type} {kind : String} {f : α → JsValue}
    (h : ∀ x, validateEntry kind (f x) = .ok ()) (l : List α) :
    validateEntries kind (l.map fun x => some (f x)) = .ok () := by
  induction l with
  | nil => rfl
  | cons x l ih =>
    simp only [List.map_cons, validateEntries, Option.getD_some, h, ih, bind, Except.bind]

/-- The views of an ABI. -/
theorem asArray_views (line : Line) (p : Program) :
    asArray ((encode line p).property (js "views")) "views" =
      .ok (p.views.map fun view => some (encodeView line view)) := by
  refine asArray_unlessEmpty _ _ rfl ?_ rfl
  unfold encodeImplements
  split
  next => exact lookup_unlessEmpty _ (by decide)
  next => rfl

/-- The interfaces of an ABI. -/
theorem asArray_implements (line : Line) (p : Program) :
    asArray ((encode line p).property (js "implements")) "implements" =
      .ok (if line = .v41 then p.interfaces.map fun i => some (encodeInterface i) else []) := by
  have hlookup : (encodeCore line p ++ unlessEmpty "views"
      (p.views.map fun view => some (encodeView line view))).lookup (js "implements") = none := by
    rw [List.lookup_append, lookup_unlessEmpty _ (by decide)]
    rfl
  unfold encode
  change asArray (JsValue.get _ _) _ = _
  unfold encodeImplements
  split
  next =>
    rw [← List.append_nil (_ ++ unlessEmpty "implements" _)]
    exact asArray_unlessEmpty _ _ hlookup rfl rfl
  next =>
    unfold JsValue.get
    rw [List.append_nil, hlookup]
    rfl

theorem unlessEmpty_implements (line : Line) (p : Program) :
    unlessEmpty "implements"
        (if line = .v41 then p.interfaces.map fun i => some (encodeInterface i) else []) =
      encodeImplements line p := by
  unfold encodeImplements
  split <;> rfl

/-- The checks at the end find nothing wrong with what was written by Leo. -/
theorem validateEntry_function (line : Line) (entry : Entry) :
    validateEntry "Transition" (normalFunction self line entry) = .ok () := rfl

theorem validateEntry_view (line : Line) (entry : Entry) :
    validateEntry "View" (normalView self line entry) = .ok () := rfl

theorem normalizeAbi_encode (line : Line) (p : Program) :
    normalizeAbi stringOf p.program (encode line p) = .ok (normal line p) := by
  have hstructs : (encode line p).property (js "structs") = arrayOf encodeStruct p.structs := rfl
  have hrecords : (encode line p).property (js "records") =
      arrayOf (encodeRecord line) p.records := rfl
  have hmappings : (encode line p).property (js "mappings") =
      arrayOf encodeMapping p.mappings := rfl
  have hvariables : (encode line p).property (js "storage_variables") =
      arrayOf encodeStorageVariable p.storageVariables := rfl
  have hfunctions : orElse ((encode line p).property (js "functions"))
      ((encode line p).property (js "transitions")) =
        arrayOf (encodeFunction line) p.functions := rfl
  have hasArray {α : Type} (f : α → JsValue) (l : List α) (key : String) :
      asArray (arrayOf f l) key = .ok (l.map fun x => some (f x)) := rfl
  have hmapping (mapping : Mapping) :
      (Except.ok ∘ normalizeMapping stringOf p.program) (encodeMapping mapping) =
        (.ok (normalMapping p.program mapping) : Except JsString JsValue) :=
    congrArg Except.ok (normalizeMapping_encode mapping)
  have hvariable (declared : JsString × StorageType) :
      (Except.ok ∘ normalizeStorageVariable stringOf p.program) (encodeStorageVariable declared) =
        (.ok (normalStorageVariable p.program declared) : Except JsString JsValue) :=
    congrArg Except.ok (normalizeStorageVariable_encode declared)
  have hinterface (i : InterfaceRef) :
      (Except.ok ∘ normalizeInterfaceRef stringOf) (encodeInterface i) =
        (.ok (encodeInterface i) : Except JsString JsValue) :=
    congrArg Except.ok (normalizeInterfaceRef_encode i)
  have hinterfaces : mapElements (fun _ => Except.ok ∘ normalizeInterfaceRef stringOf) 0
      (if line = .v41 then p.interfaces.map fun i => some (encodeInterface i) else []) =
        .ok (if line = .v41 then p.interfaces.map fun i => some (encodeInterface i) else []) := by
    split
    next => exact mapElements_arrayOf hinterface p.interfaces
    next => rfl
  unfold normalizeAbi
  simp only [hstructs, hrecords, hmappings, hvariables, hfunctions, hasArray, asArray_views,
    asArray_implements, bind, Except.bind, mapElements_arrayOf normalizeStruct_encode,
    mapElements_arrayOf (normalizeRecord_encode line), mapElements_arrayOf hmapping,
    mapElements_arrayOf hvariable, mapElements_arrayOf (normalizeFunction_encode line),
    mapElements_arrayOf (normalizeView_encode line), hinterfaces,
    validateEntries_arrayOf (validateEntry_function line),
    validateEntries_arrayOf (validateEntry_view line), unlessEmpty_implements]
  rfl

theorem parseAbi_encode {text : JsString} {line : Line} {p : Program}
    (htext : JSON.parse text = some (encode line p)) :
    parseAbi stringOf text = .ok (normal line p) := by
  unfold parseAbi
  rw [htext]
  exact normalizeAbi_encode line p

end Types

/-! ## What the lines differ in -/

def dropProperty (key : String) : JsValue → JsValue
  | .object props raw => .object (props.filter fun (k, _) => decide (k ≠ js key)) raw
  | v => v

def mapProperty (key : String) (f : JsValue → JsValue) : JsValue → JsValue
  | .object props raw => .object (props.map fun (k, v) => (k, if k = js key then f v else v)) raw
  | v => v

def mapArray (f : JsValue → JsValue) : JsValue → JsValue
  | .array elements => .array (elements.map (·.map f))
  | v => v

/-- A transition or a view without the names of its inputs and its constant parameters. -/
def eraseEntry (entry : JsValue) : JsValue :=
  dropProperty "const_parameters" (mapProperty "inputs" (mapArray (dropProperty "name")) entry)

/-- An ABI without what Leo 4.2 does not write any more of functions, views and interfaces. -/
def eraseDropped (abi : JsValue) : JsValue :=
  dropProperty "implements" (mapProperty "transitions" (mapArray eraseEntry)
    (mapProperty "views" (mapArray eraseEntry) abi))

/-- An ABI without the modes of the fields of its records. -/
def eraseRecordModes (abi : JsValue) : JsValue :=
  mapProperty "records" (mapArray (mapProperty "fields" (mapArray (dropProperty "mode")))) abi

section Erased

variable {self : JsString}

/-- An input without its name. -/
def erasedInput (self : JsString) (ioContext : IoContext) (input : Input) : JsValue :=
  .object [(js "ty", normalIoType self input.ty),
    (js "mode", normalMode ioContext input.ty input.mode)] none

theorem map_indexed {α β γ : Type} {f : Nat → α → β} {g : β → γ} {h : α → γ}
    (hfg : ∀ index x, g (f index x) = h x) (index : Nat) (l : List α) :
    (indexed f index l).map g = l.map h := by
  induction l generalizing index with
  | nil => rfl
  | cons x l ih =>
    simp only [indexed, List.map_cons, hfg, ih]

theorem erase_inputs (line : Line) (ioContext : IoContext) (inputs : List Input) :
    mapArray (dropProperty "name") (normalInputs self line ioContext inputs) =
      arrayOf (erasedInput self ioContext) inputs := by
  have hinput (index : Nat) (input : Input) :
      Option.map (dropProperty "name") (some (normalInput self line ioContext index input)) =
        some (erasedInput self ioContext input) := rfl
  exact congrArg JsValue.array (map_indexed hinput 0 inputs)

def erasedFunction (self : JsString) (entry : Entry) : JsValue :=
  .object [(js "name", .string entry.name), (js "is_async", .boolean entry.isFinal),
    (js "inputs", arrayOf (erasedInput self .transition) entry.inputs),
    (js "outputs", arrayOf (normalOutput self .transition) entry.outputs)] none

theorem eraseEntry_function (line : Line) (entry : Entry) :
    eraseEntry (normalFunction self line entry) = erasedFunction self entry := by
  unfold erasedFunction
  rw [← erase_inputs line]
  obtain ⟨name, inputs, outputs, constParameters⟩ := entry
  cases line with
  | v41 => cases constParameters <;> rfl
  | _ => rfl

def erasedView (self : JsString) (entry : Entry) : JsValue :=
  .object [(js "name", .string entry.name),
    (js "inputs", arrayOf (erasedInput self .view) entry.inputs),
    (js "outputs", arrayOf (normalOutput self .view) entry.outputs)] none

theorem eraseEntry_view (line : Line) (entry : Entry) :
    eraseEntry (normalView self line entry) = erasedView self entry := by
  unfold erasedView
  rw [← erase_inputs line]
  obtain ⟨name, inputs, outputs, constParameters⟩ := entry
  cases line with
  | v41 => cases constParameters <;> rfl
  | _ => rfl

theorem mapArray_arrayOf {α : Type} {f : JsValue → JsValue} {normal erased : α → JsValue}
    (h : ∀ x, f (normal x) = erased x) (l : List α) :
    mapArray f (arrayOf normal l) = arrayOf erased l := by
  simp only [arrayOf, mapArray, List.map_map]
  congr 1
  apply List.map_congr_left
  intro x _
  exact congrArg some (h x)

/-- An ABI without what Leo 4.2 does not write, apart from its records. -/
def erased (p : Program) (records : JsValue) : JsValue :=
  .object ([(js "program", .string p.program),
    (js "structs", arrayOf (normalStruct p.program) p.structs),
    (js "records", records),
    (js "mappings", arrayOf (normalMapping p.program) p.mappings),
    (js "storage_variables", arrayOf (normalStorageVariable p.program) p.storageVariables),
    (js "transitions", arrayOf (erasedFunction p.program) p.functions)] ++
    unlessEmpty "views" (p.views.map fun view => some (erasedView p.program view))) none

theorem eraseDropped_normal (line : Line) (p : Program) :
    eraseDropped (normal line p) =
      erased p (arrayOf (normalRecord p.program line) p.records) := by
  have hviews : mapArray eraseEntry (arrayOf (normalView p.program line) p.views) =
      arrayOf (erasedView p.program) p.views :=
    mapArray_arrayOf (eraseEntry_view line) p.views
  unfold erased
  rw [← mapArray_arrayOf (eraseEntry_function line) p.functions]
  obtain ⟨program, structs, records, mappings, storageVariables, functions, views, interfaces⟩ := p
  cases views with
  | nil =>
    cases line with
    | v41 => cases interfaces <;> rfl
    | _ => rfl
  | cons view views =>
    have hviews := congrArg (fun views => JsValue.object [(js "program", .string program),
      (js "structs", arrayOf (normalStruct program) structs),
      (js "records", arrayOf (normalRecord program line) records),
      (js "mappings", arrayOf (normalMapping program) mappings),
      (js "storage_variables", arrayOf (normalStorageVariable program) storageVariables),
      (js "transitions", mapArray eraseEntry (arrayOf (normalFunction program line) functions)),
      (js "views", views)] none) hviews
    cases line with
    | v41 => cases interfaces <;> exact hviews
    | _ => exact hviews

/-! ### Records -/

def erasedRecord (self : JsString) (definition : RecordDefinition) : JsValue :=
  .object [(js "path", arrayOf .string definition.path.segments),
    (js "fields", arrayOf (fun field : RecordField => .object [(js "name", .string field.name),
      (js "ty", normalPlaintext self field.ty)] none) definition.fields)] none

theorem eraseRecordModes_erased (p : Program) (records : JsValue) :
    eraseRecordModes (erased p records) =
      erased p (mapArray (mapProperty "fields" (mapArray (dropProperty "mode"))) records) := by
  obtain ⟨program, structs, definitions, mappings, storage, functions, views, interfaces⟩ := p
  cases views <;> rfl

theorem erase_records (line : Line) (records : List RecordDefinition) :
    mapArray (mapProperty "fields" (mapArray (dropProperty "mode")))
        (arrayOf (normalRecord self line) records) =
      arrayOf (erasedRecord self) records := by
  refine mapArray_arrayOf (fun definition => ?_) records
  exact congrArg (fun fields => JsValue.object [(js "path",
      arrayOf .string definition.path.segments), (js "fields", fields)] none)
    (mapArray_arrayOf (fun _ => rfl) definition.fields)

theorem erased_inj {p : Program} {records records' : JsValue} :
    erased p records = erased p records' ↔ records = records' :=
  ⟨fun h => congrArg (JsValue.property · (js "records")) h, congrArg (erased p)⟩

theorem arrayOf_inj {α : Type} {f g : α → JsValue} {l : List α} :
    arrayOf f l = arrayOf g l ↔ ∀ x ∈ l, f x = g x := by
  unfold arrayOf
  rw [JsValue.array.injEq, List.map_inj_left]
  simp only [Option.some.injEq]

theorem normalFieldMode_eq {line : Line} (hline : line ≠ .v41) (mode : Visibility) :
    normalFieldMode .v41 mode = normalFieldMode line mode ↔
      mode ≠ .publicMode ∧ mode ≠ .constantMode := by
  unfold normalFieldMode
  rw [if_pos rfl, if_neg hline]
  cases mode <;> decide

/-- Records have the same fields, except for the modes of those that are not private. -/
theorem normalRecord_eq {line : Line} (hline : line ≠ .v41) (definition : RecordDefinition) :
    normalRecord self .v41 definition = normalRecord self line definition ↔
      ∀ field ∈ definition.fields, field.mode ≠ .publicMode ∧ field.mode ≠ .constantMode := by
  have hfield (field : RecordField) :
      normalRecordField self .v41 field = normalRecordField self line field ↔
        field.mode ≠ .publicMode ∧ field.mode ≠ .constantMode := by
    rw [← normalFieldMode_eq hline]
    refine ⟨fun h => JsValue.string.inj (congrArg (JsValue.property · (js "mode")) h), fun h => ?_⟩
    unfold normalRecordField
    rw [h]
  have hrecord : normalRecord self .v41 definition = normalRecord self line definition ↔
      arrayOf (normalRecordField self .v41) definition.fields =
        arrayOf (normalRecordField self line) definition.fields := by
    refine ⟨congrArg (JsValue.property · (js "fields")), fun h => ?_⟩
    unfold normalRecord
    rw [h]
  rw [hrecord, arrayOf_inj]
  exact forall₂_congr fun field _ => hfield field

/-- What Leo 4.1 and a later line write of one program is parsed to the same, up to the names of
inputs, constant parameters and interfaces, and to the modes of record fields; and up to these modes
only if there is a record field that is public or constant. -/
theorem versions_agree {stringOf : JsValue → JsString} {p : Program} {line : Line}
    {text41 text : JsString} (htext41 : JSON.parse text41 = some (encode .v41 p))
    (hline : line ≠ .v41) (htext : JSON.parse text = some (encode line p)) :
    ∃ abi41 abi, parseAbi stringOf text41 = .ok abi41 ∧ parseAbi stringOf text = .ok abi ∧
      eraseRecordModes (eraseDropped abi41) = eraseRecordModes (eraseDropped abi) ∧
      (eraseDropped abi41 = eraseDropped abi ↔ ∀ record ∈ p.records, ∀ field ∈ record.fields,
        field.mode ≠ .publicMode ∧ field.mode ≠ .constantMode) := by
  refine ⟨_, _, parseAbi_encode htext41, parseAbi_encode htext, ?_, ?_⟩
  · simp only [eraseDropped_normal, eraseRecordModes_erased, erase_records]
  · rw [eraseDropped_normal, eraseDropped_normal, erased_inj, arrayOf_inj]
    exact forall₂_congr fun record _ => normalRecord_eq hline record

end Erased

/-! ### A record with a public field -/

def tokenProgram : Program where
  program := js "t.aleo"
  structs := []
  records := [⟨⟨[js "Token"], List.cons_ne_nil _ _⟩, [⟨js "owner", .primitive .address, .unmoded⟩,
    ⟨js "memo", .primitive .field, .publicMode⟩]⟩]
  mappings := []
  storageVariables := []
  functions := [⟨js "mint", [⟨js "to", .plaintext (.primitive .address), .publicMode⟩],
    [⟨.record ⟨[js "Token"], some (js "t.aleo")⟩, .unmoded⟩], []⟩]
  views := []
  interfaces := []

/-- What Leo 4.1 writes. -/
def tokenText41 : JsString :=
  js "\x7b\"program\":\"t.aleo\",\"structs\":[]," ++
    js "\"records\":[\x7b\"path\":[\"Token\"],\"fields\":" ++
    js "[\x7b\"name\":\"owner\",\"ty\":\x7b\"Primitive\":" ++
    js "\"Address\"\x7d,\"mode\":\"None\"\x7d,\x7b\"name\":" ++
    js "\"memo\",\"ty\":\x7b\"Primitive\":\"Field\"\x7d," ++
    js "\"mode\":\"Public\"\x7d]\x7d],\"mappings\":[]," ++
    js "\"storage_variables\":[],\"functions\":" ++
    js "[\x7b\"name\":\"mint\",\"is_final\":false," ++
    js "\"inputs\":[\x7b\"name\":\"to\",\"ty\":" ++
    js "\x7b\"Plaintext\":\x7b\"Primitive\":\"Address\"\x7d\x7d," ++
    js "\"mode\":\"Public\"\x7d],\"outputs\":[\x7b\"ty\":" ++
    js "\x7b\"Record\":\x7b\"path\":[\"Token\"],\"program\":" ++
    js "\"t.aleo\"\x7d\x7d,\"mode\":\"None\"\x7d]\x7d]\x7d"

/-- What Leo 4.2 writes. -/
def tokenText42 : JsString :=
  js "\x7b\"program\":\"t.aleo\",\"structs\":[]," ++
    js "\"records\":[\x7b\"path\":[\"Token\"],\"fields\":" ++
    js "[\x7b\"name\":\"owner\",\"ty\":\x7b\"Primitive\":" ++
    js "\"Address\"\x7d\x7d,\x7b\"name\":\"memo\",\"ty\":" ++
    js "\x7b\"Primitive\":\"Field\"\x7d\x7d]\x7d],\"mappings\":" ++
    js "[],\"storage_variables\":[],\"functions\":" ++ js "[\x7b\"name\":\"mint\",\"inputs\":" ++
    js "[\x7b\"Plaintext\":\x7b\"ty\":\x7b\"Primitive\":" ++
    js "\"Address\"\x7d,\"mode\":\"Public\"\x7d\x7d]," ++
    js "\"outputs\":[\x7b\"Record\":\x7b\"path\":" ++
    js "[\"Token\"],\"program\":\"t.aleo\"\x7d\x7d]\x7d]\x7d"

set_option maxRecDepth 4000 in
theorem parse_tokenText41 : JSON.parse tokenText41 = some (encode .v41 tokenProgram) := by
  rfl

set_option maxRecDepth 4000 in
theorem parse_tokenText42 : JSON.parse tokenText42 = some (encode .v42 tokenProgram) := by
  rfl

/-- No value of the two texts needs to be converted to a string. -/
theorem versions_agree_token :
    ∃ abi41 abi, parseAbi (fun _ => js "[object Object]") tokenText41 = .ok abi41 ∧
      parseAbi (fun _ => js "[object Object]") tokenText42 = .ok abi ∧
      eraseRecordModes (eraseDropped abi41) = eraseRecordModes (eraseDropped abi) ∧
      (eraseDropped abi41 = eraseDropped abi ↔ ∀ record ∈ tokenProgram.records,
        ∀ field ∈ record.fields, field.mode ≠ .publicMode ∧ field.mode ≠ .constantMode) :=
  versions_agree parse_tokenText41 (by decide) parse_tokenText42

/-- That the field is public is lost from Leo 4.2 on. -/
theorem record_mode_dropped :
    JSON.parse tokenText41 = some (encode .v41 tokenProgram) ∧
      JSON.parse tokenText42 = some (encode .v42 tokenProgram) ∧
      ∀ stringOf abi41 abi, parseAbi stringOf tokenText41 = .ok abi41 →
        parseAbi stringOf tokenText42 = .ok abi → eraseDropped abi41 ≠ eraseDropped abi := by
  refine ⟨parse_tokenText41, parse_tokenText42, fun stringOf abi41 abi h41 h heq => ?_⟩
  rw [parseAbi_encode parse_tokenText41] at h41
  rw [parseAbi_encode parse_tokenText42] at h
  cases h41
  cases h
  rw [eraseDropped_normal, eraseDropped_normal, erased_inj, arrayOf_inj] at heq
  have hrecord := heq _ List.mem_cons_self
  rw [normalRecord_eq (by decide)] at hrecord
  exact (hrecord _ (List.mem_cons_of_mem _ List.mem_cons_self)).1 rfl

end Lionden.Compiler
