import Lionden.Compiler.AbiAgreement
import Lionden.Compiler.AbiNormalForm

/-!
# Stored ABIs

A parsed ABI is stored as JSON and parsed again.

* `wellFormed_encode`: what a line of Leo writes is well formed.
* `parseAbi_stored`: a stored ABI is parsed to itself.
-/

namespace Lionden.Compiler

open Codegen (PrimitiveType IntegerSize PlaintextType)

variable {stringOf : JsValue → JsString}

/-! ## What Leo writes -/

section Encoded

theorem completePlaintext_encode (ty : PlaintextType) : CompletePlaintext (encodePlaintext ty) := by
  induction ty with
  | primitive prim => exact .other rfl rfl rfl nofun
  | struct ref => exact .struct rfl
  | array elem length ih => exact .array rfl rfl ih nofun
  | optional inner ih => exact .optional rfl rfl rfl ih

theorem completeStorageType_encode (ty : StorageType) :
    CompleteStorageType (encodeStorageType ty) := by
  induction ty with
  | plaintext ty => exact .plaintext rfl (completePlaintext_encode ty)
  | vector elem ih => exact .vector rfl rfl ih

theorem completeAleoType_encode (ty : IoType) : CompleteAleoType (encodeIoType ty) := by
  cases ty with
  | plaintext ty => exact ⟨nofun, fun _ => completePlaintext_encode ty⟩
  | _ => exact ⟨nofun, nofun⟩

theorem completeElement_positional (ioContext : IoContext) (ty : IoType) (mode : Visibility) :
    CompleteElement (encodePositional ioContext ty mode) := by
  cases ty with
  | plaintext ty => exact fun _ => completePlaintext_encode ty
  | record ref => exact nofun
  | future program => exact nofun
  | _ => trivial

theorem completeElement_input (line : Line) (ioContext : IoContext) (input : Input) :
    CompleteElement (encodeInput line ioContext input) := by
  cases line with
  | v41 => exact completeAleoType_encode input.ty
  | _ => exact completeElement_positional ioContext input.ty input.mode

theorem completeElement_output (line : Line) (ioContext : IoContext) (output : Output) :
    CompleteElement (encodeOutput line ioContext output) := by
  cases line with
  | v41 => exact completeAleoType_encode output.ty
  | _ => exact completeElement_positional ioContext output.ty output.mode

theorem elements_arrayOf {α : Type} {f : α → JsValue} {p : JsValue → Prop} {l : List α}
    (h : ∀ x ∈ l, p (f x)) : Elements p (arrayOf f l) := by
  intro elements heq v hv
  cases heq
  obtain ⟨x, hx, heq⟩ := List.mem_map.mp hv
  cases heq
  exact h x hx

/-- A list that may have been left out. -/
theorem elements_get {props rest : List (JsString × JsValue)} {key : String}
    {p : JsValue → Prop} {elements : List (Option JsValue)}
    (hprops : props.lookup (js key) = none) (hrest : rest.lookup (js key) = none)
    (hproto : inherited (js key) = .undefined) (h : ∀ v, some v ∈ elements → p v) :
    Elements p (JsValue.get (props ++ unlessEmpty key elements ++ rest) (js key)) := by
  intro elements' heq v hv
  have hread := asArray_unlessEmpty key elements hprops hrest hproto
  rw [heq] at hread
  cases hread
  exact h v hv

theorem completeEntry_function (line : Line) (entry : Entry) :
    CompleteEntry (encodeFunction line entry) := by
  have hinputs := elements_arrayOf fun input (_ : input ∈ entry.inputs) =>
    completeElement_input line .transition input
  have houtputs := elements_arrayOf fun output (_ : output ∈ entry.outputs) =>
    completeElement_output line .transition output
  cases line <;> exact ⟨nofun, hinputs, houtputs⟩

theorem completeEntry_view (line : Line) (entry : Entry) : CompleteEntry (encodeView line entry) :=
  ⟨nofun,
    elements_arrayOf fun input (_ : input ∈ entry.inputs) => completeElement_input line .view input,
    elements_arrayOf fun output (_ : output ∈ entry.outputs) =>
      completeElement_output line .view output⟩

theorem completeComposite_struct (definition : StructDefinition) :
    CompleteComposite (encodeStruct definition) :=
  elements_arrayOf fun field (_ : field ∈ definition.fields) =>
    ⟨nofun, completePlaintext_encode field.2⟩

theorem completeComposite_record (line : Line) (definition : RecordDefinition) :
    CompleteComposite (encodeRecord line definition) := by
  refine elements_arrayOf fun field (_ : field ∈ definition.fields) => ?_
  cases line <;> exact ⟨nofun, completePlaintext_encode field.ty⟩

/-! ### Data -/

theorem isData_arrayOf {α : Type} {f : α → JsValue} {number : JsNumber → Prop} {l : List α}
    (h : ∀ x ∈ l, IsData number (f x)) : IsData number (arrayOf f l) := by
  refine isData_array.mpr fun x hx => ?_
  obtain ⟨y, hy, rfl⟩ := List.mem_map.mp hx
  exact ⟨f y, rfl, h y hy⟩

theorem isData_encodeRef {number : JsNumber → Prop} (path : List JsString)
    (program : Option JsString) : IsData number (encodeRef path program) := by
  have hkeys : [js "path", js "program"].Nodup := by decide
  have hprogram : IsData number ((program.map JsValue.string).getD .null) := by
    cases program with
    | none => exact .null
    | some p => exact .string p
  exact .object hkeys (by simpa using ⟨isData_arrayOf fun s _ => .string s, hprogram⟩)

theorem isData_encodePrimitive {number : JsNumber → Prop} (prim : PrimitiveType) :
    IsData number (encodePrimitive prim) := by
  cases prim with
  | uint size => exact isData_tagged _ (.string _)
  | int size => exact isData_tagged _ (.string _)
  | _ => exact .string _

theorem isData_encodePlaintext (ty : PlaintextType) :
    IsData JsNumber.Finite (encodePlaintext ty) := by
  induction ty with
  | primitive prim => exact isData_tagged _ (isData_encodePrimitive prim)
  | struct ref => exact isData_tagged _ (isData_encodeRef ref.path ref.program)
  | array elem length ih =>
    have hkeys : [js "element", js "length"].Nodup := by decide
    refine isData_tagged _ (.object hkeys ?_)
    simpa using ⟨ih, .number ⟨length, rfl⟩⟩
  | optional inner ih => exact isData_tagged _ ih

theorem isData_encodeStorageType (ty : StorageType) :
    IsData JsNumber.Finite (encodeStorageType ty) := by
  induction ty with
  | plaintext ty => exact isData_tagged _ (isData_encodePlaintext ty)
  | vector elem ih => exact isData_tagged _ ih

theorem isData_encodeIoType (ty : IoType) : IsData JsNumber.Finite (encodeIoType ty) := by
  cases ty with
  | plaintext ty => exact isData_tagged _ (isData_encodePlaintext ty)
  | record ref => exact isData_tagged _ (isData_encodeRef ref.path ref.program)
  | future program => exact isData_tagged _ (.string program)
  | _ => exact .string _

theorem isData_encodePositional (ioContext : IoContext) (ty : IoType) (mode : Visibility) :
    IsData JsNumber.Finite (encodePositional ioContext ty mode) := by
  cases ty with
  | plaintext ty =>
    have hkeys : [js "ty", js "mode"].Nodup := by decide
    refine isData_tagged _ (.object hkeys ?_)
    simpa using ⟨isData_encodePlaintext ty, .string _⟩
  | record ref => exact isData_encodeIoType (.record ref)
  | future program => exact isData_encodeIoType (.future program)
  | _ => exact .string _

theorem isData_encodeInput (line : Line) (ioContext : IoContext) (input : Input) :
    IsData JsNumber.Finite (encodeInput line ioContext input) := by
  cases line with
  | v41 =>
    have hkeys : [js "name", js "ty", js "mode"].Nodup := by decide
    refine .object hkeys ?_
    simpa using ⟨.string input.name, isData_encodeIoType input.ty, .string _⟩
  | _ => exact isData_encodePositional ioContext input.ty input.mode

theorem isData_encodeOutput (line : Line) (ioContext : IoContext) (output : Output) :
    IsData JsNumber.Finite (encodeOutput line ioContext output) := by
  cases line with
  | v41 =>
    have hkeys : [js "ty", js "mode"].Nodup := by decide
    refine .object hkeys ?_
    simpa using ⟨isData_encodeIoType output.ty, .string _⟩
  | _ => exact isData_encodePositional ioContext output.ty output.mode

/-- The constant parameters of an entry, which Leo passes on, are data. -/
def ParametersData (entry : Entry) : Prop :=
  ∀ v ∈ entry.constParameters, IsData JsNumber.Finite v

theorem ParametersData.array {entry : Entry} (h : ParametersData entry) :
    IsData JsNumber.Finite (.array (entry.constParameters.map some)) := .array h

theorem isData_encodeFunction (line : Line) {entry : Entry} (h : ParametersData entry) :
    IsData JsNumber.Finite (encodeFunction line entry) := by
  have hinputs := isData_arrayOf fun input (_ : input ∈ entry.inputs) =>
    isData_encodeInput line .transition input
  have houtputs := isData_arrayOf fun output (_ : output ∈ entry.outputs) =>
    isData_encodeOutput line .transition output
  have hkeys : [js "name", js "inputs", js "outputs"].Nodup := by decide
  have hkeys41 : [js "name", js "is_final", js "inputs", js "outputs"].Nodup := by decide
  have hconst : js "const_parameters" ∉ [js "name", js "is_final", js "inputs", js "outputs"] := by
    decide
  cases line with
  | v41 =>
    refine isData_unlessEmpty (.object hkeys41 ?_) hconst h.array
    simpa using ⟨.string entry.name, .boolean entry.isFinal, hinputs, houtputs⟩
  | _ =>
    refine .object hkeys ?_
    simpa using ⟨.string entry.name, hinputs, houtputs⟩

theorem isData_encodeView (line : Line) {entry : Entry} (h : ParametersData entry) :
    IsData JsNumber.Finite (encodeView line entry) := by
  have hinputs := isData_arrayOf fun input (_ : input ∈ entry.inputs) =>
    isData_encodeInput line .view input
  have houtputs := isData_arrayOf fun output (_ : output ∈ entry.outputs) =>
    isData_encodeOutput line .view output
  have hkeys : [js "name", js "inputs", js "outputs"].Nodup := by decide
  have hconst : js "const_parameters" ∉ [js "name", js "inputs", js "outputs"] := by decide
  have hprops : ∀ p ∈ [(js "name", JsValue.string entry.name),
      (js "inputs", arrayOf (encodeInput line .view) entry.inputs),
      (js "outputs", arrayOf (encodeOutput line .view) entry.outputs)],
      IsData JsNumber.Finite p.2 := by
    simpa using ⟨.string entry.name, hinputs, houtputs⟩
  cases line with
  | v41 => exact isData_unlessEmpty (.object hkeys hprops) hconst h.array
  | _ => exact .object hkeys hprops

theorem isData_encodeStruct (definition : StructDefinition) :
    IsData JsNumber.Finite (encodeStruct definition) := by
  have hkeys : [js "path", js "fields"].Nodup := by decide
  have hfield : [js "name", js "ty"].Nodup := by decide
  refine .object hkeys (List.forall_mem_cons.mpr ⟨isData_arrayOf fun s _ => .string s,
    List.forall_mem_singleton.mpr (isData_arrayOf fun field _ => .object hfield ?_)⟩)
  simpa using ⟨.string field.1, isData_encodePlaintext field.2⟩

theorem isData_encodeRecord (line : Line) (definition : RecordDefinition) :
    IsData JsNumber.Finite (encodeRecord line definition) := by
  have hkeys : [js "path", js "fields"].Nodup := by decide
  have hfield : [js "name", js "ty"].Nodup := by decide
  have hmoded : [js "name", js "ty", js "mode"].Nodup := by decide
  refine .object hkeys (List.forall_mem_cons.mpr ⟨isData_arrayOf fun s _ => .string s,
    List.forall_mem_singleton.mpr (isData_arrayOf fun field _ => ?_)⟩)
  cases line with
  | v42 => exact .object hfield (by simpa using ⟨.string _, isData_encodePlaintext _⟩)
  | _ => exact .object hmoded (by simpa using ⟨.string _, isData_encodePlaintext _, .string _⟩)

theorem isData_encodeMapping (mapping : Mapping) :
    IsData JsNumber.Finite (encodeMapping mapping) := by
  have hkeys : [js "name", js "key", js "value"].Nodup := by decide
  refine .object hkeys ?_
  simpa using ⟨.string _, isData_encodePlaintext mapping.key, isData_encodePlaintext mapping.value⟩

theorem isData_encodeStorageVariable (declared : JsString × StorageType) :
    IsData JsNumber.Finite (encodeStorageVariable declared) := by
  have hkeys : [js "name", js "ty"].Nodup := by decide
  refine .object hkeys ?_
  simpa using ⟨.string declared.1, isData_encodeStorageType declared.2⟩

theorem isData_encodeInterface {number : JsNumber → Prop} (ref : InterfaceRef) :
    IsData number (encodeInterface ref) := by
  cases ref with
  | named name => exact .string name
  | ref path program => exact isData_encodeRef path program

/-! ### Programs -/

variable {p : Program} (line : Line)

theorem isData_encode (hfunctions : ∀ entry ∈ p.functions, ParametersData entry)
    (hviews : ∀ view ∈ p.views, ParametersData view) :
    IsData JsNumber.Finite (encode line p) := by
  have hkeys : [js "program", js "structs", js "records", js "mappings", js "storage_variables",
      js "functions"].Nodup := by decide
  have hview : js "views" ∉ [js "program", js "structs", js "records", js "mappings",
      js "storage_variables", js "functions"] := by decide
  have himplements : js "implements" ∉ [js "program", js "structs", js "records", js "mappings",
      js "storage_variables", js "functions"] := by decide
  have hcore : ∀ q ∈ encodeCore line p, IsData JsNumber.Finite q.2 := by
    simpa [encodeCore] using ⟨.string p.program, isData_arrayOf fun s _ => isData_encodeStruct s,
      isData_arrayOf fun r _ => isData_encodeRecord line r,
      isData_arrayOf fun m _ => isData_encodeMapping m,
      isData_arrayOf fun v _ => isData_encodeStorageVariable v,
      isData_arrayOf fun f hf => isData_encodeFunction line (hfunctions f hf)⟩
  have hviewData : IsData JsNumber.Finite (arrayOf (encodeView line) p.views) :=
    isData_arrayOf fun v hv => isData_encodeView line (hviews v hv)
  have hobject : IsData JsNumber.Finite (.object (encodeCore line p) none) := .object hkeys hcore
  have hwith := isData_unlessEmpty hobject hview hviewData
  unfold encode encodeImplements
  split_ifs
  · exact isData_unlessEmpty hwith (notMem_unlessEmpty _ himplements (by decide))
      (isData_arrayOf fun i (_ : i ∈ p.interfaces) => isData_encodeInterface i)
  · rwa [List.append_nil]

theorem lookup_encodeImplements : (encodeImplements line p).lookup (js "views") = none := by
  unfold encodeImplements
  split_ifs
  · exact lookup_unlessEmpty _ rfl
  · rfl

/-- What a line of Leo writes of a program is well formed. -/
theorem wellFormed_encode (hfunctions : ∀ entry ∈ p.functions, ParametersData entry)
    (hviews : ∀ view ∈ p.views, ParametersData view) : WellFormed (encode line p) where
  numbers := isData_encode line hfunctions hviews
  structs := elements_arrayOf fun s (_ : s ∈ p.structs) => completeComposite_struct s
  records := elements_arrayOf fun r (_ : r ∈ p.records) => completeComposite_record line r
  mappings := elements_arrayOf fun m (_ : m ∈ p.mappings) =>
    ⟨nofun, completePlaintext_encode m.key, completePlaintext_encode m.value⟩
  storageVariables := elements_arrayOf fun v (_ : v ∈ p.storageVariables) =>
    ⟨nofun, completeStorageType_encode v.2⟩
  functions := elements_arrayOf fun f (_ : f ∈ p.functions) => completeEntry_function line f
  views := by
    refine elements_get rfl (lookup_encodeImplements line) rfl fun v hv => ?_
    obtain ⟨view, -, heq⟩ := List.mem_map.mp hv
    cases heq
    exact completeEntry_view line view

end Encoded

/-- An ABI in JSON that is parsed is stored as a text that is parsed to the same ABI. -/
theorem parseAbi_stored {json : JsString} {raw abi : JsValue}
    (hjson : JSON.parse json = some raw) (hwf : WellFormed raw)
    (h : parseAbi stringOf json = .ok abi) :
    ∃ text, JSON.stringify abi = some text ∧ parseAbi stringOf text = .ok abi := by
  have hwritable := isData_writable hjson hwf.numbers
  unfold parseAbi at h
  simp only [hjson] at h
  split_ifs at h
  split at h
  · next programId _ =>
    obtain ⟨text, htext, hparse⟩ := JSON.parse_stringify (isData_normalizeAbi hwritable hwf h)
    refine ⟨text, htext, ?_⟩
    have hidem := normalizeAbi_idem h
    obtain ⟨n, -, rfl⟩ := normalizeAbi_ok.mp h
    unfold parseAbi
    simp only [hparse]
    exact hidem
  · cases h

/-- The function of the program has no constant parameters, and its values are not converted. -/
theorem parseAbi_stored_token :
    ∃ text, JSON.stringify (normal .v41 tokenProgram) = some text ∧
      parseAbi (fun _ => js "[object Object]") text = .ok (normal .v41 tokenProgram) := by
  have hfunctions : ∀ entry ∈ tokenProgram.functions, ParametersData entry := by
    intro entry hentry
    rw [List.mem_singleton.mp hentry]
    nofun
  exact parseAbi_stored parse_tokenText41 (wellFormed_encode .v41 hfunctions nofun)
    (parseAbi_encode parse_tokenText41)

end Lionden.Compiler
