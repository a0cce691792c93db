import Lionden.Js.Json
import Lionden.Lib.Fallible

/-!
# The ABI parser

`parseAbi` takes the JSON that some line of Leo has written and normalises it. It works on parsed
values: what no case applies to is passed on as it is.

* `normalizePlaintext`, `normalizeAleoType`, `normalizeStorageType`: types.
* `normalizeInput`, `normalizeOutput`: elements, in the shape that `detectInputShape` sees.
* `parseAbi`: a whole program.
-/

namespace Lionden.Compiler

/-- An object that has one property. -/
def tagged (key : String) (v : JsValue) : JsValue := .object [(js key, v)] none

/-- `v ?? w`. -/
def orElse (v w : JsValue) : JsValue := if v.isNullish then w else v

/-- `v[key]`, which throws if `v` is nothing. -/
def member (v : JsValue) (key : String) : Except JsString JsValue :=
  match v with
  | .undefined =>
    .error (js "Cannot read properties of undefined (reading '" ++ js key ++ js "')")
  | .null => .error (js "Cannot read properties of null (reading '" ++ js key ++ js "')")
  | v => .ok (v.property (js key))

/-- `elements.map(f)`, from the index of the first of them on; holes stay. -/
def mapElements (f : Nat → JsValue → Except JsString JsValue) :
    Nat → List (Option JsValue) → Except JsString (List (Option JsValue))
  | _, [] => .ok []
  | index, none :: rest => do
    let rest ← mapElements f (index + 1) rest
    .ok (none :: rest)
  | index, some v :: rest => do
    let w ← f index v
    let rest ← mapElements f (index + 1) rest
    .ok (some w :: rest)

def asArray (value : JsValue) (fieldName : String) : Except JsString (List (Option JsValue)) :=
  match value with
  | .undefined | .null => .ok []
  | .array elements => .ok elements
  | _ => .error (js "\"" ++ js fieldName ++ js "\" must be an array")

/-- Whether a function or a view is normalised. -/
inductive IoContext where
  | transition
  | view
  deriving DecidableEq

inductive Shape where
  | bare
  | wrapper
  | positional

section Normalize

/-! ## Types -/

-- `String(v)`.
variable (stringOf : JsValue → JsString) (programId : JsString)

def canonicalizeRefProgram (program : JsValue) : JsValue :=
  match program with
  | .string p => if p = programId then .null else program
  | _ => program

/-- `toStructRef` and `toRecordRef`, which are the same. -/
def toRef (raw : JsValue) : JsValue :=
  let named (name : JsString) : JsValue :=
    .object [(js "path", .array [some (.string name)]), (js "program", .null)] none
  match raw.property (js "path") with
  | .array path =>
    .object [(js "path", .array path), (js "program",
      canonicalizeRefProgram programId (orElse (raw.property (js "program")) .null))] none
  | _ =>
    match raw with
    | .string name => named name
    | raw => named (stringOf raw)

theorem sizeOf_get_lt (props : List (JsString × JsValue)) (raw : Option JsValue) (key : JsString) :
    sizeOf (JsValue.get props key) < sizeOf (JsValue.object props raw) := by
  unfold JsValue.get
  cases hlookup : props.lookup key with
  | some v =>
    have hmem := List.sizeOf_lt_of_mem (Fallible.mem_of_lookup hlookup)
    simp only [Prod.mk.sizeOf_spec] at hmem
    simp only [Option.getD_some, JsValue.object.sizeOf_spec]
    omega
  | none =>
    have hinherited : sizeOf (inherited key) = 1 := by
      unfold inherited
      split <;> rfl
    have hprops : 0 < sizeOf props := by cases props <;> simp
    simp only [Option.getD_none, hinherited, JsValue.object.sizeOf_spec]
    omega

/-- `elements[index]`. -/
def elementAt (elements : List (Option JsValue)) (index : Nat) : JsValue :=
  (elements[index]?.getD none).getD .undefined

theorem sizeOf_elementAt_lt (elements : List (Option JsValue)) (index : Nat) :
    sizeOf (elementAt elements index) < sizeOf (JsValue.array elements) := by
  unfold elementAt
  have hpos : 0 < sizeOf elements := by cases elements <;> simp
  cases helem : elements[index]? with
  | none =>
    simp only [Option.getD_none, JsValue.undefined.sizeOf_spec, JsValue.array.sizeOf_spec]
    omega
  | some v =>
    cases v with
    | none =>
      simp only [Option.getD_some, Option.getD_none, JsValue.undefined.sizeOf_spec,
        JsValue.array.sizeOf_spec]
      omega
    | some w =>
      have hmem := List.sizeOf_lt_of_mem (List.mem_of_getElem? helem)
      simp only [Option.some.sizeOf_spec] at hmem
      simp only [Option.getD_some, JsValue.array.sizeOf_spec]
      omega

/-- The element type and the length of an array type, which are an array or an object. -/
def arrayParts : JsValue → Option (JsValue × JsValue)
  | .array elements => some (elementAt elements 0, elementAt elements 1)
  | .object props _ =>
    some (JsValue.get props (js "element"), JsValue.get props (js "length"))
  | _ => none

theorem sizeOf_arrayParts_lt {v elem length : JsValue} (h : arrayParts v = some (elem, length)) :
    sizeOf elem < sizeOf v := by
  cases v with
  | array elements =>
    cases h
    exact sizeOf_elementAt_lt elements 0
  | object props raw =>
    cases h
    exact sizeOf_get_lt props raw _
  | _ => cases h

/-- `{ Struct }`, `{ Array }` and `{ Optional }`; a primitive stays as it is. -/
def normalizePlaintext (raw : JsValue) : JsValue :=
  match raw with
  | .object props symbol =>
    if raw.hasOwn (js "Struct") then
      tagged "Struct" (toRef stringOf programId (JsValue.get props (js "Struct")))
    else
      match h : arrayParts (JsValue.get props (js "Array")) with
      | some (elem, length) =>
        have : sizeOf elem < sizeOf (JsValue.object props symbol) :=
          (sizeOf_arrayParts_lt h).trans (sizeOf_get_lt props symbol _)
        tagged "Array" (.array [some (normalizePlaintext elem), some length])
      | none =>
        have : sizeOf (JsValue.get props (js "Optional")) < sizeOf (JsValue.object props symbol) :=
          sizeOf_get_lt props symbol _
        if raw.hasOwn (js "Optional") then
          tagged "Optional" (normalizePlaintext (JsValue.get props (js "Optional")))
        else raw
  | raw => raw
termination_by sizeOf raw
decreasing_by all_goals simpa using this

/-- `{ Plaintext }` and `{ Vector }`; another type is a plaintext of an old format. -/
def normalizeStorageType (raw : JsValue) : JsValue :=
  match raw with
  | .object props symbol =>
    have : sizeOf (JsValue.get props (js "Vector")) < sizeOf (JsValue.object props symbol) :=
      sizeOf_get_lt props symbol _
    if raw.hasOwn (js "Plaintext") then
      tagged "Plaintext" (normalizePlaintext stringOf programId
        (JsValue.get props (js "Plaintext")))
    else if raw.hasOwn (js "Vector") then
      tagged "Vector" (normalizeStorageType (JsValue.get props (js "Vector")))
    else tagged "Plaintext" (normalizePlaintext stringOf programId raw)
  | raw => tagged "Plaintext" raw
termination_by sizeOf raw
decreasing_by all_goals simpa using this

def normalizeAleoType (raw : JsValue) : JsValue :=
  match raw with
  | .string s =>
    if s = js "Final" ∨ s = js "Future" then tagged "Future" (.string programId) else raw
  | raw =>
    if raw.hasOwn (js "Record") then
      tagged "Record" (toRef stringOf programId (raw.property (js "Record")))
    else if raw.hasOwn (js "Future") then tagged "Future" (raw.property (js "Future"))
    else if raw.hasOwn (js "Plaintext") then
      tagged "Plaintext" (normalizePlaintext stringOf programId (raw.property (js "Plaintext")))
    else raw

/-! ## Modes -/

/-- One of the modes, or a default. -/
def modeOr (rawMode default : JsValue) : JsValue :=
  match rawMode with
  | .string mode =>
    if mode = js "Public" ∨ mode = js "Private" ∨ mode = js "Constant" then rawMode else default
  | _ => default

def canonicalizePlaintextMode (rawMode : JsValue) (ioContext : IoContext) : JsValue :=
  modeOr rawMode (.string (if ioContext = .view then js "Public" else js "Private"))

def canonicalizeRecordFieldMode (rawMode : JsValue) : JsValue :=
  modeOr rawMode (.string (js "Private"))

def modeForAleoType (ty rawMode : JsValue) (ioContext : IoContext) : JsValue :=
  if ty.hasOwn (js "Plaintext") then canonicalizePlaintextMode rawMode ioContext
  else .string (js "Private")

/-! ## Elements -/

def detectInputShape (raw : JsValue) : Shape :=
  match raw with
  | .string _ => .bare
  | raw =>
    if raw.hasOwn (js "ty") then .wrapper
    else if raw.hasOwn (js "Plaintext") ∨ raw.hasOwn (js "Record") ∨ raw.hasOwn (js "Future") then
      .positional
    else .wrapper

/-- The type and the mode of an element, which inputs and outputs have alike. -/
def normalizeElement (raw : JsValue) (ioContext : IoContext) :
    Except JsString (JsValue × JsValue) :=
  let inert : JsValue := .string (js "Private")
  match detectInputShape raw with
  | .positional =>
    if raw.hasOwn (js "Plaintext") then
      let inner := raw.property (js "Plaintext")
      .ok (tagged "Plaintext" (normalizePlaintext stringOf programId (inner.property (js "ty"))),
        canonicalizePlaintextMode (inner.property (js "mode")) ioContext)
    else if raw.hasOwn (js "Record") then
      .ok (tagged "Record" (toRef stringOf programId (raw.property (js "Record"))), inert)
    else .ok (tagged "Future" (raw.property (js "Future")), inert)
  | .bare => .ok (normalizeAleoType stringOf programId raw, inert)
  | .wrapper => do
    let rawTy ← member raw "ty"
    let ty := normalizeAleoType stringOf programId rawTy
    .ok (ty, modeForAleoType ty (raw.property (js "mode")) ioContext)

/-- The name of an input: its own in the wrapper shape, if it has one. -/
def inputName (raw : JsValue) (index : Nat) : JsValue :=
  let synthesized : JsValue := .string (js "arg" ++ decimal index)
  match detectInputShape raw, raw.property (js "name") with
  | .wrapper, .string name => .string name
  | _, _ => synthesized

def normalizeInput (ioContext : IoContext) (index : Nat) (raw : JsValue) :
    Except JsString JsValue := do
  let (ty, mode) ← normalizeElement stringOf programId raw ioContext
  .ok (.object [(js "name", inputName raw index), (js "ty", ty), (js "mode", mode)] none)

def normalizeOutput (ioContext : IoContext) (raw : JsValue) : Except JsString JsValue := do
  let (ty, mode) ← normalizeElement stringOf programId raw ioContext
  .ok (.object [(js "ty", ty), (js "mode", mode)] none)

/-! ## Entries -/

/-- The elements of an array; anything else is passed on, and what is not there is empty. -/
def normalizeElements (f : Nat → JsValue → Except JsString JsValue) (raw : JsValue) :
    Except JsString JsValue :=
  match raw with
  | .undefined => .ok (.array [])
  | .array elements => do
    let elements ← mapElements f 0 elements
    .ok (.array elements)
  | raw => .ok raw

def isFutureOutput (output : JsValue) : Bool := (output.property (js "ty")).hasOwn (js "Future")

def isAsync (raw outputs : JsValue) : Except JsString Bool :=
  if raw.hasOwn (js "is_async") then .ok (raw.property (js "is_async")).truthy
  else if raw.hasOwn (js "is_final") then .ok (raw.property (js "is_final")).truthy
  else match outputs with
    | .array elements => .ok (elements.any fun output => (output.map isFutureOutput).getD false)
    | _ => .error (js "outputs.some is not a function")

/-- A list that is left out when it is empty. -/
def unlessEmpty (key : String) (elements : List (Option JsValue)) : List (JsString × JsValue) :=
  if elements = [] then [] else [(js key, .array elements)]

def normalizeFunction (raw : JsValue) : Except JsString JsValue :=
  if ¬ raw.isObject then .ok raw
  else do
    let inputs ← normalizeElements (normalizeInput stringOf programId .transition)
      (raw.property (js "inputs"))
    let outputs ← normalizeElements (fun _ => normalizeOutput stringOf programId .transition)
      (raw.property (js "outputs"))
    let async ← isAsync raw outputs
    let constParameters ← asArray (raw.property (js "const_parameters")) "function.const_parameters"
    .ok (.object ([(js "name", raw.property (js "name")), (js "is_async", .boolean async),
      (js "inputs", inputs), (js "outputs", outputs)] ++
      unlessEmpty "const_parameters" constParameters) none)

def normalizeView (raw : JsValue) : Except JsString JsValue :=
  if ¬ raw.isObject then .ok raw
  else do
    let inputs ← normalizeElements (normalizeInput stringOf programId .view)
      (raw.property (js "inputs"))
    let outputs ← normalizeElements (fun _ => normalizeOutput stringOf programId .view)
      (raw.property (js "outputs"))
    let constParameters ← asArray (raw.property (js "const_parameters")) "view.const_parameters"
    .ok (.object ([(js "name", raw.property (js "name")), (js "inputs", inputs),
      (js "outputs", outputs)] ++ unlessEmpty "const_parameters" constParameters) none)

def extractPath (raw : JsValue) : Except JsString JsValue :=
  match raw.property (js "path"), raw.property (js "name") with
  | .array (segment :: path), _ => .ok (.array (segment :: path))
  | _, .string name => .ok (.array [some (.string name)])
  | _, _ => .error (js "Entry missing both 'name' and 'path' fields")

def normalizeStructField (field : JsValue) : Except JsString JsValue := do
  let name ← member field "name"
  .ok (.object [(js "name", name),
    (js "ty", normalizePlaintext stringOf programId (field.property (js "ty")))] none)

def normalizeRecordField (field : JsValue) : Except JsString JsValue := do
  let name ← member field "name"
  .ok (.object [(js "name", name),
    (js "ty", normalizePlaintext stringOf programId (field.property (js "ty"))),
    (js "mode", canonicalizeRecordFieldMode (field.property (js "mode")))] none)

/-- `normalizeStruct` and `normalizeRecord`, with the normaliser of their fields. -/
def normalizeComposite (fieldName : String) (normalizeField : JsValue → Except JsString JsValue)
    (raw : JsValue) : Except JsString JsValue :=
  if ¬ raw.isObject then .ok raw
  else do
    let path ← extractPath raw
    let rawFields ← asArray (raw.property (js "fields")) fieldName
    let fields ← mapElements (fun _ => normalizeField) 0 rawFields
    .ok (.object [(js "path", path), (js "fields", .array fields)] none)

def normalizeStruct (raw : JsValue) : Except JsString JsValue :=
  normalizeComposite "struct.fields" (normalizeStructField stringOf programId) raw

def normalizeRecord (raw : JsValue) : Except JsString JsValue :=
  normalizeComposite "record.fields" (normalizeRecordField stringOf programId) raw

def normalizeMapping (raw : JsValue) : JsValue :=
  if ¬ raw.isObject then raw
  else .object [(js "name", raw.property (js "name")),
    (js "key", normalizePlaintext stringOf programId (raw.property (js "key"))),
    (js "value", normalizePlaintext stringOf programId (raw.property (js "value")))] none

def normalizeStorageVariable (raw : JsValue) : JsValue :=
  if ¬ raw.isObject then raw
  else .object [(js "name", raw.property (js "name")),
    (js "ty", normalizeStorageType stringOf programId (raw.property (js "ty")))] none

/-- `String` of a value that may be a string already. -/
def textOf : JsValue → JsString
  | .string s => s
  | v => stringOf v

def normalizeInterfaceRef (raw : JsValue) : JsValue :=
  match raw.property (js "path") with
  | .array path =>
    let program := match raw.property (js "program") with
      | .string p => .string p
      | _ => JsValue.null
    .object [(js "path", .array (path.map (·.map fun segment => .string (textOf stringOf segment)))),
      (js "program", program)] none
  | _ => .string (textOf stringOf raw)

/-! ## Programs -/

/-- The checks of a normalised transition or view. -/
def validateEntry (kind : String) (entry : JsValue) : Except JsString Unit := do
  let name ← member entry "name"
  match name with
  | .string name =>
    match entry.property (js "inputs"), entry.property (js "outputs") with
    | .array _, .array _ => .ok ()
    | .array _, _ => .error (js kind ++ js " \"" ++ name ++ js "\" missing 'outputs' array")
    | _, _ => .error (js kind ++ js " \"" ++ name ++ js "\" missing 'inputs' array")
  | _ => .error (js kind ++ js " missing 'name' field")

def validateEntries (kind : String) : List (Option JsValue) → Except JsString Unit
  | [] => .ok ()
  | entry :: rest => do
    validateEntry kind (entry.getD .undefined)
    validateEntries kind rest

def normalizeAbi (raw : JsValue) : Except JsString JsValue := do
  let entries (key : String) (f : JsValue → Except JsString JsValue) :
      Except JsString (List (Option JsValue)) := do
    let elements ← asArray (raw.property (js key)) key
    mapElements (fun _ => f) 0 elements
  let structs ← entries "structs" (normalizeStruct stringOf programId)
  let records ← entries "records" (normalizeRecord stringOf programId)
  let mappings ← entries "mappings" (.ok ∘ normalizeMapping stringOf programId)
  let storageVariables ← entries "storage_variables"
    (.ok ∘ normalizeStorageVariable stringOf programId)
  let rawFunctions ← asArray
    (orElse (raw.property (js "functions")) (raw.property (js "transitions")))
    "functions/transitions"
  let transitions ← mapElements (fun _ => normalizeFunction stringOf programId) 0 rawFunctions
  let views ← entries "views" (normalizeView stringOf programId)
  let implementedInterfaces ← entries "implements" (.ok ∘ normalizeInterfaceRef stringOf)
  validateEntries "Transition" transitions
  validateEntries "View" views
  .ok (.object ([(js "program", .string programId), (js "structs", .array structs),
    (js "records", .array records), (js "mappings", .array mappings),
    (js "storage_variables", .array storageVariables), (js "transitions", .array transitions)] ++
    unlessEmpty "views" views ++ unlessEmpty "implements" implementedInterfaces) none)

end Normalize

section Equations

variable {stringOf : JsValue → JsString} {programId : JsString}

theorem normalizePlaintext_struct (ref : JsValue) :
    normalizePlaintext stringOf programId (tagged "Struct" ref) =
      tagged "Struct" (toRef stringOf programId ref) := by
  unfold tagged
  rw [normalizePlaintext]
  rfl

theorem normalizePlaintext_array (elem length : JsValue) :
    normalizePlaintext stringOf programId
        (tagged "Array" (.object [(js "element", elem), (js "length", length)] none)) =
      tagged "Array" (.array [some (normalizePlaintext stringOf programId elem), some length]) := by
  unfold tagged
  rw [normalizePlaintext]
  rfl

theorem normalizePlaintext_optional (inner : JsValue) :
    normalizePlaintext stringOf programId (tagged "Optional" inner) =
      tagged "Optional" (normalizePlaintext stringOf programId inner) := by
  unfold tagged
  rw [normalizePlaintext]
  rfl

theorem lookup_unlessEmpty {key other : String} (elements : List (Option JsValue))
    (hne : (js other == js key) = false) : (unlessEmpty key elements).lookup (js other) = none := by
  unfold unlessEmpty
  split
  next => rfl
  next => rw [List.lookup_cons, hne, List.lookup_nil]

/-- The elements of a list that may have been left out. -/
theorem asArray_unlessEmpty {props rest : List (JsString × JsValue)} {key : String}
    (fieldName : String) (elements : List (Option JsValue))
    (hprops : props.lookup (js key) = none) (hrest : rest.lookup (js key) = none)
    (hproto : inherited (js key) = .undefined) :
    asArray (JsValue.get (props ++ unlessEmpty key elements ++ rest) (js key)) fieldName =
      .ok elements := by
  unfold JsValue.get
  rw [List.lookup_append, List.lookup_append, hprops, hrest]
  unfold unlessEmpty
  split
  next hempty =>
    subst hempty
    simp only [List.lookup_nil, Option.or_none, Option.getD_none, hproto]
    rfl
  next hne =>
    simp only [Option.none_or, List.lookup_cons_self, Option.some_or, Option.getD_some]
    rfl

end Equations

/-- `parseAbi(json)`; `stringOf` is `String` of what is not a string. -/
def parseAbi (stringOf : JsValue → JsString) (json : JsString) : Except JsString JsValue :=
  match JSON.parse json with
  | none => .error (js "Invalid JSON in ABI file")
  | some raw =>
    if ¬ raw.isObject then .error (js "ABI must be a JSON object")
    else match raw.property (js "program") with
      | .string programId => normalizeAbi stringOf programId raw
      | _ => .error (js "ABI missing required \"program\" field")

end Lionden.Compiler
