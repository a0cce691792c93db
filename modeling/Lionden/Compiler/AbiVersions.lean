import Lionden.Codegen.Abi
import Lionden.Compiler.AbiParser

/-!
# The ABIs of the lines of Leo

Leo 4.1 wraps the inputs and outputs of functions; from 4.2 on they are given by position. What the
lines write of one program, and what `parseAbi` makes of it.

* `Program`, `encode`: a program, and its ABI on a line of Leo.
* `normal`: what that ABI is normalised to. The lines differ in the names of inputs, constant
  parameters, interfaces and the modes of record fields.
-/

namespace Lionden.Compiler

open Codegen (PrimitiveType IntegerSize PlaintextType StructRef)

/-! ## Programs -/

inductive Line where
  | v41
  | v42
  | v43
  deriving DecidableEq

/-- What a declaration says about visibility. -/
inductive Visibility where
  | unmoded
  | constantMode
  | privateMode
  | publicMode
  deriving DecidableEq

inductive IoType where
  | plaintext (ty : PlaintextType)
  | record (ref : StructRef)
  | future (program : JsString)
  | final
  | dynamicRecord

def IoType.isFuture : IoType → Bool
  | .future _ | .final => true
  | _ => false

structure Output where
  ty : IoType
  mode : Visibility

structure Input where
  name : JsString
  ty : IoType
  mode : Visibility

/-- A function or a view. -/
structure Entry where
  name : JsString
  inputs : List Input
  outputs : List Output
  constParameters : List JsValue

/-- A function has a finalize block if it returns a future. -/
def Entry.isFinal (entry : Entry) : Bool := entry.outputs.any (·.ty.isFuture)

/-- The path of a definition, which is not empty. -/
structure Path where
  segments : List JsString
  ne_nil : segments ≠ []

structure StructDefinition where
  path : Path
  fields : List (JsString × PlaintextType)

structure RecordField where
  name : JsString
  ty : PlaintextType
  mode : Visibility

structure RecordDefinition where
  path : Path
  fields : List RecordField

structure Mapping where
  name : JsString
  key : PlaintextType
  value : PlaintextType

inductive StorageType where
  | plaintext (ty : PlaintextType)
  | vector (elem : StorageType)

inductive InterfaceRef where
  | named (name : JsString)
  | ref (path : List JsString) (program : Option JsString)

structure Program where
  program : JsString
  structs : List StructDefinition
  records : List RecordDefinition
  mappings : List Mapping
  storageVariables : List (JsString × StorageType)
  functions : List Entry
  views : List Entry
  interfaces : List InterfaceRef

/-! ## What is written -/

def arrayOf {α : Type} (f : α → JsValue) (elements : List α) : JsValue :=
  .array (elements.map fun x => some (f x))

def encodePrimitive : PrimitiveType → JsValue
  | .address => .string (js "Address")
  | .boolean => .string (js "Boolean")
  | .field => .string (js "Field")
  | .group => .string (js "Group")
  | .identifier => .string (js "Identifier")
  | .scalar => .string (js "Scalar")
  | .signature => .string (js "Signature")
  | .uint size => tagged "UInt" (.string (size.name (js "U")))
  | .int size => tagged "Int" (.string (size.name (js "I")))

def encodeRef (path : List JsString) (program : Option JsString) : JsValue :=
  .object [(js "path", arrayOf .string path),
    (js "program", (program.map JsValue.string).getD .null)] none

def encodePlaintext : PlaintextType → JsValue
  | .primitive prim => tagged "Primitive" (encodePrimitive prim)
  | .struct ref => tagged "Struct" (encodeRef ref.path ref.program)
  | .array elem length => tagged "Array" (.object [(js "element", encodePlaintext elem),
      (js "length", .number (.finite length))] none)
  | .optional inner => tagged "Optional" (encodePlaintext inner)

def encodeStorageType : StorageType → JsValue
  | .plaintext ty => tagged "Plaintext" (encodePlaintext ty)
  | .vector elem => tagged "Vector" (encodeStorageType elem)

/-- `FunctionInput` and `FunctionOutput`. -/
def encodeIoType : IoType → JsValue
  | .plaintext ty => tagged "Plaintext" (encodePlaintext ty)
  | .record ref => tagged "Record" (encodeRef ref.path ref.program)
  | .future program => tagged "Future" (.string program)
  | .final => .string (js "Final")
  | .dynamicRecord => .string (js "DynamicRecord")

/-- The modes of Leo 4.1. -/
def Visibility.name : Visibility → JsString
  | .unmoded => js "None"
  | .constantMode => js "Constant"
  | .privateMode => js "Private"
  | .publicMode => js "Public"

/-- The mode that an element has if it is declared with none. -/
def Visibility.resolve (ioContext : IoContext) : Visibility → JsString
  | .unmoded => if ioContext = .view then js "Public" else js "Private"
  | mode => mode.name

/-- An element of Leo 4.2: a plaintext comes with its mode. -/
def encodePositional (ioContext : IoContext) (ty : IoType) (mode : Visibility) : JsValue :=
  match ty with
  | .plaintext ty => tagged "Plaintext" (.object [(js "ty", encodePlaintext ty),
      (js "mode", .string (mode.resolve ioContext))] none)
  | ty => encodeIoType ty

def encodeInput (line : Line) (ioContext : IoContext) (input : Input) : JsValue :=
  match line with
  | .v41 => .object [(js "name", .string input.name), (js "ty", encodeIoType input.ty),
      (js "mode", .string input.mode.name)] none
  | _ => encodePositional ioContext input.ty input.mode

def encodeOutput (line : Line) (ioContext : IoContext) (output : Output) : JsValue :=
  match line with
  | .v41 => .object [(js "ty", encodeIoType output.ty), (js "mode", .string output.mode.name)] none
  | _ => encodePositional ioContext output.ty output.mode

def encodeConstParameters (entry : Entry) : List (JsString × JsValue) :=
  unlessEmpty "const_parameters" (entry.constParameters.map some)

def encodeFunction (line : Line) (entry : Entry) : JsValue :=
  let inputs := arrayOf (encodeInput line .transition) entry.inputs
  let outputs := arrayOf (encodeOutput line .transition) entry.outputs
  match line with
  | .v41 => .object ([(js "name", .string entry.name), (js "is_final", .boolean entry.isFinal),
      (js "inputs", inputs), (js "outputs", outputs)] ++ encodeConstParameters entry) none
  | _ => .object [(js "name", .string entry.name), (js "inputs", inputs), (js "outputs", outputs)]
      none

def encodeView (line : Line) (entry : Entry) : JsValue :=
  .object ([(js "name", .string entry.name),
    (js "inputs", arrayOf (encodeInput line .view) entry.inputs),
    (js "outputs", arrayOf (encodeOutput line .view) entry.outputs)] ++
    match line with
    | .v41 => encodeConstParameters entry
    | _ => []) none

def encodeStruct (definition : StructDefinition) : JsValue :=
  .object [(js "path", arrayOf .string definition.path.segments),
    (js "fields", arrayOf (fun (name, ty) =>
      .object [(js "name", .string name), (js "ty", encodePlaintext ty)] none) definition.fields)]
    none

/-- Leo 4.2 writes no mode of a record field, and Leo 4.3 always `Private`. -/
def encodeRecordField (line : Line) (field : RecordField) : JsValue :=
  .object ([(js "name", .string field.name), (js "ty", encodePlaintext field.ty)] ++
    match line with
    | .v41 => [(js "mode", .string field.mode.name)]
    | .v42 => []
    | .v43 => [(js "mode", .string (js "Private"))]) none

def encodeRecord (line : Line) (definition : RecordDefinition) : JsValue :=
  .object [(js "path", arrayOf .string definition.path.segments),
    (js "fields", arrayOf (encodeRecordField line) definition.fields)] none

def encodeMapping (mapping : Mapping) : JsValue :=
  .object [(js "name", .string mapping.name), (js "key", encodePlaintext mapping.key),
    (js "value", encodePlaintext mapping.value)] none

def encodeStorageVariable : JsString × StorageType → JsValue
  | (name, ty) => .object [(js "name", .string name), (js "ty", encodeStorageType ty)] none

def encodeInterface : InterfaceRef → JsValue
  | .named name => .string name
  | .ref path program => encodeRef path program

/-- The properties that are always there. -/
def encodeCore (line : Line) (p : Program) : List (JsString × JsValue) :=
  [(js "program", .string p.program),
    (js "structs", arrayOf encodeStruct p.structs),
    (js "records", arrayOf (encodeRecord line) p.records),
    (js "mappings", arrayOf encodeMapping p.mappings),
    (js "storage_variables", arrayOf encodeStorageVariable p.storageVariables),
    (js "functions", arrayOf (encodeFunction line) p.functions)]

/-- The interfaces that a program implements; Leo 4.2 does not write them. -/
def encodeImplements (line : Line) (p : Program) : List (JsString × JsValue) :=
  if line = .v41 then unlessEmpty "implements" (p.interfaces.map fun i => some (encodeInterface i))
  else []

/-- The ABI of a program. -/
def encode (line : Line) (p : Program) : JsValue :=
  .object (encodeCore line p ++
    unlessEmpty "views" (p.views.map fun view => some (encodeView line view)) ++
    encodeImplements line p) none

/-! ## What it is normalised to -/

section Normal

variable (self : JsString)

/-- A reference to the program itself names no program. -/
def normalRef (ref : StructRef) : JsValue :=
  encodeRef ref.path (if ref.program = some self then none else ref.program)

def normalPlaintext : PlaintextType → JsValue
  | .primitive prim => tagged "Primitive" (encodePrimitive prim)
  | .struct ref => tagged "Struct" (normalRef self ref)
  | .array elem length =>
    tagged "Array" (.array [some (normalPlaintext elem), some (.number (.finite length))])
  | .optional inner => tagged "Optional" (normalPlaintext inner)

def normalStorageType : StorageType → JsValue
  | .plaintext ty => tagged "Plaintext" (normalPlaintext self ty)
  | .vector elem => tagged "Vector" (normalStorageType elem)

def normalIoType : IoType → JsValue
  | .plaintext ty => tagged "Plaintext" (normalPlaintext self ty)
  | .record ref => tagged "Record" (normalRef self ref)
  | .future program => tagged "Future" (.string program)
  | .final => tagged "Future" (.string self)
  | .dynamicRecord => .string (js "DynamicRecord")

def normalMode (ioContext : IoContext) (ty : IoType) (mode : Visibility) : JsValue :=
  match ty with
  | .plaintext _ => .string (mode.resolve ioContext)
  | _ => .string (js "Private")

def normalOutput (ioContext : IoContext) (output : Output) : JsValue :=
  .object [(js "ty", normalIoType self output.ty),
    (js "mode", normalMode ioContext output.ty output.mode)] none

/-- Names are synthesised from Leo 4.2 on. -/
def normalInput (line : Line) (ioContext : IoContext) (index : Nat) (input : Input) : JsValue :=
  .object [(js "name", .string (if line = .v41 then input.name else js "arg" ++ decimal index)),
    (js "ty", normalIoType self input.ty),
    (js "mode", normalMode ioContext input.ty input.mode)] none

/-- Elements with their indices, from that of the first on. -/
def indexed {α β : Type} (f : Nat → α → β) : Nat → List α → List β
  | _, [] => []
  | index, x :: rest => f index x :: indexed f (index + 1) rest

def normalInputs (line : Line) (ioContext : IoContext) (inputs : List Input) : JsValue :=
  .array (indexed (fun index input => some (normalInput self line ioContext index input)) 0 inputs)

def normalConstParameters (line : Line) (entry : Entry) : List (JsString × JsValue) :=
  if line = .v41 then encodeConstParameters entry else []

def normalFunction (line : Line) (entry : Entry) : JsValue :=
  .object ([(js "name", .string entry.name), (js "is_async", .boolean entry.isFinal),
    (js "inputs", normalInputs self line .transition entry.inputs),
    (js "outputs", arrayOf (normalOutput self .transition) entry.outputs)] ++
    normalConstParameters line entry) none

def normalView (line : Line) (entry : Entry) : JsValue :=
  .object ([(js "name", .string entry.name),
    (js "inputs", normalInputs self line .view entry.inputs),
    (js "outputs", arrayOf (normalOutput self .view) entry.outputs)] ++
    normalConstParameters line entry) none

def normalStruct (definition : StructDefinition) : JsValue :=
  .object [(js "path", arrayOf .string definition.path.segments),
    (js "fields", arrayOf (fun (name, ty) =>
      .object [(js "name", .string name), (js "ty", normalPlaintext self ty)] none)
      definition.fields)] none

/-- The mode of a record field is known from Leo 4.1 only. -/
def normalFieldMode (line : Line) (mode : Visibility) : JsString :=
  if line = .v41 then mode.resolve .transition else js "Private"

def normalRecordField (line : Line) (field : RecordField) : JsValue :=
  .object [(js "name", .string field.name), (js "ty", normalPlaintext self field.ty),
    (js "mode", .string (normalFieldMode line field.mode))] none

def normalRecord (line : Line) (definition : RecordDefinition) : JsValue :=
  .object [(js "path", arrayOf .string definition.path.segments),
    (js "fields", arrayOf (normalRecordField self line) definition.fields)] none

def normalMapping (mapping : Mapping) : JsValue :=
  .object [(js "name", .string mapping.name), (js "key", normalPlaintext self mapping.key),
    (js "value", normalPlaintext self mapping.value)] none

def normalStorageVariable : JsString × StorageType → JsValue
  | (name, ty) => .object [(js "name", .string name), (js "ty", normalStorageType self ty)] none

end Normal

/-- What the ABI of a program on a line of Leo is normalised to. -/
def normal (line : Line) (p : Program) : JsValue :=
  .object ([(js "program", .string p.program),
    (js "structs", arrayOf (normalStruct p.program) p.structs),
    (js "records", arrayOf (normalRecord p.program line) p.records),
    (js "mappings", arrayOf (normalMapping p.program) p.mappings),
    (js "storage_variables", arrayOf (normalStorageVariable p.program) p.storageVariables),
    (js "transitions", arrayOf (normalFunction p.program line) p.functions)] ++
    unlessEmpty "views" (p.views.map fun view => some (normalView p.program line view)) ++
    encodeImplements line p) none

end Lionden.Compiler
