import Lionden.Codegen.Runtime

/-!
# The generated codecs (`typescript-generator.ts`)

The generator as a shallow embedding: an expression that it emits is a function of the scope in
which the expression stands. A serializer expression evaluates its operand any number of times, so
it takes the operand's value; a deserializer expression binds local names (`_opt`, `e`), so it takes
the scope, where a name is in its temporal dead zone until its declaration is evaluated.

The generated functions of the structs call one another by name. `depth` bounds the nesting of
these calls, as the stack does: a call that does not fit is a `RangeError`.
-/

namespace Lionden.Codegen

/-! ## Zero values -/

/-- The zero of a primitive type. -/
def zeroPrimitive : PrimitiveType → Option JsString
  | .address => some (js "aleo1qqqqqqqqqqqqqqqqqqqqqqqqqqqqqqqqqqqqqqqqqqqqqqqqqqqq3ljyzc")
  | .boolean => some (js "false")
  | .field => some (js "0field")
  | .group => some (js "0group")
  | .identifier => some (quoted (js "lionden_zero"))
  | .scalar => some (js "0scalar")
  | .signature => none
  | .uint size => some (js "0" ++ size.name (js "u"))
  | .int size => some (js "0" ++ size.name (js "i"))

/-- The structs of the program that are not in `seen`. -/
def unseen (ctx : GenerationContext) (seen : List (List JsString)) : Nat :=
  (ctx.abi.structs.filter fun s => s.path ∉ seen).length

theorem unseen_lt {ctx : GenerationContext} {seen : List (List JsString)} {ref : StructRef}
    {struct : StructABI} (h : ctx.localStruct ref = some struct) (hseen : ref.path ∉ seen) :
    unseen ctx (ref.path :: seen) < unseen ctx seen := by
  have hfind : ctx.structsByKey ref.path = some struct := by
    simp only [GenerationContext.localStruct] at h
    split at h
    · cases h
    · exact h
  have hmem : struct ∈ ctx.abi.structs := by
    simpa using List.mem_of_find?_eq_some hfind
  have hpath : struct.path = ref.path := by simpa using List.find?_some hfind
  have hsub : (ctx.abi.structs.filter fun s => s.path ∉ ref.path :: seen) =
      (ctx.abi.structs.filter fun s => s.path ∉ seen).filter fun s => s.path ≠ ref.path := by
    rw [List.filter_filter]
    congr 1
    funext s
    simp [not_or]
  have hstruct : struct ∈ ctx.abi.structs.filter fun s => s.path ∉ seen := by
    simpa [hmem, hpath] using hseen
  rw [unseen, unseen, hsub]
  exact List.length_filter_lt_length_iff_exists.mpr ⟨struct, hstruct, by simp [hpath]⟩

theorem sizeOf_ty_lt (field : FieldABI) : sizeOf field.ty < sizeOf field := by
  cases field
  simp only [FieldABI.mk.sizeOf_spec]
  omega

mutual

/-- The literal that stands for the payload of an absent Optional; `none` where there is none. -/
def zeroLeoValue (ctx : GenerationContext) (seen : List (List JsString)) :
    PlaintextType → Option JsString
  | .primitive prim => zeroPrimitive prim
  | .array elem length => do
    let elemZero ← zeroLeoValue ctx seen elem
    return js "[" ++ join (js ", ") (List.replicate length elemZero) ++ js "]"
  | .optional inner => do
    let innerZero ← zeroLeoValue ctx seen inner
    return js "\x7b is_some: false, val: " ++ innerZero ++ js " \x7d"
  | .struct ref =>
    match h : ctx.localStruct ref with
    | none => none
    | some struct =>
      if hseen : ref.path ∈ seen then none
      else do
        have := unseen_lt h hseen
        let fieldValues ← zeroFields ctx (ref.path :: seen) struct.fields
        return js "\x7b " ++ join (js ", ") fieldValues ++ js " \x7d"
  termination_by ty => (unseen ctx seen, sizeOf ty)

def zeroFields (ctx : GenerationContext) (seen : List (List JsString)) :
    List FieldABI → Option (List JsString)
  | [] => some []
  | field :: fields => do
    have := sizeOf_ty_lt field
    let fieldZero ← zeroLeoValue ctx seen field.ty
    let rest ← zeroFields ctx seen fields
    return (field.name.name ++ js ": " ++ fieldZero) :: rest
  termination_by fields => (unseen ctx seen, sizeOf fields)

end

/-! ## Serializers -/

/-- The generated function `serialize<Name>` of a struct. -/
abbrev StructSerializer :=
  GenerationContext → StructABI → JsValue → Option TransitionInputContext → Except JsError JsString

def serializePrimitive (prim : PrimitiveType) (value : JsValue)
    (context : Option TransitionInputContext) : Except JsError JsString :=
  match prim with
  | .address => serializeAddress value context
  | .field => serializeScalarLike value .field context
  | .group => serializeScalarLike value .group context
  | .scalar => serializeScalarLike value .scalar context
  | .identifier => serializeIdentifier value context
  | .boolean => serializeBoolean value context
  | .signature => serializePlaintext value context
  | .uint size => serializeUInt value size context
  | .int size => serializeInt value size context

/-- The expression emitted by `serializePlaintextExpr`, at the value of its operand. -/
def serializePlaintextExpr (call : StructSerializer) (ctx : GenerationContext) :
    PlaintextType → JsValue → Option TransitionInputContext → Except JsError JsString
  | .primitive prim, value, context => serializePrimitive prim value context
  | .struct ref, value, context =>
    match ctx.resolveStruct ref with
    | some (ctx', struct) => call ctx' struct value context
    | none => serializePlaintext value context
  | .array elem _, value, context =>
    serializeArray value context (serializePlaintextExpr call ctx elem)
  | .optional inner, value, context =>
    if value.isNullish then
      match zeroLeoValue ctx [] inner with
      | some zero => .ok (js "\x7b is_some: false, val: " ++ zero ++ js " \x7d")
      | none => .error (serializeUnsupportedOptionalNone context)
    else do
      let val ← serializePlaintextExpr call ctx inner value context
      return js "\x7b is_some: true, val: " ++ val ++ js " \x7d"

/-- The field entries that a generated serializer pushes. -/
def serializeFields (call : StructSerializer) (ctx : GenerationContext)
    (props : List (JsString × JsValue)) (context : Option TransitionInputContext) :
    List FieldABI → Except JsError (List JsString)
  | [] => .ok []
  | field :: fields => do
    let text ← serializePlaintextExpr call ctx field.ty (JsValue.get props field.name.name)
      (childInputContext context field.name.name)
    let rest ← serializeFields call ctx props context fields
    return (field.name.name ++ js ": " ++ text) :: rest

/-- `serialize<Name>` of a struct, as `generateStructSerializer` emits it. -/
def serializeStruct : Nat → StructSerializer
  | 0, _, _, _, _ => .error .rangeError
  | depth + 1, ctx, struct, value, context => do
    let (props, _) ← assertObject value context
    let fields ← serializeFields (serializeStruct depth) ctx props context struct.fields
    return js "\x7b " ++ join (js ", ") fields ++ js " \x7d"

/-- The generated serializer of a plaintext type. -/
def serialize (depth : Nat) (ctx : GenerationContext) (ty : PlaintextType) (value : JsValue)
    (context : Option TransitionInputContext) : Except JsError JsString :=
  serializePlaintextExpr (serializeStruct depth) ctx ty value context

/-! ## Deserializers -/

/-- A local name of the generated code. -/
inductive Binding (α : Type) where
  | undeclared
  /-- Declared by a `const` whose initializer is being evaluated. -/
  | uninitialized
  | bound (a : α)

def Binding.read {α : Type} : Binding α → Except JsError α
  | bound a => .ok a
  | _ => .error .referenceError

/-- The local names of the generated deserializers: `value`, `_fields`, `e` and `_opt`. -/
structure Scope where
  value : Binding JsValue
  fields : Binding Properties
  elem : Binding JsValue
  opt : Binding Properties

/-- The scope of the body of a generated function. -/
def Scope.ofValue (value : JsValue) : Scope :=
  { value := .bound value, fields := .undeclared, elem := .undeclared, opt := .undeclared }

/-- An emitted expression: a function of the scope in which it is evaluated. -/
abbrev Code (α : Type) := Scope → Except JsError α

/-- The generated function `deserialize<Name>` of a struct. -/
abbrev StructDeserializer := GenerationContext → StructABI → JsValue → Except JsError JsValue

/-- `isBigIntType`. -/
def isBigIntType (size : IntegerSize) : Bool :=
  match size with
  | .s64 | .s128 => true
  | _ => false

def deserializeInteger (size : IntegerSize) (value : JsValue) : Except JsError JsValue :=
  if isBigIntType size then JsValue.bigint <$> parseBigInt value
  else JsValue.number <$> parseNumber value

def deserializePrimitive (prim : PrimitiveType) (value : JsValue) : Except JsError JsValue :=
  match prim with
  | .address => JsValue.string <$> parseAddress value
  | .field => JsValue.string <$> parseScalarLike value .field
  | .group => JsValue.string <$> parseScalarLike value .group
  | .scalar => JsValue.string <$> parseScalarLike value .scalar
  | .identifier => JsValue.string <$> parseIdentifier value
  | .boolean => JsValue.boolean <$> parseBoolean value
  | .signature => .ok value
  | .uint size => deserializeInteger size value
  | .int size => deserializeInteger size value

/-- The expression emitted by `deserializePlaintextExpr` for the operand `expr`. -/
def deserializePlaintextExpr (call : StructDeserializer) (ctx : GenerationContext) :
    PlaintextType → Code JsValue → Code JsValue
  | .primitive prim, expr => fun scope => do
    let value ← expr scope
    deserializePrimitive prim value
  | .struct ref, expr => fun scope => do
    let value ← expr scope
    match ctx.resolveStruct ref with
    | some (ctx', struct) => call ctx' struct value
    | none => return value
  | .array elem _, expr => fun scope => do
    let value ← expr scope
    let elements ← parseArray value
    let values ← elements.mapM fun e =>
      deserializePlaintextExpr call ctx elem (fun scope => scope.elem.read)
        { scope with elem := .bound (.string e) }
    return .array (values.map some)
  | .optional inner, expr => fun scope => do
    -- The operand stands in the initializer of the `_opt` that it may mean to read.
    let value ← expr { scope with opt := .uninitialized }
    let opt ← parseStruct value
    let isSome ← parseBoolean (opt.text (js "is_some"))
    if isSome then
      deserializePlaintextExpr call ctx inner
        (fun scope => do
          let opt ← scope.opt.read
          return opt.text (js "val"))
        { scope with opt := .bound opt }
    else return .null

/-- The properties of the object literal that a generated deserializer returns. -/
def deserializeFields (call : StructDeserializer) (ctx : GenerationContext) :
    List FieldABI → Code (List (JsString × JsValue))
  | [] => fun _ => .ok []
  | field :: fields => fun scope => do
    let value ← deserializePlaintextExpr call ctx field.ty
      (fun scope => do
        let fields ← scope.fields.read
        return fields.text field.name.name)
      scope
    let rest ← deserializeFields call ctx fields scope
    return (field.name.name, value) :: rest

/-- `deserialize<Name>` of a struct, as `generateStructDeserializer` emits it. -/
def deserializeStruct : Nat → StructDeserializer
  | 0, _, _, _ => .error .rangeError
  | depth + 1, ctx, struct, value => do
    let scope := Scope.ofValue value
    let value ← scope.value.read
    let fields ← parseStruct value
    let props ← deserializeFields (deserializeStruct depth) ctx struct.fields
      { scope with fields := .bound fields }
    return .object props none

/-- The generated deserializer of a plaintext type, a function of its parameter `value`. -/
def deserialize (depth : Nat) (ctx : GenerationContext) (ty : PlaintextType) (value : JsString) :
    Except JsError JsValue :=
  deserializePlaintextExpr (deserializeStruct depth) ctx ty (fun scope => scope.value.read)
    (Scope.ofValue (.string value))

/-! ## Records -/

/-- `object[key] = value` for the properties of an object literal: a property that is there already
keeps its place. -/
def setProperty (key : JsString) (value : JsValue) :
    List (JsString × JsValue) → List (JsString × JsValue)
  | [] => [(key, value)]
  | (k, v) :: props => if k = key then (k, value) :: props else (k, v) :: setProperty key value props

/-- `serialize<Name>` of a record, as `generateRecordSerializer` emits it. -/
def serializeRecord (depth : Nat) (ctx : GenerationContext) (record : RecordABI) (value : JsValue)
    (context : Option TransitionInputContext) : Except JsError JsString := do
  let (props, raw) ← assertObject value context
  match raw with
  | some (.string s) => return s
  | _ =>
    let fields ← serializeFields (serializeStruct depth) ctx props context record.fields
    let nonce ← serializeScalarLike (JsValue.get props (js "_nonce")) .group
      (childInputContext context (js "_nonce"))
    return js "\x7b " ++ join (js ", ") (fields ++ [js "_nonce: " ++ nonce]) ++ js " \x7d"

/-- The fields of a record but for its owner. -/
def RecordABI.others (record : RecordABI) : List FieldABI :=
  record.fields.filter fun field => field.name.name ≠ js "owner"

/-- `deserialize<Name>` of a record, as `generateRecordDeserializer` emits it. -/
def deserializeRecord (depth : Nat) (ctx : GenerationContext) (record : RecordABI)
    (value : JsString) : Except JsError JsValue := do
  let fields ← parseStruct (.string value)
  let owner ← parseAddress (fields.text (js "owner"))
  let props ← deserializeFields (deserializeStruct depth) ctx record.others
    { Scope.ofValue (.string value) with fields := .bound fields }
  let nonce ← parseScalarLike
    (match fields.text (js "_nonce") with
      | .undefined => .string []
      | v => v) .group
  return .object (setProperty (js "_nonce") (.string nonce) ((js "owner", .string owner) :: props))
    (some (.string value))

end Lionden.Codegen
