import Lionden.Codegen.Projector

/-!
# Methods of transitions and views (`typescript-generator.ts`)

The methods that are generated for a transition or a view have its inputs as parameters, serialize
them, and decode what comes back. Expressions are syntax trees here, as in the projector.

* `Serializer`, `serializeAleoTypeExpr`: the expressions that serialize an input.
* `generateTransitionMethod`, `generateViewAccessor`: the bodies of the methods.
* `Method.locals`, `Method.references`: what a body declares, and what of the module it refers to.
-/

namespace Lionden.Codegen.Bindings

/-! ## Serializers -/

/-- An expression that serializes its operand. -/
inductive Serializer where
  /-- A method of `BaseContract`; that of an integer takes its bits. -/
  | method (name : JsString) (bits : Option Nat)
  /-- `serialize<typeName>`. -/
  | named (typeName inputName : JsString)
  | array (elem : Serializer)
  /-- The zero stands for the payload of an absent value. -/
  | optional (inner : Serializer) (zero : Option JsString)

/-- The expression for an operand and a context. -/
def Serializer.text : Serializer → JsString → JsString → JsString
  | method name none, expr, context =>
    js "BaseContract." ++ name ++ js "(" ++ expr ++ js ", " ++ context ++ js ")"
  | method name (some bits), expr, context =>
    js "BaseContract." ++ name ++ js "(" ++ expr ++ js ", " ++ decimal bits ++ js ", " ++ context ++
      js ")"
  | named typeName inputName, expr, context =>
    js "serialize" ++ typeName ++ js "(" ++ expr ++ js " as " ++ inputName ++ js ", " ++ context ++
      js ")"
  | array elem, expr, context =>
    js "BaseContract.serializeArray(" ++ expr ++ js ", " ++ context ++
      js ", (e: unknown, context: TransitionInputContext | undefined) => " ++
      elem.text (js "e") (js "context") ++ js ")"
  | optional inner zero, expr, context =>
    js "(" ++ expr ++ js " != null ? \"\x7b is_some: true, val: \" + " ++ inner.text expr context ++
      js " + \" \x7d\" : " ++
      (match zero with
        | some zero => js "\"\x7b is_some: false, val: " ++ zero ++ js " \x7d\""
        | none => js "BaseContract.serializeUnsupportedOptionalNone(" ++ context ++ js ")") ++ js ")"

def serializePrimitive : PrimitiveType → Serializer
  | .address => .method (js "serializeAddress") none
  | .field => .method (js "serializeField") none
  | .group => .method (js "serializeGroup") none
  | .scalar => .method (js "serializeScalar") none
  | .identifier => .method (js "serializeIdentifier") none
  | .boolean => .method (js "serializeBoolean") none
  | .signature => .method (js "serializePlaintext") none
  | .uint size => .method (js "serializeUInt") (some size.bits)
  | .int size => .method (js "serializeInt") (some size.bits)

section Expressions

variable (ctx : GenerationContext)

/-- `zeroLeoValue(ty, ctx)`, which looks at the program's own structs only. -/
def zeroLeoValue (ty : PlaintextType) : Option JsString :=
  Codegen.zeroLeoValue { abi := ctx.abi.toProgramABI, programsById := fun _ => none } [] ty

def serializePlaintextExpr : PlaintextType → Serializer
  | .primitive prim => serializePrimitive prim
  | .struct ref =>
    if isLocalStructRef ctx ref then
      .named (pathToTsName ref.path) (ctx.refInputName ctx.abi.structPaths ref)
    else
      match externalInfo ctx ref with
      | some external => .named external.typeName (ctx.refInputName ctx.abi.structPaths ref)
      | none => .method (js "serializePlaintext") none
  | .array elem _ => .array (serializePlaintextExpr elem)
  | .optional inner => .optional (serializePlaintextExpr inner) (zeroLeoValue ctx inner)

def serializeAleoTypeExpr : AleoType → Serializer
  | .dynamicRecord => .method (js "serializeDynamicRecord") none
  | .plaintext ty => serializePlaintextExpr ctx ty
  | .record ref =>
    if isLocalRecordRef ctx ref then
      .named (pathToTsName ref.path) (ctx.refInputName ctx.abi.recordPaths ref)
    else
      match externalInfo ctx ref with
      | some external => .named external.typeName (ctx.refInputName ctx.abi.recordPaths ref)
      | none => .method (js "serializeDynamicRecord") none
  | .future => .method (js "serializePlaintext") none

/-- An expression that decodes an output. -/
inductive OutputDecoder where
  | parseDynamicRecord
  | decode (decoder : Decoder)
  /-- `undefined as any`. -/
  | undefined

def OutputDecoder.text : OutputDecoder → JsString → JsString
  | parseDynamicRecord, expr => js "BaseContract.parseDynamicRecord(" ++ expr ++ js ")"
  | decode decoder, expr => decoder.text expr
  | undefined, _ => js "undefined as any"

def deserializeOutputExpr : AleoType → OutputDecoder
  | .dynamicRecord => .parseDynamicRecord
  | .plaintext ty => .decode (deserializePlaintextExpr ctx ty)
  | .record ref =>
    if isLocalRecordRef ctx ref then .decode (.named (pathToTsName ref.path))
    else
      match externalInfo ctx ref with
      | some external => .decode (.named external.typeName)
      | none => .parseDynamicRecord
  | .future => .undefined

end Expressions

/-! ## Methods -/

structure AbiInput where
  name : JsString
  ty : AleoType

/-- A transition or a view, with the names of its inputs. -/
structure CallableABI where
  name : JsString
  inputs : List AbiInput
  outputs : List AbiOutput

def CallableABI.transition (callable : CallableABI) : TransitionABI where
  name := callable.name
  inputs := callable.inputs.map (·.ty)
  outputs := callable.outputs

/-- What a body does with the arguments. -/
inductive Call where
  /-- `executeLocal`; the outputs are decoded and returned. -/
  | executeLocal (outputs : List OutputDecoder)
  /-- Another method of the contract, with the arguments and the options. -/
  | contract (name : JsString)
  /-- And with a projector, too. -/
  | typed (name : JsString) (projector : Projector)
  /-- `queryViewRaw`; the outputs are decoded and returned. -/
  | queryViewRaw (outputs : List OutputDecoder)

/-- A method: the array `_args` of its serialized parameters, and a call. -/
structure Method where
  key : JsString
  args : List Serializer
  call : Call

section Methods

variable (ctx : GenerationContext)

/-- The elements of `_args`. -/
def generateSerializedArgs (callable : CallableABI) : List Serializer :=
  callable.inputs.map fun input => serializeAleoTypeExpr ctx input.ty

def outputDecoders (callable : CallableABI) : List OutputDecoder :=
  callable.outputs.map fun output => deserializeOutputExpr ctx output.ty

def generateTransitionMethod (transition : CallableABI) : List Method :=
  let args := generateSerializedArgs ctx transition
  let projectorExpr := formatProjectorExpr ctx transition.transition (js "this.sourceProgramId")
    (js "this.programId")
  [⟨js "locally", args, .executeLocal (outputDecoders ctx transition)⟩,
    ⟨js "failsLocally", args, .contract (js "expectLocalFailure")⟩,
    ⟨js "captureLocalFailure", args, .contract (js "expectLocalFailure")⟩,
    ⟨js "submitted", args, .contract (js "submitTransition")⟩,
    ⟨js "settled", args, .typed (js "settleTyped") projectorExpr⟩,
    ⟨js "accepted", args, .typed (js "expectAcceptedTyped") projectorExpr⟩,
    ⟨js "rejected", args, .contract (js "expectRejected")⟩]

/-- Its key is `propKeys.get(view.name)`. -/
def generateViewAccessor (key : JsString) (view : CallableABI) : Method :=
  ⟨key, generateSerializedArgs ctx view, .queryViewRaw (outputDecoders ctx view)⟩

end Methods

/-! ## The identifiers of a body -/

def Call.locals : Call → List JsString
  | executeLocal outputs => [js "options", js "_result"] ++
      if 1 < outputs.length then [js "_decoded"] else []
  | contract _ | typed _ _ => [js "options"]
  | queryViewRaw _ => [js "_result"]

/-- What is declared in the scope of a method besides its inputs. -/
def Method.locals (method : Method) : List JsString := js "_args" :: method.call.locals

/-- The identifiers of an expression, without those of its operand, of its context and of the
parameters of its own functions. -/
def Serializer.references : Serializer → List JsString
  | method _ _ => [js "BaseContract"]
  | named typeName _ => [js "serialize" ++ typeName]
  | array elem => js "BaseContract" :: elem.references
  | optional inner (some _) => inner.references
  | optional inner none => inner.references ++ [js "BaseContract"]

def Decoder.references : Decoder → List JsString
  | parse _ => [js "BaseContract"]
  | named typeName => [js "deserialize" ++ typeName]
  | array elem => js "BaseContract" :: elem.references
  | optional inner => js "BaseContract" :: inner.references
  | identity => []

def OutputDecoder.references : OutputDecoder → List JsString
  | parseDynamicRecord => [js "BaseContract"]
  | decode decoder => decoder.references
  | undefined => [js "undefined"]

def Callback.references : Callback → List JsString
  | method _ => [js "BaseContract"]
  | arrow body => body.references

def ElementExpr.references : ElementExpr → List JsString
  | makeIdOnlyDynamicRecordHandle .. | makeIdOnlyExternalRecordHandle .. | raw _ =>
    [js "BaseContract"]
  | makeEncryptedRecord _ _ _ deserialized _ =>
    [js "BaseContract", js "deserialize" ++ deserialized]
  | makeEncryptedValue _ _ _ _ _ deserialize => js "BaseContract" :: deserialize.references
  | decode decoder _ => js "BaseContract" :: decoder.references

def Body.references : Body → List JsString
  | undefined => [js "undefined"]
  | single expr => expr.references
  | tuple exprs _ => exprs.flatMap ElementExpr.references

def Call.references : Call → List JsString
  | executeLocal [] => [js "undefined"]
  | executeLocal outputs | queryViewRaw outputs => outputs.flatMap OutputDecoder.references
  | contract _ => []
  | typed _ projector => projector.body.references

/-- The identifiers of a body that are neither its own nor its inputs. -/
def Method.references (method : Method) : List JsString :=
  method.args.flatMap Serializer.references ++ method.call.references

end Lionden.Codegen.Bindings
