import Lionden.Codegen.Bindings
import Lionden.Codegen.Generator

/-!
# Typed outputs and their projector (`typescript-generator.ts`)

For a transition the generator writes the type of its on-chain outputs and the function that makes
them of the raw outputs. Both are syntax trees here, with the text that is emitted for them.

* `formatTypedOutputType`: the type.
* `Decoder`: the expressions that decode a plaintext.
* `formatProjectorExpr`: the function.
-/

namespace Lionden.Codegen.Bindings

/-! ## ABIs -/

inductive Mode where
  | Public
  | Private
  | Constant
  deriving DecidableEq

structure AbiOutput where
  ty : AleoType
  mode : Mode

structure TransitionABI where
  name : JsString
  inputs : List AleoType
  outputs : List AbiOutput

def isFutureOutput : AleoType → Bool
  | .future => true
  | _ => false

/-- Only `Public` plaintext outputs are no value ciphertexts. -/
def isPrivatePlaintextOutput (output : AbiOutput) : Bool :=
  match output.ty with
  | .plaintext _ => decide (output.mode ≠ .Public)
  | _ => false

/-! ## References -/

section References

variable (ctx : GenerationContext)

/-- `ref.program` is null, or the program itself. -/
def isOwnProgram (ref : StructRef) : Bool :=
  decide (ref.program = none) || decide (ref.program = some ctx.abi.program)

def isLocalStructRef (ref : StructRef) : Bool :=
  isOwnProgram ctx ref &&
    ctx.abi.structPaths.any fun path => decide (pathKey path = pathKey ref.path)

def isLocalRecordRef (ref : RecordRef) : Bool :=
  isOwnProgram ctx ref &&
    ctx.abi.recordPaths.any fun path => decide (pathKey path = pathKey ref.path)

/-- `externalStructInfo(ref, ctx)` and `externalRecordInfo(ref, ctx)`. -/
def externalInfo (ref : StructRef) : Option ExternalRefInfo :=
  match ref.program with
  | none => none
  | some programId =>
    if programId = [] ∨ programId = ctx.abi.program then none
    else ctx.externalInfoByKey.get? (externalRefKey ref)

/-! ## Types -/

inductive TsType where
  | name (n : JsString)
  | generic (head : JsString) (arg : TsType)
  | nullable (type : TsType)
  deriving DecidableEq

def TsType.text : TsType → JsString
  | name n => n
  | generic head arg => head ++ js "<" ++ arg.text ++ js ">"
  | nullable type => type.text ++ js " | null"

def primitiveOutputBindingTs : PrimitiveType → TsType
  | .address => .name (js "LeoAddress")
  | .boolean => .name (js "boolean")
  | .field => .name (js "LeoField")
  | .group => .name (js "LeoGroup")
  | .identifier => .name (js "LeoIdentifier")
  | .scalar => .name (js "LeoScalar")
  -- no case of the switch, and no bigint type
  | .signature => .name (js "number")
  | .uint size | .int size => .name (if isBigIntType size then js "bigint" else js "number")

def plaintextToOutputBindingTs : PlaintextType → TsType
  | .primitive prim => primitiveOutputBindingTs prim
  | .struct ref =>
    if isLocalStructRef ctx ref then .name (pathToTsName ref.path)
    else .name (((externalInfo ctx ref).map ExternalRefInfo.typeName).getD (js "LeoPlaintext"))
  | .array elem _ => .generic (js "ReadonlyArray") (plaintextToOutputBindingTs elem)
  | .optional inner => .nullable (plaintextToOutputBindingTs inner)

def typedOutputElementType (output : AbiOutput) : TsType :=
  match output.ty with
  | .dynamicRecord => .name (js "IdOnlyDynamicRecordHandle")
  | .record ref =>
    if isLocalRecordRef ctx ref then
      .generic (js "EncryptedRecord") (.name (pathToTsName ref.path))
    else
      match externalInfo ctx ref with
      | some external => .generic (js "IdOnlyExternalRecordHandle") (.name external.typeName)
      | none => .generic (js "IdOnlyExternalRecordHandle") (.name (js "LeoDynamicRecord"))
  | .plaintext ty =>
    let decoded := plaintextToOutputBindingTs ctx ty
    if isPrivatePlaintextOutput output then .generic (js "EncryptedValue") decoded else decoded
  | .future => .name (js "unknown")

/-- The type of all outputs. -/
inductive OutputType where
  | void
  | single (type : TsType)
  | tuple (types : List TsType)

def OutputType.text : OutputType → JsString
  | void => js "void"
  | single type => type.text
  | tuple types => js "[" ++ join (js ", ") (types.map TsType.text) ++ js "]"

/-- The elements of the type. -/
def OutputType.elems : OutputType → List TsType
  | void => []
  | single type => [type]
  | tuple types => types

def formatTypedOutputType (outputs : List AbiOutput) : OutputType :=
  let visible := outputs.filter fun o => !isFutureOutput o.ty
  match visible with
  | [] => .void
  | [o] => .single (typedOutputElementType ctx o)
  | _ => .tuple (visible.map (typedOutputElementType ctx))

/-! ## Decoders -/

/-- The methods of `BaseContract` that parse a literal. -/
inductive Parser where
  | parseAddress
  | parseField
  | parseGroup
  | parseScalar
  | parseIdentifier
  | parseBoolean
  | parseNumber
  | parseBigInt
  | parsePlaintext

def Parser.name : Parser → JsString
  | parseAddress => js "parseAddress"
  | parseField => js "parseField"
  | parseGroup => js "parseGroup"
  | parseScalar => js "parseScalar"
  | parseIdentifier => js "parseIdentifier"
  | parseBoolean => js "parseBoolean"
  | parseNumber => js "parseNumber"
  | parseBigInt => js "parseBigInt"
  | parsePlaintext => js "parsePlaintext"

/-- An expression that decodes its operand. -/
inductive Decoder where
  | parse (parser : Parser)
  /-- `deserialize<typeName>`. -/
  | named (typeName : JsString)
  | array (elem : Decoder)
  | optional (inner : Decoder)
  /-- The operand itself. -/
  | identity

/-- The expression for an operand. -/
def Decoder.text : Decoder → JsString → JsString
  | parse parser, expr => js "BaseContract." ++ parser.name ++ js "(" ++ expr ++ js ")"
  | named typeName, expr => js "deserialize" ++ typeName ++ js "(" ++ expr ++ js ")"
  | array elem, expr =>
    js "BaseContract.parseArray(" ++ expr ++ js ").map((e: string) => " ++ elem.text (js "e") ++
      js ")"
  | optional inner, expr =>
    js "(() => \x7b const _opt = BaseContract.parseStruct(" ++ expr ++
      js "); return BaseContract.parseBoolean(_opt[\"is_some\"]!) ? " ++
      inner.text (js "_opt[\"val\"]!") ++ js " : null; \x7d)()"
  | identity, expr => expr

def deserializePrimitiveExpr : PrimitiveType → Decoder
  | .address => .parse .parseAddress
  | .field => .parse .parseField
  | .group => .parse .parseGroup
  | .scalar => .parse .parseScalar
  | .identifier => .parse .parseIdentifier
  | .boolean => .parse .parseBoolean
  | .signature => .identity
  | .uint size | .int size => .parse (if isBigIntType size then .parseBigInt else .parseNumber)

def deserializePlaintextExpr : PlaintextType → Decoder
  | .primitive prim => deserializePrimitiveExpr prim
  | .struct ref =>
    if isLocalStructRef ctx ref then .named (pathToTsName ref.path)
    else
      match externalInfo ctx ref with
      | some external => .named external.typeName
      | none => .parse .parsePlaintext
  | .array elem _ => .array (deserializePlaintextExpr elem)
  | .optional inner => .optional (deserializePlaintextExpr inner)

/-- A function that decodes its argument. -/
inductive Callback where
  | method (parser : Parser)
  | arrow (body : Decoder)

def Callback.text : Callback → JsString
  | method parser => js "BaseContract." ++ parser.name
  | arrow body => js "(_p: string) => " ++ body.text (js "_p")

/-- What the function does. -/
def Callback.decoder : Callback → Decoder
  | method parser => .parse parser
  | arrow body => body

def plaintextDeserializerFn (ty : PlaintextType) : Callback :=
  match ty with
  | .primitive .address => .method .parseAddress
  | .primitive .field => .method .parseField
  | .primitive .group => .method .parseGroup
  | .primitive .scalar => .method .parseScalar
  | .primitive .identifier => .method .parseIdentifier
  | .primitive .boolean => .method .parseBoolean
  | .primitive (.uint size) | .primitive (.int size) =>
    .method (if isBigIntType size then .parseBigInt else .parseNumber)
  | ty => .arrow (deserializePlaintextExpr ctx ty)

/-! ## The projector -/

inductive Accessor where
  | rawOutputAt
  | idOnlyRecordOutputAt

def Accessor.name : Accessor → JsString
  | rawOutputAt => js "rawOutputAt"
  | idOnlyRecordOutputAt => js "idOnlyRecordOutputAt"

/-- `BaseContract.<accessor>(<rawOutputs>, <program>, "<transition>", <abiIndex>)`. -/
structure Access where
  accessor : Accessor
  rawOutputs : JsString := js "rawOutputs"
  program : JsString
  transition : JsString
  abiIndex : Nat

def Access.text (a : Access) : JsString :=
  js "BaseContract." ++ a.accessor.name ++ js "(" ++ a.rawOutputs ++ js ", " ++ a.program ++
    js ", \"" ++ a.transition ++ js "\", " ++ decimal a.abiIndex ++ js ")"

/-- The expression of an element, with the identifiers and expressions that it is made of. -/
inductive ElementExpr where
  | makeIdOnlyDynamicRecordHandle (entry : Access) (transitions sourceProgram runtimeProgram : JsString)
  | makeEncryptedRecord (program recordName : JsString) (ciphertext : Access)
      (deserialized sourceProgram : JsString)
  | makeIdOnlyExternalRecordHandle (typeArg : JsString) (entry : Access)
      (transitions sourceProgram runtimeProgram : JsString)
  | makeEncryptedValue (ciphertext : Access) (tpk program transition : JsString) (globalIndex : Nat)
      (deserialize : Callback)
  | decode (decoder : Decoder) (access : Access)
  | raw (access : Access)

def ElementExpr.text : ElementExpr → JsString
  | makeIdOnlyDynamicRecordHandle entry transitions sourceProgram runtimeProgram =>
    js "BaseContract.makeIdOnlyDynamicRecordHandle(" ++ entry.text ++ js ", " ++ transitions ++
      js ", " ++ sourceProgram ++ js ", " ++ runtimeProgram ++ js ")"
  | makeEncryptedRecord program recordName ciphertext deserialized sourceProgram =>
    js "BaseContract.makeEncryptedRecord(" ++ program ++ js ", \"" ++ recordName ++ js "\", " ++
      ciphertext.text ++ js ", deserialize" ++ deserialized ++ js ", " ++ sourceProgram ++ js ")"
  | makeIdOnlyExternalRecordHandle typeArg entry transitions sourceProgram runtimeProgram =>
    js "BaseContract.makeIdOnlyExternalRecordHandle<" ++ typeArg ++ js ">(" ++ entry.text ++
      js ", " ++ transitions ++ js ", " ++ sourceProgram ++ js ", " ++ runtimeProgram ++ js ")"
  | makeEncryptedValue ciphertext tpk program transition globalIndex deserialize =>
    js "BaseContract.makeEncryptedValue(" ++ ciphertext.text ++ js ", " ++ tpk ++ js ", " ++
      program ++ js ", \"" ++ transition ++ js "\", " ++ decimal globalIndex ++ js ", " ++
      deserialize.text ++ js ")"
  | decode decoder access => decoder.text access.text
  | raw access => access.text

def projectorElementExpr (rawExpr : Access) (output : AbiOutput)
    (sourceProgramExpr runtimeProgramExpr transitionName : JsString) (abiIndex inputCount : Nat) :
    ElementExpr :=
  let idOnlyAccess : Access :=
    { accessor := .idOnlyRecordOutputAt, program := runtimeProgramExpr,
      transition := transitionName, abiIndex }
  match output.ty with
  | .dynamicRecord =>
    .makeIdOnlyDynamicRecordHandle idOnlyAccess (js "transitions") sourceProgramExpr
      runtimeProgramExpr
  | .record ref =>
    if isLocalRecordRef ctx ref then
      .makeEncryptedRecord runtimeProgramExpr (pathToTsName ref.path) rawExpr
        (pathToTsName ref.path) sourceProgramExpr
    else
      let typeArg :=
        ((externalInfo ctx ref).map ExternalRefInfo.typeName).getD (js "LeoDynamicRecord")
      .makeIdOnlyExternalRecordHandle typeArg idOnlyAccess (js "transitions") sourceProgramExpr
        runtimeProgramExpr
  | .plaintext ty =>
    if isPrivatePlaintextOutput output then
      let globalIndex := inputCount + abiIndex
      .makeEncryptedValue rawExpr (js "tpk") runtimeProgramExpr transitionName globalIndex
        (plaintextDeserializerFn ctx ty)
    else .decode (deserializePlaintextExpr ctx ty) rawExpr
  | .future => .raw rawExpr

def projectorElementUsesTransitions (output : AbiOutput) : Bool :=
  match output.ty with
  | .dynamicRecord => true
  | .record ref => !isLocalRecordRef ctx ref
  | _ => false

inductive Body where
  | undefined
  | single (expr : ElementExpr)
  | tuple (exprs : List ElementExpr) (type : OutputType)

def Body.elems : Body → List ElementExpr
  | undefined => []
  | single expr => [expr]
  | tuple exprs _ => exprs

/-- An arrow function: the names of its parameters, and its body. -/
structure Projector where
  rawOutputs : JsString
  tpk : JsString
  transitions : JsString
  body : Body

def Body.text : Body → JsString
  | undefined => js "undefined as void"
  | single expr => expr.text
  | tuple exprs type =>
    js "([" ++ join (js ", ") (exprs.map ElementExpr.text) ++ js "] as " ++ type.text ++ js ")"

def Projector.text (p : Projector) : JsString :=
  js "(" ++ p.rawOutputs ++ js ": readonly RawTransitionOutput[], " ++ p.tpk ++ js ": string, " ++
    p.transitions ++ js ": readonly ConfirmedTransitionRecord[]) => " ++ p.body.text

/-- The indices of the outputs that are no futures. -/
def visibleIndices (outputs : List AbiOutput) : List Nat :=
  (outputs.zipIdx.filter fun o => !isFutureOutput o.1.ty).map Prod.snd

def formatProjectorExpr (transition : TransitionABI)
    (sourceProgramExpr runtimeProgramExpr : JsString) : Projector :=
  let visibleIndices := visibleIndices transition.outputs
  let hasPrivatePlaintext := transition.outputs.any isPrivatePlaintextOutput
  let tpk := if hasPrivatePlaintext then js "tpk" else js "_tpk"
  let usesTransitions := transition.outputs.any (projectorElementUsesTransitions ctx)
  let transitions := if usesTransitions then js "transitions" else js "_transitions"
  let inputCount := transition.inputs.length
  let rawAccess (abiIndex : Nat) : Access :=
    { accessor := .rawOutputAt, program := runtimeProgramExpr, transition := transition.name,
      abiIndex }
  -- `transition.outputs[abiIndex]!` is there for every index of the list
  let decodeForIndex (abiIndex : Nat) : Option ElementExpr :=
    transition.outputs[abiIndex]?.map fun output =>
      projectorElementExpr ctx (rawAccess abiIndex) output sourceProgramExpr runtimeProgramExpr
        transition.name abiIndex inputCount
  match visibleIndices.filterMap decodeForIndex with
  | [] => { rawOutputs := js "_rawOutputs", tpk, transitions, body := .undefined }
  | [expr] => { rawOutputs := js "rawOutputs", tpk, transitions, body := .single expr }
  | exprs =>
    { rawOutputs := js "rawOutputs", tpk, transitions,
      body := .tuple exprs (formatTypedOutputType ctx transition.outputs) }

end References

end Lionden.Codegen.Bindings
