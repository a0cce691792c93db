import Lionden.Js.Value

/-!
# ABIs (`abi-types.ts`)

The part of a program's ABI that its codecs are generated from. Names of struct and record fields
are identifiers of the Leo language and distinct in their struct or record, as the compiler that
writes the ABI guarantees.
-/

namespace Lionden.Codegen

/-- The sizes of `UIntSize` and `IntSize`. -/
inductive IntegerSize where
  | s8
  | s16
  | s32
  | s64
  | s128
  deriving DecidableEq

def IntegerSize.bits : IntegerSize → Nat
  | s8 => 8
  | s16 => 16
  | s32 => 32
  | s64 => 64
  | s128 => 128

/-- The suffix of the integers of a size: `u` or `i` and the bits. -/
def IntegerSize.name (letter : JsString) (size : IntegerSize) : JsString :=
  letter ++ decimal size.bits

inductive PrimitiveType where
  | address
  | boolean
  | field
  | group
  | identifier
  | scalar
  | signature
  | uint (size : IntegerSize)
  | int (size : IntegerSize)
  deriving DecidableEq

structure StructRef where
  path : List JsString
  program : Option JsString
  deriving DecidableEq

inductive PlaintextType where
  | primitive (prim : PrimitiveType)
  | struct (ref : StructRef)
  | array (elem : PlaintextType) (length : Nat)
  | optional (inner : PlaintextType)
  deriving DecidableEq

/-! ## Names -/

def isLetter (ch : CodeUnit) : Bool := inRange 'A' 'Z' ch || inRange 'a' 'z' ch

def isIdentifierStart (ch : CodeUnit) : Bool := isLetter ch || ch = unit '_'

def isIdentifierPart (ch : CodeUnit) : Bool := isIdentifierStart ch || isDigit ch

/-- `/^[A-Za-z_][A-Za-z0-9_]*$/`. -/
def isIdentifierName (s : JsString) : Bool :=
  match s with
  | [] => false
  | c :: rest => isIdentifierStart c && rest.all isIdentifierPart

/-- A field name: an identifier, and not the accessor of an object's prototype. -/
structure FieldName where
  name : JsString
  identifier : isIdentifierName name = true
  ordinary : name ≠ js "__proto__"
  deriving DecidableEq

structure FieldABI where
  name : FieldName
  ty : PlaintextType
  deriving DecidableEq

structure StructABI where
  path : List JsString
  fields : List FieldABI
  distinct : (fields.map (·.name)).Nodup

structure RecordABI where
  path : List JsString
  fields : List FieldABI
  distinct : (fields.map (·.name)).Nodup

structure ProgramABI where
  program : JsString
  structs : List StructABI

/-! ## The context of the generator -/

/-- `GenerationContext`: the program that bindings are generated for, and the other programs. -/
structure GenerationContext where
  abi : ProgramABI
  programsById : JsString → Option ProgramABI

namespace GenerationContext

variable (ctx : GenerationContext)

/-- `structsByKey.get(pathKey(path))`: of structs with one path the last counts. -/
def structsByKey (path : List JsString) : Option StructABI :=
  ctx.abi.structs.reverse.find? fun s => s.path = path

/-- The struct that `ref` names in the program itself (`isLocalStructRef`). -/
def localStruct (ref : StructRef) : Option StructABI :=
  if ref.program ≠ none ∧ ref.program ≠ some ctx.abi.program then none
  else ctx.structsByKey ref.path

/-- The struct that `ref` names in another known program, in that program's context
(`externalStructInfo`): its codec is imported from the bindings of that program. -/
def externalStruct (ref : StructRef) : Option (GenerationContext × StructABI) :=
  match ref.program with
  | none => none
  | some program =>
    if program = [] ∨ program = ctx.abi.program then none
    else do
      let abi ← ctx.programsById program
      let other : GenerationContext := { ctx with abi }
      let struct ← other.structsByKey ref.path
      return (other, struct)

/-- The generated codec that `ref` stands for: that of a local or of an imported struct. -/
def resolveStruct (ref : StructRef) : Option (GenerationContext × StructABI) :=
  match ctx.localStruct ref with
  | some struct => some (ctx, struct)
  | none => ctx.externalStruct ref

end GenerationContext

end Lionden.Codegen
