import Lionden.Codegen.Zero

/-!
# Normal values

`normalize` is the value that stands for an argument after it has been written as a literal: the
literals of field, group and scalar numbers, the address of an account, the name of an identifier,
`null` for an absent Optional, and of a struct its declared fields. Strings are trimmed, and negative
zero is zero.

`Conforms style` says which accepted arguments a serializer writes as literals of the style. What it
asks beyond the serializer's own checks is what these leave out: the case of letters, the length of
addresses and arrays, the holes of sparse arrays, and Optionals directly inside present Optionals.
-/

namespace Lionden.Codegen

/-! ## Normal values -/

def trimmed (value : JsValue) : JsValue :=
  match value with
  | .string s => .string (trim s)
  | v => v

def normalizeScalarLike (kind : ScalarLike) (value : JsValue) : JsValue :=
  match value with
  | .bigint i => .string (intString i ++ kind.suffix)
  | .number x =>
    match x.toInt? with
    | some i => .string (intString i ++ kind.suffix)
    | none => value
  | .string s => .string (if isDigits (trim s) then trim s ++ kind.suffix else trim s)
  | v => v

def normalizeIdentifier (value : JsValue) : JsValue :=
  match value with
  | .string s => .string (if isQuoted (trim s) then sliceInner (trim s) else trim s)
  | v => v

def normalizeInteger (value : JsValue) : JsValue :=
  match value with
  | .number .negZero => .number (.finite 0)
  | v => v

def normalizePrimitive (prim : PrimitiveType) (value : JsValue) : JsValue :=
  match prim with
  | .field => normalizeScalarLike .field value
  | .group => normalizeScalarLike .group value
  | .scalar => normalizeScalarLike .scalar value
  | .address => trimmed (addressSource value)
  | .identifier => normalizeIdentifier value
  | .signature => trimmed value
  | .boolean => value
  | .uint _ | .int _ => normalizeInteger value

/-- The normal values of a plaintext type, given those of the structs. -/
def normalizePlaintext (call : GenerationContext → StructABI → JsValue → JsValue)
    (ctx : GenerationContext) : PlaintextType → JsValue → JsValue
  | .primitive prim, value => normalizePrimitive prim value
  | .struct ref, value =>
    match ctx.resolveStruct ref with
    | some (ctx', struct) => call ctx' struct value
    | none => trimmed value
  | .array elem _, value =>
    match value with
    | .array elements => .array (elements.map (Option.map (normalizePlaintext call ctx elem)))
    | v => v
  | .optional inner, value =>
    if value.isNullish then .null else normalizePlaintext call ctx inner value

def normalizeStruct : Nat → GenerationContext → StructABI → JsValue → JsValue
  | depth + 1, ctx, struct, .object props _ =>
    .object (struct.fields.map fun field => (field.name.name,
      normalizePlaintext (normalizeStruct depth) ctx field.ty (JsValue.get props field.name.name)))
      none
  | _, _, _, value => value

def normalize (depth : Nat) (ctx : GenerationContext) (ty : PlaintextType) (value : JsValue) :
    JsValue :=
  normalizePlaintext (normalizeStruct depth) ctx ty value

/-! ## Values that become literals -/

/-- A text that is passed on as it is. -/
def ConformsOpaque (style : Style) (value : JsValue) : Prop :=
  style.opaqueText = true ∧ ∀ s, value = .string s → Item (trim s)

def ConformsScalarLike (style : Style) (value : JsValue) : Prop :=
  style.anyCase = false → ∀ s, value = .string s → lower (trim s) = trim s

def ConformsAddress (style : Style) (value : JsValue) : Prop :=
  ∀ s, addressSource value = .string s →
    (style.anyCase = false → lower (trim s) = trim s) ∧
    (style.anyLength = false → (trim s).length = 63)

def ConformsPrimitive (style : Style) (prim : PrimitiveType) (value : JsValue) : Prop :=
  match prim with
  | .field | .group | .scalar => ConformsScalarLike style value
  | .address => ConformsAddress style value
  | .signature => ConformsOpaque style value
  | .boolean | .identifier | .uint _ | .int _ => True

/-- The elements of an array: no holes, and as many as the type says. A single hole is written as an
empty array. -/
def ConformsElements (style : Style) (elem : JsValue → Prop) (length : Nat)
    (elements : List (Option JsValue)) : Prop :=
  (∀ e ∈ elements, ∃ v, e = some v ∧ elem v) ∧ (style.anyLength = false → elements.length = length) ∨
    elements = [none] ∧ style.anyLength = false ∧ length = 0

def ConformsPlaintext (style : Style) (call : GenerationContext → StructABI → JsValue → Prop)
    (ctx : GenerationContext) : PlaintextType → JsValue → Prop
  | .primitive prim, value => ConformsPrimitive style prim value
  | .struct ref, value =>
    match ctx.resolveStruct ref with
    | some (ctx', struct) => call ctx' struct value
    | none => ConformsOpaque style value
  | .array elem length, value => ∀ elements, value = .array elements →
    ConformsElements style (ConformsPlaintext style call ctx elem) length elements
  | .optional inner, value => value.isNullish = true ∨
    (style.nested = false → inner.isOptional = false) ∧ ConformsPlaintext style call ctx inner value

def ConformsStruct (style : Style) : Nat → GenerationContext → StructABI → JsValue → Prop
  | 0, _, _, _ => True
  | depth + 1, ctx, struct, value => ∀ props raw, value = .object props raw →
    ∀ field ∈ struct.fields, ConformsPlaintext style (ConformsStruct style depth) ctx field.ty
      (JsValue.get props field.name.name)

/-- An argument that is written as a literal of the style, if the serializer accepts it. -/
def Conforms (style : Style) (depth : Nat) (ctx : GenerationContext) (ty : PlaintextType)
    (value : JsValue) : Prop :=
  ConformsPlaintext style (ConformsStruct style depth) ctx ty value

/-! ## Types without opaque texts -/

def TransparentPlaintext (call : GenerationContext → StructABI → Prop) (ctx : GenerationContext) :
    PlaintextType → Prop
  | .primitive prim => prim ≠ .signature
  | .struct ref => ∃ ctx' struct, ctx.resolveStruct ref = some (ctx', struct) ∧ call ctx' struct
  | .array elem _ => TransparentPlaintext call ctx elem
  | .optional inner => TransparentPlaintext call ctx inner

def TransparentStruct : Nat → GenerationContext → StructABI → Prop
  | 0, _, _ => True
  | depth + 1, ctx, struct => ∀ field ∈ struct.fields,
    TransparentPlaintext (TransparentStruct depth) ctx field.ty

/-- The codecs of the type look into all of its texts: nothing in it goes through
`serializePlaintext`, as signatures and references to unknown structs do. -/
def Transparent (depth : Nat) (ctx : GenerationContext) (ty : PlaintextType) : Prop :=
  TransparentPlaintext (TransparentStruct depth) ctx ty

end Lionden.Codegen
