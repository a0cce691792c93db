import Lionden.Codegen.Abi

/-!
# The runtime helpers of the bindings (`contract-wrapper.ts`)

`BaseContract`'s serializers and parsers, and the input errors that they throw. A parser takes any
JS value: where the generated code hands over `undefined` instead of a text, its first method call
throws a `TypeError` (`asString`).
-/

namespace Lionden.Codegen

/-! ## Errors -/

structure TransitionInputContext where
  programId : Option JsString
  transition : Option JsString
  input : Option JsString
  path : Option JsString

structure TransitionInputError where
  message : JsString
  programId : Option JsString
  transition : Option JsString
  input : Option JsString
  deriving DecidableEq

inductive JsError where
  | typeError
  | referenceError
  | syntaxError
  | rangeError
  | transitionInput (error : TransitionInputError)
  deriving DecidableEq

/-- An optional string as a condition: neither missing nor empty. -/
def truthy (s : Option JsString) : Option JsString := s.filter fun s => s ≠ []

def describeInput (context : Option TransitionInputContext) : JsString :=
  let programId := context.bind (·.programId)
  let location := match truthy programId, truthy (context.bind (·.transition)) with
    | some p, some t => p ++ js "/" ++ t
    | _, _ => programId.getD (js "transition")
  match truthy (context.bind (·.input)), truthy (context.bind (·.path)) with
  | some i, some p => location ++ js " input " ++ jsonStringify i ++ js "." ++ p
  | some i, none => location ++ js " input " ++ jsonStringify i
  | none, some p => location ++ js " input ." ++ p
  | none, none => location ++ js " input"

def childPath (parent : Option JsString) (segment : JsString) : JsString :=
  match truthy parent with
  | some p => p ++ js "." ++ segment
  | none => segment

def childInputContext (context : Option TransitionInputContext) (segment : JsString) :
    Option TransitionInputContext :=
  context.map fun c => { c with path := some (childPath c.path segment) }

def createInputError (expected : JsString) (received : JsValue)
    (context : Option TransitionInputContext) (hint : Option JsString) : JsError :=
  let rendered := match received with
    | .string s => js "string " ++ jsonStringify s
    | .null => js "null"
    | .array _ => js "array"
    | v => v.typeof
  let suffix := match truthy hint with
    | some h => js " " ++ h
    | none => []
  .transitionInput {
    message := describeInput context ++ js " expected " ++ expected ++ js ". Received " ++
      rendered ++ js "." ++ suffix
    programId := context.bind (·.programId)
    transition := context.bind (·.transition)
    input := context.bind (·.input) }

def expectString (value : JsValue) (expected : JsString) (context : Option TransitionInputContext)
    (hint : Option JsString) : Except JsError JsString :=
  match value with
  | .string s => .ok (trim s)
  | v => .error (createInputError expected v context hint)

/-- The text on which a parser calls its first method. -/
def asString (value : JsValue) : Except JsError JsString :=
  match value with
  | .string s => .ok s
  | _ => .error .typeError

/-! ## Suffixes -/

/-- `.public` or `.private`, in either case. -/
def isVisibility (s : JsString) : Bool :=
  lower s = js ".public" || lower s = js ".private"

/-- `s.replace(/p$/, "")`: the text before the first position from which `p` matches to the end. -/
def dropTail (p : JsString → Bool) : JsString → JsString
  | [] => []
  | c :: rest => if p (c :: rest) then [] else c :: dropTail p rest

def stripVisibility (value : JsString) : JsString := dropTail isVisibility (trim value)

def typeSuffixes : List JsString :=
  ["u8", "u16", "u32", "u64", "u128", "i8", "i16", "i32", "i64", "i128", "field", "group", "scalar",
    "bool", "address"].map js

/-- A type suffix in either case, with or without a visibility. -/
def isTypeSuffix (s : JsString) : Bool :=
  typeSuffixes.any fun t => lower s = t || lower s = t ++ js ".public" || lower s = t ++ js ".private"

def stripSuffix (value : JsString) : JsString := dropTail isTypeSuffix value

/-! ## Numbers and booleans -/

def parseBoolean (value : JsValue) : Except JsError Bool := do
  let s ← asString value
  return stripVisibility s = js "true"

def parseNumber (value : JsValue) : Except JsError JsNumber := do
  let s ← asString value
  return Number (stripSuffix s)

def parseBigInt (value : JsValue) : Except JsError Int := do
  let s ← asString value
  match BigInt (stripSuffix s) with
  | some i => return i
  | none => throw .syntaxError

def assertObject (value : JsValue) (context : Option TransitionInputContext) :
    Except JsError (List (JsString × JsValue) × Option JsValue) :=
  match value with
  | .object props raw => .ok (props, raw)
  | v => .error (createInputError (js "object") v context none)

def serializeBoolean (value : JsValue) (context : Option TransitionInputContext) :
    Except JsError JsString :=
  match value with
  | .boolean b => .ok (if b then js "true" else js "false")
  | v => .error (createInputError (js "boolean") v context none)

/-- An integer argument: a `number` for at most 32 bits, else a `bigint`. -/
def integerOf (size : IntegerSize) (value : JsValue) : Option Int :=
  match value with
  | .number x => if size.bits ≤ 32 then x.toInt? else none
  | .bigint i => if size.bits ≤ 32 then none else some i
  | _ => none

def expectedType (size : IntegerSize) : JsString :=
  if size.bits ≤ 32 then js "number" else js "bigint"

/-- `serializeUInt` and `serializeInt` but for the letter and the range. -/
def serializeInteger (letter : JsString) (size : IntegerSize) (min max : Int) (value : JsValue)
    (context : Option TransitionInputContext) : Except JsError JsString :=
  let name := size.name letter
  match integerOf size value with
  | none => .error (createInputError (name ++ js " " ++ expectedType size) value context none)
  | some i =>
    if i < min ∨ max < i then
      .error (createInputError
        (name ++ js " in range " ++ intString min ++ js ".." ++ intString max) value context none)
    else .ok (intString i ++ name)

def serializeUInt (value : JsValue) (size : IntegerSize)
    (context : Option TransitionInputContext) : Except JsError JsString :=
  serializeInteger (js "u") size 0 (2 ^ size.bits - 1) value context

def serializeInt (value : JsValue) (size : IntegerSize)
    (context : Option TransitionInputContext) : Except JsError JsString :=
  serializeInteger (js "i") size (-2 ^ (size.bits - 1)) (2 ^ (size.bits - 1) - 1) value context

/-! ## Field, group, scalar -/

inductive ScalarLike where
  | field
  | group
  | scalar
  deriving DecidableEq

def ScalarLike.suffix : ScalarLike → JsString
  | field => js "field"
  | group => js "group"
  | scalar => js "scalar"

def ScalarLike.label : ScalarLike → JsString
  | field => js "Field"
  | group => js "Group"
  | scalar => js "Scalar"

/-- `/^[0-9]+$/`. -/
def isDigits (s : JsString) : Bool := s ≠ [] && s.all isDigit

/-- `new RegExp("^[0-9]+" + suffix + "$", "i")`. -/
def isSuffixed (suffix s : JsString) : Bool :=
  isDigits (s.takeWhile isDigit) && lower (s.dropWhile isDigit) = suffix

def serializeScalarLike (value : JsValue) (kind : ScalarLike)
    (context : Option TransitionInputContext) : Except JsError JsString :=
  let hint := some (js "Use Leo." ++ kind.suffix ++ js "(...).")
  let expected := kind.label ++ js " literal like 99" ++ kind.suffix
  match value with
  | .bigint i =>
    if i < 0 then
      .error (createInputError (kind.label ++ js " (non-negative integer)") value context hint)
    else .ok (intString i ++ kind.suffix)
  | .number x =>
    match x.toInt? with
    | none => .error (createInputError (kind.label ++ js " (non-negative integer)") value context hint)
    | some i =>
      if i < 0 then
        .error (createInputError (kind.label ++ js " (non-negative integer)") value context hint)
      else if 2 ^ 53 ≤ i then
        .error (createInputError (kind.label ++ js " (use bigint or string above 2^53)") value
          context hint)
      else .ok (intString i ++ kind.suffix)
  | v => do
    let literal ← expectString v expected context hint
    if isSuffixed kind.suffix literal then return literal
    else if isDigits literal then return literal ++ kind.suffix
    else throw (createInputError expected v context hint)

def parseScalarLike (value : JsValue) (kind : ScalarLike) : Except JsError JsString := do
  let s ← asString value
  serializeScalarLike (.string (stripVisibility s)) kind none

/-! ## Addresses -/

def isAlphanumeric (ch : CodeUnit) : Bool := isLetter ch || isDigit ch

/-- `/^aleo1[0-9a-z]+$/i`. -/
def isAddress (s : JsString) : Bool :=
  lower (s.take 5) = js "aleo1" && s.drop 5 ≠ [] && (s.drop 5).all isAlphanumeric

/-- The text of an address argument: that of an account is its `address`. -/
def addressSource (value : JsValue) : JsValue :=
  match value with
  | .object props _ =>
    match props.lookup (js "address") with
    | some a => a
    | none => value
  | v => v

def serializeAddress (value : JsValue) (context : Option TransitionInputContext) :
    Except JsError JsString := do
  let hint := some (js "Use Leo.address(...) or pass a named/devnode account.")
  let raw := addressSource value
  let address ← expectString raw (js "Address") context hint
  if isAddress address then return stripVisibility address
  else throw (createInputError (js "Address") raw context hint)

def parseAddress (value : JsValue) : Except JsError JsString := do
  let s ← asString value
  serializeAddress (.string (stripVisibility s)) none

/-! ## Identifiers -/

def identifierHint : Option JsString := some (js "Use Leo.identifier(...).")

def assertIdentifierName (value : JsString) (context : Option TransitionInputContext) :
    Except JsError Unit :=
  if isIdentifierName value then .ok ()
  else .error (createInputError (js "Identifier matching /^[A-Za-z_][A-Za-z0-9_]*$/")
    (.string value) context identifierHint)

/-- The apostrophe around an identifier literal. -/
def apostrophe : CodeUnit := 39

/-- The text begins and ends with an apostrophe. -/
def isQuoted (s : JsString) : Bool :=
  s.head? = some apostrophe && s.getLast? = some apostrophe

/-- `s.slice(1, -1)`. -/
def sliceInner (s : JsString) : JsString := (s.drop 1).dropLast

def quoted (name : JsString) : JsString := apostrophe :: name ++ [apostrophe]

def serializeIdentifier (value : JsValue) (context : Option TransitionInputContext) :
    Except JsError JsString := do
  let trimmed ← expectString value (js "Identifier") context identifierHint
  if trimmed = [] then throw (createInputError (js "Identifier") value context identifierHint)
  let name := if isQuoted trimmed then sliceInner trimmed else trimmed
  assertIdentifierName name context
  return quoted name

def parseIdentifier (value : JsValue) : Except JsError JsString := do
  let s ← asString value
  let trimmed := stripVisibility s
  if isQuoted trimmed then return sliceInner trimmed
  else do
    assertIdentifierName trimmed none
    return trimmed

/-! ## Opaque plaintext -/

def serializePlaintext (value : JsValue) (context : Option TransitionInputContext) :
    Except JsError JsString := do
  let hint := some (js "Use Leo.unsafe.plaintext(...).")
  let literal ← expectString value (js "Leo plaintext literal") context hint
  if literal = [] then throw (createInputError (js "Leo plaintext literal") value context hint)
  return literal

/-! ## Arrays and structs -/

/-- The `map` of `serializeArray`: a hole is passed over, and joins as an empty text. -/
def serializeElements (context : Option TransitionInputContext)
    (serializeElement : JsValue → Option TransitionInputContext → Except JsError JsString) :
    Nat → List (Option JsValue) → Except JsError (List JsString)
  | _, [] => .ok []
  | index, none :: rest => do
    let texts ← serializeElements context serializeElement (index + 1) rest
    return [] :: texts
  | index, some element :: rest => do
    let text ← serializeElement element (childInputContext context (decimal index))
    let texts ← serializeElements context serializeElement (index + 1) rest
    return text :: texts

def serializeArray (value : JsValue) (context : Option TransitionInputContext)
    (serializeElement : JsValue → Option TransitionInputContext → Except JsError JsString) :
    Except JsError JsString :=
  match value with
  | .array elements => do
    let texts ← serializeElements context serializeElement 0 elements
    return js "[" ++ join (js ", ") texts ++ js "]"
  | v => .error (createInputError (js "array") v context none)

def serializeUnsupportedOptionalNone (context : Option TransitionInputContext) : JsError :=
  createInputError (js "non-null Optional value") .null context
    (some (js ("This Optional inner type has no generated zero value, " ++
      "so None cannot be represented.")))

def openBrace : CodeUnit := 123

def closeBrace : CodeUnit := 125

def openBracket : CodeUnit := 91

def closeBracket : CodeUnit := 93

def comma : CodeUnit := 44

def colon : CodeUnit := 58

/-- The bracket depth after a character. -/
def depthAfter (depth : Int) (ch : CodeUnit) : Int :=
  if ch = openBrace ∨ ch = openBracket then depth + 1
  else if ch = closeBrace ∨ ch = closeBracket then depth - 1
  else depth

/-- The text between the brackets of a literal, if it has both. -/
def unwrap (opening closing : CodeUnit) (value : JsString) : JsString :=
  let trimmed := trim value
  if trimmed.head? = some opening ∧ trimmed.getLast? = some closing then
    trim (sliceInner trimmed)
  else trimmed

structure ArrayScan where
  depth : Int
  current : JsString
  elements : List JsString

def ArrayScan.step (st : ArrayScan) (ch : CodeUnit) : ArrayScan :=
  let depth := depthAfter st.depth ch
  if depth = 0 ∧ ch = comma then ⟨depth, [], st.elements ++ [trim st.current]⟩
  else { st with depth, current := st.current ++ [ch] }

def parseArray (value : JsValue) : Except JsError (List JsString) := do
  let s ← asString value
  let inner := unwrap openBracket closeBracket s
  if inner = [] then return []
  let st := inner.foldl ArrayScan.step ⟨0, [], []⟩
  return if trim st.current = [] then st.elements else st.elements ++ [trim st.current]

/-- The object that `parseStruct` fills; the newest property comes first. -/
abbrev Properties := List (JsString × JsString)

/-- `result[key] = value` for a non-empty key; the prototype of `result` cannot become a text. -/
def Properties.set (result : Properties) (key value : JsString) : Properties :=
  if key = [] ∨ key = js "__proto__" then result else (key, value) :: result

/-- `fields[key]!`. -/
def Properties.text (fields : Properties) (key : JsString) : JsValue :=
  match fields.lookup key with
  | some s => .string s
  | none => inherited key

structure StructScan where
  depth : Int
  current : JsString
  key : JsString
  result : Properties

def StructScan.step (st : StructScan) (ch : CodeUnit) : StructScan :=
  let depth := depthAfter st.depth ch
  if depth = 0 ∧ ch = colon ∧ st.key = [] then
    { st with depth, key := trim st.current, current := [] }
  else if depth = 0 ∧ ch = comma then
    ⟨depth, [], [], st.result.set st.key (trim st.current)⟩
  else { st with depth, current := st.current ++ [ch] }

def parseStruct (value : JsValue) : Except JsError Properties := do
  let s ← asString value
  let st := (unwrap openBrace closeBrace s).foldl StructScan.step ⟨0, [], [], []⟩
  return st.result.set st.key (trim st.current)

end Lionden.Codegen
