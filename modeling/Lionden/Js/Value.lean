import Lionden.Js.Number

/-!
# JS values

Plain data: an object is its properties, an array its elements, with `none` for the holes of a
sparse array. `raw` is the one symbol property that the generated code uses
(`BaseContract.RECORD_RAW`); it is not enumerable.
-/

namespace Lionden

inductive JsValue where
  | undefined
  | null
  | boolean (b : Bool)
  | number (x : JsNumber)
  | bigint (i : Int)
  | string (s : JsString)
  | array (elements : List (Option JsValue))
  | object (props : List (JsString × JsValue)) (raw : Option JsValue)
  | function
  | symbol

/-- The names that every plain object inherits. -/
def objectPrototype : List JsString :=
  ["constructor", "hasOwnProperty", "isPrototypeOf", "propertyIsEnumerable", "toLocaleString",
    "toString", "valueOf", "__defineGetter__", "__defineSetter__", "__lookupGetter__",
    "__lookupSetter__"].map js

/-- A property that an object does not have itself. -/
def inherited (key : JsString) : JsValue :=
  if key ∈ objectPrototype then .function else .undefined

namespace JsValue

/-- `typeof v`. -/
def typeof : JsValue → JsString
  | undefined => js "undefined"
  | boolean _ => js "boolean"
  | number _ => js "number"
  | bigint _ => js "bigint"
  | string _ => js "string"
  | function => js "function"
  | symbol => js "symbol"
  | null | array _ | object .. => js "object"

/-- `v == null`. -/
def isNullish : JsValue → Bool
  | undefined | null => true
  | _ => false

/-- `v[key]` of an object. -/
def get (props : List (JsString × JsValue)) (key : JsString) : JsValue :=
  (props.lookup key).getD (inherited key)

end JsValue

/-! ## JSON -/

def hexDigit (d : Nat) : CodeUnit := UInt16.ofNat (if d < 10 then 48 + d else 87 + d)

/-- `\uXXXX`. -/
def unicodeEscape (ch : CodeUnit) : JsString :=
  let n := ch.toNat
  js "\\u" ++ [hexDigit (n / 4096), hexDigit (n / 256 % 16), hexDigit (n / 16 % 16), hexDigit (n % 16)]

def isHighSurrogate (ch : CodeUnit) : Bool :=
  decide (0xD800 ≤ ch.toNat) && decide (ch.toNat ≤ 0xDBFF)

def isLowSurrogate (ch : CodeUnit) : Bool :=
  decide (0xDC00 ≤ ch.toNat) && decide (ch.toNat ≤ 0xDFFF)

/-- One character of a quoted string; a surrogate without its partner is escaped. -/
def quoteUnit (ch : CodeUnit) : JsString :=
  if ch = 8 then js "\\b" else if ch = 9 then js "\\t" else if ch = 10 then js "\\n"
  else if ch = 12 then js "\\f" else if ch = 13 then js "\\r" else if ch = 34 then js "\\\""
  else if ch = 92 then js "\\\\"
  else if ch.toNat < 32 || isHighSurrogate ch || isLowSurrogate ch then unicodeEscape ch
  else [ch]

def quoteUnits : JsString → JsString
  | [] => []
  | [c] => quoteUnit c
  | c :: d :: rest =>
    if isHighSurrogate c && isLowSurrogate d then c :: d :: quoteUnits rest
    else quoteUnit c ++ quoteUnits (d :: rest)

/-- `JSON.stringify(s)` of a string. -/
def jsonStringify (s : JsString) : JsString := 34 :: quoteUnits s ++ [34]

/-- `parts.join(separator)`. -/
def join (separator : JsString) : List JsString → JsString
  | [] => []
  | [s] => s
  | s :: rest => s ++ separator ++ join separator rest

end Lionden
