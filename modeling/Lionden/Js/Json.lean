import Lionden.Js.Value

/-!
# `JSON.parse`

A text is cut into tokens one character at a time, and the tokens are read with a stack of the arrays
and objects that are still open. A repeated key of an object keeps its place and takes the last value.

* `JSON.parse`: the value, or `none` for its `SyntaxError`.
* `JsValue.property`, `JsValue.truthy`: what is asked of a parsed value.
-/

namespace Lionden

namespace JsValue

/-- `v ? … : …`. -/
def truthy : JsValue → Bool
  | undefined | null => false
  | boolean b => b
  | number x => decide (x ≠ .nan ∧ x ≠ .negZero ∧ x ≠ .finite 0)
  | bigint i => decide (i ≠ 0)
  | string s => decide (s ≠ [])
  | array _ | object .. | function | symbol => true

/-- `v?.[key]`, for a key that is no name of a primitive's or an array's own methods. -/
def property (v : JsValue) (key : JsString) : JsValue :=
  match v with
  | object props _ => get props key
  | _ => undefined

/-- `Object.hasOwn(v, key)`, for a key that is neither an index nor `length`. -/
def hasOwn (v : JsValue) (key : JsString) : Bool :=
  match v with
  | object props _ => (props.lookup key).isSome
  | _ => false

/-- `typeof v === "object" && v !== null`. -/
def isObject : JsValue → Bool
  | array _ | object .. => true
  | _ => false

/-- `v === s`. -/
def isText (v : JsValue) (s : JsString) : Bool :=
  match v with
  | string t => t = s
  | _ => false

/-- `typeof v === "string" ? v : undefined`. -/
def text? : JsValue → Option JsString
  | string s => some s
  | _ => none

theorem isText_iff {v : JsValue} {s : JsString} : v.isText s = true ↔ v = .string s := by
  cases v <;> simp [isText]

/-- `props[key] = v`. -/
def setProperty (props : List (JsString × JsValue)) (key : JsString) (v : JsValue) :
    List (JsString × JsValue) :=
  match props with
  | [] => [(key, v)]
  | (k, w) :: rest => if k = key then (k, v) :: rest else (k, w) :: setProperty rest key v

end JsValue

namespace JSON

/-! ## Tokens -/

inductive Token where
  | beginObject
  | endObject
  | beginArray
  | endArray
  | colon
  | comma
  /-- A string, a number, `true`, `false` or `null`. -/
  | literal (v : JsValue)

def isSpace (ch : CodeUnit) : Bool := [9, 10, 13, 32].contains ch

def punctuation (ch : CodeUnit) : Option Token :=
  if ch = unit '{' then some .beginObject else if ch = unit '}' then some .endObject
  else if ch = unit '[' then some .beginArray else if ch = unit ']' then some .endArray
  else if ch = unit ':' then some .colon else if ch = unit ',' then some .comma
  else none

/-- `\b` and the like; `u` is not among them. -/
def simpleEscape (ch : CodeUnit) : Option CodeUnit :=
  if ch = unit 'b' then some 8 else if ch = unit 't' then some 9 else if ch = unit 'n' then some 10
  else if ch = unit 'f' then some 12 else if ch = unit 'r' then some 13
  else if ch = 34 ∨ ch = 92 ∨ ch = unit '/' then some ch
  else none

/-- The fraction of a number, if it has one, and the rest. -/
def splitFraction (s : JsString) : Option JsString :=
  match s with
  | 46 :: rest =>
    if rest.takeWhile isDigit = [] then none else some (rest.dropWhile isDigit)
  | rest => some rest

/-- `-?(0|[1-9]\d*)(\.\d+)?([eE][+-]?\d+)?`, and nothing else. -/
def isNumber (s : JsString) : Bool :=
  let t := match s with
    | 45 :: rest => rest
    | rest => rest
  let whole := t.takeWhile isDigit
  whole ≠ [] && (whole.length = 1 || whole.head? ≠ some (unit '0')) &&
    match splitFraction (t.dropWhile isDigit) with
    | none => false
    | some rest => (exponentPart rest).isSome

/-- What the characters between two delimiters stand for. -/
def word (s : JsString) : Option Token :=
  if s = js "null" then some (.literal .null)
  else if s = js "true" then some (.literal (.boolean true))
  else if s = js "false" then some (.literal (.boolean false))
  else if isNumber s then some (.literal (.number (Number s)))
  else none

/-- Where the scan of a text is: between tokens, in a word, or in a string with what it has of it. -/
inductive Scan where
  | between
  | inWord (read : JsString)
  | inString (read : JsString)
  | escape (read : JsString)
  | hex (read digits : JsString)

/-- The tokens of the rest of a text; `none` if a character or a word cannot stand where it does. -/
def tokens : Scan → JsString → Option (List Token)
  | .between, [] => some []
  | .inWord s, [] => (word s).map fun t => [t]
  | .inString _, [] | .escape _, [] | .hex .., [] => none
  | .between, ch :: rest =>
    if isSpace ch then tokens .between rest
    else if ch = 34 then tokens (.inString []) rest
    else match punctuation ch with
      | some t => (tokens .between rest).map (t :: ·)
      | none => tokens (.inWord [ch]) rest
  | .inWord s, ch :: rest =>
    if isSpace ch then do
      let t ← word s
      (tokens .between rest).map (t :: ·)
    else if ch = 34 then none
    else match punctuation ch with
      | some t => do
        let u ← word s
        (tokens .between rest).map (u :: t :: ·)
      | none => tokens (.inWord (s ++ [ch])) rest
  | .inString s, ch :: rest =>
    if ch = 34 then (tokens .between rest).map (.literal (.string s) :: ·)
    else if ch = 92 then tokens (.escape s) rest
    else if ch < 32 then none
    else tokens (.inString (s ++ [ch])) rest
  | .escape s, ch :: rest =>
    if ch = unit 'u' then tokens (.hex s []) rest
    else match simpleEscape ch with
      | some d => tokens (.inString (s ++ [d])) rest
      | none => none
  | .hex s digits, ch :: rest =>
    if ¬ isHexDigit ch then none
    else if digits.length < 3 then tokens (.hex s (digits ++ [ch])) rest
    else
      let n := (digits ++ [ch]).foldl (fun acc d => 16 * acc + hexValue d) 0
      tokens (.inString (s ++ [UInt16.ofNat n])) rest

/-! ## Values -/

/-- An array that is open, with its elements so far, or an object with its properties so far and the
key whose value is read. -/
inductive Frame where
  | array (elements : List JsValue)
  | object (props : List (JsString × JsValue)) (key : JsString)

/-- What may stand next: a value, the first element of an array, the first key of an object, a
further key, a colon, or what follows a value. -/
inductive Expect where
  | value (stack : List Frame)
  | firstElement (stack : List Frame)
  | firstKey (stack : List Frame)
  | key (stack : List Frame) (props : List (JsString × JsValue))
  | colon (stack : List Frame) (props : List (JsString × JsValue)) (key : JsString)
  | follow (stack : List Frame) (v : JsValue)

/-- A token where a value begins. -/
def beginValue (stack : List Frame) : Token → Option Expect
  | .literal v => some (.follow stack v)
  | .beginArray => some (.firstElement stack)
  | .beginObject => some (.firstKey stack)
  | _ => none

/-- A token where a key stands. -/
def beginKey (stack : List Frame) (props : List (JsString × JsValue)) : Token → Option Expect
  | .literal (.string key) => some (.colon stack props key)
  | _ => none

def Expect.next : Expect → Token → Option Expect
  | .value stack, t => beginValue stack t
  | .firstElement stack, .endArray => some (.follow stack (.array []))
  | .firstElement stack, t => beginValue (.array [] :: stack) t
  | .firstKey stack, .endObject => some (.follow stack (.object [] none))
  | .firstKey stack, t => beginKey stack [] t
  | .key stack props, t => beginKey stack props t
  | .colon stack props k, .colon => some (.value (.object props k :: stack))
  | .follow (.array vs :: stack) v, .comma => some (.value (.array (vs ++ [v]) :: stack))
  | .follow (.array vs :: stack) v, .endArray =>
    some (.follow stack (.array ((vs ++ [v]).map some)))
  | .follow (.object props k :: stack) v, .comma =>
    some (.key stack (JsValue.setProperty props k v))
  | .follow (.object props k :: stack) v, .endObject =>
    some (.follow stack (.object (JsValue.setProperty props k v) none))
  | _, _ => none

def parseTokens : Expect → List Token → Option JsValue
  | .follow [] v, [] => some v
  | _, [] => none
  | expect, t :: rest =>
    match expect.next t with
    | some expect => parseTokens expect rest
    | none => none

/-- `JSON.parse(text)`. -/
def parse (text : JsString) : Option JsValue := do
  let ts ← tokens .between text
  parseTokens (.value []) ts

/-! ## White space -/

theorem punctuation_space {ch : CodeUnit} (h : isWhiteSpace ch = true) :
    ch ≠ 34 ∧ punctuation ch = none := by
  have hne (d : CodeUnit) (hd : isWhiteSpace d = false) : ch ≠ d := by
    rintro rfl
    rw [h] at hd
    cases hd
  refine ⟨hne 34 (by decide), ?_⟩
  unfold punctuation
  rw [if_neg (hne _ (by decide)), if_neg (hne _ (by decide)), if_neg (hne _ (by decide)),
    if_neg (hne _ (by decide)), if_neg (hne _ (by decide)), if_neg (hne _ (by decide))]

/-- No word begins with white space. -/
theorem word_space {ch : CodeUnit} (h : isWhiteSpace ch = true) (s : JsString) :
    word (ch :: s) = none := by
  have hne (d : CodeUnit) (hd : isWhiteSpace d = false) : ch ≠ d := by
    rintro rfl
    rw [h] at hd
    cases hd
  have hdigit : ¬isDigit ch = true := fun hdigit => by
    rw [isWhiteSpace_of_isDigit hdigit] at h
    cases h
  have hnumber : isNumber (ch :: s) = false := by
    unfold isNumber
    split
    · next heq => exact absurd (List.cons.inj heq).1 (hne 45 (by decide))
    · dsimp only
      rw [List.takeWhile_cons_of_neg hdigit]
      rfl
  have htext (t : JsString) (ht : t.head?.map isWhiteSpace ≠ some true) : ch :: s ≠ t := by
    rintro rfl
    exact ht (congrArg some h)
  unfold word
  rw [if_neg (htext _ (by decide)), if_neg (htext _ (by decide)), if_neg (htext _ (by decide)),
    if_neg (by rw [hnumber]; exact Bool.false_ne_true)]

theorem tokens_spaces {s : JsString} (h : Spaces s) :
    (∀ ts, tokens .between s = some ts → ts = []) ∧
      ∀ read, (∃ ch rest, read = ch :: rest ∧ isWhiteSpace ch = true) →
        tokens (.inWord read) s = none := by
  induction s with
  | nil =>
    refine ⟨fun ts h => (Option.some.inj h).symm, ?_⟩
    rintro _ ⟨ch, rest, rfl, hch⟩
    rw [tokens, word_space hch]
    rfl
  | cons ch s ih =>
    obtain ⟨hch, hs⟩ := List.forall_mem_cons.mp h
    obtain ⟨hbetween, hword⟩ := ih hs
    obtain ⟨hquote, hpunctuation⟩ := punctuation_space hch
    constructor
    · intro ts h
      unfold tokens at h
      split at h
      · exact hbetween ts h
      · rw [hpunctuation] at h
        dsimp only at h
        rw [hword [ch] ⟨ch, [], rfl, hch⟩] at h
        cases h
    · rintro _ ⟨c, rest, rfl, hc⟩
      unfold tokens
      split
      · rw [word_space hc]
        rfl
      · rw [hpunctuation]
        exact hword _ ⟨c, rest ++ [ch], rfl, hc⟩

/-- A blank text is no JSON. -/
theorem parse_spaces {s : JsString} (h : Spaces s) : parse s = none := by
  unfold parse
  cases htokens : tokens .between s with
  | none => rfl
  | some ts =>
    rw [(tokens_spaces h).1 ts htokens]
    rfl

example : parse (js " [1, \x7b \"a\": \"b\\n\" , \"a\" : true\x7d, []] ") =
    some (.array [some (.number (Number (js "1"))),
      some (.object [(js "a", .boolean true)] none), some (.array [])]) := by rfl

end JSON

end Lionden
