import Lionden.Js.NumberString
import Lionden.Lib.Fallible

/-!
# `JSON.stringify`

* `JSON.stringify`: the text of a value, or `none` where it is left out.
* `IsData`: what `JSON.parse` gives; `JSON.isData_parse`.
* `JSON.parse_stringify`: data whose numbers are finite doubles is read back from its text.
* `isData_array`, `IsData.property`: the parts of data.
-/

namespace Lionden

/-- Data, with what its numbers are. -/
inductive IsData (number : JsNumber → Prop) : JsValue → Prop where
  | null : IsData number .null
  | boolean (b : Bool) : IsData number (.boolean b)
  | number {x : JsNumber} (h : number x) : IsData number (.number x)
  | string (s : JsString) : IsData number (.string s)
  | array {elements : List JsValue} (h : ∀ v ∈ elements, IsData number v) :
    IsData number (.array (elements.map some))
  | object {props : List (JsString × JsValue)} (hkeys : (props.map Prod.fst).Nodup)
    (h : ∀ p ∈ props, IsData number p.2) : IsData number (.object props none)

/-- A number that JSON writes as it is. -/
def JsNumber.Finite (x : JsNumber) : Prop := ∃ q, x = .finite q

/-- A finite double. -/
def JsNumber.Writable (x : JsNumber) : Prop := ∃ q, x = .finite q ∧ IsDouble |q|

namespace JSON

mutual

/-- `JSON.stringify(v)`, of a value without bigints, which it throws at. -/
def stringify : JsValue → Option JsString
  | .null => some (js "null")
  | .boolean b => some (if b then js "true" else js "false")
  | .number .nan | .number (.infinity _) => some (js "null")
  | .number x => some (numberString x)
  | .string s => some (jsonStringify s)
  | .array elements => some (unit '[' :: join (js ",") (stringifyElements elements) ++ [unit ']'])
  | .object props _ =>
    some (unit '\x7b' :: join (js ",") (stringifyProperties props) ++ [unit '\x7d'])
  | .undefined | .function | .symbol | .bigint _ => none

/-- What is left out is `null` in an array. -/
def stringifyElements : List (Option JsValue) → List JsString
  | [] => []
  | none :: rest => js "null" :: stringifyElements rest
  | some v :: rest => (stringify v).getD (js "null") :: stringifyElements rest

def stringifyProperties : List (JsString × JsValue) → List JsString
  | [] => []
  | (key, v) :: rest =>
    match stringify v with
    | none => stringifyProperties rest
    | some text => (jsonStringify key ++ unit ':' :: text) :: stringifyProperties rest

end

/-! ## Tokens of a text -/

/-- A text ends before the rest, or where an array or an object goes on. -/
def Ends (rest : JsString) : Prop := ∀ ch, rest.head? = some ch → (punctuation ch).isSome = true

/-- The tokens of a text, whatever follows it. -/
def Scans (text : JsString) (ts : List Token) : Prop :=
  ∀ rest, Ends rest → tokens .between (text ++ rest) = (tokens .between rest).map (ts ++ ·)

theorem punctuation_unit {ch : CodeUnit} {t : Token} (h : punctuation ch = some t) :
    isSpace ch = false ∧ ch ≠ 34 := by
  constructor
  · refine Bool.eq_false_iff.mpr fun hspace => ?_
    have : ch = 9 ∨ ch = 10 ∨ ch = 13 ∨ ch = 32 := by simpa [isSpace] using hspace
    rcases this with rfl | rfl | rfl | rfl <;> cases h
  · rintro rfl
    cases h

theorem tokens_punctuation {ch : CodeUnit} {t : Token} (h : punctuation ch = some t)
    (rest : JsString) : tokens .between (ch :: rest) = (tokens .between rest).map (t :: ·) := by
  obtain ⟨hspace, hquote⟩ := punctuation_unit h
  rw [tokens, if_neg (by rw [hspace]; decide), if_neg hquote]
  simp only [h]

/-! ### Words -/

/-- A character that neither ends a word nor begins a string. -/
def isWordUnit (ch : CodeUnit) : Bool := !isSpace ch && ch != 34 && (punctuation ch).isNone

theorem isWordUnit_iff {ch : CodeUnit} :
    isWordUnit ch = true ↔ isSpace ch = false ∧ ch ≠ 34 ∧ punctuation ch = none := by
  simp [isWordUnit, and_assoc]

theorem tokens_inWord {w : JsString} (read rest : JsString)
    (hw : ∀ ch ∈ w, isWordUnit ch = true) :
    tokens (.inWord read) (w ++ rest) = tokens (.inWord (read ++ w)) rest := by
  induction w generalizing read with
  | nil => rw [List.nil_append, List.append_nil]
  | cons ch w ih =>
    obtain ⟨hspace, hquote, hpunct⟩ := isWordUnit_iff.mp (hw ch List.mem_cons_self)
    rw [List.cons_append, tokens, if_neg (by rw [hspace]; decide), if_neg hquote]
    simp only [hpunct]
    rw [ih _ fun d hd => hw d (List.mem_cons_of_mem _ hd), List.append_assoc, List.singleton_append]

theorem scans_word {w : JsString} {t : Token} (hne : w ≠ [])
    (hw : ∀ ch ∈ w, isWordUnit ch = true) (hword : word w = some t) : Scans w [t] := by
  intro rest hrest
  obtain ⟨ch, w', rfl⟩ := List.exists_cons_of_ne_nil hne
  obtain ⟨hspace, hquote, hpunct⟩ := isWordUnit_iff.mp (hw ch List.mem_cons_self)
  rw [List.cons_append, tokens, if_neg (by rw [hspace]; decide), if_neg hquote]
  simp only [hpunct]
  rw [tokens_inWord _ _ fun d hd => hw d (List.mem_cons_of_mem _ hd), List.singleton_append]
  cases rest with
  | nil => rw [tokens, tokens, hword]; rfl
  | cons p rest =>
    obtain ⟨u, hu⟩ := Option.isSome_iff_exists.mp (hrest p rfl)
    obtain ⟨hspace, hquote⟩ := punctuation_unit hu
    rw [tokens_punctuation hu, tokens, if_neg (by rw [hspace]; decide), if_neg hquote]
    simp only [hu, hword, Option.map_map, bind, Option.bind]
    rfl

/-! ### Strings -/

theorem hexDigit_spec {d : Nat} (h : d < 16) :
    isHexDigit (hexDigit d) = true ∧ hexValue (hexDigit d) = d := by
  have hall : ∀ d < 16, isHexDigit (hexDigit d) = true ∧ hexValue (hexDigit d) = d := by decide
  exact hall d h

theorem tokens_hex {d : Nat} (h : d < 16) (s digits rest : JsString) :
    tokens (.hex s digits) (hexDigit d :: rest) =
      if digits.length < 3 then tokens (.hex s (digits ++ [hexDigit d])) rest
      else tokens (.inString (s ++ [UInt16.ofNat
        ((digits ++ [hexDigit d]).foldl (fun acc d => 16 * acc + hexValue d) 0)])) rest := by
  rw [tokens, if_neg (by rw [(hexDigit_spec h).1]; decide)]

theorem tokens_unicodeEscape (ch : CodeUnit) (s rest : JsString) :
    tokens (.inString s) (unicodeEscape ch ++ rest) = tokens (.inString (s ++ [ch])) rest := by
  have hlt : ch.toNat < 65536 := ch.toNat_lt
  have hvalue (d : Nat) (h : d < 16) : hexValue (hexDigit d) = d := (hexDigit_spec h).2
  have hescape : tokens (.inString s) (unicodeEscape ch ++ rest) =
      tokens (.hex s []) (hexDigit (ch.toNat / 4096) :: hexDigit (ch.toNat / 256 % 16) ::
        hexDigit (ch.toNat / 16 % 16) :: hexDigit (ch.toNat % 16) :: rest) := by rfl
  rw [hescape, tokens_hex (by omega), if_pos (by decide), tokens_hex (by omega),
    if_pos (by simp), tokens_hex (by omega), if_pos (by simp), tokens_hex (by omega),
    if_neg (by simp)]
  have hfold : UInt16.ofNat ((([] ++ [hexDigit (ch.toNat / 4096)] ++
      [hexDigit (ch.toNat / 256 % 16)] ++ [hexDigit (ch.toNat / 16 % 16)]) ++
      [hexDigit (ch.toNat % 16)]).foldl (fun acc d => 16 * acc + hexValue d) 0) = ch := by
    simp only [List.nil_append, List.cons_append, List.foldl_cons, List.foldl_nil]
    rw [hvalue _ (by omega), hvalue _ (by omega), hvalue _ (by omega), hvalue _ (by omega)]
    have hsum : 16 * (16 * (16 * (16 * 0 + ch.toNat / 4096) + ch.toNat / 256 % 16) +
        ch.toNat / 16 % 16) + ch.toNat % 16 = ch.toNat := by omega
    rw [hsum]
    exact UInt16.ofNat_toNat
  rw [hfold]

/-- A character that stands for itself in a string. -/
theorem tokens_plain {ch : CodeUnit} (h34 : ch ≠ 34) (h92 : ch ≠ 92) (h32 : ¬ ch.toNat < 32)
    (s rest : JsString) :
    tokens (.inString s) (ch :: rest) = tokens (.inString (s ++ [ch])) rest := by
  have hlt : ¬ ch < 32 := fun hlt => h32 (UInt16.lt_iff_toNat_lt.mp hlt)
  rw [tokens, if_neg h34, if_neg h92, if_neg hlt]

theorem tokens_quoteUnit (ch : CodeUnit) (s rest : JsString) :
    tokens (.inString s) (quoteUnit ch ++ rest) = tokens (.inString (s ++ [ch])) rest := by
  unfold quoteUnit
  split_ifs with h8 h9 h10 h12 h13 h34 h92 hescape
  · subst h8; rfl
  · subst h9; rfl
  · subst h10; rfl
  · subst h12; rfl
  · subst h13; rfl
  · subst h34; rfl
  · subst h92; rfl
  · exact tokens_unicodeEscape ch s rest
  · refine tokens_plain h34 h92 (fun hlt => hescape ?_) s rest
    simp [hlt]

theorem surrogate_plain {ch : CodeUnit} (h : isHighSurrogate ch = true ∨ isLowSurrogate ch = true) :
    ch ≠ 34 ∧ ch ≠ 92 ∧ ¬ ch.toNat < 32 := by
  have hle : 0xD800 ≤ ch.toNat := by
    rcases h with h | h
    · simp only [isHighSurrogate, Bool.and_eq_true, decide_eq_true_eq] at h
      exact h.1
    · simp only [isLowSurrogate, Bool.and_eq_true, decide_eq_true_eq] at h
      exact h.1.trans' (by decide)
  refine ⟨?_, ?_, by omega⟩
  all_goals
    rintro rfl
    exact absurd hle (by decide)

/-- What is quoted is read back, also half of a surrogate pair. -/
theorem tokens_quoteUnits (s read rest : JsString) :
    tokens (.inString read) (quoteUnits s ++ 34 :: rest) =
      (tokens .between rest).map (.literal (.string (read ++ s)) :: ·) := by
  fun_induction quoteUnits s generalizing read with
  | case1 => rw [List.nil_append, tokens, if_pos rfl, List.append_nil]
  | case2 c => rw [tokens_quoteUnit, tokens, if_pos rfl]
  | case3 c d s hpair ih =>
    obtain ⟨hc, hd⟩ := Bool.and_eq_true_iff.mp hpair
    obtain ⟨hc34, hc92, hc32⟩ := surrogate_plain (.inl hc)
    obtain ⟨hd34, hd92, hd32⟩ := surrogate_plain (.inr hd)
    rw [List.cons_append, List.cons_append, tokens_plain hc34 hc92 hc32,
      tokens_plain hd34 hd92 hd32, ih]
    simp
  | case4 c d s hpair ih =>
    rw [List.append_assoc, tokens_quoteUnit, ih]
    simp

theorem scans_string (s : JsString) : Scans (jsonStringify s) [.literal (.string s)] := by
  intro rest _
  have hquote : jsonStringify s ++ rest = 34 :: (quoteUnits s ++ 34 :: rest) := by
    simp [jsonStringify]
  have hopen : tokens .between (34 :: (quoteUnits s ++ 34 :: rest)) =
      tokens (.inString []) (quoteUnits s ++ 34 :: rest) := by
    rw [tokens]
    rfl
  rw [hquote, hopen, tokens_quoteUnits]
  rfl

/-! ### Lists -/

/-- Lists of tokens with commas in between. -/
def commas : List (List Token) → List Token
  | [] => []
  | [ts] => ts
  | ts :: rest => ts ++ .comma :: commas rest

theorem scans_nil : Scans [] [] := fun rest _ => by
  simp

theorem Scans.punctuation {ch : CodeUnit} {t : Token} {text : JsString} {ts : List Token}
    (hch : JSON.punctuation ch = some t) (h : Scans text ts) : Scans (ch :: text) (t :: ts) := by
  intro rest hrest
  rw [List.cons_append, tokens_punctuation hch, h rest hrest, Option.map_map]
  rfl

/-- Texts one after the other; the first ends where the second begins. -/
theorem Scans.append {a b : JsString} {ts us : List Token} (ha : Scans a ts) (hb : Scans b us)
    (hends : ∀ rest, Ends rest → Ends (b ++ rest)) : Scans (a ++ b) (ts ++ us) := by
  intro rest hrest
  rw [List.append_assoc, ha _ (hends rest hrest), hb rest hrest, Option.map_map]
  refine congrArg (fun f => Option.map f _) (funext fun vs => ?_)
  exact (List.append_assoc ts us vs).symm

theorem ends_cons {ch : CodeUnit} {t : Token} (h : punctuation ch = some t) (rest : JsString) :
    Ends (ch :: rest) := by
  intro c hc
  rw [← Option.some.inj hc, h]
  rfl

theorem scans_join {texts : List JsString} {tss : List (List Token)}
    (h : List.Forall₂ Scans texts tss) : Scans (join (js ",") texts) (commas tss) := by
  induction h with
  | nil => exact scans_nil
  | @cons text ts texts tss htext htexts ih =>
    cases htexts with
    | nil => exact htext
    | cons _ _ =>
      have hcomma : punctuation (unit ',') = some .comma := rfl
      change Scans ((text ++ js ",") ++ _) _
      rw [List.append_assoc]
      exact htext.append (ih.punctuation hcomma) fun _ _ => ends_cons hcomma _

/-- A list between two delimiters. -/
theorem scans_bracketed {begin_ end_ : CodeUnit} {t u : Token} {texts : List JsString}
    {tss : List (List Token)} (hbegin : punctuation begin_ = some t)
    (hend : punctuation end_ = some u) (h : List.Forall₂ Scans texts tss) :
    Scans (begin_ :: join (js ",") texts ++ [end_]) (t :: commas tss ++ [u]) :=
  ((scans_join h).punctuation hbegin).append (scans_nil.punctuation hend)
    fun _ _ => ends_cons hend _

/-! ## Values of tokens -/

/-- The tokens of a value. -/
structure Reads (ts : List Token) (v : JsValue) : Prop where
  head : ∃ t rest, ts = t :: rest ∧ t ≠ .endArray
  value : ∀ stack rest,
    parseTokens (.value stack) (ts ++ rest) = parseTokens (.follow stack v) rest

theorem reads_literal (v : JsValue) : Reads [.literal v] v :=
  ⟨⟨_, _, rfl, nofun⟩, fun _ _ => rfl⟩

theorem reads_elements {tss : List (List Token)} {vs : List JsValue}
    (h : List.Forall₂ Reads tss vs) (hne : tss ≠ []) (stack : List Frame) (before : List JsValue)
    (rest : List Token) :
    parseTokens (.value (.array before :: stack)) (commas tss ++ .endArray :: rest) =
      parseTokens (.follow stack (.array ((before ++ vs).map some))) rest := by
  induction h generalizing before with
  | nil => exact absurd rfl hne
  | @cons ts v tss vs hts htss ih =>
    cases htss with
    | nil => exact hts.value _ _
    | @cons us w uss ws hus huss =>
      change parseTokens _ ((ts ++ .comma :: commas (us :: uss)) ++ _) = _
      rw [List.append_assoc, hts.value]
      refine (ih (List.cons_ne_nil _ _) (before ++ [v])).trans ?_
      rw [List.append_assoc, List.singleton_append]

theorem reads_array {tss : List (List Token)} {vs : List JsValue}
    (h : List.Forall₂ Reads tss vs) :
    Reads (.beginArray :: commas tss ++ [.endArray]) (.array (vs.map some)) := by
  refine ⟨⟨_, _, rfl, nofun⟩, fun stack rest => ?_⟩
  rw [List.append_assoc]
  change parseTokens (.firstElement stack) (commas tss ++ .endArray :: rest) = _
  cases h with
  | nil => rfl
  | @cons ts v tss vs hts htss =>
    refine Eq.trans ?_ (reads_elements (.cons hts htss) (List.cons_ne_nil _ _) stack [] rest)
    obtain ⟨t, us, rfl, ht⟩ := hts.head
    -- The first token of an element is not the end of the array.
    have hfirst (us : List Token) : parseTokens (.firstElement stack) (t :: us) =
        parseTokens (.value (.array [] :: stack)) (t :: us) := by
      cases t with
      | endArray => exact absurd rfl ht
      | _ => rfl
    cases tss with
    | nil => exact hfirst _
    | cons _ _ => exact hfirst _

/-- The tokens of a property. -/
def ReadsProperty (ts : List Token) (p : JsString × JsValue) : Prop :=
  ∃ us, ts = .literal (.string p.1) :: .colon :: us ∧ Reads us p.2

theorem setProperty_new {props : List (JsString × JsValue)} {key : JsString} (v : JsValue)
    (h : key ∉ props.map Prod.fst) : JsValue.setProperty props key v = props ++ [(key, v)] := by
  induction props with
  | nil => rfl
  | cons p props ih =>
    obtain ⟨k, w⟩ := p
    obtain ⟨hk, hprops⟩ := not_or.mp (List.mem_cons.not.mp h)
    rw [JsValue.setProperty, if_neg (Ne.symm hk), ih hprops]
    rfl

theorem reads_properties {tss : List (List Token)} {props : List (JsString × JsValue)}
    (h : List.Forall₂ ReadsProperty tss props) (hne : tss ≠ []) (stack : List Frame)
    (before : List (JsString × JsValue)) (hkeys : ((before ++ props).map Prod.fst).Nodup)
    (rest : List Token) :
    parseTokens (.key stack before) (commas tss ++ .endObject :: rest) =
      parseTokens (.follow stack (.object (before ++ props) none)) rest := by
  induction h generalizing before with
  | nil => exact absurd rfl hne
  | @cons ts p tss props hts htss ih =>
    obtain ⟨key, v⟩ := p
    obtain ⟨us, rfl, hus⟩ := hts
    have hnew : key ∉ before.map Prod.fst := by
      rw [List.map_append, List.map_cons] at hkeys
      exact fun hmem => (List.nodup_append.mp hkeys).2.2 key hmem key List.mem_cons_self rfl
    have hset := setProperty_new v hnew
    cases htss with
    | nil =>
      refine (hus.value (.object before key :: stack) _).trans ?_
      change parseTokens (.follow stack (.object (JsValue.setProperty before key v) none)) rest = _
      rw [hset]
    | @cons vs q vss qs hvs hvss =>
      change parseTokens (.value (.object before key :: stack))
        ((us ++ .comma :: commas (vs :: vss)) ++ _) = _
      rw [List.append_assoc, hus.value]
      change parseTokens (.key stack (JsValue.setProperty before key v)) _ = _
      rw [hset]
      refine (ih (List.cons_ne_nil _ _) (before ++ [(key, v)]) ?_).trans ?_
      · rwa [List.append_assoc, List.singleton_append]
      · rw [List.append_assoc, List.singleton_append]

theorem reads_object {tss : List (List Token)} {props : List (JsString × JsValue)}
    (h : List.Forall₂ ReadsProperty tss props) (hkeys : (props.map Prod.fst).Nodup) :
    Reads (.beginObject :: commas tss ++ [.endObject]) (.object props none) := by
  refine ⟨⟨_, _, rfl, nofun⟩, fun stack rest => ?_⟩
  rw [List.append_assoc]
  change parseTokens (.firstKey stack) (commas tss ++ .endObject :: rest) = _
  cases h with
  | nil => rfl
  | @cons ts p tss props hts htss =>
    refine Eq.trans ?_
      (reads_properties (.cons hts htss) (List.cons_ne_nil _ _) stack [] hkeys rest)
    obtain ⟨us, rfl, -⟩ := hts
    cases tss <;> rfl

/-! ## Round trip -/

theorem isWordUnit_of_isLiteralUnit {ch : CodeUnit} (h : isLiteralUnit ch = true) :
    isWordUnit ch = true := by
  rcases isLiteralUnit_cases h with hdigit | rfl | rfl | rfl | rfl
  · have hall : ∀ n < 58, 48 ≤ n → isWordUnit (UInt16.ofNat n) = true := by decide
    obtain ⟨hlow, hhigh⟩ := isDigit_iff.mp hdigit
    rw [← UInt16.ofNat_toNat (x := ch)]
    exact hall _ (by omega) hlow
  all_goals decide

theorem word_number {text : JsString} (h : isNumber text = true) :
    word text = some (.literal (.number (Number text))) := by
  have hne (s : JsString) (hs : isNumber s = false) : text ≠ s := by
    rintro rfl
    rw [hs] at h
    cases h
  rw [word, if_neg (hne _ (by decide)), if_neg (hne _ (by decide)), if_neg (hne _ (by decide)),
    if_pos h]

/-- The text of a value has the tokens of the value. -/
def Written (v : JsValue) : Prop :=
  ∃ text ts, stringify v = some text ∧ Scans text ts ∧ Reads ts v

theorem written_word {v : JsValue} {text : JsString} (htext : stringify v = some text)
    (hne : text ≠ []) (hunits : ∀ ch ∈ text, isWordUnit ch = true)
    (hword : word text = some (.literal v)) : Written v :=
  ⟨text, [.literal v], htext, scans_word hne hunits hword, reads_literal v⟩

theorem written_elements {elements : List JsValue} (h : ∀ v ∈ elements, Written v) :
    ∃ tss, List.Forall₂ Scans (stringifyElements (elements.map some)) tss ∧
      List.Forall₂ Reads tss elements := by
  induction elements with
  | nil => exact ⟨[], .nil, .nil⟩
  | cons v elements ih =>
    obtain ⟨text, ts, htext, hscans, hreads⟩ := h v List.mem_cons_self
    obtain ⟨tss, hscanss, hreadss⟩ := ih fun w hw => h w (List.mem_cons_of_mem _ hw)
    refine ⟨ts :: tss, ?_, .cons hreads hreadss⟩
    rw [List.map_cons, stringifyElements, htext]
    exact .cons hscans hscanss

theorem written_properties {props : List (JsString × JsValue)} (h : ∀ p ∈ props, Written p.2) :
    ∃ tss, List.Forall₂ Scans (stringifyProperties props) tss ∧
      List.Forall₂ ReadsProperty tss props := by
  induction props with
  | nil => exact ⟨[], .nil, .nil⟩
  | cons p props ih =>
    obtain ⟨key, v⟩ := p
    obtain ⟨text, ts, htext, hscans, hreads⟩ := h (key, v) List.mem_cons_self
    obtain ⟨tss, hscanss, hreadss⟩ := ih fun q hq => h q (List.mem_cons_of_mem _ hq)
    have hcolon : punctuation (unit ':') = some .colon := rfl
    refine ⟨(.literal (.string key) :: .colon :: ts) :: tss, ?_, .cons ⟨ts, rfl, hreads⟩ hreadss⟩
    simp only [stringifyProperties, htext]
    refine .cons ?_ hscanss
    exact (scans_string key).append (hscans.punctuation hcolon) fun _ _ => ends_cons hcolon _

theorem written_isData {v : JsValue} (h : IsData JsNumber.Writable v) : Written v := by
  induction h with
  | null => exact written_word rfl (by decide) (by decide) rfl
  | boolean b => cases b <;> exact written_word rfl (by decide) (by decide) rfl
  | number hx =>
    obtain ⟨q, rfl, hq⟩ := hx
    obtain ⟨hread, hnumber⟩ := numberString_spec hq
    have hword := word_number hnumber.isNumber
    rw [hread] at hword
    exact written_word rfl hnumber.ne_nil
      (fun ch hch => isWordUnit_of_isLiteralUnit (hnumber.literalUnit ch hch)) hword
  | string s => exact ⟨_, _, rfl, scans_string s, reads_literal (.string s)⟩
  | array _ ih =>
    obtain ⟨tss, hscans, hreads⟩ := written_elements ih
    exact ⟨_, _, rfl, scans_bracketed rfl rfl hscans, reads_array hreads⟩
  | object hkeys _ ih =>
    obtain ⟨tss, hscans, hreads⟩ := written_properties ih
    exact ⟨_, _, rfl, scans_bracketed rfl rfl hscans, reads_object hreads hkeys⟩

/-- Data is read back from its text. -/
theorem parse_stringify {v : JsValue} (h : IsData JsNumber.Writable v) :
    ∃ text, stringify v = some text ∧ parse text = some v := by
  obtain ⟨text, ts, htext, hscans, hreads⟩ := written_isData h
  refine ⟨text, htext, ?_⟩
  have hts : tokens .between text = some ts := by
    have hall := hscans [] nofun
    rwa [List.append_nil, tokens, Option.map_some, List.append_nil] at hall
  have hv := hreads.value [] []
  rw [List.append_nil] at hv
  rw [parse, hts]
  exact hv

/-! ## What is parsed is data -/

theorem keys_setProperty (props : List (JsString × JsValue)) (key : JsString) (v : JsValue) :
    (JsValue.setProperty props key v).map Prod.fst =
      if key ∈ props.map Prod.fst then props.map Prod.fst else props.map Prod.fst ++ [key] := by
  induction props with
  | nil => rfl
  | cons p props ih =>
    obtain ⟨k, w⟩ := p
    by_cases hk : k = key
    · subst hk
      rw [JsValue.setProperty, if_pos rfl]
      simp
    · simp only [JsValue.setProperty, if_neg hk, List.map_cons, ih]
      by_cases hmem : key ∈ props.map Prod.fst
      · rw [if_pos hmem, if_pos (List.mem_cons_of_mem _ hmem)]
      · rw [if_neg hmem, if_neg (List.mem_cons.not.mpr (not_or.mpr ⟨Ne.symm hk, hmem⟩))]
        rfl

theorem mem_setProperty {props : List (JsString × JsValue)} {key : JsString} {v : JsValue}
    {p : JsString × JsValue} (h : p ∈ JsValue.setProperty props key v) :
    p = (key, v) ∨ p ∈ props := by
  induction props with
  | nil => exact .inl (List.mem_singleton.mp h)
  | cons q props ih =>
    obtain ⟨k, w⟩ := q
    by_cases hk : k = key
    · rw [JsValue.setProperty, if_pos hk, hk] at h
      exact (List.mem_cons.mp h).imp_right (List.mem_cons_of_mem _)
    · rw [JsValue.setProperty, if_neg hk] at h
      rcases List.mem_cons.mp h with rfl | h
      · exact .inr List.mem_cons_self
      · exact (ih h).imp_right (List.mem_cons_of_mem _)

/-- A number that is read from a text. -/
def IsRead (x : JsNumber) : Prop := ∃ s, x = Number s

def Token.IsData : Token → Prop
  | .literal v => Lionden.IsData IsRead v
  | _ => True

/-- The properties of an object that is data. -/
def PropsData (props : List (JsString × JsValue)) : Prop :=
  (props.map Prod.fst).Nodup ∧ ∀ p ∈ props, Lionden.IsData IsRead p.2

theorem PropsData.setProperty {props : List (JsString × JsValue)} {key : JsString} {v : JsValue}
    (h : PropsData props) (hv : Lionden.IsData IsRead v) :
    PropsData (JsValue.setProperty props key v) := by
  refine ⟨?_, fun p hp => ?_⟩
  · rw [keys_setProperty]
    split_ifs with hmem
    · exact h.1
    · exact List.nodup_append.mpr ⟨h.1, List.nodup_singleton _,
        fun a ha b hb heq => hmem (by rwa [← List.mem_singleton.mp hb, ← heq])⟩
  · rcases mem_setProperty hp with rfl | hp
    · exact hv
    · exact h.2 p hp

def Frame.IsData : Frame → Prop
  | .array vs => ∀ v ∈ vs, Lionden.IsData IsRead v
  | .object props _ => PropsData props

/-- What has been read so far is data. -/
def Expect.IsData : Expect → Prop
  | .value stack | .firstElement stack | .firstKey stack => ∀ f ∈ stack, f.IsData
  | .key stack props | .colon stack props _ => (∀ f ∈ stack, f.IsData) ∧ PropsData props
  | .follow stack v => (∀ f ∈ stack, f.IsData) ∧ Lionden.IsData IsRead v

theorem word_isData {s : JsString} {t : Token} (h : word s = some t) : t.IsData := by
  unfold word at h
  split_ifs at h
  · cases h
    exact .null
  · cases h
    exact .boolean true
  · cases h
    exact .boolean false
  · cases h
    exact .number ⟨s, rfl⟩

theorem punctuation_isData {ch : CodeUnit} {t : Token} (h : punctuation ch = some t) :
    t.IsData := by
  unfold punctuation at h
  split_ifs at h <;> cases h <;> trivial

theorem tokens_isData (scan : Scan) (text : JsString) {ts : List Token}
    (h : tokens scan text = some ts) : ∀ t ∈ ts, t.IsData := by
  have hmap {t : Token} {o : Option (List Token)} {ts : List Token} (ht : t.IsData)
      (ho : ∀ us, o = some us → ∀ t ∈ us, t.IsData) (h : o.map (t :: ·) = some ts) :
      ∀ t ∈ ts, t.IsData := by
    obtain ⟨us, hus, rfl⟩ := Option.map_eq_some_iff.mp h
    exact List.forall_mem_cons.mpr ⟨ht, ho us hus⟩
  fun_induction tokens scan text generalizing ts
  case case1 =>
    cases h
    exact nofun
  case case2 s =>
    obtain ⟨t, ht, rfl⟩ := Option.map_eq_some_iff.mp h
    exact List.forall_mem_singleton.mpr (word_isData ht)
  case case8 _ _ t ht ih => exact hmap (punctuation_isData ht) (fun _ => ih) h
  case case10 ih =>
    obtain ⟨t, ht, h⟩ := Option.bind_eq_some_iff.mp h
    exact hmap (word_isData ht) (fun _ => ih) h
  case case12 _ _ t ht ih =>
    obtain ⟨u, hu, h⟩ := Option.bind_eq_some_iff.mp h
    obtain ⟨us, hus, rfl⟩ := Option.map_eq_some_iff.mp h
    exact List.forall_mem_cons.mpr ⟨word_isData hu,
      List.forall_mem_cons.mpr ⟨punctuation_isData ht, ih hus⟩⟩
  case case14 s _ ih =>
    have hs : Token.IsData (.literal (.string s)) := IsData.string s
    exact hmap hs (fun _ => ih) h
  -- Elsewhere the scan goes on, or the text is no JSON.
  all_goals first
    | cases h
    | exact ‹∀ {ts : List Token}, _ = some ts → ∀ t ∈ ts, t.IsData› h

theorem beginValue_isData {stack : List Frame} {t : Token} {expect : Expect}
    (hstack : ∀ f ∈ stack, f.IsData) (ht : t.IsData) (h : beginValue stack t = some expect) :
    expect.IsData := by
  cases t with
  | literal v =>
    cases h
    exact ⟨hstack, ht⟩
  | beginArray =>
    cases h
    exact hstack
  | beginObject =>
    cases h
    exact hstack
  | _ => cases h

theorem beginKey_isData {stack : List Frame} {props : List (JsString × JsValue)} {t : Token}
    {expect : Expect} (hstack : ∀ f ∈ stack, f.IsData) (hprops : PropsData props)
    (h : beginKey stack props t = some expect) : expect.IsData := by
  unfold beginKey at h
  split at h
  · cases h
    exact ⟨hstack, hprops⟩
  · cases h

theorem propsData_nil : PropsData [] := ⟨List.nodup_nil, nofun⟩

/-- One token keeps what is read data. -/
theorem Expect.IsData.next {expect expect' : Expect} {t : Token} (hexpect : expect.IsData)
    (ht : t.IsData) (h : expect.next t = some expect') : expect'.IsData := by
  unfold Expect.next at h
  split at h
  · exact beginValue_isData hexpect ht h
  · cases h
    exact ⟨hexpect, @Lionden.IsData.array _ [] nofun⟩
  · have hframe : Frame.IsData (.array []) := fun v hv => nomatch hv
    exact beginValue_isData (List.forall_mem_cons.mpr ⟨hframe, hexpect⟩) ht h
  · cases h
    exact ⟨hexpect, .object List.nodup_nil nofun⟩
  · exact beginKey_isData hexpect propsData_nil h
  · exact beginKey_isData hexpect.1 hexpect.2 h
  · cases h
    exact List.forall_mem_cons.mpr ⟨hexpect.2, hexpect.1⟩
  · cases h
    obtain ⟨hframe, hstack⟩ := List.forall_mem_cons.mp hexpect.1
    exact List.forall_mem_cons.mpr ⟨List.forall_mem_append.mpr
      ⟨hframe, List.forall_mem_singleton.mpr hexpect.2⟩, hstack⟩
  · cases h
    obtain ⟨hframe, hstack⟩ := List.forall_mem_cons.mp hexpect.1
    exact ⟨hstack, .array (List.forall_mem_append.mpr
      ⟨hframe, List.forall_mem_singleton.mpr hexpect.2⟩)⟩
  · cases h
    obtain ⟨hframe, hstack⟩ := List.forall_mem_cons.mp hexpect.1
    exact ⟨hstack, PropsData.setProperty hframe hexpect.2⟩
  · cases h
    obtain ⟨hframe, hstack⟩ := List.forall_mem_cons.mp hexpect.1
    exact ⟨hstack, .object (PropsData.setProperty hframe hexpect.2).1
      (PropsData.setProperty hframe hexpect.2).2⟩
  · cases h

theorem parseTokens_isData {expect : Expect} {ts : List Token} {v : JsValue}
    (hexpect : expect.IsData) (hts : ∀ t ∈ ts, t.IsData) (h : parseTokens expect ts = some v) :
    Lionden.IsData IsRead v := by
  induction ts generalizing expect with
  | nil =>
    unfold parseTokens at h
    split at h
    · cases h
      exact hexpect.2
    · cases h
    · next heq => cases heq
  | cons t ts ih =>
    obtain ⟨ht, hts⟩ := List.forall_mem_cons.mp hts
    have hnext : parseTokens expect (t :: ts) =
        (expect.next t).bind fun expect => parseTokens expect ts := by
      cases hstep : expect.next t with
      | some next => simp [parseTokens, hstep]
      | none => simp [parseTokens, hstep]
    rw [hnext] at h
    cases hstep : expect.next t with
    | some expect =>
      rw [hstep] at h
      exact ih (hexpect.next ht hstep) hts h
    | none =>
      rw [hstep] at h
      cases h

/-- What is parsed is data. -/
theorem isData_parse {text : JsString} {v : JsValue} (h : parse text = some v) :
    Lionden.IsData IsRead v := by
  obtain ⟨ts, hts, hv⟩ := Option.bind_eq_some_iff.mp h
  exact @parseTokens_isData (.value []) _ _ nofun (tokens_isData _ _ hts) hv

end JSON

/-! ## Data -/

theorem isData_array {p : JsNumber → Prop} {elements : List (Option JsValue)} :
    IsData p (.array elements) ↔ ∀ x ∈ elements, ∃ v, x = some v ∧ IsData p v := by
  constructor
  · intro h
    generalize heq : JsValue.array elements = w at h
    cases h with
    | @array vs h =>
      cases heq
      intro x hx
      obtain ⟨v, hv, rfl⟩ := List.mem_map.mp hx
      exact ⟨v, rfl, h v hv⟩
    | _ => cases heq
  · intro h
    have hvalues : ∃ vs : List JsValue, elements = vs.map some := by
      induction elements with
      | nil => exact ⟨[], rfl⟩
      | cons x elements ih =>
        obtain ⟨v, rfl, -⟩ := h x List.mem_cons_self
        obtain ⟨vs, rfl⟩ := ih fun y hy => h y (List.mem_cons_of_mem _ hy)
        exact ⟨v :: vs, rfl⟩
    obtain ⟨vs, rfl⟩ := hvalues
    refine .array fun v hv => ?_
    obtain ⟨w, hw, hdata⟩ := h (some v) (List.mem_map_of_mem hv)
    cases hw
    exact hdata

theorem IsData.property {p : JsNumber → Prop} {v : JsValue} {key : JsString} (h : IsData p v)
    (hproto : inherited key = .undefined) (hpresent : v.property key ≠ .undefined) :
    IsData p (v.property key) := by
  cases h with
  | @object props hkeys h =>
    have hget : JsValue.property (.object props none) key =
        (props.lookup key).getD .undefined := by
      change (props.lookup key).getD (inherited key) = _
      rw [hproto]
    rw [hget] at hpresent ⊢
    cases hlookup : props.lookup key with
    | none => exact absurd (by rw [hlookup]; rfl) hpresent
    | some w => exact h (key, w) (Fallible.mem_of_lookup hlookup)
  | _ => exact absurd rfl hpresent

theorem IsData.property_of_hasOwn {p : JsNumber → Prop} {v : JsValue} {key : JsString}
    (h : IsData p v) (hkey : v.hasOwn key = true) : IsData p (v.property key) := by
  cases h with
  | @object props hkeys h =>
    obtain ⟨w, hw⟩ := Option.isSome_iff_exists.mp hkey
    have hget : JsValue.property (.object props none) key = w := by
      change (props.lookup key).getD _ = w
      rw [hw]
      rfl
    rw [hget]
    exact h (key, w) (Fallible.mem_of_lookup hw)
  | _ => cases hkey

theorem IsData.and {p q : JsNumber → Prop} {v : JsValue} (hp : IsData p v) (hq : IsData q v) :
    IsData (fun x => p x ∧ q x) v := by
  induction hp with
  | null => exact .null
  | boolean b => exact .boolean b
  | number hx =>
    cases hq with
    | number hy => exact .number ⟨hx, hy⟩
  | string s => exact .string s
  | @array elements _ ih =>
    refine .array fun v hv => ih v hv ?_
    generalize heq : JsValue.array (elements.map some) = w at hq
    cases hq with
    | @array elements' h =>
      have hmap := JsValue.array.inj heq
      rw [(List.map_injective_iff.mpr (Option.some_injective _)) hmap] at hv
      exact h v hv
    | _ => cases heq
  | object hkeys _ ih =>
    cases hq with
    | object _ h => exact .object hkeys fun p hp => ih p hp (h p hp)

theorem IsData.mono {p q : JsNumber → Prop} {v : JsValue} (h : IsData p v)
    (hpq : ∀ x, p x → q x) : IsData q v := by
  induction h with
  | null => exact .null
  | boolean b => exact .boolean b
  | number hx => exact .number (hpq _ hx)
  | string s => exact .string s
  | array _ ih => exact .array ih
  | object hkeys _ ih => exact .object hkeys ih

/-- Parsed data with finite numbers is written as it is. -/
theorem isData_writable {text : JsString} {v : JsValue} (h : JSON.parse text = some v)
    (hfinite : IsData JsNumber.Finite v) : IsData JsNumber.Writable v := by
  refine ((JSON.isData_parse h).and hfinite).mono ?_
  rintro x ⟨⟨s, hs⟩, q, rfl⟩
  exact ⟨q, rfl, isDouble_Number hs.symm⟩

end Lionden
