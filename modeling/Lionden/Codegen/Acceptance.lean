import Lionden.Codegen.Roundtrip
import Lionden.Codegen.Lenient

/-!
# What the generated deserializers let through

* `lenient_iff`: a deserializer returns if and only if the text is in the lenient grammar.
* `deserialize_sound_iff`: what a deserializer returns is the value of a literal of its type if and
  only if the text, if it is in the lenient grammar at all, is such a literal.
-/

namespace Lionden.Codegen

/-! ## The parsers of primitive types -/

theorem asString_ok {value : JsValue} {s : JsString} :
    asString value = .ok s ↔ value = .string s := by
  cases value <;> simp [asString]

/-- What a parser of texts accepts is a string. -/
theorem exists_string {α : Type} {value : JsValue} {parse : JsString → Except JsError α} {a : α}
    (h : (asString value >>= parse) = .ok a) : ∃ s, value = .string s := by
  obtain ⟨s, hs, -⟩ := Fallible.bind_ok.mp h
  exact ⟨s, asString_ok.mp hs⟩

theorem parseScalarLike_returns {kind : ScalarLike} {value : JsValue} :
    (∃ t, parseScalarLike value kind = .ok t) ↔
      ∃ s, value = .string s ∧ LenientScalar kind s := by
  cases value with
  | string s =>
    simp only [parseScalarLike, asString, bind, Except.bind, serializeScalarLike, expectString,
      ← lenientScalar_iff, Bool.or_eq_true, JsValue.string.injEq, exists_eq_left']
    by_cases hs : isSuffixed kind.suffix (trim (stripVisibility s)) = true
    · simp [hs, pure, Except.pure]
    · by_cases hd : isDigits (trim (stripVisibility s)) = true
      · simp [hd, hs, pure, Except.pure]
      · simp [hd, hs, throw, throwThe, MonadExceptOf.throw]
  | _ => simp [parseScalarLike, asString, bind, Except.bind]

theorem parseAddress_returns {value : JsValue} :
    (∃ t, parseAddress value = .ok t) ↔
      ∃ s, value = .string s ∧ LenientLeaf .address s := by
  cases value with
  | string s =>
    simp only [parseAddress, asString, bind, Except.bind, serializeAddress, addressSource,
      expectString, ← lenientAddress_iff, JsValue.string.injEq, exists_eq_left']
    by_cases ha : isAddress (trim (stripVisibility s)) = true
    · simp [ha, pure, Except.pure]
    · simp [ha, throw, throwThe, MonadExceptOf.throw]
  | _ => simp [parseAddress, asString, bind, Except.bind]

theorem parseIdentifier_returns {value : JsValue} :
    (∃ t, parseIdentifier value = .ok t) ↔ ∃ s, value = .string s ∧ LenientLeaf .identifier s := by
  cases value with
  | string s =>
    simp only [parseIdentifier, asString, bind, Except.bind, assertIdentifierName,
      ← lenientIdentifier_iff, Bool.or_eq_true, JsValue.string.injEq, exists_eq_left']
    by_cases hq : isQuoted (stripVisibility s) = true
    · simp [hq, pure, Except.pure]
    · by_cases hi : isIdentifierName (stripVisibility s) = true
      · simp [hq, hi, pure, Except.pure]
      · simp [hq, hi]
  | _ => simp [parseIdentifier, asString, bind, Except.bind]

theorem deserializeInteger_returns {size : IntegerSize} {value : JsValue} :
    (∃ v, deserializeInteger size value = .ok v) ↔
      ∃ s, value = .string s ∧ LenientLeaf (.uint size) s := by
  cases value with
  | string s =>
    simp only [deserializeInteger, parseNumber, parseBigInt, asString, bind, Except.bind,
      LenientLeaf, ← lenientInteger_iff, JsValue.string.injEq, exists_eq_left']
    by_cases hbig : isBigIntType size = true
    · cases h : BigInt (stripSuffix s) with
      | none => simp [hbig, throw, throwThe, MonadExceptOf.throw, Functor.map, Except.map]
      | some i => simp [hbig, pure, Except.pure, Functor.map, Except.map]
    · simp [hbig, pure, Except.pure, Functor.map, Except.map]
  | _ => simp [deserializeInteger, parseNumber, parseBigInt, asString, bind, Except.bind,
      Functor.map, Except.map]

theorem map_returns {α : Type} {x : Except JsError α} {f : α → JsValue} :
    (∃ v, f <$> x = .ok v) ↔ ∃ a, x = .ok a := by
  cases x <;> simp [Functor.map, Except.map]

theorem deserializePrimitive_returns {prim : PrimitiveType} {value : JsValue} :
    (∃ v, deserializePrimitive prim value = .ok v) ↔
      (prim = .signature ∨ ∃ s, value = .string s ∧ LenientLeaf prim s) := by
  cases prim <;> simp only [deserializePrimitive, map_returns, reduceCtorEq, false_or]
  case address => exact parseAddress_returns
  case field => exact parseScalarLike_returns
  case group => exact parseScalarLike_returns
  case scalar => exact parseScalarLike_returns
  case identifier => exact parseIdentifier_returns
  case boolean =>
    simp only [parseBoolean, Fallible.bind_ok, asString_ok, LenientLeaf, and_true]
    constructor
    · rintro ⟨_, s, hs, -⟩
      exact ⟨s, hs⟩
    · rintro ⟨s, hs⟩
      exact ⟨_, s, hs, rfl⟩
  case signature => simp
  case uint size => exact deserializeInteger_returns
  case int size => exact deserializeInteger_returns

/-- A list of computations returns if each of them does. -/
theorem mapM_returns {ε α β : Type} {f : α → Except ε β} {xs : List α} :
    (∃ ys, xs.mapM f = .ok ys) ↔ ∀ x ∈ xs, ∃ y, f x = .ok y := by
  constructor
  · rintro ⟨ys, h⟩
    have hall := Fallible.mapM_ok.mp h
    clear h
    induction hall with
    | nil => simp
    | cons hx _ ih => exact List.forall_mem_cons.mpr ⟨⟨_, hx⟩, ih⟩
  · intro h
    induction xs with
    | nil => exact ⟨[], rfl⟩
    | cons x xs ih =>
      rw [List.forall_mem_cons] at h
      obtain ⟨⟨y, hy⟩, hxs⟩ := h
      obtain ⟨ys, hys⟩ := ih hxs
      exact ⟨y :: ys, by rw [List.mapM_cons, hy, hys]; rfl⟩

theorem decodeFields_returns {call : StructDeserializer} {ctx : GenerationContext}
    {texts : Properties} {fields : List FieldABI} :
    (∃ props, decodeFields call ctx texts fields = .ok props) ↔
      ∀ f ∈ fields, ∃ v, decode call ctx f.ty (texts.text f.name.name) = .ok v := by
  induction fields with
  | nil => exact ⟨fun _ => by simp, fun _ => ⟨[], rfl⟩⟩
  | cons f fields ih =>
    rw [List.forall_mem_cons, ← ih]
    constructor
    · rintro ⟨props, h⟩
      obtain ⟨v, hv, h⟩ := Fallible.bind_ok.mp h
      obtain ⟨rest, hrest, -⟩ := Fallible.bind_ok.mp h
      exact ⟨⟨v, hv⟩, rest, hrest⟩
    · rintro ⟨⟨v, hv⟩, rest, hrest⟩
      exact ⟨_, Fallible.bind_ok.mpr ⟨v, hv, Fallible.bind_ok.mpr ⟨rest, hrest, rfl⟩⟩⟩

theorem parseBoolean_ok {value : JsValue} {b : Bool} :
    parseBoolean value = .ok b ↔
      ∃ s, value = .string s ∧ decide (stripVisibility s = js "true") = b := by
  simp only [parseBoolean, Fallible.bind_ok, asString_ok]
  refine exists_congr fun s => and_congr_right fun _ => ?_
  exact ⟨fun h => Except.ok.inj h, fun h => congrArg _ h⟩

/-! ## The deserializers -/

theorem propertyText_eq {value : JsValue} {s : JsString} :
    propertyText value = some s ↔ value = .string s := by
  cases value <;> simp [propertyText]

/-- The elements of an array are let through. -/
theorem elements_lenient {P : JsString → Prop} {pieces : List JsString} {last : JsString} :
    (∀ t ∈ elements pieces last, P t) ↔
      (∀ p ∈ pieces, P (trim p)) ∧ (trim last ≠ [] → P (trim last)) := by
  unfold elements
  rw [List.forall_mem_append, List.forall_mem_map]
  refine and_congr_right fun _ => ?_
  split
  · next hnil => simp [hnil]
  · next hne => simp [hne]

theorem FieldName.isOrdinary (f : FieldName) : Ordinary f.name := ⟨f.isKey.atom.1, f.ordinary⟩

/-- The texts under which properties of a struct are let through. -/
theorem fieldIn_lenient {P : Option JsString → Prop} {pieces : List JsString} {texts : Properties}
    (htexts : ∀ name, Ordinary name → ∀ text, FieldIn pieces name text ↔
      text = propertyText (texts.text name)) {name : JsString} (hname : Ordinary name) :
    (∃ t, FieldIn pieces name t ∧ P t) ↔ P (propertyText (texts.text name)) := by
  simp only [htexts name hname, exists_eq_left]

theorem decode_returns {call : StructDeserializer}
    {lenient : GenerationContext → StructABI → Option JsString → Prop}
    (hcall : ∀ ctx struct value, (∃ v, call ctx struct value = .ok v) ↔
      lenient ctx struct (propertyText value))
    {ctx : GenerationContext} {ty : PlaintextType} {value : JsValue} :
    (∃ v, decode call ctx ty value = .ok v) ↔
      LenientPlaintext lenient ctx ty (propertyText value) := by
  induction ty generalizing value with
  | primitive prim =>
    simp only [decode, LenientPlaintext, deserializePrimitive_returns, propertyText_eq]
  | struct ref =>
    simp only [decode, LenientPlaintext]
    cases hr : ctx.resolveStruct ref with
    | none => simp
    | some r =>
      simp only [Option.some.injEq, hcall]
      exact ⟨fun h _ _ heq => by cases heq; exact h, fun h => h _ _ rfl⟩
  | array elem length ih =>
    simp only [decode, LenientPlaintext, propertyText_eq, Fallible.bind_ok]
    have helements : ∀ {pieces : List JsString} {last : JsString},
        (∃ values, (elements pieces last).mapM (fun e => decode call ctx elem (.string e)) =
          .ok values) ↔
        (∀ p ∈ pieces, LenientPlaintext lenient ctx elem (some (trim p))) ∧
          (trim last ≠ [] → LenientPlaintext lenient ctx elem (some (trim last))) := by
      intro pieces last
      rw [mapM_returns, ← elements_lenient (P := fun t => LenientPlaintext lenient ctx elem (some t))]
      exact forall₂_congr fun t _ => ih
    constructor
    · rintro ⟨v, texts, hparsed, values, hvalues, -⟩
      obtain ⟨s, rfl⟩ := exists_string hparsed
      obtain ⟨all, hcuts⟩ := exists_cuts openBracket closeBracket (by decide) s
      obtain ⟨pieces, last, rfl⟩ : ∃ pieces last, all = pieces ++ [last] := by
        obtain ⟨inner, -, hcut⟩ := hcuts
        exact Cut.eq_concat hcut
      rw [parseArray_cuts hcuts] at hparsed
      obtain rfl := Except.ok.inj hparsed
      exact ⟨s, pieces, last, rfl, hcuts, helements.mp ⟨values, hvalues⟩⟩
    · rintro ⟨s, pieces, last, rfl, hcuts, hlenient⟩
      obtain ⟨values, hvalues⟩ := helements.mpr hlenient
      exact ⟨_, _, parseArray_cuts hcuts, values, hvalues, rfl⟩
  | optional inner ih =>
    have hsome : Ordinary (js "is_some") := ⟨by decide, by decide⟩
    have hval : Ordinary (js "val") := ⟨by decide, by decide⟩
    simp only [decode, LenientPlaintext, propertyText_eq, Fallible.bind_ok, parseBoolean_ok, flag_iff]
    constructor
    · rintro ⟨v, opt, hparsed, isSome, ⟨flag, hflag, hset⟩, h⟩
      obtain ⟨s, rfl⟩ := exists_string hparsed
      obtain ⟨pieces, hcuts⟩ := exists_cuts openBrace closeBrace (by decide) s
      obtain ⟨texts, htexts, hfields⟩ := parseStruct_cuts hcuts
      obtain rfl := Except.ok.inj (htexts.symm.trans hparsed)
      refine ⟨s, pieces, flag, rfl, hcuts, ?_, fun htrue => ?_⟩
      · rw [hfields _ hsome, hflag]
        rfl
      · rw [fieldIn_lenient hfields hval, ← ih]
        rw [← hset, decide_eq_true htrue, if_pos rfl] at h
        split at h
        · cases h
        · next hinner => exact ⟨by simpa using hinner, v, h⟩
    · rintro ⟨s, pieces, flag, rfl, hcuts, hflag, h⟩
      obtain ⟨texts, htexts, hfields⟩ := parseStruct_cuts hcuts
      rw [hfields _ hsome, eq_comm, propertyText_eq] at hflag
      by_cases htrue : stripVisibility flag = js "true"
      · obtain ⟨hinner, hlenient⟩ := h htrue
        rw [fieldIn_lenient hfields hval, ← ih] at hlenient
        obtain ⟨v, hv⟩ := hlenient
        refine ⟨v, texts, htexts, true, ⟨flag, hflag, decide_eq_true htrue⟩, ?_⟩
        simpa [hinner] using hv
      · exact ⟨.null, texts, htexts, false, ⟨flag, hflag, decide_eq_false htrue⟩, rfl⟩

/-- **A deserializer returns if and only if the text is in the lenient grammar.** -/
theorem lenient_iff {depth : Nat} {ctx : GenerationContext} {ty : PlaintextType} {s : JsString} :
    (∃ v, deserialize depth ctx ty s = .ok v) ↔ Lenient depth ctx ty s := by
  have hstruct : ∀ ctx struct value, (∃ v, deserializeStruct depth ctx struct value = .ok v) ↔
      LenientStruct depth ctx struct (propertyText value) := by
    induction depth with
    | zero =>
      refine fun ctx struct value => iff_of_false ?_ id
      rintro ⟨v, hv⟩
      cases hv
    | succ depth ih =>
      intro ctx struct value
      simp only [deserializeStruct_succ, LenientStruct, propertyText_eq, Fallible.bind_ok]
      constructor
      · rintro ⟨v, texts, hparsed, props, hprops, -⟩
        obtain ⟨s, rfl⟩ := exists_string hparsed
        obtain ⟨pieces, hcuts⟩ := exists_cuts openBrace closeBrace (by decide) s
        obtain ⟨texts', htexts, hfields⟩ := parseStruct_cuts hcuts
        obtain rfl := Except.ok.inj (htexts.symm.trans hparsed)
        refine ⟨s, pieces, rfl, hcuts, fun field hfield => ?_⟩
        rw [fieldIn_lenient hfields field.name.isOrdinary, ← decode_returns ih]
        exact decodeFields_returns.mp ⟨props, hprops⟩ field hfield
      · rintro ⟨s, pieces, rfl, hcuts, hlenient⟩
        obtain ⟨texts, htexts, hfields⟩ := parseStruct_cuts hcuts
        obtain ⟨props, hprops⟩ : ∃ props,
            decodeFields (deserializeStruct depth) ctx texts struct.fields = .ok props := by
          refine decodeFields_returns.mpr fun field hfield => ?_
          rw [decode_returns ih]
          exact (fieldIn_lenient hfields field.name.isOrdinary).mp (hlenient field hfield)
        exact ⟨_, texts, htexts, props, hprops, rfl⟩
  simp only [deserialize_eq]
  exact decode_returns hstruct

/-! ## Deeper stacks -/

theorem decode_mono {call call' : StructDeserializer} (hcall : ∀ ctx struct value v,
      call ctx struct value = .ok v → call' ctx struct value = .ok v)
    {ctx : GenerationContext} {ty : PlaintextType} {value v : JsValue}
    (h : decode call ctx ty value = .ok v) : decode call' ctx ty value = .ok v := by
  induction ty generalizing value v with
  | primitive prim => exact h
  | struct ref =>
    simp only [decode] at h ⊢
    split at h
    · exact hcall _ _ _ _ h
    · exact h
  | array elem length ih =>
    simp only [decode, Fallible.bind_ok, Fallible.mapM_ok] at h ⊢
    obtain ⟨elements, hparsed, values, hvalues, h⟩ := h
    exact ⟨elements, hparsed, values, hvalues.imp fun _ _ => ih, h⟩
  | optional inner ih =>
    simp only [decode, Fallible.bind_ok] at h ⊢
    obtain ⟨opt, hopt, isSome, hsome, h⟩ := h
    refine ⟨opt, hopt, isSome, hsome, ?_⟩
    cases isSome with
    | false => exact h
    | true =>
      rw [if_pos rfl] at h ⊢
      by_cases hinner : inner.isOptional = true
      · rw [if_pos hinner] at h
        cases h
      · rw [if_neg hinner] at h ⊢
        exact ih h

/-- What is read with less stack is also read with more. -/
theorem deserializeStruct_mono {depth depth' : Nat} (hd : depth ≤ depth') (ctx : GenerationContext)
    (struct : StructABI) (value v : JsValue) (h : deserializeStruct depth ctx struct value = .ok v) :
    deserializeStruct depth' ctx struct value = .ok v := by
  induction depth generalizing depth' ctx struct value v with
  | zero => cases h
  | succ depth ih =>
    obtain ⟨d, rfl⟩ : ∃ d, depth' = d + 1 := ⟨depth' - 1, by omega⟩
    simp only [deserializeStruct_succ, Fallible.bind_ok, decodeFields_ok] at h ⊢
    obtain ⟨texts, hparsed, props, hprops, h⟩ := h
    refine ⟨texts, hparsed, props, hprops.imp fun f p hp => ⟨hp.1, ?_⟩, h⟩
    exact decode_mono (fun ctx struct value v => ih (by omega) ctx struct value v) hp.2

/-! ## Soundness -/

/-- **Soundness of the deserializers.** Whatever a deserializer returns on a text is the value of a
literal of its type if and only if the text is such a literal, unless it is not even in the lenient
grammar. -/
theorem deserialize_sound_iff (depth : Nat) (ctx : GenerationContext) (ty : PlaintextType)
    (s : JsString) :
    (∀ v, deserialize depth ctx ty s = .ok v → ∃ m, Denotes .decorated m ctx ty s v) ↔
    (Lenient depth ctx ty s → IsLiteral .decorated ctx ty s) := by
  constructor
  · intro h hlenient
    obtain ⟨v, hv⟩ := lenient_iff.mpr hlenient
    obtain ⟨m, hm⟩ := h v hv
    exact ⟨m, v, hm⟩
  · intro h v hv
    obtain ⟨m, w, hw⟩ := h (lenient_iff.mp ⟨v, hv⟩)
    rw [deserialize_eq] at hv
    have hmax := decode_mono (deserializeStruct_mono (Nat.le_max_right m depth)) hv
    rcases (hw.deepen (Nat.le_max_left m depth)).decode_eq with hread | ⟨-, hread⟩
    · rw [hread] at hmax
      cases hmax
      exact ⟨m, hw⟩
    · rw [hread] at hmax
      cases hmax

theorem Leaf.uint_inv {style : Style} {size : IntegerSize} {s : JsString} {v : JsValue}
    (h : Leaf style (.uint size) s v) : ∃ digits, isDigits digits = true ∧
      digitsValue digits < 2 ^ size.bits ∧ s = digits ++ size.name (js "u") ∧
      v = integerValue size false (digitsValue digits) := by
  generalize hprim : PrimitiveType.uint size = prim at h
  cases h with
  | uint hd hlt =>
    cases hprim
    exact ⟨_, hd, hlt, rfl, rfl⟩
  | @scalarLike kind => cases kind <;> cases hprim
  | _ => cases hprim

/-- Any text is a number to the deserializers of small integers. -/
theorem deserialize_u8_hello :
    deserialize 0 emptyContext (.primitive (.uint .s8)) (js "hello") = .ok (.number .nan) ∧
      ¬ ∃ m, Denotes .decorated m emptyContext (.primitive (.uint .s8)) (js "hello")
        (.number .nan) := by
  refine ⟨?_, ?_⟩
  · have hnan : Number (stripSuffix (js "hello")) = .nan := by decide +kernel
    rw [deserialize_eq]
    exact congrArg (fun x => Except.ok (JsValue.number x)) hnan
  · rintro ⟨m, h⟩
    generalize hs : js "hello" = s at h
    cases h with
    | leaf hleaf _ =>
      obtain ⟨digits, -, -, -, hv⟩ := hleaf.uint_inv
      cases hv

end Lionden.Codegen
