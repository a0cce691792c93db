import Lionden.Codegen.Normalize

/-!
# The generated serializers

* `serializePrimitive_leaf`: what a serializer of a primitive type returns is a leaf.
* `serialize_item`: what a serializer returns may stand inside a literal.
* `serialize_denotes`: where the argument conforms to the style, it is a literal of the style.
-/

namespace Lionden.Codegen

/-! ## Primitive types -/

theorem style_letters {style : Style} {s : JsString} (h : style.anyCase = false → lower s = s) :
    style.letters s = lower s := by
  simp only [Style.letters]
  by_cases hcase : style.anyCase = true
  · rw [if_pos hcase]
  · rw [if_neg hcase, h (by simpa using hcase)]

theorem intString_of_nonneg {i : Int} (h : 0 ≤ i) : intString i = decimal i.natAbs := by
  rw [intString, if_neg (by omega)]

theorem intString_signed (i : Int) : intString i = signed (decide (i < 0)) (decimal i.natAbs) := by
  by_cases h : i < 0
  · simp [intString, signed, h, unit]
  · simp [intString, signed, h]

theorem isDigits_decimal (n : Nat) : isDigits (decimal n) = true :=
  isDigits_iff.mpr ⟨decimal_ne_nil n, isDigit_of_mem_decimal⟩

theorem ScalarLike.letters (kind : ScalarLike) (style : Style) :
    style.letters kind.suffix = kind.suffix := by
  rw [style_letters fun _ => kind.letters_suffix.2.2, kind.letters_suffix.2.2]

theorem leaf_scalarLike_int {style : Style} {kind : ScalarLike} {i : Int} (h : 0 ≤ i) :
    Leaf style kind.prim (intString i ++ kind.suffix) (.string (intString i ++ kind.suffix)) := by
  rw [intString_of_nonneg h]
  exact .scalarLike (isDigits_decimal _) (kind.letters style)

theorem not_isDigits_of_isSuffixed {kind : ScalarLike} {s : JsString}
    (h : isSuffixed kind.suffix s = true) : isDigits s = false := by
  rw [← Bool.not_eq_true, isDigits_iff]
  rintro ⟨-, hd⟩
  simp only [isSuffixed, Bool.and_eq_true, decide_eq_true_eq,
    List.dropWhile_eq_nil_iff.mpr hd] at h
  exact kind.letters_suffix.1 h.2.symm

theorem leaf_suffixed {style : Style} {kind : ScalarLike} {s : JsString}
    (hcase : style.anyCase = false → lower s = s) (h : isSuffixed kind.suffix s = true) :
    Leaf style kind.prim s (.string s) := by
  simp only [isSuffixed, Bool.and_eq_true, decide_eq_true_eq] at h
  obtain ⟨hd, hs⟩ := h
  have hsuffix : style.letters (s.dropWhile isDigit) = kind.suffix := by
    rw [style_letters, hs]
    intro hc
    have := hcase hc
    rw [← List.takeWhile_append_dropWhile (p := isDigit) (l := s), lower_append] at this
    exact (List.append_inj this (by simp [lower])).2
  have := Leaf.scalarLike hd hsuffix
  rwa [List.takeWhile_append_dropWhile] at this

theorem leaf_scalarLike {style : Style} {kind : ScalarLike} {value : JsValue}
    {context : Option TransitionInputContext} {s : JsString}
    (h : serializeScalarLike value kind context = .ok s) (hv : ConformsScalarLike style value) :
    Leaf style kind.prim s (normalizeScalarLike kind value) := by
  cases value with
  | bigint i =>
    simp only [serializeScalarLike] at h
    split at h
    · cases h
    · cases h
      exact leaf_scalarLike_int (by omega)
  | number x =>
    simp only [serializeScalarLike] at h
    split at h
    · cases h
    · next i hi =>
      simp only [normalizeScalarLike, hi]
      split at h
      · cases h
      · split at h
        · cases h
        · cases h
          exact leaf_scalarLike_int (by omega)
  | string t =>
    simp only [serializeScalarLike, expectString, bind, Except.bind] at h
    split at h
    · next hs =>
      cases h
      have := leaf_suffixed (fun hc => hv hc t rfl) hs
      simpa [normalizeScalarLike, not_isDigits_of_isSuffixed hs] using this
    · split at h
      · next hd =>
        cases h
        simp only [normalizeScalarLike, hd, if_true]
        exact .scalarLike hd (kind.letters style)
      · cases h
  | _ => simp [serializeScalarLike, expectString, bind, Except.bind] at h

theorem lowerUnit_alphanumeric {c : CodeUnit} (h : isAlphanumeric c = true) :
    isAddressPart (lowerUnit c) = true := by
  have ha : 'a'.toNat = 97 := rfl
  have hz : 'z'.toNat = 122 := rfl
  simp only [isAlphanumeric, Bool.or_eq_true, isLetter_iff, isDigit_iff] at h
  simp only [isAddressPart, inRange, ha, hz, Bool.or_eq_true, Bool.and_eq_true, decide_eq_true_eq,
    isDigit_iff, toNat_lowerUnit]
  split <;> omega

theorem leaf_address {style : Style} {s : JsString} (h : isAddress s = true)
    (hcase : style.anyCase = false → lower s = s)
    (hlen : style.anyLength = false → s.length = 63) : Leaf style .address s (.string s) := by
  simp only [isAddress, Bool.and_eq_true, decide_eq_true_eq, List.all_eq_true] at h
  obtain ⟨⟨htake, hne⟩, hpart⟩ := h
  refine @Leaf.address style s (lower (s.drop 5)) ?_ ?_ ?_ ?_
  · rw [style_letters hcase, ← htake, ← lower_append, List.take_append_drop]
  · simpa [lower] using hne
  · rw [List.all_eq_true]
    intro c hc
    obtain ⟨d, hd, rfl⟩ := List.mem_map.mp hc
    exact lowerUnit_alphanumeric (hpart d hd)
  · intro hl
    simp [lower, hlen hl]

theorem serializeAddress_leaf {style : Style} {value : JsValue}
    {context : Option TransitionInputContext} {s : JsString}
    (h : serializeAddress value context = .ok s) (hv : ConformsAddress style value) :
    Leaf style .address s (trimmed (addressSource value)) := by
  simp only [serializeAddress] at h
  cases hraw : addressSource value <;> rw [hraw] at h <;> try cases h
  next t =>
  obtain ⟨hcase, hlen⟩ := hv t hraw
  simp only [expectString, bind, Except.bind] at h
  split at h
  · next ha =>
    have hleaf := leaf_address ha hcase hlen
    cases h
    rw [stripVisibility_plain hleaf.plain]
    exact hleaf
  · cases h

theorem leaf_identifier {style : Style} {value : JsValue} {context : Option TransitionInputContext}
    {s : JsString} (h : serializeIdentifier value context = .ok s) :
    Leaf style .identifier s (normalizeIdentifier value) := by
  cases value <;> try cases h
  next t =>
  simp only [serializeIdentifier, expectString, assertIdentifierName, Fallible.bind_ok] at h
  obtain ⟨_, ht, h⟩ := h
  cases ht
  split at h
  · cases h
  · obtain ⟨_, hname, h⟩ := Fallible.bind_ok.mp h
    cases h
    simp only [normalizeIdentifier]
    refine .identifier ?_
    rw [ite_eq_left_iff] at hname
    by_contra hid
    cases hname hid

/-! ### Integers -/

theorem eq_of_toInt {x : JsNumber} {i : Int} (h : x.toInt? = some i) :
    x = .finite i ∨ x = .negZero ∧ i = 0 := by
  cases x with
  | nan => cases h
  | infinity negative => cases h
  | negZero => exact .inr ⟨rfl, by simpa [JsNumber.toInt?] using h.symm⟩
  | finite q =>
    simp only [JsNumber.toInt?] at h
    split at h
    · next hden =>
      cases h
      exact .inl (congrArg _ (Rat.den_eq_one_iff q |>.mp hden).symm)
    · cases h

theorem isBigIntType_iff (size : IntegerSize) : isBigIntType size = true ↔ ¬ size.bits ≤ 32 := by
  cases size <;> decide

/-- An integer argument is the value of the literal that it is written as. -/
theorem integerValue_of_integerOf {size : IntegerSize} {value : JsValue} {i : Int}
    (h : integerOf size value = some i) :
    integerValue size (decide (i < 0)) i.natAbs = normalizeInteger value := by
  cases value with
  | number x =>
    simp only [integerOf] at h
    split at h
    · next hbits =>
      have hbig : ¬ isBigIntType size = true := by
        rw [isBigIntType_iff]
        exact not_not_intro hbits
      rw [integerValue, if_neg hbig]
      rcases eq_of_toInt h with rfl | ⟨rfl, rfl⟩
      · by_cases hneg : i < 0
        · have hne : i.natAbs ≠ 0 := by omega
          have habs : ((i.natAbs : ℕ) : ℚ) = -(i : ℚ) := by
            rw [← Int.cast_neg, ← Int.ofNat_natAbs_of_nonpos (by omega)]
            rfl
          simp [JsNumber.ofSigned, hneg, hne, normalizeInteger, habs]
        · have habs : ((i.natAbs : ℕ) : ℚ) = (i : ℚ) := by
            rw [← Int.cast_natCast, Int.natAbs_of_nonneg (Int.not_lt.mp hneg)]
          simp only [hneg, decide_false, JsNumber.ofSigned, habs, normalizeInteger]
          rfl
      · rfl
    · cases h
  | bigint j =>
    simp only [integerOf] at h
    split at h
    · cases h
    · next hbits =>
      cases h
      rw [integerValue, if_pos ((isBigIntType_iff size).mpr hbits)]
      by_cases hneg : i < 0
      · simp only [hneg, decide_true, if_true, normalizeInteger]
        congr 1
        omega
      · simp only [hneg, decide_false, normalizeInteger]
        congr 1
        simp only [Bool.false_eq_true, if_false]
        omega
  | _ => cases h

theorem serializeInteger_ok {letter : JsString} {size : IntegerSize} {min max : Int}
    {value : JsValue} {context : Option TransitionInputContext} {s : JsString}
    (h : serializeInteger letter size min max value context = .ok s) :
    ∃ i, integerOf size value = some i ∧ min ≤ i ∧ i ≤ max ∧
      s = signed (decide (i < 0)) (decimal i.natAbs) ++ size.name letter := by
  simp only [serializeInteger] at h
  split at h
  · cases h
  · next i hi =>
    split at h
    · cases h
    · cases h
      exact ⟨i, hi, by omega, by omega, by rw [intString_signed]⟩

theorem leaf_uint {style : Style} {value : JsValue} {size : IntegerSize}
    {context : Option TransitionInputContext} {s : JsString}
    (h : serializeUInt value size context = .ok s) :
    Leaf style (.uint size) s (normalizeInteger value) := by
  obtain ⟨i, hi, hmin, hmax, rfl⟩ := serializeInteger_ok h
  have hneg : ¬ i < 0 := by omega
  rw [← integerValue_of_integerOf hi]
  simp only [hneg, decide_false]
  have hlt : digitsValue (decimal i.natAbs) < 2 ^ size.bits := by
    rw [digitsValue_decimal]
    have : ((2 ^ size.bits : ℕ) : Int) = 2 ^ size.bits := by norm_cast
    omega
  have := @Leaf.uint style size _ (isDigits_decimal i.natAbs) hlt
  rwa [digitsValue_decimal] at this

theorem leaf_int {style : Style} {value : JsValue} {size : IntegerSize}
    {context : Option TransitionInputContext} {s : JsString}
    (h : serializeInt value size context = .ok s) :
    Leaf style (.int size) s (normalizeInteger value) := by
  obtain ⟨i, hi, hmin, hmax, rfl⟩ := serializeInteger_ok h
  rw [← integerValue_of_integerOf hi]
  have hpow : ((2 ^ (size.bits - 1) : ℕ) : Int) = 2 ^ (size.bits - 1) := by norm_cast
  have hrange : if decide (i < 0) = true
      then digitsValue (decimal i.natAbs) ≤ 2 ^ (size.bits - 1)
      else digitsValue (decimal i.natAbs) < 2 ^ (size.bits - 1) := by
    rw [digitsValue_decimal]
    by_cases hneg : i < 0
    · simp only [hneg, decide_true, if_true]
      omega
    · simp only [hneg, decide_false, Bool.false_eq_true, if_false]
      omega
  have := @Leaf.int style size (decide (i < 0)) _ (isDigits_decimal i.natAbs) hrange
  rwa [digitsValue_decimal] at this

theorem serializePlaintext_ok {value : JsValue} {context : Option TransitionInputContext}
    {s : JsString} (h : serializePlaintext value context = .ok s) :
    ∃ t, value = .string t ∧ s = trim t := by
  cases value <;> try cases h
  next t =>
  simp only [serializePlaintext, expectString, Fallible.bind_ok] at h
  obtain ⟨_, ht, h⟩ := h
  cases ht
  split at h
  · cases h
  · cases h
    exact ⟨t, rfl, rfl⟩

/-- **What a serializer of a primitive type returns is a leaf.** -/
theorem serializePrimitive_leaf {style : Style} {prim : PrimitiveType} {value : JsValue}
    {context : Option TransitionInputContext} {s : JsString} (hprim : prim ≠ .signature)
    (h : serializePrimitive prim value context = .ok s) (hv : ConformsPrimitive style prim value) :
    Leaf style prim s (normalizePrimitive prim value) := by
  cases prim with
  | address => exact serializeAddress_leaf h hv
  | field => exact @leaf_scalarLike style .field _ _ _ h hv
  | group => exact @leaf_scalarLike style .group _ _ _ h hv
  | scalar => exact @leaf_scalarLike style .scalar _ _ _ h hv
  | identifier => exact leaf_identifier h
  | signature => exact absurd rfl hprim
  | uint size => exact leaf_uint h
  | int size => exact leaf_int h
  | boolean =>
    cases value <;> try cases h
    exact .boolean _

/-! ## What the serializers write -/

/-- The text of an element of an array; a hole has none. -/
def ElementText (f : JsValue → Option TransitionInputContext → Except JsError JsString) :
    Option JsValue → JsString → Prop
  | none, t => t = []
  | some v, t => ∃ context, f v context = .ok t

theorem serializeElements_ok {context : Option TransitionInputContext}
    {f : JsValue → Option TransitionInputContext → Except JsError JsString} {index : Nat}
    {elements : List (Option JsValue)} {texts : List JsString}
    (h : serializeElements context f index elements = .ok texts) :
    List.Forall₂ (ElementText f) elements texts := by
  induction elements generalizing index texts with
  | nil =>
    cases h
    exact .nil
  | cons e elements ih =>
    cases e with
    | none =>
      rw [serializeElements, Fallible.bind_ok] at h
      obtain ⟨rest, hrest, h⟩ := h
      cases h
      exact .cons rfl (ih hrest)
    | some v =>
      rw [serializeElements, Fallible.bind_ok] at h
      obtain ⟨t, ht, h⟩ := h
      obtain ⟨rest, hrest, h⟩ := Fallible.bind_ok.mp h
      cases h
      exact .cons ⟨_, ht⟩ (ih hrest)

theorem serializeArray_ok {value : JsValue} {context : Option TransitionInputContext}
    {f : JsValue → Option TransitionInputContext → Except JsError JsString} {s : JsString}
    (h : serializeArray value context f = .ok s) :
    ∃ elements texts, value = .array elements ∧ List.Forall₂ (ElementText f) elements texts ∧
      s = js "[" ++ join (js ", ") texts ++ js "]" := by
  cases value <;> try cases h
  next elements =>
  rw [serializeArray, Fallible.bind_ok] at h
  obtain ⟨texts, htexts, h⟩ := h
  cases h
  exact ⟨elements, texts, rfl, serializeElements_ok htexts, rfl⟩

theorem serializeFields_ok {call : StructSerializer} {ctx : GenerationContext}
    {props : List (JsString × JsValue)} {context : Option TransitionInputContext}
    {fields : List FieldABI} {texts : List JsString}
    (h : serializeFields call ctx props context fields = .ok texts) :
    ∃ es : List (FieldABI × JsString), es.map Prod.fst = fields ∧
      es.map (fun e => e.1.name.name ++ js ": " ++ e.2) = texts ∧
      ∀ e ∈ es, ∃ context, serializePlaintextExpr call ctx e.1.ty
        (JsValue.get props e.1.name.name) context = .ok e.2 := by
  induction fields generalizing texts with
  | nil =>
    cases h
    exact ⟨[], rfl, rfl, by simp⟩
  | cons field fields ih =>
    rw [serializeFields, Fallible.bind_ok] at h
    obtain ⟨t, ht, h⟩ := h
    obtain ⟨rest, hrest, h⟩ := Fallible.bind_ok.mp h
    cases h
    obtain ⟨es, rfl, rfl, hes⟩ := ih hrest
    exact ⟨(field, t) :: es, rfl, rfl, List.forall_mem_cons.mpr ⟨⟨_, ht⟩, hes⟩⟩

/-- The entry of a struct literal that a serializer writes for a field. -/
def fieldEntry (e : FieldABI × JsString) : JsString × JsString := (e.1.name.name, e.2)

theorem serializeStruct_ok {depth : Nat} {ctx : GenerationContext} {struct : StructABI}
    {value : JsValue} {context : Option TransitionInputContext} {s : JsString}
    (h : serializeStruct depth ctx struct value context = .ok s) :
    ∃ d props raw, ∃ es : List (FieldABI × JsString), depth = d + 1 ∧ value = .object props raw ∧
      es.map Prod.fst = struct.fields ∧ StructText (es.map fieldEntry) s ∧
      ∀ e ∈ es, ∃ context, serialize d ctx e.1.ty (JsValue.get props e.1.name.name) context =
        .ok e.2 := by
  cases depth with
  | zero => cases h
  | succ d =>
    rw [serializeStruct, Fallible.bind_ok] at h
    obtain ⟨⟨props, raw⟩, hobj, h⟩ := h
    cases value <;> cases hobj
    obtain ⟨texts, htexts, h⟩ := Fallible.bind_ok.mp h
    cases h
    obtain ⟨es, hf, rfl, hes⟩ := serializeFields_ok htexts
    have htext := structText_join (es.map fieldEntry)
    rw [List.map_map] at htext
    exact ⟨d, props, raw, es, rfl, rfl, hf, htext, hes⟩

/-! ## Items -/

/-- Letters and lengths that a serializer does not check. -/
theorem conforms_primitive {style : Style} (hcase : style.anyCase = true)
    (hlen : style.anyLength = true) {prim : PrimitiveType} (h : prim ≠ .signature)
    (value : JsValue) : ConformsPrimitive style prim value := by
  have hcase' : style.anyCase ≠ false := by simp [hcase]
  have hlen' : style.anyLength ≠ false := by simp [hlen]
  cases prim <;> first
    | trivial
    | exact fun hc => absurd hc hcase'
    | exact fun _ _ => ⟨fun hc => absurd hc hcase', fun hl => absurd hl hlen'⟩

theorem serializePlaintextExpr_item {call : StructSerializer}
    {transparent : GenerationContext → StructABI → Prop} {ctx : GenerationContext}
    (hcall : ∀ ctx' struct v context s, transparent ctx' struct →
      call ctx' struct v context = .ok s → Item s)
    {ty : PlaintextType} {value : JsValue} {context : Option TransitionInputContext} {s : JsString}
    (ht : TransparentPlaintext transparent ctx ty)
    (h : serializePlaintextExpr call ctx ty value context = .ok s) : Item s := by
  induction ty generalizing value context s with
  | primitive prim =>
    exact (serializePrimitive_leaf ht h (@conforms_primitive .loose rfl rfl _ ht value)).plain.item
  | struct ref =>
    obtain ⟨ctx', struct, hr, ht⟩ := ht
    rw [serializePlaintextExpr, hr] at h
    exact hcall _ _ _ _ _ ht h
  | array elem length ih =>
    obtain ⟨elements, texts, -, htexts, rfl⟩ := serializeArray_ok h
    refine (arrayText_join texts).item fun t hmem => ?_
    clear h
    induction htexts with
    | nil => cases hmem
    | @cons e u elements texts he _ ih' =>
      rcases List.mem_cons.mp hmem with rfl | hmem
      · cases e with
        | none =>
          rw [he]
          exact (closed_of_spaces .nil)
        | some v =>
          obtain ⟨c, hc⟩ := he
          exact (ih ht hc).closed
      · exact ih' hmem
  | optional inner ih =>
    rw [serializePlaintextExpr] at h
    split at h
    · split at h
      · next zero hzero =>
        cases h
        obtain ⟨d, v, hv⟩ := @zero_denotes .exact _ _ _ _ hzero
        exact (@denotes_absent .exact 0 d ctx inner zero v hv).item
      · cases h
    · obtain ⟨t, hval, h⟩ := Fallible.bind_ok.mp h
      cases h
      refine (structText_present t).item (optional_items (List.Perm.refl _) ?_ (ih ht hval))
      exact (@denotes_flag .exact 0 ctx true).item

/-- **What a serializer returns may stand inside a literal.** -/
theorem serialize_item {depth : Nat} {ctx : GenerationContext} {ty : PlaintextType}
    {value : JsValue} {context : Option TransitionInputContext} {s : JsString}
    (ht : Transparent depth ctx ty) (h : serialize depth ctx ty value context = .ok s) :
    Item s := by
  induction depth generalizing ctx ty value context s with
  | zero =>
    refine serializePlaintextExpr_item (fun ctx' struct v context s _ h => ?_) ht h
    obtain ⟨d, _, _, _, hd, -⟩ := serializeStruct_ok h
    cases hd
  | succ depth ih =>
    refine serializePlaintextExpr_item (fun ctx' struct v context s ht h => ?_) ht h
    obtain ⟨d, props, raw, es, hd, -, hf, htext, hes⟩ := serializeStruct_ok h
    cases hd
    refine htext.item fun e he => ?_
    obtain ⟨x, hx, rfl⟩ := List.mem_map.mp he
    obtain ⟨c, hc⟩ := hes x hx
    exact ⟨x.1.name.isKey, ih (ht x.1 (hf ▸ List.mem_map_of_mem hx)) hc⟩

/-! ## Literals -/

/-- `s` is a literal of the style; where the style admits every length it denotes the normal value
of the argument. -/
def Written (style : Style) (depth : Nat) (ctx : GenerationContext) (ty : PlaintextType)
    (value : JsValue) (s : JsString) : Prop :=
  ∃ w, Denotes style depth ctx ty s w ∧ (style.anyLength = true → w = normalize depth ctx ty value)

theorem written_opaque {style : Style} {depth : Nat} {ctx : GenerationContext} {ty : PlaintextType}
    {value : JsValue} {context : Option TransitionInputContext} {s : JsString}
    (hty : normalize depth ctx ty value = trimmed value)
    (hdenotes : ∀ t, style.opaqueText = true → Item t → Denotes style depth ctx ty t (.string t))
    (h : serializePlaintext value context = .ok s) (hv : ConformsOpaque style value) :
    Written style depth ctx ty value s := by
  obtain ⟨t, rfl, rfl⟩ := serializePlaintext_ok h
  exact ⟨_, hdenotes _ hv.1 (hv.2 t rfl), fun _ => by rw [hty]; rfl⟩

/-- The elements of an array, with what they denote. -/
theorem written_elements {style : Style} {depth : Nat} {ctx : GenerationContext}
    {elem : PlaintextType} {f : JsValue → Option TransitionInputContext → Except JsError JsString}
    {elements : List (Option JsValue)} {texts : List JsString} {conforms : JsValue → Prop}
    (hf : ∀ v c t, f v c = .ok t → conforms v → Written style depth ctx elem v t)
    (htexts : List.Forall₂ (ElementText f) elements texts)
    (hv : ∀ e ∈ elements, ∃ v, e = some v ∧ conforms v) :
    ∃ es : List (JsString × JsValue), es.map Prod.fst = texts ∧ es.length = elements.length ∧
      (∀ e ∈ es, Denotes style depth ctx elem e.1 e.2) ∧
      (style.anyLength = true → es.map (fun e => some e.2) =
        elements.map (Option.map (normalize depth ctx elem))) := by
  induction htexts with
  | nil => exact ⟨[], rfl, rfl, by simp, fun _ => rfl⟩
  | @cons e t elements texts he _ ih =>
    rw [List.forall_mem_cons] at hv
    obtain ⟨⟨v, rfl, hconf⟩, hrest⟩ := hv
    obtain ⟨c, hc⟩ := he
    obtain ⟨w, hw, hnorm⟩ := hf v c t hc hconf
    obtain ⟨es, rfl, hlen, hes, hes'⟩ := ih hrest
    refine ⟨(t, w) :: es, rfl, by simp [hlen], List.forall_mem_cons.mpr ⟨hw, hes⟩, fun hl => ?_⟩
    rw [List.map_cons, List.map_cons, hes' hl, hnorm hl]
    rfl

/-- A serializer expression, given the serializers of the structs. -/
theorem serializePlaintextExpr_written {style : Style} {depth : Nat}
    (hstruct : ∀ {ctx ctx' ref struct v context s}, ctx.resolveStruct ref = some (ctx', struct) →
      serializeStruct depth ctx' struct v context = .ok s →
      ConformsStruct style depth ctx' struct v → Written style depth ctx (.struct ref) v s)
    {ctx : GenerationContext} {ty : PlaintextType} {value : JsValue}
    {context : Option TransitionInputContext} {s : JsString}
    (h : serialize depth ctx ty value context = .ok s) (hv : Conforms style depth ctx ty value) :
    Written style depth ctx ty value s := by
  induction ty generalizing value context s with
  | primitive prim =>
    by_cases hprim : prim = .signature
    · subst hprim
      exact written_opaque rfl (fun t => .signature) h hv
    · have := @Denotes.leaf style depth ctx _ _ [] _ (serializePrimitive_leaf hprim h hv) (.nil style)
      rw [List.append_nil] at this
      exact ⟨_, this, fun _ => rfl⟩
  | struct ref =>
    simp only [serialize, serializePlaintextExpr] at h
    simp only [Conforms, ConformsPlaintext] at hv
    cases hr : ctx.resolveStruct ref with
    | none =>
      rw [hr] at h hv
      have hnorm : normalize depth ctx (.struct ref) value = trimmed value := by
        simp only [normalize, normalizePlaintext, hr]
      exact written_opaque hnorm (fun t ho => .unresolved ho hr) h hv
    | some r =>
      obtain ⟨ctx', struct⟩ := r
      rw [hr] at h hv
      exact hstruct hr h hv
  | array elem length ih =>
    obtain ⟨elements, texts, rfl, htexts, rfl⟩ := serializeArray_ok h
    rcases hv elements rfl with ⟨hv, hlen⟩ | ⟨rfl, hl, rfl⟩
    · obtain ⟨es, rfl, hlen', hes, hnorm⟩ := written_elements (fun v c t => ih) htexts hv
      refine ⟨_, denotes_array (fun hl => hlen'.trans (hlen hl)) hes, fun hl => ?_⟩
      rw [hnorm hl]
      rfl
    · -- A single hole.
      obtain ⟨t, _, ht, hnil, rfl⟩ := List.forall₂_cons_left_iff.mp htexts
      cases hnil
      rw [show t = [] from ht]
      refine ⟨_, @denotes_array style depth ctx elem 0 [] (fun _ => rfl) (by simp),
        fun hl' => ?_⟩
      rw [hl] at hl'
      cases hl'
  | optional inner ih =>
    simp only [serialize, serializePlaintextExpr] at h
    split at h
    · next hnull =>
      split at h
      · next zero hzero =>
        cases h
        obtain ⟨d, v, hz⟩ := @zero_denotes style _ _ _ _ hzero
        refine ⟨.null, denotes_absent hz, fun _ => ?_⟩
        simp only [normalize, normalizePlaintext, hnull, if_true]
      · cases h
    · next hnull =>
      obtain ⟨t, ht, h⟩ := Fallible.bind_ok.mp h
      cases h
      obtain ⟨hnested, hv⟩ := hv.resolve_left hnull
      obtain ⟨w, hw, hnorm⟩ := ih ht hv
      refine ⟨w, denotes_present hnested hw, fun hl => ?_⟩
      rw [hnorm hl]
      simp only [normalize, normalizePlaintext, if_neg hnull]

/-- **What a serializer writes for a conforming argument is a literal of its normal value.** -/
theorem serialize_denotes {style : Style} {depth : Nat} {ctx : GenerationContext}
    {ty : PlaintextType} {value : JsValue} {context : Option TransitionInputContext} {s : JsString}
    (h : serialize depth ctx ty value context = .ok s) (hv : Conforms style depth ctx ty value) :
    Written style depth ctx ty value s := by
  induction depth generalizing ctx ty value context s with
  | zero =>
    refine serializePlaintextExpr_written (fun _ h _ => ?_) h hv
    obtain ⟨d, _, _, _, hd, -⟩ := serializeStruct_ok h
    cases hd
  | succ depth ih =>
    refine serializePlaintextExpr_written (fun {ctx ctx' ref struct v _ s} hr h hv => ?_) h hv
    obtain ⟨d, props, raw, es, hd, rfl, hf, htext, hes⟩ := serializeStruct_ok h
    cases hd
    have hw : ∀ e ∈ es, ∃ w, Denotes style depth ctx' e.1.ty e.2 w ∧ (style.anyLength = true →
        w = normalize depth ctx' e.1.ty (JsValue.get props e.1.name.name)) := fun e he => by
      obtain ⟨c, hc⟩ := hes e he
      exact ih hc (hv props raw rfl e.1 (hf ▸ List.mem_map_of_mem he))
    obtain ⟨ps, rfl, hps⟩ := Fallible.exists_values hw
    let fieldText (p : (FieldABI × JsString) × JsValue) : FieldText := ⟨p.1.1, p.1.2, p.2⟩
    rw [List.map_map] at hf htext
    have hes' : ∀ e ∈ ps.map fieldText, Denotes style depth ctx' e.field.ty e.text e.value := by
      intro e he
      obtain ⟨p, hp, rfl⟩ := List.mem_map.mp he
      exact (hps p hp).1
    have hdenotes := @Denotes.struct style depth ctx ref ctx' struct _ s (ps.map fieldText) hr
      (by rw [List.map_map]; exact hf) hes' (by rw [List.map_map]; exact List.Perm.refl _) htext
    refine ⟨_, hdenotes, fun hl => ?_⟩
    simp only [normalize, normalizePlaintext, hr, normalizeStruct, ← hf, List.map_map]
    congr 1
    refine List.map_congr_left fun p hp => ?_
    rw [Function.comp_apply, Function.comp_apply, Function.comp_apply]
    exact congrArg _ ((hps p hp).2 hl)

end Lionden.Codegen
