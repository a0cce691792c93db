import Lionden.Codegen.Roundtrip

/-!
# Which arguments are written as Leo literals

* `Leaf.lower_eq`, `Leaf.length_address`: Leo's leaves are in lower case, its addresses of one length.
* `conforms_of_denotes`: an argument whose text is a Leo literal conforms to the exact style.
* `serialize_literal_iff`: the generated serializers write a literal of the type if and only if the
  argument conforms to the exact style.
-/

namespace Lionden.Codegen

/-! ## Leaves -/

theorem lower_of_digits {s : JsString} (h : isDigits s = true) : lower s = s :=
  (List.map_congr_left fun c hc => lowerUnit_of_isDigit ((isDigits_iff.mp h).2 c hc)).trans
    (List.map_id s)

theorem lower_of_address {body : JsString} (h : body.all isAddressPart = true) :
    lower (js "aleo1" ++ body) = js "aleo1" ++ body :=
  (List.map_congr_left fun c hc => lowerUnit_of_isAddressPart (addressPart_of_body h c hc)).trans
    (List.map_id _)

theorem lower_name (size : IntegerSize) :
    lower (size.name (js "u")) = size.name (js "u") ∧
      lower (size.name (js "i")) = size.name (js "i") := by
  cases size <;> decide +kernel

theorem Style.letters_exact (s : JsString) : Style.exact.letters s = s := rfl

/-- Leo spells its leaves in lower case, but for the names of identifiers. -/
theorem Leaf.lower_eq {prim : PrimitiveType} {s : JsString} {v : JsValue}
    (h : Leaf .exact prim s v) (hprim : prim ≠ .identifier) : lower s = s := by
  cases h with
  | boolean b => cases b <;> decide
  | @uint size digits hd _ =>
    rw [lower_append, lower_of_digits hd, (lower_name size).1]
  | @int size negative digits hd _ =>
    have hsigned : lower (signed negative digits) = signed negative digits := by
      cases negative with
      | false => exact lower_of_digits hd
      | true => exact congrArg (List.cons 45) (lower_of_digits hd)
    rw [lower_append, hsigned, (lower_name size).2]
  | @scalarLike kind digits suffix hd hs =>
    rw [Style.letters_exact] at hs
    rw [hs, lower_append, lower_of_digits hd, kind.letters_suffix.2.2]
  | address hs _ hbody _ =>
    rw [Style.letters_exact] at hs
    rw [hs, lower_of_address hbody]
  | identifier => exact absurd rfl hprim

theorem Leaf.length_address {s : JsString} {v : JsValue} (h : Leaf .exact .address s v) :
    s.length = 63 := by
  generalize hprim : PrimitiveType.address = prim at h
  cases h with
  | address hs _ _ hlen =>
    rw [Style.letters_exact] at hs
    rw [hs, List.length_append, hlen rfl]
    rfl
  | @scalarLike kind => cases kind <;> cases hprim
  | _ => cases hprim

theorem Denotes.leaf_inv {depth : Nat} {ctx : GenerationContext} {prim : PrimitiveType}
    {s : JsString} {v : JsValue} (h : Denotes .exact depth ctx (.primitive prim) s v) :
    Leaf .exact prim s v := by
  cases h with
  | leaf hleaf hvis =>
    obtain rfl := hvis.resolve_right fun hv => absurd hv.1 (by decide)
    rwa [List.append_nil]
  | signature ho => exact absurd ho (by decide)

/-- The text of a scalar is the argument, or its digits with a suffix. -/
theorem lower_of_scalarLike {kind : ScalarLike} {value : JsValue}
    {context : Option TransitionInputContext} {s : JsString}
    (h : serializeScalarLike value kind context = .ok s) (hs : lower s = s) :
    ConformsScalarLike .exact value := by
  rintro - t rfl
  simp only [serializeScalarLike, expectString, bind, Except.bind] at h
  split at h
  · cases h
    exact hs
  · split at h
    · next hd => exact lower_of_digits hd
    · cases h

theorem address_of_serializeAddress {value : JsValue} {context : Option TransitionInputContext}
    {s t : JsString} (h : serializeAddress value context = .ok s)
    (hraw : addressSource value = .string t) : s = trim t := by
  simp only [serializeAddress, hraw, expectString, bind, Except.bind] at h
  split at h
  · next ha =>
    have hleaf := @leaf_address .loose _ ha (fun hc => absurd hc (by decide))
      (fun hl => absurd hl (by decide))
    rw [stripVisibility_plain hleaf.plain] at h
    exact (Except.ok.inj h).symm
  · cases h

theorem conforms_of_leaf {prim : PrimitiveType} {value w : JsValue}
    {context : Option TransitionInputContext} {s : JsString} (hprim : prim ≠ .signature)
    (h : serializePrimitive prim value context = .ok s) (hs : Leaf .exact prim s w) :
    ConformsPrimitive .exact prim value := by
  cases prim with
  | field => exact @lower_of_scalarLike .field _ _ _ h (hs.lower_eq (by decide))
  | group => exact @lower_of_scalarLike .group _ _ _ h (hs.lower_eq (by decide))
  | scalar => exact @lower_of_scalarLike .scalar _ _ _ h (hs.lower_eq (by decide))
  | address =>
    intro t hraw
    obtain rfl := address_of_serializeAddress h hraw
    exact ⟨fun _ => hs.lower_eq (by decide), fun _ => hs.length_address⟩
  | signature => exact absurd rfl hprim
  | _ => trivial

/-! ## Arrays, structs and Optionals -/

/-- The text of an element of an array is empty for a hole, and else an item. -/
theorem elementText_items {f : JsValue → Option TransitionInputContext → Except JsError JsString}
    {elements : List (Option JsValue)} {texts : List JsString}
    (h : List.Forall₂ (ElementText f) elements texts)
    (hitem : ∀ v c t, f v c = .ok t → Item t) : ∀ t ∈ texts, t = [] ∨ Item t := by
  induction h with
  | nil => simp
  | @cons e t elements texts he _ ih =>
    refine List.forall_mem_cons.mpr ⟨?_, ih⟩
    cases e with
    | none => exact .inl he
    | some v =>
      obtain ⟨c, hc⟩ := he
      exact .inr (hitem v c t hc)

/-- Elements all of whose texts are literals. -/
theorem elements_of_denotes {f : JsValue → Option TransitionInputContext → Except JsError JsString}
    {elements : List (Option JsValue)} {texts : List JsString} {literal : JsString → Prop}
    {conforms : JsValue → Prop} (h : List.Forall₂ (ElementText f) elements texts)
    (hne : ∀ t, literal t → t ≠ []) (htexts : ∀ t ∈ texts, literal t)
    (hconf : ∀ v c t, f v c = .ok t → literal t → conforms v) :
    ∀ e ∈ elements, ∃ v, e = some v ∧ conforms v := by
  induction h with
  | nil => simp
  | @cons e t elements texts he _ ih =>
    rw [List.forall_mem_cons] at htexts
    refine List.forall_mem_cons.mpr ⟨?_, ih htexts.2⟩
    cases e with
    | none => exact absurd he (hne t htexts.1)
    | some v =>
      obtain ⟨c, hc⟩ := he
      exact ⟨v, rfl, hconf v c t hc htexts.1⟩

theorem conforms_elements {depth m : Nat} {ctx : GenerationContext} {elem : PlaintextType}
    {length : Nat} {f : JsValue → Option TransitionInputContext → Except JsError JsString}
    {elements : List (Option JsValue)} {texts : List JsString} {w : JsValue}
    (htexts : List.Forall₂ (ElementText f) elements texts)
    (hitem : ∀ v c t, f v c = .ok t → Item t)
    (hconf : ∀ v c t w, f v c = .ok t → Denotes .exact m ctx elem t w →
      Conforms .exact depth ctx elem v)
    (h : Denotes .exact m ctx (.array elem length) (js "[" ++ join (js ", ") texts ++ js "]") w) :
    ConformsElements .exact (Conforms .exact depth ctx elem) length elements := by
  generalize hs : js "[" ++ join (js ", ") texts ++ js "]" = s at h
  cases h with
  | @array _ _ _ _ _ es hlen hes harray =>
    obtain ⟨inner, rfl, hspread⟩ := harray
    have hinner : join (js ", ") texts = inner := by
      have := List.cons.inj (show openBracket :: (join (js ", ") texts ++ [closeBracket]) =
        openBracket :: (inner ++ [closeBracket]) from hs)
      exact List.append_cancel_right this.2
    rw [← hinner] at hspread
    have hitems : ∀ t ∈ es.map Prod.fst, Item t := fun t ht => by
      obtain ⟨e, he, rfl⟩ := List.mem_map.mp ht
      exact (hes e he).item
    have hlength := htexts.length_eq
    rcases @Spread.join_inv _ _ [] .nil hspread hitems (elementText_items htexts hitem) with
      heq | ⟨hnil, rfl⟩
    · refine .inl ⟨?_, fun _ => ?_⟩
      · refine @elements_of_denotes f elements texts (fun t => ∃ w, Denotes .exact m ctx elem t w) _
          htexts (fun t ht => ht.choose_spec.item.ne_nil) (fun t ht => ?_)
          fun v c t hc ht => hconf v c t _ hc ht.choose_spec
        rw [← heq] at ht
        obtain ⟨e, he, rfl⟩ := List.mem_map.mp ht
        exact ⟨e.2, hes e he⟩
      · rw [hlength, ← heq, List.length_map]
        exact hlen rfl
    · obtain ⟨e, _, he, hrest, rfl⟩ := List.forall₂_cons_right_iff.mp htexts
      cases hrest
      refine .inr ⟨?_, rfl, ?_⟩
      · cases e with
        | none => rfl
        | some v =>
          obtain ⟨c, hc⟩ := he
          exact absurd rfl (hitem v c [] hc).ne_nil
      · rw [← hlen rfl]
        exact (List.map_eq_nil_iff.mp hnil) ▸ rfl

/-- The payload of a present Optional is a literal, if the whole is one. -/
theorem Denotes.present_inv {m : Nat} {ctx : GenerationContext} {inner : PlaintextType}
    {t : JsString} {w : JsValue} (ht : Item t)
    (h : Denotes .exact m ctx (.optional inner)
      (js "\x7b is_some: true, val: " ++ t ++ js " \x7d") w) :
    Denotes .exact m ctx inner t w := by
  have htext := structText_present t
  have htrue : Item (js "true") := (@denotes_flag .exact m ctx true).item
  have hitems := optional_items (List.Perm.refl _) htrue ht
  have hkeys : js "is_some" ≠ js "val" := by decide
  cases h with
  | @present _ _ _ flag val _ _ entries _ hflag hval hp hs =>
    obtain rfl := hs.unique htext (optional_items hp hflag.item hval.item) hitems
    have := hp.mem_iff.mp (List.mem_cons_of_mem _ (List.mem_singleton.mpr rfl))
    simp only [List.mem_cons, Prod.mk.injEq, hkeys.symm, false_and, true_and, List.not_mem_nil,
      or_false, false_or] at this
    rwa [this]
  | @absent _ _ _ flag val _ _ _ entries hflag hval hp hs =>
    obtain rfl := hs.unique htext (optional_items hp hflag.item hval.item) hitems
    have := hp.mem_iff.mp List.mem_cons_self
    simp only [List.mem_cons, Prod.mk.injEq, hkeys, false_and, true_and, List.not_mem_nil,
      or_false] at this
    have hfalse := hflag.flag
    rw [← this] at hfalse
    have hread := (@denotes_flag .exact m ctx true).flag
    rw [if_pos rfl] at hread
    rw [hread] at hfalse
    cases hfalse

/-- The text that a struct literal has for a field of the struct. -/
theorem Denotes.struct_inv {m : Nat} {ctx ctx' : GenerationContext} {ref : StructRef}
    {struct : StructABI} {s : JsString} {w : JsValue} {es : List (FieldABI × JsString)}
    (h : Denotes .exact m ctx (.struct ref) s w) (hr : ctx.resolveStruct ref = some (ctx', struct))
    (hf : es.map Prod.fst = struct.fields) (htext : StructText (es.map fieldEntry) s)
    (hitems : ∀ e ∈ es, Item e.2) :
    ∃ d, ∀ e ∈ es, ∃ w, Denotes .exact d ctx' e.1.ty e.2 w := by
  cases h with
  | unresolved ho => exact absurd ho (by decide)
  | @struct d _ _ ctx'' struct' entries _ xs hr' hf' hxs hp hs =>
    rw [hr] at hr'
    cases hr'
    refine ⟨d, fun e he => ?_⟩
    have hkeys : ∀ e ∈ es.map fieldEntry, IsKey e.1 ∧ Item e.2 := fun e he => by
      obtain ⟨x, hx, rfl⟩ := List.mem_map.mp he
      exact ⟨x.1.name.isKey, hitems x hx⟩
    have hentries : ∀ e ∈ entries, IsKey e.1 ∧ Item e.2 := fun e he => by
      obtain ⟨x, hx, rfl⟩ := entry_mem hp he
      exact ⟨x.field.name.isKey, (hxs x hx).item⟩
    obtain rfl := hs.unique htext hentries hkeys
    obtain ⟨x, hx, hentry⟩ := entry_mem hp (List.mem_map_of_mem he)
    obtain ⟨hname, htxt⟩ := Prod.mk.inj hentry
    have hfield : x.field = e.1 :=
      List.inj_on_of_nodup_map struct.names_nodup (hf' ▸ List.mem_map_of_mem hx)
        (hf ▸ List.mem_map_of_mem he) hname
    have := hxs x hx
    rw [hfield, htxt] at this
    exact ⟨_, this⟩

theorem conforms_of_denotes_expr {depth : Nat}
    (hstruct : ∀ {ctx ctx' ref struct v context s m w}, Transparent depth ctx (.struct ref) →
      ctx.resolveStruct ref = some (ctx', struct) →
      serializeStruct depth ctx' struct v context = .ok s →
      Denotes .exact m ctx (.struct ref) s w → ConformsStruct .exact depth ctx' struct v)
    {m : Nat} {ctx : GenerationContext} {ty : PlaintextType} {value w : JsValue}
    {context : Option TransitionInputContext} {s : JsString}
    (ht : Transparent depth ctx ty) (h : serialize depth ctx ty value context = .ok s)
    (hs : Denotes .exact m ctx ty s w) : Conforms .exact depth ctx ty value := by
  induction ty generalizing m value w context s with
  | primitive prim => exact conforms_of_leaf ht h hs.leaf_inv
  | struct ref =>
    simp only [serialize, serializePlaintextExpr] at h
    simp only [Conforms, ConformsPlaintext]
    obtain ⟨ctx', struct, hr, -⟩ := id ht
    rw [hr] at h ⊢
    exact hstruct ht hr h hs
  | array elem length ih =>
    obtain ⟨elements, texts, rfl, htexts, rfl⟩ := serializeArray_ok h
    intro elements' heq
    cases heq
    exact conforms_elements htexts (fun v c t hc => @serialize_item depth ctx elem v c t ht hc)
      (fun v c t w hc hw => ih ht hc hw) hs
  | optional inner ih =>
    by_cases hnull : value.isNullish = true
    · exact .inl hnull
    · simp only [serialize, serializePlaintextExpr, if_neg hnull] at h
      obtain ⟨t, hser, h⟩ := Fallible.bind_ok.mp h
      cases h
      have hitem := @serialize_item depth ctx inner value context t ht hser
      exact .inr ⟨fun hn => absurd hn (by decide), ih ht hser (hs.present_inv hitem)⟩

/-- **An argument whose text is a literal conforms.** -/
theorem conforms_of_denotes {depth m : Nat} {ctx : GenerationContext} {ty : PlaintextType}
    {value w : JsValue} {context : Option TransitionInputContext} {s : JsString}
    (ht : Transparent depth ctx ty) (h : serialize depth ctx ty value context = .ok s)
    (hs : Denotes .exact m ctx ty s w) : Conforms .exact depth ctx ty value := by
  induction depth generalizing m ctx ty value w context s with
  | zero =>
    refine conforms_of_denotes_expr (fun _ _ h _ => ?_) ht h hs
    obtain ⟨d, _, _, _, hd, -⟩ := serializeStruct_ok h
    cases hd
  | succ depth ih =>
    refine conforms_of_denotes_expr (fun {ctx ctx' ref struct v _ s _ _} ht hr h hs => ?_) ht h hs
    obtain ⟨d, props, raw, es, hdepth, rfl, hf, htext, hes⟩ := serializeStruct_ok h
    cases hdepth
    have htrans : ∀ e ∈ es, Transparent depth ctx' e.1.ty := fun e he =>
      ht.field hr (hf ▸ List.mem_map_of_mem he)
    obtain ⟨d, hd⟩ := hs.struct_inv hr hf htext fun e he => by
      obtain ⟨c, hc⟩ := hes e he
      exact serialize_item (htrans e he) hc
    intro props' raw' heq f hmem
    cases heq
    obtain ⟨e, he, rfl⟩ : ∃ e ∈ es, e.1 = f := List.mem_map.mp (hf ▸ hmem)
    obtain ⟨c, hc⟩ := hes e he
    obtain ⟨w, hw⟩ := hd e he
    exact ih (htrans e he) hc hw

/-- **Soundness of the serializers.** What a serializer returns is a literal of exactly its type if
and only if the argument conforms to the exact style: no letter of a field, group, scalar or address
is a capital, addresses have 63 characters, and arrays as many elements as their type says. -/
theorem serialize_literal_iff {depth : Nat} {ctx : GenerationContext} {ty : PlaintextType}
    {value : JsValue} {context : Option TransitionInputContext} {s : JsString}
    (ht : Transparent depth ctx ty) (h : serialize depth ctx ty value context = .ok s) :
    IsLiteral .exact ctx ty s ↔ Conforms .exact depth ctx ty value := by
  constructor
  · rintro ⟨m, w, hw⟩
    exact conforms_of_denotes ht h hw
  · intro hv
    obtain ⟨w, hw, -⟩ := serialize_denotes h hv
    exact ⟨depth, w, hw⟩

theorem literal_pair :
    IsLiteral .exact emptyContext pairType (js "\x7b is_some: true, val: [5u8, 5u8] \x7d") :=
  (@serialize_literal_iff 0 emptyContext pairType fives none _
    (by simp [pairType, Transparent, TransparentPlaintext]) (serialize_pair _ _)).mpr
    (conforms_pair _ _)

/-- One element is accepted for an array of two. -/
theorem short_array_accepted :
    Transparent 0 emptyContext (.array (.primitive (.uint .s8)) 2) ∧
    serialize 0 emptyContext (.array (.primitive (.uint .s8)) 2)
      (.array [some (.number (.finite 5))]) none = .ok (js "[5u8]") ∧
    ¬ IsLiteral .exact emptyContext (.array (.primitive (.uint .s8)) 2) (js "[5u8]") := by
  have ht : Transparent 0 emptyContext (.array (.primitive (.uint .s8)) 2) := by
    simp [Transparent, TransparentPlaintext]
  have hser : serialize 0 emptyContext (.array (.primitive (.uint .s8)) 2)
      (.array [some (.number (.finite 5))]) none = .ok (js "[5u8]") := by
    have h := serialize_u8 emptyContext none
    simp only [serialize, serializePlaintextExpr] at h
    simp only [serialize, serializePlaintextExpr, serializeArray, serializeElements,
      childInputContext, Option.map_none, h]
    rfl
  refine ⟨ht, hser, ?_⟩
  rintro ⟨m, w, hw⟩
  rcases conforms_of_denotes ht hser hw _ rfl with ⟨-, hlen⟩ | ⟨heq, -⟩
  · exact absurd (hlen rfl) (by decide)
  · cases heq

end Lionden.Codegen
