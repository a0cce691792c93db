import Lionden.Codegen.Serializer

/-!
# Round trips of the generated codecs

* `Decorated s s'`: `s'` is `s` with a visibility after some of its leaves, and with any white space
  between the tokens of its arrays and structs.
* `Denotes.decorated`: such a text denotes what `s` denotes.
* `conforms_of_decode`: a value that comes back from its own literal conforms to the loose style.
* `roundtrip_iff`: a value comes back from every decorated text of its literal if and only if it
  conforms to the loose style.
-/

namespace Lionden.Codegen

/-! ## Decorated texts -/

inductive Decorated : JsString → JsString → Prop
  | leaf {t vis} : Plain t → Style.loose.Suffix vis → Decorated t (t ++ vis)
  | array {s s'} {ts : List (JsString × JsString)} : (∀ t ∈ ts, Decorated t.1 t.2) →
      ArrayText (ts.map Prod.fst) s → ArrayText (ts.map Prod.snd) s' → Decorated s s'
  | struct {s s'} {es : List (JsString × JsString × JsString)} :
      (∀ e ∈ es, IsKey e.1) → (∀ e ∈ es, Decorated e.2.1 e.2.2) →
      StructText (es.map fun e => (e.1, e.2.1)) s → StructText (es.map fun e => (e.1, e.2.2)) s' →
      Decorated s s'

theorem Decorated.item {s s' : JsString} (h : Decorated s s') : Item s := by
  induction h with
  | leaf ht _ => exact ht.item
  | array _ hs _ ih =>
    refine hs.item fun t ht => ?_
    obtain ⟨e, he, rfl⟩ := List.mem_map.mp ht
    exact (ih e he).closed
  | struct hkeys _ hs _ ih =>
    refine hs.item fun e he => ?_
    obtain ⟨x, hx, rfl⟩ := List.mem_map.mp he
    exact ⟨hkeys x hx, ih x hx⟩

theorem ArrayText.head {ts : List JsString} {s : JsString} (h : ArrayText ts s) :
    s.head? = some openBracket := by
  obtain ⟨inner, rfl, -⟩ := h
  rfl

theorem StructText.head {es : List (JsString × JsString)} {s : JsString} (h : StructText es s) :
    s.head? = some openBrace := by
  obtain ⟨pieces, inner, rfl, -⟩ := h
  rfl

theorem IsAtom.head {t : JsString} {c : CodeUnit} (h : IsAtom t) (hc : t.head? = some c) :
    isSpecial c = false :=
  h.2 c (List.mem_of_mem_head? (by simp [hc]))

/-- The texts of an array, or the entries of a struct, are determined by its text. -/
theorem ArrayText.unique {ts us : List JsString} {s : JsString} (ht : ArrayText ts s)
    (hu : ArrayText us s) (hts : ∀ t ∈ ts, Item t) (hus : ∀ t ∈ us, Item t) : ts = us := by
  have h := parseArray_eq ht hts
  rw [parseArray_eq hu hus] at h
  cases h
  rfl

theorem StructText.unique {es fs : List (JsString × JsString)} {s : JsString}
    (he : StructText es s) (hf : StructText fs s) (hes : ∀ e ∈ es, IsKey e.1 ∧ Item e.2)
    (hfs : ∀ e ∈ fs, IsKey e.1 ∧ Item e.2) : es = fs := by
  have h := parseStruct_eq he hes
  rw [parseStruct_eq hf hfs] at h
  exact (List.reverse_injective (Except.ok.inj h)).symm

/-! ### Cases of decorated texts -/

theorem Decorated.atom_inv {s s' : JsString} (h : Decorated s s') (hs : IsAtom s) :
    Plain s ∧ ∃ vis, Style.loose.Suffix vis ∧ s' = s ++ vis := by
  cases h with
  | leaf ht hvis => exact ⟨ht, _, hvis, rfl⟩
  | array _ ha _ => exact absurd (hs.head ha.head) (by decide)
  | struct _ _ ha _ => exact absurd (hs.head ha.head) (by decide)

theorem Decorated.array_inv {s s' : JsString} {ts : List JsString} (h : Decorated s s')
    (hs : ArrayText ts s) (hts : ∀ t ∈ ts, Item t) :
    ∃ us, List.Forall₂ Decorated ts us ∧ ArrayText us s' := by
  cases h with
  | leaf ht _ =>
    have := ht.atom (Style.Suffix.nil .loose)
    rw [List.append_nil] at this
    exact absurd (this.head hs.head) (by decide)
  | @array _ _ ps hps ha ha' =>
    have := hs.unique ha hts fun t ht => by
      obtain ⟨e, he, rfl⟩ := List.mem_map.mp ht
      exact (hps e he).item
    subst this
    refine ⟨_, ?_, ha'⟩
    rw [List.forall₂_map_left_iff, List.forall₂_map_right_iff, List.forall₂_same]
    exact hps
  | struct _ _ ha _ =>
    have h := hs.head
    rw [ha.head] at h
    exact absurd h (by decide)

/-- Entries with the same key, whose texts are related. -/
def SameEntry (e f : JsString × JsString) : Prop := e.1 = f.1 ∧ Decorated e.2 f.2

theorem Decorated.struct_inv {s s' : JsString} {es : List (JsString × JsString)}
    (h : Decorated s s') (hs : StructText es s) (hes : ∀ e ∈ es, IsKey e.1 ∧ Item e.2) :
    ∃ fs, List.Forall₂ SameEntry es fs ∧ StructText fs s' := by
  cases h with
  | leaf ht _ =>
    have := ht.atom (Style.Suffix.nil .loose)
    rw [List.append_nil] at this
    exact absurd (this.head hs.head) (by decide)
  | array _ ha _ =>
    have h := hs.head
    rw [ha.head] at h
    exact absurd h (by decide)
  | @struct _ _ ps hkeys hps ha ha' =>
    have := hs.unique ha hes fun e he => by
      obtain ⟨x, hx, rfl⟩ := List.mem_map.mp he
      exact ⟨hkeys x hx, (hps x hx).item⟩
    subst this
    refine ⟨_, ?_, ha'⟩
    rw [List.forall₂_map_left_iff, List.forall₂_map_right_iff, List.forall₂_same]
    exact fun e he => ⟨rfl, hps e he⟩

/-- The entries of a decorated struct, in the order of another list of the entries. -/
theorem Decorated.entries {s s' : JsString} {es l : List (JsString × JsString)}
    (h : Decorated s s') (hs : StructText es s) (hes : ∀ e ∈ es, IsKey e.1 ∧ Item e.2)
    (hp : es.Perm l) :
    ∃ fs m, fs.Perm m ∧ List.Forall₂ SameEntry l m ∧ StructText fs s' := by
  obtain ⟨fs, hfs, hs'⟩ := h.struct_inv hs hes
  obtain ⟨m, hm, hperm⟩ := List.perm_comp_forall₂ hp.symm hfs
  exact ⟨fs, m, hperm.symm, hm, hs'⟩

/-! ### Decorated literals -/

theorem decorated_elements {style : Style} {depth : Nat} {ctx : GenerationContext}
    {elem : PlaintextType} {es : List (JsString × JsValue)} {us : List JsString}
    (h : List.Forall₂ Decorated (es.map Prod.fst) us)
    (hes : ∀ e ∈ es, ∀ {t}, Decorated e.1 t → Denotes style depth ctx elem t e.2) :
    ∃ fs : List (JsString × JsValue), fs.map Prod.fst = us ∧
      fs.map (fun e => some e.2) = es.map (fun e => some e.2) ∧
      ∀ e ∈ fs, Denotes style depth ctx elem e.1 e.2 := by
  induction es generalizing us with
  | nil =>
    cases h
    exact ⟨[], rfl, rfl, by simp⟩
  | cons e es ih =>
    obtain ⟨u, us, hu, hrest, rfl⟩ := List.forall₂_cons_left_iff.mp h
    rw [List.forall_mem_cons] at hes
    obtain ⟨fs, rfl, hvals, hfs⟩ := ih hrest hes.2
    exact ⟨(u, e.2) :: fs, rfl, by rw [List.map_cons, List.map_cons, hvals],
      List.forall_mem_cons.mpr ⟨hes.1 hu, hfs⟩⟩

theorem decorated_fields {style : Style} {depth : Nat} {ctx : GenerationContext}
    {es : List FieldText} {m : List (JsString × JsString)}
    (h : List.Forall₂ SameEntry (es.map FieldText.entry) m)
    (hes : ∀ e ∈ es, ∀ {t}, Decorated e.text t → Denotes style depth ctx e.field.ty t e.value) :
    ∃ fs : List FieldText, fs.map FieldText.entry = m ∧
      fs.map FieldText.field = es.map FieldText.field ∧
      fs.map FieldText.prop = es.map FieldText.prop ∧
      ∀ e ∈ fs, Denotes style depth ctx e.field.ty e.text e.value := by
  induction es generalizing m with
  | nil =>
    cases h
    exact ⟨[], rfl, rfl, rfl, by simp⟩
  | cons e es ih =>
    obtain ⟨⟨k, t⟩, m, ⟨hk, ht⟩, hrest, rfl⟩ := List.forall₂_cons_left_iff.mp h
    obtain rfl : e.field.name.name = k := hk
    rw [List.forall_mem_cons] at hes
    obtain ⟨fs, rfl, hfields, hprops, hfs⟩ := ih hrest hes.2
    refine ⟨⟨e.field, t, e.value⟩ :: fs, rfl, ?_, ?_, List.forall_mem_cons.mpr ⟨hes.1 ht, hfs⟩⟩
    · rw [List.map_cons, List.map_cons, hfields]
    · rw [List.map_cons, List.map_cons, hprops]
      rfl

/-- The two entries of a decorated Optional. -/
theorem decorated_optional {flag val : JsString} {m : List (JsString × JsString)}
    (h : List.Forall₂ SameEntry [(js "is_some", flag), (js "val", val)] m) :
    ∃ flag' val', m = [(js "is_some", flag'), (js "val", val')] ∧ Decorated flag flag' ∧
      Decorated val val' := by
  obtain ⟨⟨k, flag'⟩, m, ⟨hk, hflag⟩, hrest, rfl⟩ := List.forall₂_cons_left_iff.mp h
  obtain ⟨⟨k', val'⟩, m, ⟨hk', hval⟩, hnil, rfl⟩ := List.forall₂_cons_left_iff.mp hrest
  cases hnil
  obtain rfl : js "is_some" = k := hk
  obtain rfl : js "val" = k' := hk'
  exact ⟨flag', val', rfl, hflag, hval⟩

/-- **Decorations do not change what a literal denotes.** -/
theorem Denotes.decorated {depth : Nat} {ctx : GenerationContext} {ty : PlaintextType}
    {s s' : JsString} {v : JsValue} (h : Denotes .loose depth ctx ty s v) (hs : Decorated s s') :
    Denotes .loose depth ctx ty s' v := by
  induction h generalizing s' with
  | @leaf depth ctx prim t vis v hleaf hvis =>
    obtain ⟨hplain, vis', hvis', rfl⟩ := hs.atom_inv (hleaf.plain.atom hvis)
    have hnil : vis = [] := by
      rcases hvis with rfl | ⟨-, rfl | rfl⟩
      · rfl
      · exact absurd (List.mem_append_right t (by decide)) hplain.no_dot
      · exact absurd (List.mem_append_right t (by decide)) hplain.no_dot
    subst hnil
    rw [List.append_nil]
    exact .leaf hleaf hvis'
  | signature ho _ => cases ho
  | unresolved ho _ _ => cases ho
  | @struct _ _ _ _ _ entries _ es hr hf hes hp htext ih =>
    have hitems : ∀ e ∈ entries, IsKey e.1 ∧ Item e.2 := fun e he => by
      obtain ⟨x, hx, rfl⟩ := entry_mem hp he
      exact ⟨x.field.name.isKey, (hes x hx).item⟩
    obtain ⟨fs, m, hperm, hm, hs'⟩ := hs.entries htext hitems hp
    obtain ⟨gs, rfl, hfields, hprops, hgs⟩ := decorated_fields hm fun e he _ => ih e he
    rw [← hprops]
    exact .struct hr (hfields.trans hf) hgs hperm hs'
  | @array _ _ _ _ _ es hlen hes htext ih =>
    have hitems : ∀ t ∈ es.map Prod.fst, Item t := fun t ht => by
      obtain ⟨e, he, rfl⟩ := List.mem_map.mp ht
      exact (hes e he).item
    obtain ⟨us, hus, hs'⟩ := hs.array_inv htext hitems
    obtain ⟨fs, rfl, hvals, hfs⟩ := decorated_elements hus fun e he _ => ih e he
    rw [← hvals]
    exact .array (fun hl => nomatch hl) hfs hs'
  | present hnested hflag hval hp htext ihf ihv =>
    have hitems := optional_items hp hflag.item hval.item
    obtain ⟨fs, m, hperm, hm, hs'⟩ := hs.entries htext hitems hp
    obtain ⟨flag', val', rfl, hf, hv⟩ := decorated_optional hm
    exact .present hnested (ihf hf) (ihv hv) hperm hs'
  | absent hflag hval hp htext ihf ihv =>
    have hitems := optional_items hp hflag.item hval.item
    obtain ⟨fs, m, hperm, hm, hs'⟩ := hs.entries htext hitems hp
    obtain ⟨flag', val', rfl, hf, hv⟩ := decorated_optional hm
    exact .absent (ihf hf) (ihv hv) hperm hs'

/-! ## Values that come back -/

theorem decodeFields_ok {call : StructDeserializer} {ctx : GenerationContext} {texts : Properties}
    {fields : List FieldABI} {props : List (JsString × JsValue)} :
    decodeFields call ctx texts fields = .ok props ↔
      List.Forall₂ (fun f p => p.1 = f.name.name ∧
        decode call ctx f.ty (texts.text f.name.name) = .ok p.2) fields props := by
  induction fields generalizing props with
  | nil =>
    rw [decodeFields, List.forall₂_nil_left_iff]
    exact ⟨fun h => (Except.ok.inj h).symm, fun h => by rw [h]⟩
  | cons f fields ih =>
    simp only [decodeFields, Fallible.bind_ok, List.forall₂_cons_left_iff, ih]
    constructor
    · rintro ⟨v, hv, ps, hps, h⟩
      cases h
      exact ⟨_, _, ⟨rfl, hv⟩, hps, rfl⟩
    · rintro ⟨⟨k, v⟩, ps, ⟨rfl, hv⟩, hps, rfl⟩
      exact ⟨v, hv, ps, hps, rfl⟩

/-- An array whose elements come back has no holes. -/
theorem elements_come_back {f : JsValue → Option TransitionInputContext → Except JsError JsString}
    {elements : List (Option JsValue)} {values : List JsValue} {texts : List JsString}
    {g : JsValue → JsValue} {dec : JsString → Except JsError JsValue} {conforms : JsValue → Prop}
    (htexts : List.Forall₂ (ElementText f) elements texts)
    (hvalues : List.Forall₂ (fun t v => dec t = .ok v) texts values)
    (heq : values.map some = elements.map (Option.map g))
    (hconf : ∀ v c t, f v c = .ok t → dec t = .ok (g v) → conforms v) :
    ∀ e ∈ elements, ∃ v, e = some v ∧ conforms v := by
  induction htexts generalizing values with
  | nil => simp
  | @cons e t elements texts he _ ih =>
    obtain ⟨v, values, hv, hrest, rfl⟩ := List.forall₂_cons_left_iff.mp hvalues
    rw [List.map_cons, List.map_cons, List.cons.injEq] at heq
    obtain ⟨x, rfl, rfl⟩ := Option.map_eq_some_iff.mp heq.1.symm
    obtain ⟨c, hc⟩ := he
    exact List.forall_mem_cons.mpr ⟨⟨x, rfl, hconf x c t hc hv⟩, ih hrest heq.2⟩

/-- Without holes, every text of an array is that of a value. -/
theorem items_of_elements {f : JsValue → Option TransitionInputContext → Except JsError JsString}
    {elements : List (Option JsValue)} {texts : List JsString} {values : List JsValue}
    {g : JsValue → JsValue} (htexts : List.Forall₂ (ElementText f) elements texts)
    (heq : values.map some = elements.map (Option.map g))
    (hitem : ∀ v c t, f v c = .ok t → Item t) : ∀ t ∈ texts, Item t := by
  induction htexts generalizing values with
  | nil => simp
  | @cons e t elements texts he _ ih =>
    obtain ⟨v, rest, rfl, hv, hrest⟩ := List.map_eq_cons_iff.mp heq
    obtain ⟨x, rfl, -⟩ := Option.map_eq_some_iff.mp hv.symm
    obtain ⟨c, hc⟩ := he
    exact List.forall_mem_cons.mpr ⟨hitem x c t hc, ih hrest⟩

/-- The type of a struct that may be looked into, and its fields. -/
theorem Transparent.field {depth : Nat} {ctx ctx' : GenerationContext} {ref : StructRef}
    {struct : StructABI} (h : Transparent (depth + 1) ctx (.struct ref))
    (hr : ctx.resolveStruct ref = some (ctx', struct)) {f : FieldABI} (hf : f ∈ struct.fields) :
    Transparent depth ctx' f.ty := by
  obtain ⟨ctx'', struct', hr', h⟩ := h
  rw [hr] at hr'
  cases hr'
  exact h f hf

/-- The fields of a struct that comes back come back. -/
theorem fields_come_back {call : StructDeserializer} {ctx : GenerationContext} {texts : Properties}
    {fields : List FieldABI} {g : FieldABI → JsValue}
    (h : decodeFields call ctx texts fields = .ok (fields.map fun f => (f.name.name, g f))) :
    ∀ f ∈ fields, decode call ctx f.ty (texts.text f.name.name) = .ok (g f) := by
  rw [decodeFields_ok, List.forall₂_map_right_iff, List.forall₂_same] at h
  exact fun f hf => (h f hf).2

/-- The text of an Optional that is present, as it is split. -/
theorem parse_present {t : JsString} (ht : Item t) :
    parseStruct (.string (js "\x7b is_some: true, val: " ++ t ++ js " \x7d")) =
      .ok [(js "val", t), (js "is_some", js "true")] := by
  have hitem : Item (js "true") := (@denotes_flag .exact 0 ⟨⟨[], []⟩, fun _ => none⟩ true).item
  exact parseStruct_eq (structText_present t) (optional_items (List.Perm.refl _) hitem ht)

theorem decode_present {call : StructDeserializer} {ctx : GenerationContext} {inner : PlaintextType}
    {t : JsString} (ht : Item t) :
    decode call ctx (.optional inner)
      (.string (js "\x7b is_some: true, val: " ++ t ++ js " \x7d")) =
      if inner.isOptional then .error .referenceError else decode call ctx inner (.string t) := by
  have hflag : parseBoolean (Properties.text [(js "val", t), (js "is_some", js "true")]
      (js "is_some")) = .ok true := (@denotes_flag .exact 0 ⟨⟨[], []⟩, fun _ => none⟩ true).flag
  rw [decode, parse_present ht]
  simp only [bind, Except.bind, hflag, if_true]
  rfl

theorem conforms_of_decode_expr {style : Style} (hcase : style.anyCase = true)
    (hlen : style.anyLength = true) {depth : Nat}
    (hstruct : ∀ {ctx ctx' ref struct v context s}, Transparent depth ctx (.struct ref) →
      ctx.resolveStruct ref = some (ctx', struct) →
      serializeStruct depth ctx' struct v context = .ok s →
      deserializeStruct depth ctx' struct (.string s) = .ok (normalizeStruct depth ctx' struct v) →
      ConformsStruct style depth ctx' struct v)
    {ctx : GenerationContext} {ty : PlaintextType} {value : JsValue}
    {context : Option TransitionInputContext} {s : JsString}
    (ht : Transparent depth ctx ty) (h : serialize depth ctx ty value context = .ok s)
    (hd : decode (deserializeStruct depth) ctx ty (.string s) = .ok (normalize depth ctx ty value)) :
    Conforms style depth ctx ty value := by
  induction ty generalizing value context s with
  | primitive prim => exact conforms_primitive hcase hlen ht value
  | struct ref =>
    simp only [serialize, serializePlaintextExpr] at h
    simp only [normalize, normalizePlaintext, decode] at hd
    simp only [Conforms, ConformsPlaintext]
    obtain ⟨ctx', struct, hr, -⟩ := id ht
    rw [hr] at h hd ⊢
    exact hstruct ht hr h hd
  | array elem length ih =>
    obtain ⟨elements, texts, rfl, htexts, rfl⟩ := serializeArray_ok h
    simp only [decode] at hd
    obtain ⟨parsed, hparsed, hd⟩ := Fallible.bind_ok.mp hd
    obtain ⟨values, hvalues, hd⟩ := Fallible.bind_ok.mp hd
    have heq : values.map some = elements.map (Option.map (normalize depth ctx elem)) :=
      JsValue.array.inj (Except.ok.inj hd)
    have hitems := items_of_elements htexts heq fun v c t hc =>
      @serialize_item depth ctx elem v c t ht hc
    rw [parseArray_eq (arrayText_join texts) hitems] at hparsed
    cases hparsed
    intro elements' heq'
    cases heq'
    refine .inl ⟨?_, fun hl => absurd (hlen.symm.trans hl) (by decide)⟩
    exact elements_come_back htexts (Fallible.mapM_ok.mp hvalues) heq fun v c t hc => ih ht hc
  | optional inner ih =>
    by_cases hnull : value.isNullish = true
    · exact .inl hnull
    · simp only [serialize, serializePlaintextExpr, if_neg hnull] at h
      obtain ⟨t, hser, h⟩ := Fallible.bind_ok.mp h
      cases h
      rw [decode_present (@serialize_item depth ctx inner value context t ht hser)] at hd
      split at hd
      · cases hd
      · next hinner =>
        refine .inr ⟨fun _ => by simpa using hinner, ih ht hser ?_⟩
        simpa only [normalize, normalizePlaintext, if_neg hnull] using hd

/-- **A value that comes back conforms.** -/
theorem conforms_of_decode {style : Style} (hcase : style.anyCase = true)
    (hlen : style.anyLength = true) {depth : Nat} {ctx : GenerationContext} {ty : PlaintextType}
    {value : JsValue} {context : Option TransitionInputContext} {s : JsString}
    (ht : Transparent depth ctx ty) (h : serialize depth ctx ty value context = .ok s)
    (hd : decode (deserializeStruct depth) ctx ty (.string s) = .ok (normalize depth ctx ty value)) :
    Conforms style depth ctx ty value := by
  induction depth generalizing ctx ty value context s with
  | zero =>
    refine conforms_of_decode_expr hcase hlen (fun _ _ h _ => ?_) ht h hd
    obtain ⟨d, _, _, _, hd, -⟩ := serializeStruct_ok h
    cases hd
  | succ depth ih =>
    refine conforms_of_decode_expr hcase hlen (fun {ctx ctx' ref struct v _ s} ht hr h hd => ?_) ht h hd
    obtain ⟨d, props, raw, es, hdepth, rfl, hf, htext, hes⟩ := serializeStruct_ok h
    cases hdepth
    have hitems : ∀ e ∈ es.map fieldEntry, IsKey e.1 ∧ Item e.2 := fun e he => by
      obtain ⟨x, hx, rfl⟩ := List.mem_map.mp he
      obtain ⟨c, hc⟩ := hes x hx
      exact ⟨x.1.name.isKey, serialize_item (ht.field hr (hf ▸ List.mem_map_of_mem hx)) hc⟩
    rw [deserializeStruct_succ, parseStruct_eq htext hitems] at hd
    obtain ⟨_, hparsed, hd⟩ := Fallible.bind_ok.mp hd
    cases hparsed
    obtain ⟨ps, hps, hd⟩ := Fallible.bind_ok.mp hd
    cases hd
    intro props' raw' heq f hmem
    cases heq
    obtain ⟨e, he, rfl⟩ : ∃ e ∈ es, e.1 = f := List.mem_map.mp (hf ▸ hmem)
    have hnodup : ((es.map fieldEntry).map Prod.fst).Nodup := by
      have := struct.names_nodup
      rw [← hf, List.map_map] at this
      rwa [List.map_map]
    have hback := fields_come_back hps e.1 hmem
    rw [text_of_mem (List.Perm.refl _) hnodup (List.mem_map.mpr ⟨e, he, rfl⟩)] at hback
    obtain ⟨c, hc⟩ := hes e he
    exact ih (ht.field hr hmem) hc hback

/-- **The round trip.** A value comes back from its literal, and from every decorated text of it, if
and only if none of its present Optionals holds a present Optional directly, and none of its arrays
has holes. -/
theorem roundtrip_iff {depth : Nat} {ctx : GenerationContext} {ty : PlaintextType}
    {value : JsValue} {context : Option TransitionInputContext} {s : JsString}
    (ht : Transparent depth ctx ty) (h : serialize depth ctx ty value context = .ok s) :
    (deserialize depth ctx ty s = .ok (normalize depth ctx ty value) ∧
      ∀ s', Decorated s s' → deserialize depth ctx ty s' = .ok (normalize depth ctx ty value)) ↔
    Conforms .loose depth ctx ty value := by
  constructor
  · rintro ⟨hd, -⟩
    rw [deserialize_eq] at hd
    exact conforms_of_decode rfl rfl ht h hd
  · intro hv
    obtain ⟨w, hw, hnorm⟩ := serialize_denotes h hv
    have hread : ∀ s', Denotes .loose depth ctx ty s' w →
        deserialize depth ctx ty s' = .ok (normalize depth ctx ty value) := fun s' hs' => by
      rw [deserialize_eq, ← hnorm rfl]
      exact hs'.decode_eq.resolve_right fun hn => absurd hn.1 (by decide)
    exact ⟨hread s hw, fun s' hs' => hread s' (hw.decorated hs')⟩

theorem serialize_present {depth : Nat} {ctx : GenerationContext} {inner : PlaintextType}
    {value : JsValue} {context : Option TransitionInputContext} {t : JsString}
    (hnull : value.isNullish = false) (h : serialize depth ctx inner value context = .ok t) :
    serialize depth ctx (.optional inner) value context =
      .ok (js "\x7b is_some: true, val: " ++ t ++ js " \x7d") := by
  simp only [serialize] at h
  simp only [serialize, serializePlaintextExpr, hnull, h]
  rfl

/-- A program without structs. -/
def emptyContext : GenerationContext := ⟨⟨js "test.aleo", []⟩, fun _ => none⟩

theorem serialize_u8 (ctx : GenerationContext) (context : Option TransitionInputContext) :
    serialize 0 ctx (.primitive (.uint .s8)) (.number (.finite 5)) context = .ok (js "5u8") := by
  have htext : intString 5 ++ IntegerSize.name (js "u") .s8 = js "5u8" := by decide +kernel
  have hint : integerOf .s8 (.number (.finite 5)) = some 5 := rfl
  rw [← htext]
  simp only [serialize, serializePlaintextExpr, serializePrimitive, serializeUInt, serializeInteger,
    hint]
  rfl

/-- An optional pair of integers. -/
def pairType : PlaintextType := .optional (.array (.primitive (.uint .s8)) 2)

def fives : JsValue := .array [some (.number (.finite 5)), some (.number (.finite 5))]

theorem serialize_pair (ctx : GenerationContext) (context : Option TransitionInputContext) :
    serialize 0 ctx pairType fives context =
      .ok (js "\x7b is_some: true, val: [5u8, 5u8] \x7d") := by
  have hitem := fun context => serialize_u8 ctx context
  have harray : serialize 0 ctx (.array (.primitive (.uint .s8)) 2) fives context =
      .ok (js "[5u8, 5u8]") := by
    simp only [serialize, serializePlaintextExpr] at hitem
    simp only [serialize, serializePlaintextExpr, serializeArray, serializeElements, fives,
      childInputContext, hitem]
    rfl
  rw [pairType, serialize_present rfl harray]
  rfl

theorem conforms_pair (style : Style) (ctx : GenerationContext) :
    Conforms style 0 ctx pairType fives := by
  refine Or.inr ⟨fun _ => rfl, fun elements helements => Or.inl ⟨fun e he => ?_, fun _ => ?_⟩⟩
  · cases helements
    exact ⟨.number (.finite 5), by simpa using he, trivial⟩
  · cases helements
    rfl

theorem roundtrip_pair :
    deserialize 0 emptyContext pairType (js "\x7b is_some: true, val: [5u8, 5u8] \x7d") =
        .ok fives ∧
      ∀ s', Decorated (js "\x7b is_some: true, val: [5u8, 5u8] \x7d") s' →
        deserialize 0 emptyContext pairType s' = .ok fives :=
  (@roundtrip_iff 0 emptyContext pairType fives none _
    (by simp [pairType, Transparent, TransparentPlaintext]) (serialize_pair _ _)).mpr
    (conforms_pair _ _)

/-- A value directly inside two Optionals is accepted, but cannot be read back. -/
theorem nested_optional_lost :
    Transparent 0 emptyContext (.optional (.optional (.primitive (.uint .s8)))) ∧
    serialize 0 emptyContext (.optional (.optional (.primitive (.uint .s8)))) (.number (.finite 5))
      none = .ok (js "\x7b is_some: true, val: \x7b is_some: true, val: 5u8 \x7d \x7d") ∧
    deserialize 0 emptyContext (.optional (.optional (.primitive (.uint .s8))))
      (js "\x7b is_some: true, val: \x7b is_some: true, val: 5u8 \x7d \x7d") =
      .error .referenceError := by
  have h1 := serialize_u8 emptyContext none
  have h2 := serialize_present rfl h1
  have hitem := serialize_item (by simp [Transparent, TransparentPlaintext]) h2
  have htext : js "\x7b is_some: true, val: \x7b is_some: true, val: 5u8 \x7d \x7d" =
      js "\x7b is_some: true, val: " ++
        (js "\x7b is_some: true, val: " ++ js "5u8" ++ js " \x7d") ++ js " \x7d" := by decide
  refine ⟨by simp [Transparent, TransparentPlaintext], ?_, ?_⟩
  · rw [htext]
    exact serialize_present rfl h2
  · rw [htext, deserialize_eq, decode_present hitem]
    rfl

end Lionden.Codegen
