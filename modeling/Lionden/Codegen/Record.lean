import Lionden.Codegen.Acceptance

/-!
# Record codecs

A record literal holds the owner, the other declared fields and the nonce. The serializer writes the
declared fields and the nonce, the deserializer reads the owner, the other declared fields and the
nonce: they agree where the owner is declared, as an address, and the nonce is not.

* `serializeRecord_ok`: what the serializer writes for a record without a cached literal.
* `deserializeRecord_eq`: what the deserializer makes of these fields.
* `record_roundtrip`: records come back where the list of fields allows it, and, but for opaque
  fields, only there.
-/

namespace Lionden.Codegen

/-! ## Specification -/

/-- `s` holds exactly the owner, the other declared fields and the nonce, once each. -/
def RecordText (record : RecordABI) (s : JsString) : Prop :=
  ∃ entries, StructText entries s ∧ (∀ e ∈ entries, IsKey e.1 ∧ Item e.2) ∧
    (entries.map Prod.fst).Nodup ∧ ∀ k, k ∈ entries.map Prod.fst ↔
      k = js "owner" ∨ k = js "_nonce" ∨ k ∈ record.others.map fun f => f.name.name

/-- The record that stands for the properties of an argument, read from the literal `s`. -/
def normalizeRecord (depth : Nat) (ctx : GenerationContext) (record : RecordABI)
    (props : List (JsString × JsValue)) (s : JsString) : JsValue :=
  .object ((js "owner", normalizePrimitive .address (JsValue.get props (js "owner"))) ::
      (record.others.map fun f =>
        (f.name.name, normalize depth ctx f.ty (JsValue.get props f.name.name))) ++
      [(js "_nonce", normalizePrimitive .group (JsValue.get props (js "_nonce")))])
    (some (.string s))

/-- The list of fields declares the owner, as an address, and does not declare the nonce. -/
structure RecordABI.Declares (record : RecordABI) : Prop where
  owner : ∃ f ∈ record.fields, f.name.name = js "owner" ∧ f.ty = .primitive .address
  nonce : ∀ f ∈ record.fields, f.name.name ≠ js "_nonce"

/-! ## What the serializer writes -/

theorem isKey_nonce : IsKey (js "_nonce") := ⟨⟨by decide, by decide⟩, by decide⟩

theorem serializeRecord_ok {depth : Nat} {ctx : GenerationContext} {record : RecordABI}
    {props : List (JsString × JsValue)} {raw : Option JsValue}
    {context : Option TransitionInputContext} {s : JsString}
    (hraw : ∀ t, raw ≠ some (.string t))
    (h : serializeRecord depth ctx record (.object props raw) context = .ok s) :
    ∃ es : List (FieldABI × JsString), ∃ nonce, es.map Prod.fst = record.fields ∧
      StructText (es.map fieldEntry ++ [(js "_nonce", nonce)]) s ∧
      (∀ e ∈ es, ∃ context, serialize depth ctx e.1.ty (JsValue.get props e.1.name.name) context =
        .ok e.2) ∧
      Leaf .withOpaque .group nonce
        (normalizePrimitive .group (JsValue.get props (js "_nonce"))) := by
  obtain ⟨_, hobj, h⟩ := Fallible.bind_ok.mp h
  cases hobj
  -- The branch of the cached literal is excluded by `hraw`.
  simp only [] at h
  obtain ⟨texts, htexts, h⟩ := Fallible.bind_ok.mp h
  obtain ⟨nonce, hnonce, h⟩ := Fallible.bind_ok.mp h
  cases h
  obtain ⟨es, hf, rfl, hes⟩ := serializeFields_ok htexts
  have htext := structText_join (es.map fieldEntry ++ [(js "_nonce", nonce)])
  rw [List.map_append, List.map_map] at htext
  refine ⟨es, nonce, hf, htext, hes, ?_⟩
  exact @leaf_scalarLike .withOpaque .group _ _ _ hnonce fun hc => absurd hc (by decide)

theorem RecordABI.names_nodup (record : RecordABI) :
    (record.fields.map fun f => f.name.name).Nodup := by
  have := record.distinct.map FieldName.injective
  rwa [List.map_map] at this

theorem map_fst_entries {es : List (FieldABI × JsString)} {record : RecordABI} {nonce : JsString}
    (hf : es.map Prod.fst = record.fields) :
    (es.map fieldEntry ++ [(js "_nonce", nonce)]).map Prod.fst =
      (record.fields.map fun f => f.name.name) ++ [js "_nonce"] := by
  rw [← hf, List.map_append, List.map_map, List.map_map]
  rfl

theorem entries_nodup {es : List (FieldABI × JsString)} {record : RecordABI} {nonce : JsString}
    (hf : es.map Prod.fst = record.fields) (hd : ∀ f ∈ record.fields, f.name.name ≠ js "_nonce") :
    ((es.map fieldEntry ++ [(js "_nonce", nonce)]).map Prod.fst).Nodup := by
  rw [map_fst_entries hf, List.nodup_append]
  refine ⟨record.names_nodup, List.nodup_singleton _, fun k hk k' hk' => ?_⟩
  obtain ⟨f, hmem, rfl⟩ := List.mem_map.mp hk
  rw [List.mem_singleton.mp hk']
  exact hd f hmem

/-- The entries of a record may stand in a struct literal. -/
theorem record_items {es : List (FieldABI × JsString)} {nonce : JsString}
    (hes : ∀ e ∈ es, Item e.2) (hnonce : Item nonce) :
    ∀ e ∈ es.map fieldEntry ++ [(js "_nonce", nonce)], IsKey e.1 ∧ Item e.2 := by
  intro e he
  rcases List.mem_append.mp he with he | he
  · obtain ⟨x, hx, rfl⟩ := List.mem_map.mp he
    exact ⟨x.1.name.isKey, hes x hx⟩
  · rw [List.mem_singleton.mp he]
    exact ⟨isKey_nonce, hnonce⟩

/-- Where the nonce is not declared, every field is found under its name. -/
theorem record_texts {es : List (FieldABI × JsString)} {record : RecordABI} {nonce : JsString}
    (hf : es.map Prod.fst = record.fields) (hd : ∀ f ∈ record.fields, f.name.name ≠ js "_nonce") :
    (∀ e ∈ es, Properties.text (es.map fieldEntry ++ [(js "_nonce", nonce)]).reverse
      e.1.name.name = .string e.2) ∧
    Properties.text (es.map fieldEntry ++ [(js "_nonce", nonce)]).reverse (js "_nonce") =
      .string nonce := by
  have hnodup := @entries_nodup es record nonce hf hd
  refine ⟨fun e he => text_of_mem (List.Perm.refl _) hnodup ?_,
    text_of_mem (List.Perm.refl _) hnodup ?_⟩
  · exact List.mem_append_left _ (List.mem_map.mpr ⟨e, he, rfl⟩)
  · exact List.mem_append_right _ (List.mem_singleton.mpr rfl)

theorem record_keys {record : RecordABI} (hd : record.Declares) (k : JsString) :
    k ∈ (record.fields.map fun f => f.name.name) ++ [js "_nonce"] ↔
      k = js "owner" ∨ k = js "_nonce" ∨ k ∈ record.others.map fun f => f.name.name := by
  obtain ⟨owner, hmem, hname, -⟩ := hd.owner
  simp only [List.mem_append, List.mem_map, List.mem_singleton, RecordABI.others, List.mem_filter,
    decide_eq_true_eq]
  constructor
  · rintro (⟨f, hf, rfl⟩ | rfl)
    · by_cases ho : f.name.name = js "owner"
      · exact .inl ho
      · exact .inr (.inr ⟨f, ⟨hf, ho⟩, rfl⟩)
    · exact .inr (.inl rfl)
  · rintro (rfl | rfl | ⟨f, ⟨hf, -⟩, rfl⟩)
    · exact .inl ⟨owner, hmem, hname⟩
    · exact .inr rfl
    · exact .inl ⟨f, hf, rfl⟩

/-! ## What the deserializer reads -/

theorem map_fst_decodeFields {call : StructDeserializer} {ctx : GenerationContext}
    {texts : Properties} {fields : List FieldABI} {props : List (JsString × JsValue)}
    (h : decodeFields call ctx texts fields = .ok props) :
    props.map Prod.fst = fields.map fun f => f.name.name := by
  have hall := decodeFields_ok.mp h
  clear h
  induction hall with
  | nil => rfl
  | cons hp _ ih => rw [List.map_cons, List.map_cons, hp.1, ih]

theorem setProperty_new {key : JsString} {value : JsValue} {props : List (JsString × JsValue)}
    (h : key ∉ props.map Prod.fst) : setProperty key value props = props ++ [(key, value)] := by
  induction props with
  | nil => rfl
  | cons p props ih =>
    obtain ⟨k, v⟩ := p
    rw [List.map_cons, List.mem_cons, not_or] at h
    rw [setProperty, if_neg (Ne.symm h.1), ih h.2]
    rfl

/-- The fields that the deserializer reads, in a text of which the entries are known. -/
theorem deserializeRecord_eq {depth : Nat} {ctx : GenerationContext} {record : RecordABI}
    {entries : List (JsString × JsString)} {nonce s : JsString} {r : JsValue}
    (htext : StructText entries s) (hitems : ∀ e ∈ entries, IsKey e.1 ∧ Item e.2)
    (hnonce : Properties.text entries.reverse (js "_nonce") = .string nonce) :
    deserializeRecord depth ctx record s = .ok r ↔
      ∃ owner props n, parseAddress (Properties.text entries.reverse (js "owner")) = .ok owner ∧
        decodeFields (deserializeStruct depth) ctx entries.reverse record.others = .ok props ∧
        parseScalarLike (.string nonce) .group = .ok n ∧
        r = .object (setProperty (js "_nonce") (.string n) ((js "owner", .string owner) :: props))
          (some (.string s)) := by
  simp only [deserializeRecord, parseStruct_eq htext hitems, Fallible.bind_ok]
  constructor
  · rintro ⟨_, hparsed, owner, howner, props, hprops, n, hn, h⟩
    cases hparsed
    rw [hnonce] at hn
    rw [deserializeFields_eq _ _ _ rfl] at hprops
    exact ⟨owner, props, n, howner, hprops, hn, (Except.ok.inj h).symm⟩
  · rintro ⟨owner, props, n, howner, hprops, hn, rfl⟩
    refine ⟨_, rfl, owner, howner, props, (deserializeFields_eq _ _ _ rfl).trans hprops, n, ?_, rfl⟩
    rw [hnonce]
    exact hn

theorem nonce_not_mem {record : RecordABI} {owner : JsValue} {props : List (JsString × JsValue)}
    (hd : ∀ f ∈ record.fields, f.name.name ≠ js "_nonce")
    (hprops : props.map Prod.fst = record.others.map fun f => f.name.name) :
    js "_nonce" ∉ ((js "owner", owner) :: props).map Prod.fst := by
  rw [List.map_cons, hprops, List.mem_cons, List.mem_map, not_or, not_exists]
  have hne : js "_nonce" ≠ js "owner" := by decide
  exact ⟨hne, fun g hg => hd g (List.mem_of_mem_filter hg.1) hg.2⟩

/-- The literal of a record is read as the record. -/
theorem record_comes_back {depth : Nat} {ctx : GenerationContext} {record : RecordABI}
    {props : List (JsString × JsValue)} {nonce s : JsString} {es : List (FieldABI × JsString)}
    (hd : record.Declares) (hf : es.map Prod.fst = record.fields)
    (htext : StructText (es.map fieldEntry ++ [(js "_nonce", nonce)]) s)
    (hes : ∀ e ∈ es, Denotes .withOpaque depth ctx e.1.ty e.2
      (normalize depth ctx e.1.ty (JsValue.get props e.1.name.name)))
    (hnonce : Leaf .withOpaque .group nonce
      (normalizePrimitive .group (JsValue.get props (js "_nonce")))) :
    RecordText record s ∧
      deserializeRecord depth ctx record s = .ok (normalizeRecord depth ctx record props s) := by
  have hitems := record_items (fun e he => (hes e he).item) hnonce.plain.item
  obtain ⟨htextOf, hnonceText⟩ := @record_texts es record nonce hf hd.nonce
  refine ⟨⟨_, htext, hitems, @entries_nodup es record nonce hf hd.nonce,
    fun k => by rw [map_fst_entries hf, record_keys hd]⟩, ?_⟩
  have hread : ∀ e ∈ es, decode (deserializeStruct depth) ctx e.1.ty (.string e.2) =
      .ok (normalize depth ctx e.1.ty (JsValue.get props e.1.name.name)) := fun e he =>
    (hes e he).decode_eq.resolve_right fun hn => absurd hn.1 (by decide)
  rw [deserializeRecord_eq htext hitems hnonceText]
  obtain ⟨f, hmem, hname, hty⟩ := hd.owner
  obtain ⟨e, he, rfl⟩ : ∃ e ∈ es, e.1 = f := List.mem_map.mp (hf ▸ hmem)
  have howner := hread e he
  rw [hty, hname] at howner
  obtain ⟨owner, howner, hval⟩ := Fallible.map_ok.mp howner
  have hgroup := hnonce.parse (Style.Suffix.nil .withOpaque)
  rw [List.append_nil] at hgroup
  obtain ⟨n, hn, hnval⟩ := Fallible.map_ok.mp hgroup
  refine ⟨owner, record.others.map fun f =>
    (f.name.name, normalize depth ctx f.ty (JsValue.get props f.name.name)), n, ?_, ?_, hn, ?_⟩
  · rw [← hname, htextOf e he]
    exact howner
  · rw [decodeFields_ok, List.forall₂_map_right_iff, List.forall₂_same]
    intro g hg
    obtain ⟨x, hx, rfl⟩ : ∃ x ∈ es, x.1 = g := List.mem_map.mp (hf ▸ List.mem_of_mem_filter hg)
    rw [htextOf x hx]
    exact ⟨rfl, hread x hx⟩
  · rw [setProperty_new, hval, hnval]
    · rfl
    · refine nonce_not_mem hd.nonce ?_
      rw [List.map_map]
      rfl

/-! ## Records that come back -/

/-- A text that is read as an address begins with the letter `a`. -/
theorem head_of_parseAddress {t a : JsString} (ht : Item t)
    (h : parseAddress (.string t) = .ok a) : t.head?.map lowerUnit = some 97 := by
  obtain ⟨s, hs, start, body, w, vis, htrim, hstart, -⟩ := parseAddress_returns.mp ⟨a, h⟩
  cases hs
  rw [trim_eq_self ht.toTrimmed] at htrim
  obtain ⟨c, rest, rfl, hc, -⟩ := List.map_eq_cons_iff.mp hstart
  rw [htrim]
  exact congrArg some hc

theorem head_of_digits {digits u : JsString} (h : isDigits digits = true) :
    (digits ++ u).head?.map lowerUnit ≠ some 97 := by
  obtain ⟨hne, hd⟩ := isDigits_iff.mp h
  obtain ⟨c, t, rfl⟩ := List.exists_cons_of_ne_nil hne
  have hc := hd c (by simp)
  rw [List.cons_append, List.head?_cons, Option.map_some, lowerUnit_of_isDigit hc]
  intro heq
  cases Option.some.inj heq
  exact absurd hc (by decide)

/-- Only addresses begin with that letter. -/
theorem Leaf.head_ne {style : Style} {prim : PrimitiveType} {t : JsString} {v : JsValue}
    (h : Leaf style prim t v) (hprim : prim ≠ .address) : t.head?.map lowerUnit ≠ some 97 := by
  cases h with
  | boolean b => cases b <;> decide
  | uint hd _ => exact head_of_digits hd
  | @int size negative digits hd _ =>
    cases negative with
    | false => exact head_of_digits hd
    | true => exact fun h => absurd (Option.some.inj h) (by decide)
  | scalarLike hd _ => exact head_of_digits hd
  | address => exact absurd rfl hprim
  | identifier _ => exact fun h => absurd (Option.some.inj h) (by decide)

/-- What is written for a value of another type is not read as an address. -/
theorem address_of_parse {depth : Nat} {ctx : GenerationContext} {ty : PlaintextType}
    {value : JsValue} {context : Option TransitionInputContext} {t a : JsString}
    (ht : Transparent depth ctx ty) (h : serialize depth ctx ty value context = .ok t)
    (ha : parseAddress (.string t) = .ok a) : ty = .primitive .address := by
  have hhead := head_of_parseAddress (serialize_item ht h) ha
  cases ty with
  | primitive prim =>
    by_contra hty
    have hv := @conforms_primitive .withOpaque rfl rfl _ ht value
    exact (serializePrimitive_leaf ht h hv).head_ne (fun h => hty (h ▸ rfl)) hhead
  | struct ref =>
    obtain ⟨ctx', struct, hr, -⟩ := ht
    simp only [serialize, serializePlaintextExpr, hr] at h
    obtain ⟨_, _, _, _, -, -, -, htext, -⟩ := serializeStruct_ok h
    rw [htext.head] at hhead
    exact absurd hhead (by decide)
  | array elem length =>
    obtain ⟨_, texts, -, -, rfl⟩ := serializeArray_ok h
    rw [(arrayText_join texts).head] at hhead
    exact absurd hhead (by decide)
  | optional inner =>
    simp only [serialize, serializePlaintextExpr] at h
    split at h
    · split at h
      · next zero _ =>
        cases h
        rw [(structText_absent zero).head] at hhead
        exact absurd hhead (by decide)
      · cases h
    · obtain ⟨u, -, h⟩ := Fallible.bind_ok.mp h
      cases h
      rw [(structText_present u).head] at hhead
      exact absurd hhead (by decide)

/-- A record that was read from a literal is written as this literal. -/
theorem serializeRecord_deserialized {depth : Nat} {ctx : GenerationContext} {record : RecordABI}
    {t : JsString} {r : JsValue} {context : Option TransitionInputContext}
    (h : deserializeRecord depth ctx record t = .ok r) :
    serializeRecord depth ctx record r context = .ok t := by
  simp only [deserializeRecord, Fallible.bind_ok] at h
  obtain ⟨_, -, owner, -, props, -, n, -, h⟩ := h
  cases h
  rfl

/-- A record without opaque fields comes back only if its list of fields allows it. -/
theorem record_conforms {depth : Nat} {ctx : GenerationContext} {record : RecordABI}
    {props : List (JsString × JsValue)} {nonce s : JsString} {es : List (FieldABI × JsString)}
    (ht : ∀ f ∈ record.fields, Transparent depth ctx f.ty) (hf : es.map Prod.fst = record.fields)
    (htext : StructText (es.map fieldEntry ++ [(js "_nonce", nonce)]) s)
    (hes : ∀ e ∈ es, ∃ context, serialize depth ctx e.1.ty (JsValue.get props e.1.name.name) context =
      .ok e.2)
    (hnonce : Item nonce) (hrecord : RecordText record s)
    (hback : deserializeRecord depth ctx record s = .ok (normalizeRecord depth ctx record props s)) :
    record.Declares ∧ ∀ f ∈ record.fields, Conforms .withOpaque depth ctx f.ty
      (JsValue.get props f.name.name) := by
  have hmem : ∀ e ∈ es, e.1 ∈ record.fields := fun e he => hf ▸ List.mem_map_of_mem he
  have hitems := record_items (fun e he => by
    obtain ⟨c, hc⟩ := hes e he
    exact serialize_item (ht e.1 (hmem e he)) hc) hnonce
  obtain ⟨entries, hentries, hitems', hnodup, hkeys⟩ := hrecord
  obtain rfl := hentries.unique htext hitems' hitems
  rw [map_fst_entries hf] at hnodup hkeys
  -- The nonce is not declared, since no key occurs twice.
  have hdeclared : ∀ f ∈ record.fields, f.name.name ≠ js "_nonce" := fun f hfm =>
    (List.nodup_append.mp hnodup).2.2 _ (List.mem_map.mpr ⟨f, hfm, rfl⟩) _
      (List.mem_singleton.mpr rfl)
  obtain ⟨htextOf, hnonceText⟩ := @record_texts es record nonce hf hdeclared
  rw [deserializeRecord_eq htext hitems hnonceText] at hback
  obtain ⟨a, props', n, ha, hprops, -, heq⟩ := hback
  -- The owner is declared, since its key occurs, and as an address, since it is read as one.
  obtain ⟨owner, howner, hname⟩ : ∃ f ∈ record.fields, f.name.name = js "owner" := by
    rcases List.mem_append.mp ((hkeys (js "owner")).mpr (.inl rfl)) with h | h
    · exact List.mem_map.mp h
    · exact absurd (List.mem_singleton.mp h) (by decide)
  have hty : owner.ty = .primitive .address := by
    obtain ⟨e, he, rfl⟩ : ∃ e ∈ es, e.1 = owner := List.mem_map.mp (hf ▸ howner)
    obtain ⟨c, hc⟩ := hes e he
    rw [← hname, htextOf e he] at ha
    exact address_of_parse (ht e.1 howner) hc ha
  refine ⟨⟨⟨owner, howner, hname, hty⟩, hdeclared⟩, fun f hfm => ?_⟩
  by_cases hfo : f.name.name = js "owner"
  · obtain rfl : f = owner :=
      List.inj_on_of_nodup_map record.names_nodup hfm howner (hfo.trans hname.symm)
    rw [hty]
    exact @conforms_primitive .withOpaque rfl rfl .address (by decide) _
  · have hothers : f ∈ record.others := List.mem_filter.mpr ⟨hfm, by simpa using hfo⟩
    have hprops' : props' = record.others.map fun f =>
        (f.name.name, normalize depth ctx f.ty (JsValue.get props f.name.name)) := by
      rw [setProperty_new (nonce_not_mem hdeclared (map_fst_decodeFields hprops)),
        normalizeRecord] at heq
      have hlist := (JsValue.object.inj heq).1
      rw [List.cons_append, List.cons_append, List.cons.injEq] at hlist
      exact (List.append_inj' hlist.2 rfl).1.symm
    rw [hprops'] at hprops
    have hread := fields_come_back hprops f hothers
    obtain ⟨e, he, rfl⟩ : ∃ e ∈ es, e.1 = f := List.mem_map.mp (hf ▸ hfm)
    rw [htextOf e he] at hread
    obtain ⟨c, hc⟩ := hes e he
    exact conforms_of_decode rfl rfl (ht e.1 hfm) hc hread

/-- What a record codec is for: the literal of a record holds its fields, the record comes back from
it, and a record that was read is written as it was. -/
structure RecordRoundtrip (depth : Nat) (ctx : GenerationContext) (record : RecordABI)
    (props : List (JsString × JsValue)) (s : JsString) : Prop where
  text : RecordText record s
  back : deserializeRecord depth ctx record s = .ok (normalizeRecord depth ctx record props s)
  replay : ∀ t r context, deserializeRecord depth ctx record t = .ok r →
    serializeRecord depth ctx record r context = .ok t

/-- **Record codecs.** A record without a cached literal comes back if its list of fields declares
the owner, as an address, and not the nonce, and the values of the fields conform; where no field is
opaque, only then. -/
theorem record_roundtrip {depth : Nat} {ctx : GenerationContext} {record : RecordABI}
    {props : List (JsString × JsValue)} {raw : Option JsValue}
    {context : Option TransitionInputContext} {s : JsString}
    (hraw : ∀ t, raw ≠ some (.string t))
    (h : serializeRecord depth ctx record (.object props raw) context = .ok s) :
    ((record.Declares ∧ ∀ f ∈ record.fields, Conforms .withOpaque depth ctx f.ty
        (JsValue.get props f.name.name)) → RecordRoundtrip depth ctx record props s) ∧
    ((∀ f ∈ record.fields, Transparent depth ctx f.ty) →
      RecordRoundtrip depth ctx record props s →
      record.Declares ∧ ∀ f ∈ record.fields, Conforms .withOpaque depth ctx f.ty
        (JsValue.get props f.name.name)) := by
  obtain ⟨es, nonce, hf, htext, hes, hnonce⟩ := serializeRecord_ok hraw h
  constructor
  · rintro ⟨hd, hv⟩
    have hdenotes : ∀ e ∈ es, Denotes .withOpaque depth ctx e.1.ty e.2
        (normalize depth ctx e.1.ty (JsValue.get props e.1.name.name)) := fun e he => by
      obtain ⟨c, hc⟩ := hes e he
      obtain ⟨w, hw, hnorm⟩ := serialize_denotes hc (hv e.1 (hf ▸ List.mem_map_of_mem he))
      rwa [hnorm rfl] at hw
    obtain ⟨hrecord, hback⟩ := record_comes_back hd hf htext hdenotes hnonce
    exact ⟨hrecord, hback, fun t r context => serializeRecord_deserialized⟩
  · intro ht hround
    exact record_conforms ht hf htext hes hnonce.plain.item hround.text hround.back

/-- A record of an owner and a seat. -/
def ticketRecord : RecordABI where
  path := [js "Ticket"]
  fields := [⟨⟨js "owner", by decide, by decide⟩, .primitive .address⟩,
    ⟨⟨js "seat", by decide, by decide⟩, .primitive (.uint .s8)⟩]
  distinct := by decide

/-- The same record in a list that leaves the owner out. -/
def bareRecord : RecordABI where
  path := [js "Ticket"]
  fields := []
  distinct := by simp

def ticketProps : List (JsString × JsValue) :=
  [(js "owner", .string (js "aleo1q")), (js "seat", .number (.finite 5)),
    (js "_nonce", .string (js "7group"))]

theorem roundtrip_ticket :
    RecordRoundtrip 0 emptyContext ticketRecord ticketProps
      (js "\x7b owner: aleo1q, seat: 5u8, _nonce: 7group \x7d") :=
  (@record_roundtrip 0 emptyContext ticketRecord ticketProps none none _ (fun _ h => nomatch h)
    (by decide +kernel)).1
    ⟨⟨⟨_, List.mem_cons_self, rfl, rfl⟩, by decide⟩, fun f hf => by
      rcases List.mem_cons.mp hf with rfl | hf
      · exact @conforms_primitive .withOpaque rfl rfl .address (by decide) _
      · rw [List.mem_singleton.mp hf]
        trivial⟩

/-- Without a declared owner the literal has no owner, and cannot be read. -/
theorem bare_record_lost :
    serializeRecord 0 emptyContext bareRecord (.object ticketProps none) none =
      .ok (js "\x7b _nonce: 7group \x7d") ∧
    deserializeRecord 0 emptyContext bareRecord (js "\x7b _nonce: 7group \x7d") =
      .error .typeError := by
  refine ⟨by decide +kernel, ?_⟩
  have hparsed : parseStruct (.string (js "\x7b _nonce: 7group \x7d")) =
      .ok [(js "_nonce", js "7group")] := by decide +kernel
  simp only [deserializeRecord, hparsed]
  rfl

end Lionden.Codegen
