import Lionden.Lib.Fallible
import Lionden.Codegen.Leaf

/-!
# The generated deserializers

* `deserialize_eq`: an emitted deserializer expression computes `decode` of its operand, except that
  the operand of an Optional directly inside an Optional stands in the temporal dead zone of the
  `_opt` it reads: such a value is never decoded.
* `Denotes.decode_eq`: a literal is decoded as the value that it denotes, or fails in that way.
-/

namespace Lionden.Codegen

/-! ## Without scopes -/

/-- What a deserializer expression computes from the value of its operand. -/
def decode (call : StructDeserializer) (ctx : GenerationContext) :
    PlaintextType → JsValue → Except JsError JsValue
  | .primitive prim, value => deserializePrimitive prim value
  | .struct ref, value =>
    match ctx.resolveStruct ref with
    | some (ctx', struct) => call ctx' struct value
    | none => .ok value
  | .array elem _, value => do
    let elements ← parseArray value
    let values ← elements.mapM fun e => decode call ctx elem (.string e)
    return .array (values.map some)
  | .optional inner, value => do
    let opt ← parseStruct value
    let isSome ← parseBoolean (opt.text (js "is_some"))
    if isSome then
      if inner.isOptional then .error .referenceError
      else decode call ctx inner (opt.text (js "val"))
    else return .null

def decodeFields (call : StructDeserializer) (ctx : GenerationContext) (texts : Properties) :
    List FieldABI → Except JsError (List (JsString × JsValue))
  | [] => .ok []
  | field :: fields => do
    let value ← decode call ctx field.ty (texts.text field.name.name)
    let rest ← decodeFields call ctx texts fields
    return (field.name.name, value) :: rest

/-- The scope in which the operand of a deserializer expression is evaluated. -/
def operandScope (ty : PlaintextType) (scope : Scope) : Scope :=
  if ty.isOptional then { scope with opt := .uninitialized } else scope

/-- **An emitted expression decodes its operand.** -/
theorem deserializePlaintextExpr_eq (call : StructDeserializer) (ctx : GenerationContext)
    (ty : PlaintextType) (expr : Code JsValue) (scope : Scope) :
    deserializePlaintextExpr call ctx ty expr scope =
      (do decode call ctx ty (← expr (operandScope ty scope))) := by
  induction ty generalizing expr scope with
  | primitive prim => rfl
  | struct ref => rfl
  | array elem n ih =>
    have helem : ∀ e, deserializePlaintextExpr call ctx elem (fun scope => scope.elem.read)
        { scope with elem := .bound (.string e) } = decode call ctx elem (.string e) := by
      intro e
      rw [ih]
      simp only [operandScope]
      split <;> rfl
    simp only [deserializePlaintextExpr, decode, helem]
    rfl
  | optional inner ih =>
    have hval : ∀ opt : Properties, deserializePlaintextExpr call ctx inner
        (fun scope => do
          let opt ← scope.opt.read
          return opt.text (js "val"))
        { scope with opt := .bound opt } =
        if inner.isOptional then .error .referenceError
        else decode call ctx inner (opt.text (js "val")) := by
      intro opt
      rw [ih]
      simp only [operandScope]
      split <;> rfl
    simp only [deserializePlaintextExpr, decode, hval]
    rfl

theorem deserializeFields_eq (call : StructDeserializer) (ctx : GenerationContext)
    (fields : List FieldABI) {scope : Scope} {texts : Properties}
    (h : scope.fields = .bound texts) :
    deserializeFields call ctx fields scope = decodeFields call ctx texts fields := by
  have hread : ∀ ty, (operandScope ty scope).fields = .bound texts := by
    intro ty
    simp only [operandScope]
    split <;> exact h
  induction fields with
  | nil => rfl
  | cons field fields ih =>
    simp only [deserializeFields, deserializePlaintextExpr_eq, hread, Binding.read, decodeFields, ih]
    rfl

/-- `deserialize<Name>` of a struct. -/
theorem deserializeStruct_succ (depth : Nat) (ctx : GenerationContext) (struct : StructABI)
    (value : JsValue) :
    deserializeStruct (depth + 1) ctx struct value = (do
      let texts ← parseStruct value
      let props ← decodeFields (deserializeStruct depth) ctx texts struct.fields
      return .object props none) := by
  simp only [deserializeStruct, Scope.ofValue, Binding.read]
  refine congrArg (parseStruct value >>= ·) (funext fun texts => ?_)
  rw [deserializeFields_eq _ _ _ rfl]

/-- The generated deserializer is `decode` on its parameter. -/
theorem deserialize_eq (depth : Nat) (ctx : GenerationContext) (ty : PlaintextType)
    (s : JsString) :
    deserialize depth ctx ty s = decode (deserializeStruct depth) ctx ty (.string s) := by
  rw [deserialize, deserializePlaintextExpr_eq]
  simp only [operandScope]
  split <;> rfl

/-! ## Literals as parts of texts -/

theorem FieldName.isKey (f : FieldName) : IsKey f.name := by
  obtain ⟨hne, hpart⟩ := plain_of_isIdentifierName f.identifier
  exact ⟨⟨hne, fun c hc => not_isSpecial (.inl (hpart c hc))⟩, f.ordinary⟩

theorem isKey_isSome : IsKey (js "is_some") := ⟨⟨by decide, by decide⟩, by decide⟩

theorem isKey_val : IsKey (js "val") := ⟨⟨by decide, by decide⟩, by decide⟩

theorem entry_mem {es : List FieldText} {entries : List (JsString × JsString)}
    (hp : entries.Perm (es.map FieldText.entry)) {e : JsString × JsString} (he : e ∈ entries) :
    ∃ x ∈ es, x.entry = e :=
  List.mem_map.mp (hp.mem_iff.mp he)

/-- The two entries of an Optional. -/
theorem optional_items {entries : List (JsString × JsString)} {flag val : JsString}
    (hp : entries.Perm [(js "is_some", flag), (js "val", val)]) (hflag : Item flag)
    (hval : Item val) : ∀ e ∈ entries, IsKey e.1 ∧ Item e.2 := by
  intro e he
  have := hp.mem_iff.mp he
  simp only [List.mem_cons, List.not_mem_nil, or_false] at this
  rcases this with rfl | rfl
  · exact ⟨isKey_isSome, hflag⟩
  · exact ⟨isKey_val, hval⟩

/-- **A literal may stand inside another one.** -/
theorem Denotes.item {style : Style} {depth : Nat} {ctx : GenerationContext} {ty : PlaintextType}
    {s : JsString} {v : JsValue} (h : Denotes style depth ctx ty s v) : Item s := by
  induction h with
  | leaf hleaf hvis => exact (hleaf.plain.atom hvis).item
  | signature _ ht => exact ht
  | unresolved _ _ ht => exact ht
  | struct _ _ _ hp hs ih =>
    refine hs.item fun e he => ?_
    obtain ⟨x, hx, rfl⟩ := entry_mem hp he
    exact ⟨x.field.name.isKey, ih x hx⟩
  | array _ _ hs ih =>
    refine hs.item fun t ht => ?_
    obtain ⟨e, he, rfl⟩ := List.mem_map.mp ht
    exact (ih e he).closed
  | present _ _ _ hp hs ihf ihv => exact hs.item (optional_items hp ihf ihv)
  | absent _ _ hp hs ihf ihv => exact hs.item (optional_items hp ihf ihv)

/-! ## Lookups -/

/-- The properties of a struct text, under their keys and in any order. -/
theorem text_of_mem {entries l : List (JsString × JsString)} {k t : JsString}
    (hp : entries.Perm l) (hl : (l.map Prod.fst).Nodup) (h : (k, t) ∈ l) :
    Properties.text entries.reverse k = .string t := by
  have hperm : entries.reverse.Perm l := (List.reverse_perm entries).trans hp
  have hnodup := (hperm.map Prod.fst).nodup_iff.mpr hl
  rw [Properties.text, Fallible.lookup_of_mem hnodup (hperm.mem_iff.mpr h)]

theorem FieldName.injective : Function.Injective FieldName.name := fun a b h => by
  cases a
  cases b
  simpa using h

theorem StructABI.names_nodup (struct : StructABI) :
    (struct.fields.map fun f => f.name.name).Nodup := by
  have := struct.distinct.map FieldName.injective
  rwa [List.map_map] at this

theorem fields_nodup {es : List FieldText} {struct : StructABI}
    (h : es.map FieldText.field = struct.fields) :
    ((es.map FieldText.entry).map Prod.fst).Nodup := by
  have := struct.names_nodup
  rw [← h, List.map_map] at this
  rwa [List.map_map]

theorem text_of_field {es : List FieldText} {struct : StructABI}
    {entries : List (JsString × JsString)} (hp : entries.Perm (es.map FieldText.entry))
    (h : es.map FieldText.field = struct.fields) {e : FieldText} (he : e ∈ es) :
    Properties.text entries.reverse e.field.name.name = .string e.text :=
  text_of_mem hp (fields_nodup h) (List.mem_map.mpr ⟨e, he, rfl⟩)

theorem text_of_optional {entries : List (JsString × JsString)} {flag val : JsString}
    (hp : entries.Perm [(js "is_some", flag), (js "val", val)]) :
    Properties.text entries.reverse (js "is_some") = .string flag ∧
      Properties.text entries.reverse (js "val") = .string val := by
  have hnodup : ([(js "is_some", flag), (js "val", val)].map Prod.fst).Nodup := by
    simp only [List.map_cons, List.map_nil]
    decide
  exact ⟨text_of_mem hp hnodup (by simp), text_of_mem hp hnodup (by simp)⟩

/-! ## Reading literals -/

/-- A computation returns `v`, or fails where the style allows an Optional directly inside a
present Optional. -/
def Reads {α : Type} (style : Style) (r : Except JsError α) (v : α) : Prop :=
  r = .ok v ∨ style.nested = true ∧ r = .error .referenceError

theorem Reads.bind {α β : Type} {style : Style} {x : Except JsError α} {f : α → Except JsError β}
    {a : α} {b : β} (hx : Reads style x a) (hf : Reads style (f a) b) : Reads style (x >>= f) b := by
  rcases hx with rfl | ⟨hn, rfl⟩
  · exact hf
  · exact .inr ⟨hn, rfl⟩

theorem Reads.mapM {style : Style} {α β γ : Type} {f : α → Except JsError β} {a : γ → α} {b : γ → β}
    {es : List γ} (h : ∀ e ∈ es, Reads style (f (a e)) (b e)) :
    Reads style ((es.map a).mapM f) (es.map b) := by
  induction es with
  | nil => exact .inl rfl
  | cons e es ih =>
    rw [List.forall_mem_cons] at h
    rw [List.map_cons, List.mapM_cons]
    exact h.1.bind ((ih h.2).bind (.inl rfl))

theorem Reads.fields {style : Style} {call : StructDeserializer} {ctx : GenerationContext}
    {texts : Properties} {es : List FieldText}
    (h : ∀ e ∈ es, texts.text e.field.name.name = .string e.text ∧
      Reads style (decode call ctx e.field.ty (.string e.text)) e.value) :
    Reads style (decodeFields call ctx texts (es.map FieldText.field)) (es.map FieldText.prop) := by
  induction es with
  | nil => exact .inl rfl
  | cons e es ih =>
    rw [List.forall_mem_cons] at h
    obtain ⟨⟨htext, hread⟩, hrest⟩ := h
    rw [List.map_cons, decodeFields, htext]
    exact hread.bind ((ih hrest).bind (.inl rfl))

/-- A boolean literal, as the parsers of Optionals read it. -/
theorem Denotes.flag {style : Style} {depth : Nat} {ctx : GenerationContext} {s : JsString} {b : Bool}
    (h : Denotes style depth ctx (.primitive .boolean) s (.boolean b)) :
    parseBoolean (.string s) = .ok b := by
  cases h with
  | leaf hleaf hvis =>
    have := hleaf.parse hvis
    rw [deserializePrimitive, Fallible.map_ok] at this
    obtain ⟨b', hb, heq⟩ := this
    cases heq
    exact hb

/-- **A literal is read as the value that it denotes.** -/
theorem Denotes.decode_eq {style : Style} {depth : Nat} {ctx : GenerationContext}
    {ty : PlaintextType} {s : JsString} {v : JsValue} (h : Denotes style depth ctx ty s v) :
    Reads style (decode (deserializeStruct depth) ctx ty (.string s)) v := by
  induction h with
  | leaf hleaf hvis => exact .inl (hleaf.parse hvis)
  | signature => exact .inl rfl
  | unresolved _ hr _ =>
    rw [decode, hr]
    exact .inl rfl
  | @struct _ _ _ _ struct entries s es hr hf hes hp hs ih =>
    have hitems : ∀ e ∈ entries, IsKey e.1 ∧ Item e.2 := fun e he => by
      obtain ⟨x, hx, rfl⟩ := entry_mem hp he
      exact ⟨x.field.name.isKey, (hes x hx).item⟩
    rw [decode, hr]
    simp only []
    rw [deserializeStruct_succ, parseStruct_eq hs hitems, ← hf]
    refine Reads.bind (.inl rfl) (Reads.bind (Reads.fields fun e he => ?_) (.inl rfl))
    exact ⟨text_of_field hp hf he, ih e he⟩
  | @array _ _ _ _ _ es _ hes hs ih =>
    have hitems : ∀ t ∈ es.map Prod.fst, Item t := fun t ht => by
      obtain ⟨e, he, rfl⟩ := List.mem_map.mp ht
      exact (hes e he).item
    rw [decode, parseArray_eq hs hitems]
    refine Reads.bind (.inl rfl) (Reads.bind (Reads.mapM ih) (.inl ?_))
    simp only [List.map_map]
    rfl
  | @present _ _ inner _ _ _ _ _ hn hflag hval hp hs _ ihv =>
    obtain ⟨htext, hvtext⟩ := text_of_optional hp
    rw [decode, parseStruct_eq hs (optional_items hp hflag.item hval.item)]
    refine Reads.bind (.inl rfl) ?_
    rw [htext, hflag.flag, hvtext]
    refine Reads.bind (.inl rfl) ?_
    rw [if_pos rfl]
    split
    · next hopt =>
      refine .inr ⟨?_, rfl⟩
      rw [← Bool.not_eq_false]
      intro hnest
      rw [hn hnest] at hopt
      cases hopt
    · exact ihv
  | absent hflag hval hp hs _ _ =>
    obtain ⟨htext, -⟩ := text_of_optional hp
    rw [decode, parseStruct_eq hs (optional_items hp hflag.item hval.item)]
    refine Reads.bind (.inl rfl) ?_
    rw [htext, hflag.flag]
    exact .inl rfl

end Lionden.Codegen
