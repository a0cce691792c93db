import Lionden.Codegen.Deserializer

/-!
# Zero values

* `zero_denotes`: the payload that `zeroLeoValue` gives an absent Optional is a literal of the inner
  type, in every style.
* `zeroLeoValue_payload`: the generated deserializer reads it, and an absent Optional comes back as
  null.
-/

namespace Lionden.Codegen

/-- The text of an Optional, as the serializers spell it. -/
theorem structText_optional (flag val : JsString) :
    StructText [(js "is_some", flag), (js "val", val)]
      (js "\x7b is_some: " ++ flag ++ js ", val: " ++ val ++ js " \x7d") := by
  have h := structText_join [(js "is_some", flag), (js "val", val)]
  have hsome : js "\x7b is_some: " = js "\x7b " ++ (js "is_some" ++ js ": ") := by decide
  have hval : js ", val: " = js ", " ++ (js "val" ++ js ": ") := by decide
  rw [hsome, hval]
  simpa [join, List.append_assoc] using h

theorem structText_present (t : JsString) :
    StructText [(js "is_some", js "true"), (js "val", t)]
      (js "\x7b is_some: true, val: " ++ t ++ js " \x7d") := by
  have h := structText_optional (js "true") t
  rwa [show js "\x7b is_some: " ++ js "true" ++ js ", val: " =
    js "\x7b is_some: true, val: " by decide] at h

theorem structText_absent (t : JsString) :
    StructText [(js "is_some", js "false"), (js "val", t)]
      (js "\x7b is_some: false, val: " ++ t ++ js " \x7d") := by
  have h := structText_optional (js "false") t
  rwa [show js "\x7b is_some: " ++ js "false" ++ js ", val: " =
    js "\x7b is_some: false, val: " by decide] at h

theorem denotes_flag {style : Style} {depth : Nat} {ctx : GenerationContext} (b : Bool) :
    Denotes style depth ctx (.primitive .boolean) (if b then js "true" else js "false")
      (.boolean b) := by
  have := @Denotes.leaf style depth ctx _ _ [] _ (.boolean b) (.nil style)
  rwa [List.append_nil] at this

/-- An absent Optional, as the serializers spell it. -/
theorem denotes_absent {style : Style} {depth depth' : Nat} {ctx : GenerationContext}
    {inner : PlaintextType} {zero : JsString} {v : JsValue}
    (h : Denotes style depth' ctx inner zero v) :
    Denotes style depth ctx (.optional inner)
      (js "\x7b is_some: false, val: " ++ zero ++ js " \x7d") .null :=
  .absent (denotes_flag false) h (List.Perm.refl _) (structText_absent zero)

/-- A present Optional, as the serializers spell it. -/
theorem denotes_present {style : Style} {depth : Nat} {ctx : GenerationContext}
    {inner : PlaintextType} {s : JsString} {v : JsValue}
    (hnested : style.nested = false → inner.isOptional = false)
    (h : Denotes style depth ctx inner s v) :
    Denotes style depth ctx (.optional inner)
      (js "\x7b is_some: true, val: " ++ s ++ js " \x7d") v :=
  .present hnested (denotes_flag true) h (List.Perm.refl _) (structText_present s)

/-- A struct, as the serializers spell it. -/
theorem denotes_struct {style : Style} {depth : Nat} {ctx ctx' : GenerationContext} {ref : StructRef}
    {struct : StructABI} {es : List FieldText} (hr : ctx.resolveStruct ref = some (ctx', struct))
    (hf : es.map FieldText.field = struct.fields)
    (hes : ∀ e ∈ es, Denotes style depth ctx' e.field.ty e.text e.value) :
    Denotes style (depth + 1) ctx (.struct ref)
      (js "\x7b " ++ join (js ", ") (es.map fun e => e.field.name.name ++ js ": " ++ e.text) ++
        js " \x7d") (.object (es.map FieldText.prop) none) := by
  have htext := structText_join (es.map FieldText.entry)
  rw [List.map_map] at htext
  exact .struct hr hf hes (List.Perm.refl _) htext

theorem leaf_zero {style : Style} {prim : PrimitiveType} {z : JsString}
    (h : zeroPrimitive prim = some z) : ∃ v, Leaf style prim z v := by
  have hletters : ∀ {t : JsString}, lower t = t → style.letters t = t := fun ht => by
    simp only [Style.letters, ht, ite_self]
  have hkind : ∀ kind : ScalarLike, style.letters kind.suffix = kind.suffix :=
    fun kind => hletters kind.letters_suffix.2.2
  have hzero : isDigits (js "0") = true := by decide
  cases prim <;> cases h
  case address =>
    exact ⟨_, @Leaf.address style _ (js "qqqqqqqqqqqqqqqqqqqqqqqqqqqqqqqqqqqqqqqqqqqqqqqqqqqq3ljyzc")
      (hletters (by decide)) (by decide) (by decide) (fun _ => by decide)⟩
  case boolean => exact ⟨_, .boolean false⟩
  case field => exact ⟨_, @Leaf.scalarLike style .field (js "0") _ hzero (hkind .field)⟩
  case group => exact ⟨_, @Leaf.scalarLike style .group (js "0") _ hzero (hkind .group)⟩
  case scalar => exact ⟨_, @Leaf.scalarLike style .scalar (js "0") _ hzero (hkind .scalar)⟩
  case identifier => exact ⟨_, .identifier (by decide)⟩
  case uint size => exact ⟨_, .uint hzero (by cases size <;> decide)⟩
  case int size =>
    exact ⟨_, @Leaf.int style size false (js "0") hzero (by cases size <;> decide)⟩

/-- An array, as the serializers spell it. -/
theorem denotes_array {style : Style} {depth : Nat} {ctx : GenerationContext} {elem : PlaintextType}
    {length : Nat} {es : List (JsString × JsValue)}
    (hlen : style.anyLength = false → es.length = length)
    (hes : ∀ e ∈ es, Denotes style depth ctx elem e.1 e.2) :
    Denotes style depth ctx (.array elem length)
      (js "[" ++ join (js ", ") (es.map Prod.fst) ++ js "]") (.array (es.map fun e => some e.2)) :=
  .array hlen hes (arrayText_join _)

/-- The zeros of the fields of a struct. -/
def ZeroFields (style : Style) (ctx : GenerationContext) (fields : List FieldABI)
    (texts : List JsString) : Prop :=
  ∃ depth, ∃ es : List FieldText, es.map FieldText.field = fields ∧
    es.map (fun e => e.field.name.name ++ js ": " ++ e.text) = texts ∧
    ∀ e ∈ es, Denotes style depth ctx e.field.ty e.text e.value

theorem ZeroFields.cons {style : Style} {ctx : GenerationContext} {field : FieldABI}
    {fields : List FieldABI} {texts : List JsString} {z : JsString}
    (hz : IsLiteral style ctx field.ty z) (h : ZeroFields style ctx fields texts) :
    ZeroFields style ctx (field :: fields) ((field.name.name ++ js ": " ++ z) :: texts) := by
  obtain ⟨d, v, hz⟩ := hz
  obtain ⟨d', es, rfl, rfl, hes⟩ := h
  refine ⟨max d d', ⟨field, z, v⟩ :: es, rfl, rfl, fun e he => ?_⟩
  rcases List.mem_cons.mp he with rfl | he
  · exact hz.deepen (Nat.le_max_left d d')
  · exact (hes e he).deepen (Nat.le_max_right d d')

/-- **The zero of an absent Optional is a literal of the inner type.** -/
theorem zero_denotes {style : Style} {ctx : GenerationContext} {seen : List (List JsString)}
    {ty : PlaintextType} {z : JsString} (h : zeroLeoValue ctx seen ty = some z) :
    IsLiteral style ctx ty z := by
  refine zeroLeoValue.induct ctx
    (fun seen ty => ∀ z, zeroLeoValue ctx seen ty = some z → IsLiteral style ctx ty z)
    (fun seen fields => ∀ texts, zeroFields ctx seen fields = some texts →
      ZeroFields style ctx fields texts)
    ?primitive ?array ?optional ?unknown ?recursive ?struct ?nil ?cons seen ty z h
  case primitive =>
    intro seen prim z h
    rw [zeroLeoValue] at h
    obtain ⟨v, hv⟩ := @leaf_zero style _ _ h
    have := @Denotes.leaf style 0 ctx _ _ [] _ hv (.nil style)
    rw [List.append_nil] at this
    exact ⟨0, v, this⟩
  case array =>
    intro seen elem length ih z h
    rw [zeroLeoValue] at h
    simp only [Option.bind_eq_bind, Option.bind_eq_some_iff, Option.pure_def, Option.some.injEq] at h
    obtain ⟨t, ht, rfl⟩ := h
    obtain ⟨d, v, hv⟩ := ih t ht
    have hes : ∀ e ∈ List.replicate length (t, v), Denotes style d ctx elem e.1 e.2 :=
      fun e he => by rw [List.eq_of_mem_replicate he]; exact hv
    have := denotes_array (fun _ => List.length_replicate) hes
    rw [List.map_replicate] at this
    exact ⟨d, _, this⟩
  case optional =>
    intro seen inner ih z h
    rw [zeroLeoValue] at h
    simp only [Option.bind_eq_bind, Option.bind_eq_some_iff, Option.pure_def, Option.some.injEq] at h
    obtain ⟨t, ht, rfl⟩ := h
    obtain ⟨d, v, hv⟩ := ih t ht
    exact ⟨0, .null, denotes_absent hv⟩
  case unknown =>
    intro seen ref hlocal z h
    rw [zeroLeoValue] at h
    split at h
    · cases h
    · next heq => rw [hlocal] at heq; cases heq
  case recursive =>
    intro seen ref struct _ hseen z h
    rw [zeroLeoValue] at h
    split at h
    · cases h
    · rw [dif_pos hseen] at h
      cases h
  case struct =>
    intro seen ref struct hlocal hseen _ ih z h
    rw [zeroLeoValue] at h
    split at h
    · cases h
    · next struct' heq =>
      rw [hlocal] at heq
      cases heq
      rw [dif_neg hseen] at h
      simp only [Option.bind_eq_bind, Option.bind_eq_some_iff, Option.pure_def,
        Option.some.injEq] at h
      obtain ⟨texts, ht, rfl⟩ := h
      obtain ⟨d, es, hf, rfl, hes⟩ := ih texts ht
      have hr : ctx.resolveStruct ref = some (ctx, struct) := by
        rw [GenerationContext.resolveStruct, hlocal]
      exact ⟨d + 1, _, denotes_struct hr hf hes⟩
  case nil =>
    intro seen texts h
    rw [zeroFields] at h
    cases h
    exact ⟨0, [], rfl, rfl, by simp⟩
  case cons =>
    intro seen field fields _ ih1 ih2 texts h
    rw [zeroFields] at h
    simp only [Option.bind_eq_bind, Option.bind_eq_some_iff, Option.pure_def, Option.some.injEq] at h
    obtain ⟨t, ht, rest, hrest, rfl⟩ := h
    exact ZeroFields.cons (ih1 t ht) (ih2 rest hrest)

/-- What is a literal without Optionals directly inside present ones is a literal with them. -/
theorem Denotes.allow_nested {style : Style} {depth : Nat} {ctx : GenerationContext}
    {ty : PlaintextType} {s : JsString} {v : JsValue}
    (h : Denotes { style with nested := false } depth ctx ty s v) :
    Denotes { style with nested := true } depth ctx ty s v := by
  induction h with
  | leaf hleaf hvis =>
    refine .leaf ?_ hvis
    cases hleaf with
    | boolean b => exact .boolean b
    | uint hdigits hlt => exact .uint hdigits hlt
    | int hdigits hrange => exact .int hdigits hrange
    | scalarLike hdigits hsuffix => exact .scalarLike hdigits hsuffix
    | address hletters hne hall hlength => exact .address hletters hne hall hlength
    | identifier hname => exact .identifier hname
  | signature ho ht => exact .signature ho ht
  | unresolved ho hr ht => exact .unresolved ho hr ht
  | struct hr hf _ hp hs ih => exact .struct hr hf ih hp hs
  | array hl _ hs ih => exact .array hl ih hs
  | present _ _ _ hp hs ihf ihv => exact .present (fun hn => nomatch hn) ihf ihv hp hs
  | absent _ _ hp hs ihf ihv => exact .absent ihf ihv hp hs

/-- For every program, with any structs, and every type: the zero is a literal of the type, which the
generated deserializer reads at every depth that the type needs, and an Optional without a value
comes back as null. -/
theorem zeroLeoValue_payload {ctx : GenerationContext} {ty : PlaintextType} {z : JsString}
    (h : zeroLeoValue ctx [] ty = some z) :
    (∃ depth v, Denotes .exact depth ctx ty z v ∧
      ∀ depth', depth ≤ depth' → deserialize depth' ctx ty z = .ok v) ∧
    ∀ depth value context, value.isNullish = true →
      ∃ s, serialize depth ctx (.optional ty) value context = .ok s ∧
        deserialize depth ctx (.optional ty) s = .ok .null := by
  -- the style of a zero: exact, and no Optional is present
  obtain ⟨depth, v, hv⟩ := @zero_denotes { Style.exact with nested := false } ctx [] ty z h
  have hreads {depth' : Nat} {ty' : PlaintextType} {s : JsString} {w : JsValue}
      (hw : Denotes { Style.exact with nested := false } depth' ctx ty' s w) :
      deserialize depth' ctx ty' s = .ok w := by
    rw [deserialize_eq]
    exact hw.decode_eq.resolve_right fun hn => absurd hn.1 (by decide)
  refine ⟨⟨depth, v, hv.allow_nested, fun depth' hle => hreads (hv.deepen hle)⟩, ?_⟩
  intro depth' value context hnull
  refine ⟨js "\x7b is_some: false, val: " ++ z ++ js " \x7d", ?_, hreads (denotes_absent hv)⟩
  rw [serialize, serializePlaintextExpr, if_pos hnull, h]

/-- A struct of two fields. -/
def pair : StructABI where
  path := [js "Pair"]
  fields := [
    ⟨⟨js "left", by decide, by decide⟩, .primitive (.uint .s8)⟩,
    ⟨⟨js "right", by decide, by decide⟩, .array (.primitive .boolean) 2⟩]
  distinct := by decide

def pairContext : GenerationContext := ⟨⟨js "test.aleo", [pair]⟩, fun _ => none⟩

theorem zeroLeoValue_payload_pair :
    (∃ depth v, Denotes .exact depth pairContext (.struct ⟨[js "Pair"], none⟩)
        (js "\x7b left: 0u8, right: [false, false] \x7d") v ∧
      ∀ depth', depth ≤ depth' → deserialize depth' pairContext (.struct ⟨[js "Pair"], none⟩)
        (js "\x7b left: 0u8, right: [false, false] \x7d") = .ok v) ∧
    ∀ depth value context, value.isNullish = true →
      ∃ s, serialize depth pairContext (.optional (.struct ⟨[js "Pair"], none⟩)) value context =
          .ok s ∧
        deserialize depth pairContext (.optional (.struct ⟨[js "Pair"], none⟩)) s = .ok .null := by
  refine zeroLeoValue_payload ?_
  have hlocal : pairContext.localStruct ⟨[js "Pair"], none⟩ = some pair := rfl
  have hfields : zeroFields pairContext [[js "Pair"]] pair.fields =
      some [js "left: 0u8", js "right: [false, false]"] := by
    simp only [pair, zeroFields, zeroLeoValue, zeroPrimitive, Option.bind_eq_bind,
      Option.bind_some, Option.pure_def]
    decide +kernel
  rw [zeroLeoValue]
  split
  · next h => rw [hlocal] at h; cases h
  · next struct h =>
    rw [hlocal] at h
    cases h
    rw [dif_neg List.not_mem_nil, hfields]
    decide +kernel

end Lionden.Codegen
