import Lionden.Codegen.Deserializer

/-!
# The texts that the parsers let through

A grammar of the texts at which the generated deserializers return, in the manner of that of the
literals (`Literal.lean`), and as far from it as the parsers are lenient.

* `Cuts`, `PieceEntry`, `FieldIn`: what stands between the brackets and commas of any text at all.
* `LenientLeaf`: the texts of primitive types. Integers of at most 32 bits and booleans are read from
  any text.
* `Lenient`: arrays of any number of elements, and structs that have something for each of their fields.
* `parseArray_cuts`, `parseStruct_cuts`, `lenientLeaf_iff`: the parsers read by this grammar.
-/

namespace Lionden.Codegen

open Brackets

/-! ## Brackets and commas -/

/-- What is between the brackets of `s`, or all of `s` if it has not both; without white space around. -/
def Inside (opening closing : CodeUnit) (s inner : JsString) : Prop :=
  (∃ text, trim s = opening :: text ++ [closing] ∧ inner = trim text) ∨
    (∀ text, trim s ≠ opening :: text ++ [closing]) ∧ inner = trim s

/-- The pieces of `s`: what the commas outside of any brackets leave, without the brackets of `s`. -/
def Cuts (opening closing : CodeUnit) (s : JsString) (pieces : List JsString) : Prop :=
  ∃ inner, Inside opening closing s inner ∧ punctuation.Cut pieces inner

/-- A piece is the entry of `key` with this text: the first colon outside of brackets that has something
before it ends the key. -/
inductive PieceEntry : JsString → JsString → JsString → Prop
  | key {key text : JsString} : colons.Quiet 0 key → colons.height key = 0 → trim key ≠ [] →
      PieceEntry (key ++ colon :: text) (trim key) (trim text)
  | blank {w piece key text : JsString} : Spaces w → PieceEntry piece key text →
      PieceEntry (w ++ colon :: piece) key text

/-- The text that the pieces of a struct have for a key: that of the last entry, if there is one. -/
def FieldIn (pieces : List JsString) (key : JsString) : Option JsString → Prop
  | some text => ∃ before piece after, pieces = before ++ piece :: after ∧
      PieceEntry piece key text ∧ ∀ p ∈ after, ∀ t, ¬PieceEntry p key t
  | none => ∀ p ∈ pieces, ∀ t, ¬PieceEntry p key t

/-! ## Leaves -/

/-- What may follow the text of a leaf: `.public` or `.private`, in either case. -/
def OptVisibility (vis : JsString) : Prop := vis = [] ∨ isVisibility vis = true

/-- A numeric literal that `BigInt` takes: digits with a sign or digits in another radix, or nothing. -/
inductive Numeral : JsString → Prop
  | empty : Numeral []
  | decimal {sign digits : JsString} : sign = [] ∨ sign = js "+" ∨ sign = js "-" →
      isDigits digits = true → Numeral (sign ++ digits)
  | radix {start digits : JsString} (part : CodeUnit → Bool) :
      (lower start, part) ∈ [(js "0x", isHexDigit), (js "0o", inRange '0' '7'),
        (js "0b", inRange '0' '1')] →
      digits ≠ [] → digits.all part = true → Numeral (start ++ digits)

/-- A text of `field`, `group` or `scalar`. -/
def LenientScalar (kind : ScalarLike) (s : JsString) : Prop :=
  ∃ digits suffix w vis, trim s = digits ++ suffix ++ w ++ vis ∧ isDigits digits = true ∧
    (suffix = [] ∨ lower suffix = kind.suffix) ∧ Spaces w ∧ OptVisibility vis

def LenientLeaf : PrimitiveType → JsString → Prop
  | .field, s => LenientScalar .field s
  | .group, s => LenientScalar .group s
  | .scalar, s => LenientScalar .scalar s
  | .address, s => ∃ start body w vis, trim s = start ++ body ++ w ++ vis ∧
      lower start = js "aleo1" ∧ body ≠ [] ∧ body.all isAlphanumeric = true ∧ Spaces w ∧
      OptVisibility vis
  | .identifier, s => ∃ name vis, trim s = name ++ vis ∧ OptVisibility vis ∧
      (isIdentifierName name = true ∨ isQuoted name = true)
  | .uint size, s | .int size, s => isBigIntType size = true →
      ∃ number suffix, s = number ++ suffix ∧ Numeral (trim number) ∧
        (suffix = [] ∨ isTypeSuffix suffix = true)
  | .boolean, _ | .signature, _ => True

/-! ## Types -/

/-- The texts that are let through, where `call` says so of structs; `none` is a field without a text. -/
def LenientPlaintext (call : GenerationContext → StructABI → Option JsString → Prop)
    (ctx : GenerationContext) : PlaintextType → Option JsString → Prop
  | .primitive prim, text => prim = .signature ∨ ∃ s, text = some s ∧ LenientLeaf prim s
  | .struct ref, text => ∀ ctx' struct, ctx.resolveStruct ref = some (ctx', struct) →
    call ctx' struct text
  | .array elem _, text => ∃ s pieces last, text = some s ∧
    Cuts openBracket closeBracket s (pieces ++ [last]) ∧
    (∀ p ∈ pieces, LenientPlaintext call ctx elem (some (trim p))) ∧
    (trim last ≠ [] → LenientPlaintext call ctx elem (some (trim last)))
  | .optional inner, text => ∃ s pieces flag, text = some s ∧
    Cuts openBrace closeBrace s pieces ∧ FieldIn pieces (js "is_some") (some flag) ∧
    ((∃ vis, trim flag = js "true" ++ vis ∧ OptVisibility vis) → inner.isOptional = false ∧
      ∃ val, FieldIn pieces (js "val") val ∧ LenientPlaintext call ctx inner val)

def LenientStruct : Nat → GenerationContext → StructABI → Option JsString → Prop
  | 0, _, _, _ => False
  | depth + 1, ctx, struct, text => ∃ s pieces, text = some s ∧ Cuts openBrace closeBrace s pieces ∧
    ∀ field ∈ struct.fields, ∃ t, FieldIn pieces field.name.name t ∧
      LenientPlaintext (LenientStruct depth) ctx field.ty t

/-- The texts that the deserializer of a type lets through, with this depth of structs. -/
def Lenient (depth : Nat) (ctx : GenerationContext) (ty : PlaintextType) (s : JsString) : Prop :=
  LenientPlaintext (LenientStruct depth) ctx ty (some s)

/-! ## The splitters on any text -/

theorem inside_iff {opening closing : CodeUnit} {s inner : JsString} (hne : opening ≠ closing) :
    Inside opening closing s inner ↔ inner = unwrap opening closing s := by
  have hwrapped : (trim s).head? = some opening ∧ (trim s).getLast? = some closing ↔
      ∃ text, trim s = opening :: text ++ [closing] := by
    constructor
    · rintro ⟨hhead, hlast⟩
      cases htrim : trim s with
      | nil => simp [htrim] at hhead
      | cons c rest =>
        rw [htrim] at hhead hlast
        obtain rfl : c = opening := by simpa using hhead
        obtain rfl | ⟨text, d, rfl⟩ := List.eq_nil_or_concat' rest
        · exact absurd (by simpa using hlast) hne
        · obtain rfl : d = closing := by simpa [List.getLast?_cons] using hlast
          exact ⟨text, rfl⟩
    · rintro ⟨text, htrim⟩
      rw [htrim]
      exact ⟨rfl, List.getLast?_concat⟩
  unfold Inside unwrap
  dsimp only
  by_cases htext : ∃ text, trim s = opening :: text ++ [closing]
  · rw [if_pos (hwrapped.mpr htext)]
    obtain ⟨text, htrim⟩ := htext
    have hslice : sliceInner (trim s) = text := by simp [htrim, sliceInner]
    rw [hslice]
    constructor
    · rintro (⟨text', htrim', rfl⟩ | ⟨hnone, -⟩)
      · rw [htrim'] at hslice
        rw [← hslice]
        simp [sliceInner]
      · exact absurd htrim (hnone text)
    · exact fun h => .inl ⟨text, htrim, h⟩
  · rw [if_neg (fun h => htext (hwrapped.mp h))]
    constructor
    · rintro (⟨text, htrim, -⟩ | ⟨-, h⟩)
      · exact absurd ⟨text, htrim⟩ htext
      · exact h
    · exact fun h => .inr ⟨fun text htrim => htext ⟨text, htrim⟩, h⟩

theorem exists_cuts (opening closing : CodeUnit) (hne : opening ≠ closing) (s : JsString) :
    ∃ pieces, Cuts opening closing s pieces := by
  obtain ⟨pieces, hpieces⟩ := Punctuation.exists_cut (P := punctuation) (unwrap opening closing s)
  exact ⟨pieces, _, (inside_iff hne).mpr rfl, hpieces⟩

/-- The elements of an array text: a last piece of white space is none. -/
def elements (pieces : List JsString) (last : JsString) : List JsString :=
  pieces.map trim ++ if trim last = [] then [] else [trim last]

theorem Cut.eq_concat {pieces : List JsString} {s : JsString} (h : punctuation.Cut pieces s) :
    ∃ init last, pieces = init ++ [last] := by
  induction h with
  | @last p _ => exact ⟨[], p, rfl⟩
  | @cons p _ _ _ _ _ ih =>
    obtain ⟨init, last, rfl⟩ := ih
    exact ⟨p :: init, last, rfl⟩

theorem arrayScan_cut {all : List JsString} {s : JsString} (h : punctuation.Cut all s)
    {pieces es : List JsString} {last : JsString} (hall : all = pieces ++ [last]) :
    (s.foldl ArrayScan.step ⟨0, [], es⟩).result = es ++ elements pieces last := by
  induction h generalizing pieces es with
  | @last p hquiet =>
    obtain ⟨rfl, rfl⟩ : pieces = [] ∧ p = last := by
      cases pieces with
      | nil => exact ⟨rfl, by simpa using hall⟩
      | cons q pieces => simp at hall
    rw [foldl_arrayStep hquiet]
    simp only [ArrayScan.result, List.nil_append, elements, List.map_nil]
    split <;> simp
  | @cons p ps rest hquiet hheight hrest ih =>
    obtain ⟨q, pieces, rfl⟩ : ∃ q pieces', pieces = q :: pieces' := by
      cases pieces with
      | nil =>
        obtain ⟨init, last', rfl⟩ := Cut.eq_concat hrest
        simp at hall
      | cons q pieces => exact ⟨q, pieces, rfl⟩
    obtain ⟨rfl, hps⟩ := List.cons.inj hall
    have hstep : ArrayScan.step ⟨0, p, es⟩ comma = ⟨0, [], es ++ [trim p]⟩ := by
      have hdepth : depthAfter 0 comma = 0 := by decide
      simp only [ArrayScan.step, hdepth, and_self, if_true]
    rw [show punctuation.separator = comma from rfl, List.foldl_append, foldl_arrayStep hquiet,
      List.foldl_cons, hheight, add_zero, List.nil_append, hstep, ih hps]
    simp [elements]

/-- **`parseArray` on any text.** -/
theorem parseArray_cuts {s last : JsString} {pieces : List JsString}
    (h : Cuts openBracket closeBracket s (pieces ++ [last])) :
    parseArray (.string s) = .ok (elements pieces last) := by
  obtain ⟨inner, hinner, hcut⟩ := h
  have hscan := @arrayScan_cut _ _ hcut pieces [] last rfl
  rw [inside_iff (by decide)] at hinner
  subst hinner
  simp only [parseArray, asString, bind, Except.bind, pure, Except.pure]
  split
  · next hnil =>
    rw [hnil] at hscan
    rw [List.nil_append] at hscan
    rw [← hscan]
    rfl
  · rw [List.nil_append] at hscan
    rw [← hscan]
    rfl

theorem trim_eq_nil {s : JsString} : trim s = [] ↔ Spaces s := ⟨spaces_of_trim, trim_spaces⟩

theorem spaces_quiet {w : JsString} (hw : Spaces w) :
    colons.Quiet 0 w ∧ colons.height w = 0 := by
  refine ⟨Punctuation.quiet_of_not_mem (fun h => ?_) 0, ?_⟩
  · exact absurd (hw colon h) (by decide)
  · rw [colons_height, (closed_of_spaces hw).height]

/-- A piece without a colon is no entry. -/
theorem not_pieceEntry {p key text : JsString} (h : colons.Quiet 0 p) : ¬PieceEntry p key text := by
  rintro (⟨-, hheight, -⟩ | ⟨hw, -⟩)
  · exact h.not_split (by rw [hheight, add_zero])
  · exact h.not_split (by rw [(spaces_quiet hw).2, add_zero])

/-- What the first colon makes of a piece. -/
theorem pieceEntry_split {a b key text : JsString} (ha : colons.Quiet 0 a)
    (hheight : colons.height a = 0) : PieceEntry (a ++ colon :: b) key text ↔
      if trim a = [] then PieceEntry b key text else key = trim a ∧ text = trim b := by
  have hunique : ∀ {a' b' : JsString}, colons.Quiet 0 a' → colons.height a' = 0 →
      a ++ colon :: b = a' ++ colon :: b' → a = a' ∧ b = b' := fun ha' hheight' h =>
    ha.split ha' (by rw [hheight, add_zero]) (by rw [hheight', add_zero]) h
  split
  · next hblank =>
    constructor
    · intro h
      generalize hp : a ++ colon :: b = p at h
      cases h with
      | key hk hkheight hne =>
        obtain ⟨rfl, -⟩ := hunique hk hkheight hp
        exact absurd hblank hne
      | blank hw h =>
        obtain ⟨-, rfl⟩ := hunique (spaces_quiet hw).1 (spaces_quiet hw).2 hp
        exact h
    · exact .blank (trim_eq_nil.mp hblank)
  · next hne =>
    constructor
    · intro h
      generalize hp : a ++ colon :: b = p at h
      cases h with
      | key hk hkheight _ =>
        obtain ⟨rfl, rfl⟩ := hunique hk hkheight hp
        exact ⟨rfl, rfl⟩
      | blank hw _ =>
        obtain ⟨rfl, -⟩ := hunique (spaces_quiet hw).1 (spaces_quiet hw).2 hp
        exact absurd (trim_spaces hw) hne
    · rintro ⟨rfl, rfl⟩
      exact .key ha hheight hne

/-- The scan of one piece: its key, or none, and the text after it. -/
theorem structScan_piece (res : Properties) (p : JsString) (hquiet : punctuation.Quiet 0 p) :
    ∃ cur key, p.foldl StructScan.step ⟨0, [], [], res⟩ = ⟨punctuation.height p, cur, key, res⟩ ∧
      ∀ k t, PieceEntry p k t ↔ key ≠ [] ∧ k = key ∧ t = trim cur := by
  rcases Punctuation.quiet_or_split (P := colons) 0 p with hcolons | ⟨a, b, hp, ha, hheight⟩
  · refine ⟨p, [], ?_, fun k t => ?_⟩
    · rw [foldl_structStep hquiet (.inr hcolons)]
      simp
    · simp [not_pieceEntry hcolons]
  · have hlt : b.length < p.length := by
      rw [hp, List.length_append, List.length_cons]
      omega
    subst hp
    rw [zero_add] at hheight
    obtain ⟨hqa, hqb⟩ := Punctuation.quiet_append.mp hquiet
    rw [zero_add, ← colons_height, hheight] at hqb
    have hqb : punctuation.Quiet 0 b := hqb.2
    have hstep : StructScan.step ⟨0, a, [], res⟩ colon = ⟨0, [], trim a, res⟩ := by
      have hdepth : depthAfter 0 colon = 0 := by decide
      simp only [StructScan.step, hdepth, and_self, if_true]
    have hall : punctuation.height (a ++ colon :: b) = punctuation.height b := by
      rw [Punctuation.height_append, ← colons_height a, hheight, Punctuation.height_cons, zero_add]
      exact zero_add _
    have hscan : (a ++ colon :: b).foldl StructScan.step ⟨0, [], [], res⟩ =
        b.foldl StructScan.step ⟨0, [], trim a, res⟩ := by
      rw [List.foldl_append, foldl_structStep hqa (.inr ha), List.foldl_cons, ← colons_height, hheight,
        add_zero, List.nil_append, hstep]
    rw [show colons.separator = colon from rfl, hall, hscan]
    by_cases hblank : trim a = []
    · obtain ⟨cur, key, hb, hentry⟩ := structScan_piece res b hqb
      refine ⟨cur, key, by rw [hblank, hb], fun k t => ?_⟩
      rw [pieceEntry_split ha hheight, if_pos hblank, hentry]
    · refine ⟨b, trim a, ?_, fun k t => ?_⟩
      · rw [foldl_structStep hqb (.inl hblank)]
        simp
      · rw [pieceEntry_split ha hheight, if_neg hblank]
        simp [hblank]
termination_by p.length

theorem exists_fieldIn (pieces : List JsString) (key : JsString) : ∃ text, FieldIn pieces key text := by
  induction pieces with
  | nil => exact ⟨none, fun p hp => absurd hp List.not_mem_nil⟩
  | cons p pieces ih =>
    obtain ⟨_ | text, htext⟩ := ih
    · by_cases hp : ∃ t, PieceEntry p key t
      · obtain ⟨t, ht⟩ := hp
        exact ⟨some t, [], p, pieces, rfl, ht, htext⟩
      · push Not at hp
        exact ⟨none, List.forall_mem_cons.mpr ⟨hp, htext⟩⟩
    · obtain ⟨before, q, after, rfl, hq, hafter⟩ := htext
      exact ⟨some text, p :: before, q, after, rfl, hq, hafter⟩

/-- A key under which a text can be found. -/
def Ordinary (key : JsString) : Prop := key ≠ [] ∧ key ≠ js "__proto__"

theorem lookup_set {res : Properties} {key name text : JsString} (hname : Ordinary name) :
    (res.set key text).lookup name = if key = name then some text else res.lookup name := by
  unfold Properties.set
  split
  · next h =>
    have hne : key ≠ name := by
      rintro rfl
      exact h.elim hname.1 hname.2
    rw [if_neg hne]
  · rw [List.lookup_cons]
    by_cases hkey : name = key
    · simp [hkey]
    · rw [beq_eq_false_iff_ne.mpr hkey, if_neg (Ne.symm hkey)]

/-- What a piece leaves under a key. -/
theorem lookup_piece {res : Properties} {p cur key name : JsString} (hname : Ordinary name)
    (hentry : ∀ k t, PieceEntry p k t ↔ key ≠ [] ∧ k = key ∧ t = trim cur) :
    (∀ t, PieceEntry p name t → (res.set key (trim cur)).lookup name = some t) ∧
      ((∀ t, ¬PieceEntry p name t) → (res.set key (trim cur)).lookup name = res.lookup name) := by
  rw [lookup_set hname]
  constructor
  · intro t ht
    obtain ⟨-, rfl, rfl⟩ := (hentry name t).mp ht
    exact if_pos rfl
  · intro hnone
    refine if_neg fun hkey => hnone (trim cur) ?_
    exact (hentry name _).mpr ⟨hkey ▸ hname.1, hkey.symm, rfl⟩

theorem structScan_cut {pieces : List JsString} {s : JsString} (h : punctuation.Cut pieces s)
    {name : JsString} (hname : Ordinary name) {text : Option JsString}
    (htext : FieldIn pieces name text) (res : Properties) :
    (s.foldl StructScan.step ⟨0, [], [], res⟩).final.lookup name = text.or (res.lookup name) := by
  induction h generalizing text res with
  | @last p hquiet =>
    obtain ⟨cur, key, hscan, hentry⟩ := structScan_piece res p hquiet
    obtain ⟨hsome, hnone⟩ := @lookup_piece res p cur key name hname hentry
    rw [hscan, StructScan.final]
    cases text with
    | none => exact hnone (htext p List.mem_cons_self)
    | some t =>
      obtain ⟨before, q, after, hall, hq, -⟩ := htext
      have hqp : q ∈ [p] := hall ▸ List.mem_append_right _ List.mem_cons_self
      rw [List.mem_singleton.mp hqp] at hq
      exact hsome t hq
  | @cons p ps rest hquiet hheight _ ih =>
    obtain ⟨cur, key, hscan, hentry⟩ := structScan_piece res p hquiet
    obtain ⟨hsome, hnone⟩ := @lookup_piece res p cur key name hname hentry
    have hstep : StructScan.step ⟨0, cur, key, res⟩ comma = ⟨0, [], [], res.set key (trim cur)⟩ := by
      have hdepth : depthAfter 0 comma = 0 := by decide
      have hcolon : ¬ comma = colon := by decide
      simp only [StructScan.step, hdepth, hcolon, false_and, and_false, if_false, and_self, if_true]
    rw [show punctuation.separator = comma from rfl, List.foldl_append, hscan, List.foldl_cons, hheight,
      hstep]
    cases text with
    | none =>
      obtain ⟨hp, hps⟩ := List.forall_mem_cons.mp htext
      rw [@ih none hps, hnone hp]
    | some t =>
      obtain ⟨before, q, after, hall, hq, hafter⟩ := htext
      cases before with
      | nil =>
        obtain ⟨rfl, rfl⟩ := List.cons.inj hall
        rw [@ih none hafter, hsome t hq]
        rfl
      | cons q' before =>
        obtain ⟨rfl, rfl⟩ := List.cons.inj hall
        rw [@ih (some t) ⟨before, q, after, rfl, hq, hafter⟩]
        rfl

/-- The text of a property, if it has one. -/
def propertyText : JsValue → Option JsString
  | .string s => some s
  | _ => none

theorem propertyText_text (texts : Properties) (name : JsString) :
    propertyText (texts.text name) = texts.lookup name := by
  unfold Properties.text
  cases texts.lookup name with
  | some s => rfl
  | none =>
    unfold inherited
    dsimp only
    split <;> rfl

/-- **`parseStruct` on any text.** -/
theorem parseStruct_cuts {s : JsString} {pieces : List JsString}
    (h : Cuts openBrace closeBrace s pieces) : ∃ texts, parseStruct (.string s) = .ok texts ∧
      ∀ name, Ordinary name → ∀ text, FieldIn pieces name text ↔
        text = propertyText (texts.text name) := by
  obtain ⟨inner, hinner, hcut⟩ := h
  rw [inside_iff (by decide)] at hinner
  subst hinner
  refine ⟨_, rfl, fun name hname text => ?_⟩
  have hlookup : ∀ {text}, FieldIn pieces name text → text = propertyText (Properties.text
      ((unwrap openBrace closeBrace s).foldl StructScan.step ⟨0, [], [], []⟩).final name) := by
    intro text htext
    rw [propertyText_text, structScan_cut hcut hname htext []]
    simp
  constructor
  · exact hlookup
  · intro htext
    obtain ⟨text', htext'⟩ := exists_fieldIn pieces name
    have heq := hlookup htext'
    rw [htext]
    exact heq ▸ htext'

/-! ## The parsers of primitive types on any text -/

/-- What a final pattern leaves of a text. -/
theorem exists_dropTail (p : JsString → Bool) (s : JsString) :
    ∃ tail, s = dropTail p s ++ tail ∧ (tail = [] ∨ p tail = true) := by
  induction s with
  | nil => exact ⟨[], rfl, .inl rfl⟩
  | cons c rest ih =>
    rw [dropTail]
    split
    · next hp => exact ⟨c :: rest, rfl, .inr hp⟩
    · obtain ⟨tail, htail, hp⟩ := ih
      exact ⟨tail, by rw [List.cons_append, ← htail], hp⟩

theorem exists_stripVisibility (s : JsString) :
    ∃ vis, trim s = stripVisibility s ++ vis ∧ OptVisibility vis :=
  exists_dropTail isVisibility (trim s)

theorem stripVisibility_append {s body vis : JsString} (h : trim s = body ++ vis)
    (hvis : OptVisibility vis)
    (hbody : ∀ a, a ≠ [] → a <:+ body → isVisibility (a ++ vis) = false) :
    stripVisibility s = body := by
  rw [stripVisibility, h]
  refine dropTail_append ?_ hbody
  refine hvis.symm.imp_left fun hv => ⟨hv, ?_⟩
  rintro rfl
  exact absurd hv (by decide)

/-- A text without a dot is what its visibility leaves. -/
theorem stripVisibility_of_no_dot {s body vis : JsString} (h : trim s = body ++ vis)
    (hvis : OptVisibility vis) (hbody : (46 : CodeUnit) ∉ body) : stripVisibility s = body := by
  refine stripVisibility_append h hvis fun a hne hsuf => ?_
  rw [← Bool.not_eq_true]
  intro hv
  obtain ⟨u, hu⟩ := head_of_isVisibility hv
  obtain ⟨c, a, rfl⟩ := List.exists_cons_of_ne_nil hne
  obtain rfl : c = 46 := (List.cons.inj hu).1
  exact hbody (hsuf.subset List.mem_cons_self)

/-- A literal of a primitive type, between white space and a visibility. -/
theorem trim_stripVisibility_iff {P : JsString → Prop}
    (hP : ∀ t, P t → Trimmed t ∧ (46 : CodeUnit) ∉ t) {s : JsString} :
    P (trim (stripVisibility s)) ↔
      ∃ t w vis, trim s = t ++ w ++ vis ∧ P t ∧ Spaces w ∧ OptVisibility vis := by
  constructor
  · intro h
    obtain ⟨vis, hs, hvis⟩ := exists_stripVisibility s
    obtain ⟨w, w', hw, hw', hstrip⟩ := exists_spaces_trim (stripVisibility s)
    have hne := (hP _ h).1.ne_nil
    have hstart : w = [] := by
      obtain ⟨c, rest, hrest⟩ := List.exists_cons_of_ne_nil hne
      cases w with
      | nil => rfl
      | cons d w =>
        have hhead : (trim s).head? = some d := by
          rw [hs, hstrip]
          rfl
        have htrim : trim s ≠ [] := by
          intro hnil
          rw [hnil] at hhead
          exact absurd hhead (by simp)
        have hd := (trimmed_trim htrim).head d hhead
        rw [hw d List.mem_cons_self] at hd
        exact absurd hd (by simp)
    subst hstart
    rw [List.nil_append] at hstrip
    exact ⟨_, w', vis, by rw [← hstrip]; exact hs, h, hw', hvis⟩
  · rintro ⟨t, w, vis, hs, ht, hw, hvis⟩
    have hdot : (46 : CodeUnit) ∉ t ++ w := by
      intro hmem
      rcases List.mem_append.mp hmem with hmem | hmem
      · exact (hP t ht).2 hmem
      · exact absurd (hw 46 hmem) (by decide)
    rw [stripVisibility_of_no_dot hs hvis hdot]
    have htrim := trim_append_spaces .nil (hP t ht).1 hw
    rw [List.nil_append] at htrim
    rwa [htrim]

/-- Letters and digits are trimmed and without a dot. -/
theorem trimmed_of_alphanumeric {t : JsString} (hne : t ≠ [])
    (h : ∀ c ∈ t, isAlphanumeric c = true) : Trimmed t ∧ (46 : CodeUnit) ∉ t := by
  have hplain : Plain t := ⟨hne, fun c hc => .inl (isIdentifierPart_iff.mpr (by
    have := h c hc
    simp only [isAlphanumeric, Bool.or_eq_true] at this
    exact this.imp_right .inl))⟩
  exact ⟨hplain.item.toTrimmed, hplain.no_dot⟩

/-- Digits with the suffix of a type, or without. -/
def ScalarText (kind : ScalarLike) (t : JsString) : Prop :=
  ∃ digits suffix, t = digits ++ suffix ∧ isDigits digits = true ∧
    (suffix = [] ∨ lower suffix = kind.suffix)

theorem letters_of_lower {s t : JsString} (h : lower s = t) (ht : ∀ c ∈ t, isLetter c = true) :
    ∀ c ∈ s, isLetter c = true := fun _ hc =>
  isLetter_of_lowerUnit (ht _ (h ▸ List.mem_map_of_mem hc))

theorem scalarText_iff {kind : ScalarLike} {t : JsString} :
    (isSuffixed kind.suffix t || isDigits t) = true ↔ ScalarText kind t := by
  rw [Bool.or_eq_true]
  constructor
  · rintro (h | h)
    · simp only [isSuffixed, Bool.and_eq_true, decide_eq_true_eq] at h
      exact ⟨_, _, List.takeWhile_append_dropWhile.symm, h.1, .inr h.2⟩
    · exact ⟨t, [], by rw [List.append_nil], h, .inl rfl⟩
  · rintro ⟨digits, suffix, rfl, hd, rfl | hsuffix⟩
    · rw [List.append_nil]
      exact .inr hd
    · exact .inl (@isSuffixed_leaf .loose kind _ _ hd hsuffix)

theorem scalarText_trimmed {kind : ScalarLike} {t : JsString} (h : ScalarText kind t) :
    Trimmed t ∧ (46 : CodeUnit) ∉ t := by
  obtain ⟨digits, suffix, rfl, hd, hsuffix⟩ := h
  obtain ⟨hne, hdigits⟩ := isDigits_iff.mp hd
  refine trimmed_of_alphanumeric (by simp [hne]) fun c hc => ?_
  simp only [isAlphanumeric, Bool.or_eq_true]
  rcases List.mem_append.mp hc with hc | hc
  · exact .inr (hdigits c hc)
  · rcases hsuffix with rfl | hsuffix
    · exact absurd hc List.not_mem_nil
    · exact .inl (letters_of_lower hsuffix kind.letters_suffix.2.1 c hc)

theorem lenientScalar_iff {kind : ScalarLike} {s : JsString} :
    (isSuffixed kind.suffix (trim (stripVisibility s)) || isDigits (trim (stripVisibility s))) = true ↔
      LenientScalar kind s := by
  rw [scalarText_iff, trim_stripVisibility_iff fun t => scalarText_trimmed]
  constructor
  · rintro ⟨_, w, vis, hs, ⟨digits, suffix, rfl, hd, hsuffix⟩, hw, hvis⟩
    exact ⟨digits, suffix, w, vis, hs, hd, hsuffix, hw, hvis⟩
  · rintro ⟨digits, suffix, w, vis, hs, hd, hsuffix, hw, hvis⟩
    exact ⟨_, w, vis, hs, ⟨digits, suffix, rfl, hd, hsuffix⟩, hw, hvis⟩

theorem isAddress_iff {t : JsString} : isAddress t = true ↔ ∃ start body, t = start ++ body ∧
    lower start = js "aleo1" ∧ body ≠ [] ∧ body.all isAlphanumeric = true := by
  simp only [isAddress, Bool.and_eq_true, decide_eq_true_eq]
  constructor
  · rintro ⟨⟨hstart, hne⟩, hbody⟩
    exact ⟨t.take 5, t.drop 5, (List.take_append_drop 5 t).symm, hstart, by simpa using hne, hbody⟩
  · rintro ⟨start, body, rfl, hstart, hne, hbody⟩
    have hlength : start.length = 5 := by
      have := congrArg List.length hstart
      rw [lower, List.length_map] at this
      exact this
    rw [List.take_left' hlength, List.drop_left' hlength]
    exact ⟨⟨hstart, by simpa using hne⟩, hbody⟩

theorem isAddress_trimmed {t : JsString} (h : isAddress t = true) :
    Trimmed t ∧ (46 : CodeUnit) ∉ t := by
  obtain ⟨start, body, rfl, hstart, hne, hbody⟩ := isAddress_iff.mp h
  refine trimmed_of_alphanumeric (by simp [hne]) fun c hc => ?_
  rcases List.mem_append.mp hc with hc | hc
  · have haleo : ∀ c ∈ js "aleo1", isAddressPart c = true := by decide
    exact isAlphanumeric_of_lowerUnit (haleo _ (hstart ▸ List.mem_map_of_mem hc))
  · exact List.all_eq_true.mp hbody c hc

theorem lenientAddress_iff {s : JsString} :
    isAddress (trim (stripVisibility s)) = true ↔ LenientLeaf .address s := by
  rw [trim_stripVisibility_iff (P := fun t => isAddress t = true) fun t => isAddress_trimmed]
  simp only [isAddress_iff]
  constructor
  · rintro ⟨_, w, vis, hs, ⟨start, body, rfl, hstart, hne, hbody⟩, hw, hvis⟩
    exact ⟨start, body, w, vis, hs, hstart, hne, hbody, hw, hvis⟩
  · rintro ⟨start, body, w, vis, hs, hstart, hne, hbody, hw, hvis⟩
    exact ⟨_, w, vis, hs, ⟨start, body, rfl, hstart, hne, hbody⟩, hw, hvis⟩

/-- A visibility has no apostrophe. -/
theorem apostrophe_not_mem {v : JsString} (h : isVisibility v = true) : apostrophe ∉ v := by
  intro hmem
  have hlower : lowerUnit apostrophe = apostrophe := by decide
  have hmem' : apostrophe ∈ lower v := hlower ▸ List.mem_map_of_mem hmem
  simp only [isVisibility, Bool.or_eq_true, decide_eq_true_eq] at h
  rcases h with h | h
  · rw [h] at hmem'
    exact absurd hmem' (by decide)
  · rw [h] at hmem'
    exact absurd hmem' (by decide)

theorem lenientIdentifier_iff {s : JsString} :
    (isQuoted (stripVisibility s) || isIdentifierName (stripVisibility s)) = true ↔
      LenientLeaf .identifier s := by
  rw [Bool.or_eq_true]
  constructor
  · intro h
    obtain ⟨vis, hs, hvis⟩ := exists_stripVisibility s
    exact ⟨_, vis, hs, hvis, h.symm⟩
  · rintro ⟨name, vis, hs, hvis, hname | hquoted⟩
    · obtain ⟨-, hpart⟩ := plain_of_isIdentifierName hname
      have hdot : (46 : CodeUnit) ∉ name := fun hmem => absurd (hpart 46 hmem) (by decide)
      rw [stripVisibility_of_no_dot hs hvis hdot]
      exact .inr hname
    · have hlast : name.getLast? = some apostrophe := by
        simp only [isQuoted, Bool.and_eq_true, decide_eq_true_eq] at hquoted
        exact hquoted.2
      rw [stripVisibility_append hs hvis fun a hne hsuf => ?_]
      · exact .inl hquoted
      · rw [← Bool.not_eq_true]
        intro hv
        refine apostrophe_not_mem hv (List.mem_append_left _ ?_)
        obtain ⟨b, rfl⟩ := hsuf
        rw [List.getLast?_append_of_ne_nil _ hne] at hlast
        exact List.mem_of_getLast? hlast

/-- The flag of an Optional. -/
theorem flag_iff {flag : JsString} : (∃ vis, trim flag = js "true" ++ vis ∧ OptVisibility vis) ↔
    stripVisibility flag = js "true" := by
  constructor
  · rintro ⟨vis, hs, hvis⟩
    exact stripVisibility_of_no_dot hs hvis (by decide)
  · intro h
    obtain ⟨vis, hs, hvis⟩ := exists_stripVisibility flag
    exact ⟨vis, by rw [← h]; exact hs, hvis⟩

/-! ### Integers -/

theorem nonDecimal_isSome_iff {t : JsString} : (nonDecimal t).isSome = true ↔
    ∃ (start digits : JsString) (part : CodeUnit → Bool), t = start ++ digits ∧
      (lower start, part) ∈ [(js "0x", isHexDigit), (js "0o", inRange '0' '7'),
        (js "0b", inRange '0' '1')] ∧ digits ≠ [] ∧ digits.all part = true := by
  have hx : js "0x" = [48, 120] := by decide
  have ho : js "0o" = [48, 111] := by decide
  have hb : js "0b" = [48, 98] := by decide
  rw [hx, ho, hb]
  constructor
  · intro h
    have hradix : ∀ {r : Nat} {part : CodeUnit → Bool} {digits : JsString},
        (if digits ≠ [] ∧ digits.all part then
          some (digits.foldl (fun acc c => r * acc + hexValue c) 0) else none).isSome = true →
        digits ≠ [] ∧ digits.all part = true := by
      intro r part digits h
      by_contra hnot
      rw [if_neg hnot] at h
      exact absurd h (by simp)
    unfold nonDecimal at h
    dsimp only at h
    split at h
    · next hstart =>
      exact ⟨t.take 2, t.drop 2, isHexDigit, (List.take_append_drop 2 t).symm, by simp [hstart],
        hradix h⟩
    · next hstart =>
      exact ⟨t.take 2, t.drop 2, inRange '0' '7', (List.take_append_drop 2 t).symm, by simp [hstart],
        hradix h⟩
    · next hstart =>
      exact ⟨t.take 2, t.drop 2, inRange '0' '1', (List.take_append_drop 2 t).symm, by simp [hstart],
        hradix h⟩
    · exact absurd h (by simp)
  · rintro ⟨start, digits, part, rfl, hstart, hdigits⟩
    have hlength : start.length = 2 := by
      have hpair : ∀ q ∈ [([48, 120], isHexDigit), ([48, 111], inRange '0' '7'),
          (([48, 98] : JsString), inRange '0' '1')], q.1.length = 2 := by simp
      have := hpair _ hstart
      rwa [lower, List.length_map] at this
    unfold nonDecimal
    simp only [List.mem_cons, List.not_mem_nil, or_false, Prod.mk.injEq] at hstart
    rw [List.take_left' hlength, List.drop_left' hlength]
    rcases hstart with ⟨hstart, rfl⟩ | ⟨hstart, rfl⟩ | ⟨hstart, rfl⟩
    · rw [hstart]
      dsimp only
      rw [if_pos hdigits]
      rfl
    · rw [hstart]
      dsimp only
      rw [if_pos hdigits]
      rfl
    · rw [hstart]
      dsimp only
      rw [if_pos hdigits]
      rfl

theorem splitSign_spec (t : JsString) : ∃ sign : JsString,
    (sign = [] ∨ sign = js "+" ∨ sign = js "-") ∧ t = sign ++ (splitSign t).2 := by
  unfold splitSign
  split
  · exact ⟨js "-", .inr (.inr rfl), rfl⟩
  · exact ⟨js "+", .inr (.inl rfl), rfl⟩
  · exact ⟨[], .inl rfl, rfl⟩

theorem splitSign_sign {sign digits : JsString} (h : sign = [] ∨ sign = js "+" ∨ sign = js "-")
    (hd : ∀ c ∈ digits, isDigit c = true) : (splitSign (sign ++ digits)).2 = digits := by
  rcases h with rfl | rfl | rfl
  · have := splitSign_signed false fun c hc => hd c (List.mem_of_mem_head? hc)
    rw [signed, if_neg Bool.false_ne_true] at this
    rw [List.nil_append, this]
  · rfl
  · rfl

theorem BigInt_isSome_iff {s : JsString} : (BigInt s).isSome = true ↔ Numeral (trim s) := by
  unfold BigInt
  dsimp only
  split
  · next hnil =>
    rw [hnil]
    exact iff_of_true rfl .empty
  · next hne =>
    have hnumber : ((if (splitSign (trim s)).2 ≠ [] ∧ (splitSign (trim s)).2.all isDigit = true then
          some (if (splitSign (trim s)).1 then -(digitsValue (splitSign (trim s)).2 : Int)
            else digitsValue (splitSign (trim s)).2) else none).isSome = true) ↔
        isDigits (splitSign (trim s)).2 = true := by
      split
      · next h => exact iff_of_true rfl (by simpa [isDigits] using h)
      · next h => exact iff_of_false (by simp) (by simpa [isDigits] using h)
    constructor
    · intro h
      split at h
      · next n hn =>
        obtain ⟨start, digits, part, ht, hstart, hne, hall⟩ :=
          nonDecimal_isSome_iff.mp (by rw [hn]; rfl)
        rw [ht]
        exact .radix part hstart hne hall
      · obtain ⟨sign, hsign, ht⟩ := splitSign_spec (trim s)
        rw [ht]
        exact .decimal hsign (hnumber.mp h)
    · intro h
      split
      · rfl
      · next hnone =>
        refine hnumber.mpr ?_
        generalize trim s = t at h hne hnone
        cases h with
        | empty => exact absurd rfl hne
        | decimal hsign hd =>
          rw [splitSign_sign hsign (isDigits_iff.mp hd).2]
          exact hd
        | radix part hstart hdigits hall =>
          have := nonDecimal_isSome_iff.mpr ⟨_, _, part, rfl, hstart, hdigits, hall⟩
          rw [hnone] at this
          exact absurd this (by simp)

/-- What a type suffix may be, in lower case. -/
def suffixTexts : List JsString :=
  typeSuffixes.flatMap fun t => [t, t ++ js ".public", t ++ js ".private"]

theorem isTypeSuffix_iff {s : JsString} : isTypeSuffix s = true ↔ lower s ∈ suffixTexts := by
  simp only [isTypeSuffix, suffixTexts, List.any_eq_true, List.mem_flatMap, Bool.or_eq_true,
    decide_eq_true_eq, List.mem_cons, List.not_mem_nil, or_false, or_assoc]

/-- The characters of numerals, in lower case. -/
def isNumeralUnit (c : CodeUnit) : Bool := isHexDigit c || [43, 45, 120, 111].contains c

theorem isNumeralUnit_lower {c : CodeUnit} (h : isHexDigit c = true) :
    isNumeralUnit (lowerUnit c) = true := by
  have h0 : '0'.toNat = 48 := rfl
  have h9 : '9'.toNat = 57 := rfl
  have ha : 'a'.toNat = 97 := rfl
  have hf : 'f'.toNat = 102 := rfl
  have hA : 'A'.toNat = 65 := rfl
  have hF : 'F'.toNat = 70 := rfl
  simp only [isHexDigit, isDigit, inRange, h0, h9, ha, hf, hA, hF, Bool.or_eq_true, Bool.and_eq_true,
    decide_eq_true_eq] at h
  simp only [isNumeralUnit, isHexDigit, isDigit, inRange, h0, h9, ha, hf, hA, hF, Bool.or_eq_true,
    Bool.and_eq_true, decide_eq_true_eq, toNat_lowerUnit]
  left
  split <;> omega

theorem Numeral.units {t : JsString} (h : Numeral t) : ∀ c ∈ lower t, isNumeralUnit c = true := by
  have hdigit : ∀ {c}, isDigit c = true → isHexDigit c = true := fun hc => by simp [isHexDigit, hc]
  intro c hc
  obtain ⟨d, hd, rfl⟩ := List.mem_map.mp hc
  cases h with
  | empty => exact absurd hd List.not_mem_nil
  | decimal hsign hdigits =>
    rcases List.mem_append.mp hd with hd | hd
    · rcases hsign with rfl | rfl | rfl
      · exact absurd hd List.not_mem_nil
      · rw [List.mem_singleton.mp hd]
        decide
      · rw [List.mem_singleton.mp hd]
        decide
    · exact isNumeralUnit_lower (hdigit ((isDigits_iff.mp hdigits).2 d hd))
  | radix part hstart hne hall =>
    have hparts : ∀ q ∈ [(js "0x", isHexDigit), (js "0o", inRange '0' '7'), (js "0b", inRange '0' '1')],
        (∀ c ∈ q.1, isNumeralUnit c = true) ∧ ∀ c, q.2 c = true → isHexDigit c = true := by
      have h0 : '0'.toNat = 48 := rfl
      have h1 : '1'.toNat = 49 := rfl
      have h7 : '7'.toNat = 55 := rfl
      simp only [List.forall_mem_cons, List.not_mem_nil, IsEmpty.forall_iff, implies_true, and_true]
      refine ⟨⟨by decide, fun c hc => hc⟩, ⟨by decide, fun c hc => hdigit ?_⟩, by decide,
        fun c hc => hdigit ?_⟩
      · simp only [inRange, h0, h7, Bool.and_eq_true, decide_eq_true_eq] at hc
        rw [isDigit_iff]
        omega
      · simp only [inRange, h0, h1, Bool.and_eq_true, decide_eq_true_eq] at hc
        rw [isDigit_iff]
        omega
    obtain ⟨hletters, hpart⟩ := hparts _ hstart
    rcases List.mem_append.mp hd with hd | hd
    · exact hletters _ (List.mem_map_of_mem hd)
    · exact isNumeralUnit_lower (hpart d (List.all_eq_true.mp hall d hd))

/-- No type suffix is the end of another, and none is a numeral. -/
theorem suffixTexts_unique : (∀ s ∈ suffixTexts, ∀ t ∈ suffixTexts, s <:+ t → s = t) ∧
    ∀ t ∈ suffixTexts, ∃ c ∈ t, isNumeralUnit c = false ∧ isWhiteSpace c = false := by
  decide +kernel

theorem isWhiteSpace_lowerUnit {c : CodeUnit} (h : isWhiteSpace c = true) :
    isWhiteSpace (lowerUnit c) = true := by
  have hlower : lowerUnit c = c := by
    rw [← UInt16.toNat_inj, toNat_lowerUnit, if_neg]
    intro hletter
    have hplain := not_isSpecial (.inl (isIdentifierPart_iff.mpr
      (.inl (isLetter_iff.mpr (.inl hletter)))))
    simp only [isSpecial, h, Bool.true_or] at hplain
    exact absurd hplain (by simp)
  rw [hlower, h]

theorem stripSuffix_numeral {number suffix : JsString} (h : Numeral (trim number))
    (hsuffix : suffix = [] ∨ isTypeSuffix suffix = true) :
    stripSuffix (number ++ suffix) = number := by
  refine dropTail_append ?_ fun a hne hsuf => ?_
  · refine hsuffix.symm.imp_left fun hs => ⟨hs, ?_⟩
    rintro rfl
    exact absurd hs (by decide)
  · rw [← Bool.not_eq_true]
    intro hlong
    rw [isTypeSuffix_iff, lower_append] at hlong
    rcases hsuffix with rfl | hshort
    · -- a numeral would hold a whole type suffix
      obtain ⟨c, hc, hunit, hspace⟩ := suffixTexts_unique.2 _ hlong
      rw [show lower [] = [] from rfl, List.append_nil] at hc
      obtain ⟨d, hd, rfl⟩ := List.mem_map.mp hc
      obtain ⟨w, w', hw, hw', hnumber⟩ := exists_spaces_trim number
      have hdn := hsuf.subset hd
      rw [hnumber, List.mem_append, List.mem_append] at hdn
      rcases hdn with (hdn | hdn) | hdn
      · rw [isWhiteSpace_lowerUnit (hw d hdn)] at hspace
        exact absurd hspace (by simp)
      · rw [h.units _ (List.mem_map_of_mem hdn)] at hunit
        exact absurd hunit (by simp)
      · rw [isWhiteSpace_lowerUnit (hw' d hdn)] at hspace
        exact absurd hspace (by simp)
    · rw [isTypeSuffix_iff] at hshort
      have heq := suffixTexts_unique.1 _ hshort _ hlong (List.suffix_append _ _)
      have hnil := List.self_eq_append_left.mp heq
      exact hne (List.map_eq_nil_iff.mp hnil)

theorem lenientInteger_iff {s : JsString} : (BigInt (stripSuffix s)).isSome = true ↔
    ∃ number suffix, s = number ++ suffix ∧ Numeral (trim number) ∧
      (suffix = [] ∨ isTypeSuffix suffix = true) := by
  rw [BigInt_isSome_iff]
  constructor
  · intro h
    obtain ⟨suffix, hs, hsuffix⟩ := exists_dropTail isTypeSuffix s
    exact ⟨_, suffix, hs, h, hsuffix⟩
  · rintro ⟨number, suffix, rfl, hnumber, hsuffix⟩
    rwa [stripSuffix_numeral hnumber hsuffix]

end Lionden.Codegen
