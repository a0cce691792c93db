import Lionden.Codegen.Literal

/-!
# Leaves

The parsers and serializers of the primitive types against the leaves of Leo literals.

* `Leaf.atom`: a leaf is an atom, also with a visibility.
* `Leaf.parse`: the parser of a primitive type reads each of its leaves.
* `serializePrimitive_leaf`: what a serializer of a primitive type returns is a leaf.
-/

namespace Lionden.Codegen

/-! ## Characters -/

theorem isLetter_iff {c : CodeUnit} : isLetter c = true ↔
    (65 ≤ c.toNat ∧ c.toNat ≤ 90) ∨ (97 ≤ c.toNat ∧ c.toNat ≤ 122) := by
  have hA : 'A'.toNat = 65 := rfl
  have hZ : 'Z'.toNat = 90 := rfl
  have ha : 'a'.toNat = 97 := rfl
  have hz : 'z'.toNat = 122 := rfl
  simp [isLetter, inRange, hA, hZ, ha, hz]

theorem isIdentifierPart_iff {c : CodeUnit} : isIdentifierPart c = true ↔
    isLetter c = true ∨ isDigit c = true ∨ c = 95 := by
  have : unit '_' = 95 := rfl
  simp only [isIdentifierPart, isIdentifierStart, this, Bool.or_eq_true, decide_eq_true_eq]
  grind

/-- Letters, digits and `_`, `-`, `.` and the apostrophe mean nothing to the splitters. -/
theorem not_isSpecial {c : CodeUnit}
    (h : isIdentifierPart c = true ∨ c = 45 ∨ c = 46 ∨ c = apostrophe) : isSpecial c = false := by
  rw [isIdentifierPart_iff, isLetter_iff, isDigit_iff] at h
  simp only [apostrophe, ← UInt16.toNat_inj] at h
  simp only [isSpecial, isWhiteSpace, openBrace, closeBrace, openBracket, closeBracket, comma, colon,
    List.contains_eq_mem, List.mem_cons, List.not_mem_nil, or_false, Bool.or_eq_false_iff,
    decide_eq_false_iff_not, Bool.and_eq_false_iff, ← UInt16.toNat_inj]
  simp only [UInt16.reduceToNat] at h ⊢
  refine ⟨⟨?_, ?_⟩, ?_⟩ <;> omega

theorem not_isDigit_of_isLetter {c : CodeUnit} (h : isLetter c = true) : isDigit c = false := by
  rw [isLetter_iff] at h
  rw [← Bool.not_eq_true, isDigit_iff]
  omega

/-- A character that is a letter in lower case is a letter. -/
theorem isLetter_of_lowerUnit {c : CodeUnit} (h : isLetter (lowerUnit c) = true) :
    isLetter c = true := by
  rw [isLetter_iff, toNat_lowerUnit] at h
  rw [isLetter_iff]
  split at h <;> omega

theorem isAlphanumeric_of_lowerUnit {c : CodeUnit} (h : isAddressPart (lowerUnit c) = true) :
    isAlphanumeric c = true := by
  have ha : 'a'.toNat = 97 := rfl
  have hz : 'z'.toNat = 122 := rfl
  simp only [isAddressPart, inRange, ha, hz, Bool.or_eq_true, Bool.and_eq_true, decide_eq_true_eq,
    isDigit_iff, toNat_lowerUnit] at h
  simp only [isAlphanumeric, Bool.or_eq_true, isLetter_iff, isDigit_iff]
  split at h <;> omega

theorem eq_dot_of_lowerUnit {c : CodeUnit} (h : lowerUnit c = 46) : c = 46 := by
  rw [← UInt16.toNat_inj, toNat_lowerUnit] at h
  rw [← UInt16.toNat_inj]
  simp only [UInt16.reduceToNat] at h ⊢
  split at h <;> omega

/-! ## Cutting suffixes -/

theorem dropTail_append {p : JsString → Bool} {a b : JsString} (hb : p b = true ∧ b ≠ [] ∨ b = [])
    (h : ∀ a', a' ≠ [] → a' <:+ a → p (a' ++ b) = false) : dropTail p (a ++ b) = a := by
  induction a with
  | nil =>
    rcases hb with ⟨hp, hne⟩ | rfl
    · obtain ⟨c, t, rfl⟩ := List.exists_cons_of_ne_nil hne
      simp [dropTail, hp]
    · rfl
  | cons c a ih =>
    have hc := h (c :: a) (by simp) List.suffix_rfl
    rw [List.cons_append] at hc ⊢
    rw [dropTail, if_neg (by simp [hc]), ih fun a' hne hs => h a' hne (hs.trans (List.suffix_cons c a))]

theorem head_of_isVisibility {s : JsString} (h : isVisibility s = true) : ∃ t, s = 46 :: t := by
  have key : ∀ v, lower s = 46 :: v → ∃ t, s = 46 :: t := by
    intro v hv
    obtain ⟨c, t, rfl, hc, -⟩ := List.map_eq_cons_iff.mp hv
    exact ⟨t, by rw [eq_dot_of_lowerUnit hc]⟩
  simp only [isVisibility, Bool.or_eq_true, decide_eq_true_eq] at h
  exact h.elim (key (js "public")) (key (js "private"))

theorem head_of_isTypeSuffix {s : JsString} (h : isTypeSuffix s = true) :
    ∃ c t, s = c :: t ∧ isLetter c = true := by
  have hletters : ∀ t ∈ typeSuffixes, t.head?.any isLetter = true := by decide
  simp only [isTypeSuffix, List.any_eq_true, Bool.or_eq_true, decide_eq_true_eq] at h
  obtain ⟨t, ht, h⟩ := h
  have hhead := hletters t ht
  obtain ⟨c, u, rfl⟩ : ∃ c u, t = c :: u := by
    cases t with
    | nil => cases hhead
    | cons c u => exact ⟨c, u, rfl⟩
  have hc : isLetter c = true := hhead
  have key : ∀ v, lower s = (c :: u) ++ v → ∃ c t, s = c :: t ∧ isLetter c = true := by
    intro v hv
    obtain ⟨d, t, rfl, hd, -⟩ := List.map_eq_cons_iff.mp hv
    exact ⟨d, t, rfl, isLetter_of_lowerUnit (by rw [hd]; exact hc)⟩
  rcases h with (h | h) | h
  · exact key [] (by simpa using h)
  · exact key _ h
  · exact key _ h

/-! ## Leaves are atoms -/

/-- What a leaf is made of: no white space, no punctuation, no dot. -/
def Plain (t : JsString) : Prop :=
  t ≠ [] ∧ ∀ c ∈ t, isIdentifierPart c = true ∨ c = 45 ∨ c = apostrophe

theorem isDigits_iff {s : JsString} : isDigits s = true ↔ s ≠ [] ∧ ∀ c ∈ s, isDigit c = true := by
  simp [isDigits]

theorem plain_of_isIdentifierName {s : JsString} (h : isIdentifierName s = true) :
    s ≠ [] ∧ ∀ c ∈ s, isIdentifierPart c = true := by
  cases s with
  | nil => cases h
  | cons c t =>
    simp only [isIdentifierName, Bool.and_eq_true, List.all_eq_true] at h
    refine ⟨by simp, fun d hd => ?_⟩
    rcases List.mem_cons.mp hd with rfl | hd
    · simp [isIdentifierPart, h.1]
    · exact h.2 d hd

theorem isLetter_of_letters {style : Style} {s t : JsString} (h : style.letters s = t)
    (ht : ∀ c ∈ t, isLetter c = true) : ∀ c ∈ s, isLetter c = true := by
  intro c hc
  simp only [Style.letters] at h
  split at h
  · exact isLetter_of_lowerUnit (ht _ (h ▸ List.mem_map_of_mem hc))
  · exact ht c (h ▸ hc)

/-- The letters of a suffix of field, group and scalar literals. -/
theorem ScalarLike.letters_suffix (kind : ScalarLike) :
    kind.suffix ≠ [] ∧ (∀ c ∈ kind.suffix, isLetter c = true) ∧ lower kind.suffix = kind.suffix := by
  cases kind <;> decide

theorem name_letters (size : IntegerSize) :
    (∀ c ∈ size.name (js "u"), isIdentifierPart c = true) ∧
      (∀ c ∈ size.name (js "i"), isIdentifierPart c = true) := by
  cases size <;> decide +kernel

theorem lowerUnit_of_isAddressPart {c : CodeUnit} (h : isAddressPart c = true) :
    lowerUnit c = c := by
  have ha : 'a'.toNat = 97 := rfl
  simp only [isAddressPart, inRange, ha, Bool.or_eq_true, Bool.and_eq_true, decide_eq_true_eq,
    isDigit_iff] at h
  rw [← UInt16.toNat_inj, toNat_lowerUnit, if_neg (by omega)]

/-- The characters of an address, in the letters of the style. -/
theorem isAlphanumeric_of_letters {style : Style} {s t : JsString} (h : style.letters s = t)
    (ht : ∀ c ∈ t, isAddressPart c = true) : ∀ c ∈ s, isAlphanumeric c = true := by
  intro c hc
  refine isAlphanumeric_of_lowerUnit ?_
  simp only [Style.letters] at h
  split at h
  · exact ht _ (h ▸ List.mem_map_of_mem hc)
  · have := ht c (h ▸ hc)
    rwa [lowerUnit_of_isAddressPart this]

theorem addressPart_of_body {body : JsString} (h : body.all isAddressPart = true) :
    ∀ c ∈ js "aleo1" ++ body, isAddressPart c = true := by
  have haleo : ∀ c ∈ js "aleo1", isAddressPart c = true := by decide
  intro c hc
  exact (List.mem_append.mp hc).elim (haleo c) (List.all_eq_true.mp h c)

theorem letters_length {style : Style} {s : JsString} : (style.letters s).length = s.length := by
  simp only [Style.letters]
  split <;> simp [lower]

theorem plain_of_address {style : Style} {s body : JsString}
    (hs : style.letters s = js "aleo1" ++ body) (hbody : body.all isAddressPart = true) :
    Plain s := by
  have hpart := isAlphanumeric_of_letters hs (addressPart_of_body hbody)
  refine ⟨?_, fun c hc => .inl ?_⟩
  · rintro rfl
    have hlen := congrArg List.length hs
    rw [letters_length, List.length_append] at hlen
    exact absurd hlen.symm (by simp [js])
  · have := hpart c hc
    simp only [isAlphanumeric, Bool.or_eq_true] at this
    exact isIdentifierPart_iff.mpr (this.imp_right .inl)

theorem Leaf.plain {style : Style} {prim : PrimitiveType} {t : JsString} {v : JsValue}
    (h : Leaf style prim t v) : Plain t := by
  have hdigits : ∀ {digits}, isDigits digits = true →
      digits ≠ [] ∧ ∀ c ∈ digits, isIdentifierPart c = true := fun h => by
    rw [isDigits_iff] at h
    exact ⟨h.1, fun c hc => isIdentifierPart_iff.mpr (.inr (.inl (h.2 c hc)))⟩
  cases h with
  | boolean b => cases b <;> exact ⟨by decide, by decide⟩
  | @uint size digits hd _ =>
    obtain ⟨hne, hd⟩ := hdigits hd
    refine ⟨by simp [hne], fun c hc => .inl ?_⟩
    exact (List.mem_append.mp hc).elim (hd c) ((name_letters size).1 c)
  | @int size negative digits hd _ =>
    obtain ⟨hne, hd⟩ := hdigits hd
    refine ⟨by cases negative <;> simp [signed, hne], fun c hc => ?_⟩
    rcases List.mem_append.mp hc with hc | hc
    · cases negative with
      | true =>
        rcases List.mem_cons.mp hc with rfl | hc
        · exact .inr (.inl rfl)
        · exact .inl (hd c hc)
      | false => exact .inl (hd c hc)
    · exact .inl ((name_letters size).2 c hc)
  | @scalarLike kind digits suffix hd hs =>
    obtain ⟨hne, hd⟩ := hdigits hd
    have hletters := isLetter_of_letters hs kind.letters_suffix.2.1
    refine ⟨by simp [hne], fun c hc => .inl ?_⟩
    exact (List.mem_append.mp hc).elim (hd c)
      fun hc => isIdentifierPart_iff.mpr (.inl (hletters c hc))
  | address hs _ hbody _ => exact plain_of_address hs hbody
  | @identifier name hname =>
    obtain ⟨hne, hpart⟩ := plain_of_isIdentifierName hname
    refine ⟨by simp [quoted], fun c hc => ?_⟩
    simp only [quoted, List.cons_append, List.mem_cons, List.mem_append, List.not_mem_nil,
      or_false] at hc
    rcases hc with rfl | hc | rfl
    · exact .inr (.inr rfl)
    · exact .inl (hpart c hc)
    · exact .inr (.inr rfl)

theorem Style.Suffix.chars {style : Style} {vis : JsString} (h : style.Suffix vis) :
    ∀ c ∈ vis, isIdentifierPart c = true ∨ c = 45 ∨ c = 46 ∨ c = apostrophe := by
  rcases h with rfl | ⟨-, rfl | rfl⟩
  · simp
  · decide
  · decide

theorem Plain.atom {style : Style} {t vis : JsString} (h : Plain t) (hvis : style.Suffix vis) :
    IsAtom (t ++ vis) := by
  refine ⟨by simp [h.1], fun c hc => not_isSpecial ?_⟩
  rcases List.mem_append.mp hc with hc | hc
  · rcases h.2 c hc with h | h | h
    · exact .inl h
    · exact .inr (.inl h)
    · exact .inr (.inr (.inr h))
  · exact hvis.chars c hc

theorem Style.Suffix.nil (style : Style) : style.Suffix [] := .inl rfl

theorem Plain.item {t : JsString} (h : Plain t) : Item t := by
  have := (h.atom (Style.Suffix.nil .exact)).item
  rwa [List.append_nil] at this

theorem Plain.no_dot {t : JsString} (h : Plain t) : (46 : CodeUnit) ∉ t := by
  intro hmem
  rcases h.2 46 hmem with h | h | h
  · exact absurd h (by decide)
  · exact absurd h (by decide)
  · exact absurd h (by decide)

theorem Style.Suffix.isVisibility {style : Style} {vis : JsString} (h : style.Suffix vis) :
    isVisibility vis = true ∧ vis ≠ [] ∨ vis = [] := by
  rcases h with rfl | ⟨-, rfl | rfl⟩
  · exact .inr rfl
  · exact .inl (by decide)
  · exact .inl (by decide)

/-- Stripping the visibility of a leaf leaves the leaf. -/
theorem stripVisibility_leaf {style : Style} {t vis : JsString} (h : Plain t)
    (hvis : style.Suffix vis) : stripVisibility (t ++ vis) = t := by
  rw [stripVisibility, trim_eq_self (h.atom hvis).item.toTrimmed]
  refine dropTail_append hvis.isVisibility fun a' hne hsuf => ?_
  rw [← Bool.not_eq_true]
  intro hv
  obtain ⟨u, hu⟩ := head_of_isVisibility hv
  obtain ⟨c, a, rfl⟩ := List.exists_cons_of_ne_nil hne
  obtain rfl : c = 46 := (List.cons.inj hu).1
  exact h.no_dot (hsuf.subset (by simp))

/-! ## Parsing leaves -/

/-- Stripping the suffix of an integer leaves its digits. -/
theorem stripSuffix_integer {style : Style} {negative : Bool} {digits vis letter : JsString}
    {size : IntegerSize} (hd : ∀ c ∈ digits, isDigit c = true)
    (hletter : letter = js "u" ∨ letter = js "i") (hvis : style.Suffix vis) :
    stripSuffix (signed negative digits ++ (size.name letter ++ vis)) = signed negative digits := by
  have hsuffix : isTypeSuffix (size.name letter ++ vis) = true := by
    rcases hvis with rfl | ⟨-, rfl | rfl⟩ <;> rcases hletter with rfl | rfl <;> cases size <;>
      decide +kernel
  refine dropTail_append (.inl ⟨hsuffix, ?_⟩) fun a' hne hsuf => ?_
  · rcases hletter with rfl | rfl <;> simp [IntegerSize.name, js]
  · rw [← Bool.not_eq_true]
    intro hs
    obtain ⟨c, u, hu, hc⟩ := head_of_isTypeSuffix hs
    obtain ⟨d, a, rfl⟩ := List.exists_cons_of_ne_nil hne
    obtain rfl : d = c := (List.cons.inj hu).1
    rcases mem_signed hd d (hsuf.subset (by simp)) with hdigit | rfl
    · rw [not_isDigit_of_isLetter hc] at hdigit
      cases hdigit
    · exact absurd hc (by decide)

theorem deserializeInteger_leaf {style : Style} {negative : Bool} {digits vis letter : JsString}
    {size : IntegerSize} (hd : isDigits digits = true) (hlt : digitsValue digits < 2 ^ size.bits)
    (hletter : letter = js "u" ∨ letter = js "i") (hvis : style.Suffix vis) :
    deserializeInteger size (.string (signed negative digits ++ (size.name letter ++ vis))) =
      .ok (integerValue size negative (digitsValue digits)) := by
  obtain ⟨hne, hall⟩ := isDigits_iff.mp hd
  have hstrip := @stripSuffix_integer style negative digits vis letter size hall hletter hvis
  by_cases hbig : isBigIntType size = true
  · simp only [deserializeInteger, hbig, if_true, parseBigInt, asString, integerValue, bind,
      Except.bind, hstrip, BigInt_digits negative hne hall]
    rfl
  · have hsmall : digitsValue digits < 2 ^ 53 := by
      refine Nat.lt_of_lt_of_le hlt ?_
      cases size <;> first | exact absurd rfl hbig | decide
    simp only [deserializeInteger, hbig, parseNumber, asString, integerValue, bind,
      Except.bind, hstrip, Number_digits negative hne hall hsmall]
    rfl

/-- Letters of the style, in lower case, are the letters of a text in lower case. -/
theorem lower_of_letters {style : Style} {s t : JsString} (h : style.letters s = t)
    (ht : lower t = t) : lower s = t := by
  simp only [Style.letters] at h
  split at h
  · exact h
  · rw [h, ht]

theorem takeWhile_digits {digits rest : JsString} (hd : ∀ c ∈ digits, isDigit c = true)
    (hrest : ∀ c ∈ rest, isLetter c = true) :
    (digits ++ rest).takeWhile isDigit = digits ∧ (digits ++ rest).dropWhile isDigit = rest := by
  have htake : rest.takeWhile isDigit = [] ∧ rest.dropWhile isDigit = rest := by
    cases rest with
    | nil => exact ⟨rfl, rfl⟩
    | cons c t =>
      have := not_isDigit_of_isLetter (hrest c (by simp))
      simp [this]
  rw [List.takeWhile_append_of_pos hd, List.dropWhile_append_of_pos hd, htake.1, htake.2]
  simp

theorem isSuffixed_leaf {style : Style} {kind : ScalarLike} {digits suffix : JsString}
    (hd : isDigits digits = true) (hs : style.letters suffix = kind.suffix) :
    isSuffixed kind.suffix (digits ++ suffix) = true := by
  have hletters := isLetter_of_letters hs kind.letters_suffix.2.1
  obtain ⟨htake, hdrop⟩ := takeWhile_digits (isDigits_iff.mp hd).2 hletters
  simp only [isSuffixed, htake, hdrop, hd, Bool.true_and, decide_eq_true_eq]
  exact lower_of_letters hs kind.letters_suffix.2.2

theorem parseScalarLike_leaf {style : Style} {kind : ScalarLike} {digits suffix vis : JsString}
    (hd : isDigits digits = true) (hs : style.letters suffix = kind.suffix)
    (hvis : style.Suffix vis) :
    parseScalarLike (.string (digits ++ suffix ++ vis)) kind = .ok (digits ++ suffix) := by
  have hplain := (Leaf.scalarLike hd hs).plain
  have htrim := trim_eq_self hplain.item.toTrimmed
  simp only [parseScalarLike, asString, bind, Except.bind, stripVisibility_leaf hplain hvis,
    serializeScalarLike, expectString, htrim, isSuffixed_leaf hd hs, if_true]
  rfl

theorem isAddress_leaf {style : Style} {s body : JsString} (hs : style.letters s = js "aleo1" ++ body)
    (hne : body ≠ []) (hbody : body.all isAddressPart = true) : isAddress s = true := by
  have hlower : lower s = js "aleo1" ++ body := by
    refine lower_of_letters hs ?_
    refine (List.map_congr_left fun c hc => ?_).trans (List.map_id _)
    exact lowerUnit_of_isAddressPart (addressPart_of_body hbody c hc)
  have hpart := isAlphanumeric_of_letters hs (addressPart_of_body hbody)
  have htake : lower (s.take 5) = js "aleo1" := by
    rw [lower, List.map_take, ← lower, hlower]
    exact @List.take_left _ (js "aleo1") body
  have hdrop : lower (s.drop 5) = body := by
    rw [lower, List.map_drop, ← lower, hlower]
    exact @List.drop_left _ (js "aleo1") body
  have hdrop0 : s.drop 5 ≠ [] := by
    intro h
    rw [h] at hdrop
    exact hne hdrop.symm
  simp only [isAddress, htake, hdrop0, ne_eq, not_false_eq_true, decide_true, Bool.true_and,
    Bool.and_true, List.all_eq_true]
  exact fun c hc => hpart c (List.mem_of_mem_drop hc)

/-- A text without a dot is not cut by `stripVisibility`. -/
theorem stripVisibility_plain {t : JsString} (h : Plain t) : stripVisibility t = t := by
  have := stripVisibility_leaf h (Style.Suffix.nil .exact)
  rwa [List.append_nil] at this

theorem parseAddress_leaf {style : Style} {s body vis : JsString}
    (hs : style.letters s = js "aleo1" ++ body) (hne : body ≠ [])
    (hbody : body.all isAddressPart = true) (hvis : style.Suffix vis) :
    parseAddress (.string (s ++ vis)) = .ok s := by
  have hplain := plain_of_address hs hbody
  have htrim := trim_eq_self hplain.item.toTrimmed
  simp only [parseAddress, asString, bind, Except.bind, stripVisibility_leaf hplain hvis,
    serializeAddress, addressSource, expectString, htrim, isAddress_leaf hs hne hbody, if_true,
    stripVisibility_plain hplain]
  rfl

theorem isQuoted_quoted (name : JsString) :
    isQuoted (quoted name) = true ∧ sliceInner (quoted name) = name := by
  simp [isQuoted, quoted, sliceInner, List.getLast?_cons]

theorem parseIdentifier_leaf {style : Style} {name vis : JsString}
    (hname : isIdentifierName name = true) (hvis : style.Suffix vis) :
    parseIdentifier (.string (quoted name ++ vis)) = .ok name := by
  have hplain := (@Leaf.identifier style name hname).plain
  obtain ⟨hq, hslice⟩ := isQuoted_quoted name
  simp only [parseIdentifier, asString, bind, Except.bind, stripVisibility_leaf hplain hvis, hq,
    if_true, hslice]
  rfl

/-- **Every leaf is read as what it denotes**, whatever visibility follows it. -/
theorem Leaf.parse {style : Style} {prim : PrimitiveType} {t vis : JsString} {v : JsValue}
    (h : Leaf style prim t v) (hvis : style.Suffix vis) :
    deserializePrimitive prim (.string (t ++ vis)) = .ok v := by
  have hplain := h.plain
  cases h with
  | boolean b =>
    simp only [deserializePrimitive, parseBoolean, asString, bind, Except.bind,
      stripVisibility_leaf hplain hvis]
    cases b <;> rfl
  | uint hd hlt =>
    rw [deserializePrimitive, List.append_assoc]
    exact @deserializeInteger_leaf style false _ vis _ _ hd hlt (.inl rfl) hvis
  | @int size negative digits hd hlt =>
    have hlt' : digitsValue digits < 2 ^ size.bits := by
      refine Nat.lt_of_le_of_lt (?_ : _ ≤ 2 ^ (size.bits - 1)) (by cases size <;> decide)
      cases negative with
      | true => exact hlt
      | false => exact Nat.le_of_lt hlt
    rw [deserializePrimitive, List.append_assoc]
    exact deserializeInteger_leaf hd hlt' (.inr rfl) hvis
  | @scalarLike kind digits suffix hd hs =>
    have := parseScalarLike_leaf hd hs hvis
    cases kind <;> simp only [ScalarLike.prim, deserializePrimitive, this] <;> rfl
  | address hs hne hbody _ =>
    rw [deserializePrimitive, parseAddress_leaf hs hne hbody hvis]
    rfl
  | identifier hname =>
    rw [deserializePrimitive, parseIdentifier_leaf hname hvis]
    rfl

end Lionden.Codegen
