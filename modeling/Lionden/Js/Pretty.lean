import Lionden.Js.Stringify

/-!
# `JSON.stringify` with an indentation

* `tokens_append_space`: white space ends a text as its own end does.
* `prettyObject`: an object with its properties on lines of their own.
* `parse_pretty`: it is read back.
-/

namespace Lionden.JSON

theorem tokens_space {ch : CodeUnit} (h : isSpace ch = true) (rest : JsString) :
    tokens .between (ch :: rest) = tokens .between rest := by
  rw [tokens, if_pos h]

/-- A text that is whole goes on after white space with the tokens of the rest. -/
theorem tokens_append_space {scan : Scan} {text : JsString} {ts : List Token}
    (h : tokens scan text = some ts) {ch : CodeUnit} (hch : isSpace ch = true) (rest : JsString) :
    tokens scan (text ++ ch :: rest) = (tokens .between rest).map (ts ++ ·) := by
  have hmap {t : Token} {o p : Option (List Token)} {ts : List Token}
      (ho : ∀ us, o = some us → p = (tokens .between rest).map (us ++ ·))
      (h : o.map (t :: ·) = some ts) : p.map (t :: ·) = (tokens .between rest).map (ts ++ ·) := by
    obtain ⟨us, hus, rfl⟩ := Option.map_eq_some_iff.mp h
    rw [ho us hus, Option.map_map]
    rfl
  fun_induction tokens scan text generalizing ts
  case case1 =>
    cases h
    rw [List.nil_append, tokens_space hch]
    simp
  case case2 s =>
    obtain ⟨t, ht, rfl⟩ := Option.map_eq_some_iff.mp h
    rw [List.nil_append, tokens, if_pos hch, ht]
    rfl
  case case8 ch' rest' hspace hquote t ht ih =>
    rw [List.cons_append, tokens, if_neg hspace, if_neg hquote]
    simp only [ht]
    exact hmap (fun us hus => ih hus) h
  case case10 s ch' rest' hspace ih =>
    obtain ⟨t, ht, h⟩ := Option.bind_eq_some_iff.mp h
    rw [List.cons_append, tokens, if_pos hspace, ht]
    exact hmap (fun us hus => ih hus) h
  case case12 s ch' rest' hspace hquote t ht ih =>
    obtain ⟨u, hu, h⟩ := Option.bind_eq_some_iff.mp h
    rw [List.cons_append, tokens, if_neg hspace, if_neg hquote]
    simp only [ht, hu]
    obtain ⟨us, hus, rfl⟩ := Option.map_eq_some_iff.mp h
    show ((tokens .between (rest' ++ ch :: rest)).map (u :: t :: ·)) = _
    rw [ih hus, Option.map_map]
    rfl
  case case14 s rest' ih =>
    rw [List.cons_append, tokens, if_pos rfl]
    exact hmap (fun us hus => ih hus) h
  case case23 s digits ch' rest' hhex hlong n ih =>
    rw [List.cons_append, tokens, if_neg hhex, if_neg hlong]
    exact ih h
  -- Elsewhere the scan goes on, or the text is no JSON.
  all_goals first
    | cases h
    | simp_all [tokens]

/-! ## Texts before white space -/

/-- A text ends before the rest: where it goes on with white space too. -/
def Stops (rest : JsString) : Prop :=
  ∀ ch, rest.head? = some ch → (punctuation ch).isSome = true ∨ isSpace ch = true

/-- The tokens of a text, whatever follows it. -/
def Stands (text : JsString) (ts : List Token) : Prop :=
  ∀ rest, Stops rest → tokens .between (text ++ rest) = (tokens .between rest).map (ts ++ ·)

theorem Scans.stands {text : JsString} {ts : List Token} (h : Scans text ts) : Stands text ts := by
  intro rest hrest
  cases rest with
  | nil => exact h [] nofun
  | cons ch rest =>
    rcases hrest ch rfl with hpunct | hspace
    · refine h _ fun c hc => ?_
      rwa [← Option.some.inj hc]
    · have hwhole : tokens .between text = some ts := by
        have hall := h [] nofun
        rwa [List.append_nil, tokens, Option.map_some, List.append_nil] at hall
      rw [tokens_append_space hwhole hspace, tokens_space hspace]

theorem stands_nil : Stands [] [] := fun rest _ => by simp

theorem Stands.space {ch : CodeUnit} {text : JsString} {ts : List Token} (hch : isSpace ch = true)
    (h : Stands text ts) : Stands (ch :: text) ts := by
  intro rest hrest
  rw [List.cons_append, tokens_space hch, h rest hrest]

theorem Stands.punctuation {ch : CodeUnit} {t : Token} {text : JsString} {ts : List Token}
    (hch : JSON.punctuation ch = some t) (h : Stands text ts) : Stands (ch :: text) (t :: ts) := by
  intro rest hrest
  rw [List.cons_append, tokens_punctuation hch, h rest hrest, Option.map_map]
  rfl

/-- Texts one after the other; the first ends where the second begins. -/
theorem Stands.append {a b : JsString} {ts us : List Token} (ha : Stands a ts) (hb : Stands b us)
    (hstops : ∀ rest, Stops rest → Stops (b ++ rest)) : Stands (a ++ b) (ts ++ us) := by
  intro rest hrest
  rw [List.append_assoc, ha _ (hstops rest hrest), hb rest hrest, Option.map_map]
  refine congrArg (fun f => Option.map f _) (funext fun vs => ?_)
  exact (List.append_assoc ts us vs).symm

theorem stops_punctuation {ch : CodeUnit} {t : Token} (h : punctuation ch = some t)
    (rest : JsString) : Stops (ch :: rest) := by
  intro c hc
  rw [← Option.some.inj hc, h]
  exact .inl rfl

theorem stops_space {ch : CodeUnit} (h : isSpace ch = true) (rest : JsString) :
    Stops (ch :: rest) := by
  intro c hc
  rw [← Option.some.inj hc]
  exact .inr h

/-! ## Objects -/

def newline (gap : Nat) : JsString := 10 :: List.replicate gap 32

theorem Stands.newline {text : JsString} {ts : List Token} (h : Stands text ts) (gap : Nat) :
    Stands (newline gap ++ text) ts := by
  refine Stands.space (by decide) ?_
  induction gap with
  | zero => exact h
  | succ gap ih => exact ih.space (by decide)

/-- The text of an object that is not empty, at an indentation, from the texts of its values. -/
def prettyObject (gap : Nat) (props : List (JsString × JsString)) : JsString :=
  unit '\x7b' :: (join (js ",")
    (props.map fun p => newline (gap + 2) ++ (jsonStringify p.1 ++ (js ": " ++ p.2))) ++
      (newline gap ++ [unit '\x7d']))

theorem stands_property {key text : JsString} {ts : List Token} (h : Stands text ts) (gap : Nat) :
    Stands (newline gap ++ (jsonStringify key ++ (js ": " ++ text)))
      (.literal (.string key) :: .colon :: ts) := by
  have hcolon : punctuation (unit ':') = some .colon := rfl
  have hspace : Stands (unit ' ' :: text) ts := h.space (by decide)
  refine Stands.newline ((scans_string key).stands.append (hspace.punctuation hcolon)
    fun rest _ => ?_) gap
  exact stops_punctuation hcolon _

theorem stands_join {texts : List JsString} {tss : List (List Token)}
    (h : List.Forall₂ Stands texts tss) : Stands (join (js ",") texts) (commas tss) := by
  induction h with
  | nil => exact stands_nil
  | @cons text ts texts tss htext htexts ih =>
    cases htexts with
    | nil => exact htext
    | cons _ _ =>
      have hcomma : punctuation (unit ',') = some .comma := rfl
      change Stands ((text ++ js ",") ++ _) _
      rw [List.append_assoc]
      exact htext.append (ih.punctuation hcomma) fun _ _ => stops_punctuation hcomma _

/-- A property's text and the property. -/
def Property (text : JsString × JsString) (p : JsString × JsValue) : Prop :=
  text.1 = p.1 ∧ ∃ ts, Stands text.2 ts ∧ Reads ts p.2

/-- The text of an object has the tokens of the object. -/
theorem prettyObject_spec (gap : Nat) {texts : List (JsString × JsString)}
    {props : List (JsString × JsValue)} (h : List.Forall₂ Property texts props)
    (hkeys : (props.map Prod.fst).Nodup) :
    ∃ ts, Stands (prettyObject gap texts) ts ∧ Reads ts (.object props none) := by
  obtain ⟨tss, hstands, hreads⟩ : ∃ tss, List.Forall₂ Stands
      (texts.map fun p => newline (gap + 2) ++ (jsonStringify p.1 ++ (js ": " ++ p.2))) tss ∧
      List.Forall₂ ReadsProperty tss props := by
    clear hkeys
    induction h with
    | nil => exact ⟨[], .nil, .nil⟩
    | @cons text p texts props hp _ ih =>
      obtain ⟨hkey, ts, htext, hvalue⟩ := hp
      obtain ⟨tss, hstands, hreads⟩ := ih
      exact ⟨_, .cons (stands_property htext (gap + 2)) hstands,
        .cons ⟨ts, by rw [hkey], hvalue⟩ hreads⟩
  refine ⟨_, ?_, reads_object hreads hkeys⟩
  have hend : punctuation (unit '\x7d') = some .endObject := rfl
  exact ((stands_join hstands).append
    ((stands_nil.punctuation hend).newline gap) fun _ _ => stops_space (by decide) _).punctuation rfl

/-- The text of an object and a line break are read as the object. -/
theorem parse_pretty {texts : List (JsString × JsString)} {props : List (JsString × JsValue)}
    (h : List.Forall₂ Property texts props) (hkeys : (props.map Prod.fst).Nodup) :
    parse (prettyObject 0 texts ++ js "\n") = some (.object props none) := by
  obtain ⟨ts, hstands, hreads⟩ := prettyObject_spec 0 h hkeys
  have hts : tokens .between (prettyObject 0 texts ++ js "\n") = some ts := by
    have hall := hstands (js "\n") (stops_space (by decide) [])
    rwa [show tokens .between (js "\n") = some [] from rfl, Option.map_some,
      List.append_nil] at hall
  have hv := hreads.value [] []
  rw [List.append_nil] at hv
  rw [parse, hts]
  exact hv

theorem property_string (key s : JsString) :
    Property (key, jsonStringify s) (key, .string s) :=
  ⟨rfl, _, (scans_string s).stands, reads_literal (.string s)⟩

theorem property_number (key : JsString) {x : JsNumber} (h : x.Writable) :
    Property (key, numberString x) (key, .number x) := by
  obtain ⟨text, ts, htext, hscans, hreads⟩ := written_isData (.number h)
  obtain ⟨q, rfl, -⟩ := h
  cases htext
  exact ⟨rfl, ts, hscans.stands, hreads⟩

theorem property_object (gap : Nat) (key : JsString) {texts : List (JsString × JsString)}
    {props : List (JsString × JsValue)} (h : List.Forall₂ Property texts props)
    (hkeys : (props.map Prod.fst).Nodup) :
    Property (key, prettyObject gap texts) (key, .object props none) :=
  ⟨rfl, prettyObject_spec gap h hkeys⟩

end Lionden.JSON
