import Lionden.Js.Pretty

/-!
# `JSON.stringify(v, null, 2)`

* `stringifyIndented`: each part of an array or an object on a line of its own.
* `parse_stringifyIndented`: with a line break after it, the text is read back.
-/

namespace Lionden.JSON

/-- Parts on lines of their own between two brackets, which stand together if there is no part. -/
def block (gap : Nat) (begin_ end_ : CodeUnit) (parts : List JsString) : JsString :=
  if parts = [] then [begin_, end_]
  else begin_ :: (join (js ",") (parts.map (newline (gap + 2) ++ ·)) ++ (newline gap ++ [end_]))

mutual

/-- The text of a value, the lines of which have an indentation. -/
def stringifyIndented (gap : Nat) : JsValue → Option JsString
  | .array elements => some (block gap (unit '[') (unit ']') (indentedElements (gap + 2) elements))
  | .object props _ =>
    some (block gap (unit '\x7b') (unit '\x7d') (indentedProperties (gap + 2) props))
  | v => stringify v

def indentedElements (gap : Nat) : List (Option JsValue) → List JsString
  | [] => []
  | none :: rest => js "null" :: indentedElements gap rest
  | some v :: rest => (stringifyIndented gap v).getD (js "null") :: indentedElements gap rest

def indentedProperties (gap : Nat) : List (JsString × JsValue) → List JsString
  | [] => []
  | (key, v) :: rest =>
    match stringifyIndented gap v with
    | none => indentedProperties gap rest
    | some text => (jsonStringify key ++ (js ": " ++ text)) :: indentedProperties gap rest

end

example : stringifyIndented 0 (.object [(js "a", .array [some (.boolean true)]), (js "b", .array [])]
    none) = some (js "\x7b\n  \"a\": [\n    true\n  ],\n  \"b\": []\n\x7d") := by decide +kernel

theorem stands_block (gap : Nat) {begin_ end_ : CodeUnit} {t u : Token}
    (hbegin : punctuation begin_ = some t) (hend : punctuation end_ = some u)
    {parts : List JsString} {tss : List (List Token)} (h : List.Forall₂ Stands parts tss) :
    Stands (block gap begin_ end_ parts) (t :: commas tss ++ [u]) := by
  have hlast : Stands [end_] [u] := stands_nil.punctuation hend
  unfold block
  cases h with
  | nil => exact hlast.punctuation hbegin
  | cons hpart hparts =>
    rw [if_neg (List.cons_ne_nil _ _)]
    have hlines := List.forall₂_map_left_iff.mpr
      ((List.Forall₂.cons hpart hparts).imp fun _ _ hp => hp.newline (gap + 2))
    exact ((stands_join hlines).append (hlast.newline gap) fun _ _ =>
      stops_space (by decide) _).punctuation hbegin

/-- The text of a value, at any indentation, has the tokens of the value. -/
def Indents (v : JsValue) : Prop :=
  ∀ gap, ∃ text ts, stringifyIndented gap v = some text ∧ Stands text ts ∧ Reads ts v

theorem indents_elements {elements : List JsValue} (h : ∀ v ∈ elements, Indents v) (gap : Nat) :
    ∃ tss, List.Forall₂ Stands (indentedElements gap (elements.map some)) tss ∧
      List.Forall₂ Reads tss elements := by
  induction elements with
  | nil => exact ⟨[], .nil, .nil⟩
  | cons v elements ih =>
    obtain ⟨text, ts, htext, hstands, hreads⟩ := h v List.mem_cons_self gap
    obtain ⟨tss, hall, hreadss⟩ := ih fun w hw => h w (List.mem_cons_of_mem _ hw)
    refine ⟨ts :: tss, ?_, .cons hreads hreadss⟩
    rw [List.map_cons, indentedElements, htext]
    exact .cons hstands hall

theorem indents_properties {props : List (JsString × JsValue)} (h : ∀ p ∈ props, Indents p.2)
    (gap : Nat) : ∃ tss, List.Forall₂ Stands (indentedProperties gap props) tss ∧
      List.Forall₂ ReadsProperty tss props := by
  induction props with
  | nil => exact ⟨[], .nil, .nil⟩
  | cons p props ih =>
    obtain ⟨key, v⟩ := p
    obtain ⟨text, ts, htext, hstands, hreads⟩ := h (key, v) List.mem_cons_self gap
    obtain ⟨tss, hall, hreadss⟩ := ih fun q hq => h q (List.mem_cons_of_mem _ hq)
    have hcolon : punctuation (unit ':') = some .colon := rfl
    have hspace : Stands (unit ' ' :: text) ts := hstands.space (by decide)
    refine ⟨(.literal (.string key) :: .colon :: ts) :: tss, ?_, .cons ⟨ts, rfl, hreads⟩ hreadss⟩
    simp only [indentedProperties, htext]
    refine .cons ?_ hall
    exact (scans_string key).stands.append (hspace.punctuation hcolon) fun _ _ =>
      stops_punctuation hcolon _

theorem indents_isData {v : JsValue} (h : IsData JsNumber.Writable v) : Indents v := by
  have hscalar {v : JsValue} (hdata : IsData JsNumber.Writable v)
      (hsame : ∀ gap, stringifyIndented gap v = stringify v) : Indents v := by
    intro gap
    obtain ⟨text, ts, htext, hscans, hreads⟩ := written_isData hdata
    exact ⟨text, ts, (hsame gap).trans htext, hscans.stands, hreads⟩
  induction h with
  | null => exact hscalar .null fun _ => rfl
  | boolean b => exact hscalar (.boolean b) fun _ => rfl
  | number hx => exact hscalar (.number hx) fun _ => rfl
  | string s => exact hscalar (.string s) fun _ => rfl
  | array _ ih =>
    intro gap
    obtain ⟨tss, hstands, hreads⟩ := indents_elements ih (gap + 2)
    exact ⟨_, _, rfl, stands_block gap rfl rfl hstands, reads_array hreads⟩
  | object hkeys _ ih =>
    intro gap
    obtain ⟨tss, hstands, hreads⟩ := indents_properties ih (gap + 2)
    exact ⟨_, _, rfl, stands_block gap rfl rfl hstands, reads_object hreads hkeys⟩

/-- Data is read back from its text with a line break after it. -/
theorem parse_stringifyIndented {v : JsValue} (h : IsData JsNumber.Writable v) :
    ∃ text, stringifyIndented 0 v = some text ∧ parse (text ++ js "\n") = some v := by
  obtain ⟨text, ts, htext, hstands, hreads⟩ := indents_isData h 0
  refine ⟨text, htext, ?_⟩
  have hts : tokens .between (text ++ js "\n") = some ts := by
    have hall := hstands (js "\n") (stops_space (by decide) [])
    rwa [show tokens .between (js "\n") = some [] from rfl, Option.map_some,
      List.append_nil] at hall
  have hv := hreads.value [] []
  rw [List.append_nil] at hv
  rw [parse, hts]
  exact hv

end Lionden.JSON
