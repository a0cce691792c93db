import Lionden.Lib.Brackets
import Lionden.Codegen.Runtime

/-!
# Bracketed texts and the splitters

How array and struct literals are spelled, with white space between any two tokens, and what
`parseArray` and `parseStruct` make of such texts.

* `Item t`: `t` may stand as one element or field of a literal.
* `ArrayText ts s`, `StructText es s`: `s` spells the array of the texts `ts`, or the struct of the
  entries `es`.
* `Spread.join_inv`: a list that is joined with commas is not another list.
* `parseArray_eq`, `parseStruct_eq`: the splitters invert these spellings.
-/

namespace Lionden.Codegen

open Brackets

/-- What the splitters count and where they cut. -/
def punctuation : Punctuation CodeUnit where
  delta ch := depthAfter 0 ch
  separator := comma
  neutral := by decide

theorem depthAfter_eq (d : Int) (ch : CodeUnit) : depthAfter d ch = d + punctuation.delta ch := by
  simp only [punctuation, depthAfter]
  split
  · omega
  · split <;> omega

/-- Where a struct text is cut into keys and values. -/
def colons : Punctuation CodeUnit where
  delta ch := depthAfter 0 ch
  separator := colon
  neutral := by decide

theorem colons_height (t : JsString) : colons.height t = punctuation.height t := rfl

/-- One element of an array literal, or the value of one field of a struct literal. -/
structure Item (t : JsString) : Prop extends Trimmed t where
  closed : punctuation.Closed t

/-- The characters that mean something to the splitters. -/
def isSpecial (ch : CodeUnit) : Bool :=
  isWhiteSpace ch || [openBrace, closeBrace, openBracket, closeBracket, comma, colon].contains ch

/-- A text without white space and without punctuation. -/
def IsAtom (t : JsString) : Prop := t ≠ [] ∧ ∀ c ∈ t, isSpecial c = false

theorem delta_of_plain {c : CodeUnit} (h : isSpecial c = false) :
    punctuation.delta c = 0 ∧ c ≠ punctuation.separator := by
  simp only [isSpecial, List.contains_eq_mem, List.mem_cons, List.not_mem_nil, or_false,
    Bool.or_eq_false_iff, decide_eq_false_iff_not, not_or] at h
  obtain ⟨-, h₁, h₂, h₃, h₄, h₅, -⟩ := h
  exact ⟨by simp [punctuation, depthAfter, h₁, h₂, h₃, h₄], h₅⟩

theorem IsAtom.item {t : JsString} (h : IsAtom t) : Item t where
  toTrimmed := .of_forall h.1 fun c hc => by
    have := h.2 c hc
    simp only [isSpecial, Bool.or_eq_false_iff] at this
    exact this.1
  closed := Punctuation.closed_of_plain fun c hc => delta_of_plain (h.2 c hc)

theorem closed_of_spaces {w : JsString} (h : Spaces w) : punctuation.Closed w := by
  refine Punctuation.closed_of_plain fun c hc => ?_
  have hs := h c hc
  have hne : ∀ x, isWhiteSpace x = false → c ≠ x := by
    rintro x hx rfl
    rw [hs] at hx
    cases hx
  refine ⟨?_, hne comma (by decide)⟩
  simp [punctuation, depthAfter, hne openBrace (by decide), hne openBracket (by decide),
    hne closeBrace (by decide), hne closeBracket (by decide)]

/-! ## Lists -/

/-- `s` spells the texts `ts`, separated by commas, with white space around each. -/
inductive Spread : List JsString → JsString → Prop
  | nil {w} : Spaces w → Spread [] w
  | last {w t w'} : Spaces w → Spaces w' → Spread [t] (w ++ t ++ w')
  | cons {w t w' u ts rest} : Spaces w → Spaces w' → Spread (u :: ts) rest →
      Spread (t :: u :: ts) (w ++ t ++ w' ++ comma :: rest)

theorem closed_of_spread {w t w' : JsString} (hw : Spaces w) (ht : punctuation.Closed t)
    (hw' : Spaces w') : punctuation.Closed (w ++ t ++ w') :=
  ((closed_of_spaces hw).append ht).append (closed_of_spaces hw')

theorem Spread.inner {ts : List JsString} {s : JsString} (h : Spread ts s)
    (hts : ∀ t ∈ ts, punctuation.Closed t) : punctuation.Inner s := by
  induction h with
  | nil hw => exact (closed_of_spaces hw).inner
  | @last w t w' hw hw' => exact (closed_of_spread hw (hts t (by simp)) hw').inner
  | @cons w t w' u ts rest hw hw' _ ih =>
    have hrest := ih fun t ht => hts t (by simp [List.mem_cons.mp ht])
    have hitem := (closed_of_spread hw (hts t (by simp)) hw').inner
    exact hitem.append (Punctuation.inner_separator.append hrest)

theorem Spread.spaces_left {ts : List JsString} {w s : JsString} (hw : Spaces w)
    (h : Spread ts s) : Spread ts (w ++ s) := by
  cases h with
  | nil h => exact .nil (hw.append h)
  | @last v t v' h h' =>
    have : w ++ (v ++ t ++ v') = (w ++ v) ++ t ++ v' := by simp
    rw [this]
    exact .last (hw.append h) h'
  | @cons v t v' u ts rest h h' hrest =>
    have : w ++ (v ++ t ++ v' ++ comma :: rest) = (w ++ v) ++ t ++ v' ++ comma :: rest := by simp
    rw [this]
    exact .cons (hw.append h) h' hrest

theorem Spread.spaces_right {ts : List JsString} {w s : JsString} (hw : Spaces w)
    (h : Spread ts s) : Spread ts (s ++ w) := by
  induction h with
  | nil h => exact .nil (h.append hw)
  | @last v t v' h h' =>
    rw [List.append_assoc]
    exact .last h (h'.append hw)
  | @cons v t v' u ts rest h h' _ ih =>
    have : v ++ t ++ v' ++ comma :: rest ++ w = v ++ t ++ v' ++ comma :: (rest ++ w) := by simp
    rw [this]
    exact .cons h h' ih

/-- The canonical spelling. -/
theorem Spread.join {ts : List JsString} (h : ts ≠ []) :
    Spread ts (Lionden.join (js ", ") ts) := by
  induction ts with
  | nil => exact absurd rfl h
  | cons t ts ih =>
    cases ts with
    | nil =>
      have := Spread.last (t := t) .nil .nil
      simpa [Lionden.join] using this
    | cons u ts =>
      have hrest := (ih (by simp)).spaces_left Spaces.space
      have := Spread.cons (t := t) .nil .nil hrest
      have hjs : js ", " = [comma, 32] := by decide
      simpa [Lionden.join, hjs] using this

/-! ### White space at the ends -/

theorem rdropWhile_append_cons {p : CodeUnit → Bool} {a b : JsString} {x : CodeUnit}
    (hx : p x = false) : (a ++ x :: b).rdropWhile p = a ++ x :: b.rdropWhile p := by
  have : (a ++ x :: b).reverse = b.reverse ++ (x :: a.reverse) := by simp
  simp only [List.rdropWhile, this]
  rw [List.dropWhile_append]
  split
  · next h =>
    rw [List.isEmpty_iff] at h
    simp [h, hx]
  · simp

theorem Spread.dropWhile {ts : List JsString} {s : JsString} (h : Spread ts s)
    (hts : ∀ t ∈ ts, Trimmed t) : Spread ts (s.dropWhile isWhiteSpace) := by
  have hdrop : ∀ {w t rest : JsString}, Spaces w → Trimmed t →
      (w ++ (t ++ rest)).dropWhile isWhiteSpace = t ++ rest := fun {w t rest} hw ht => by
    obtain ⟨c, u, rfl⟩ := List.exists_cons_of_ne_nil ht.ne_nil
    rw [List.dropWhile_append_of_pos hw]
    simp [ht.head c rfl]
  cases h with
  | nil hw =>
    rw [List.dropWhile_eq_nil_iff.mpr hw]
    exact .nil .nil
  | @last w t w' hw hw' =>
    rw [List.append_assoc, hdrop hw (hts t (by simp))]
    exact .last .nil hw'
  | @cons w t w' u ts rest hw hw' hrest =>
    rw [List.append_assoc, List.append_assoc, hdrop hw (hts t (by simp)), ← List.append_assoc]
    exact .cons .nil hw' hrest

theorem Spread.rdropWhile {ts : List JsString} {s : JsString} (h : Spread ts s)
    (hts : ∀ t ∈ ts, Trimmed t) : Spread ts (s.rdropWhile isWhiteSpace) := by
  induction h with
  | @nil w hw =>
    rw [List.rdropWhile_eq_nil_iff.mpr hw]
    exact .nil .nil
  | @last w t w' hw hw' =>
    have ht : Trimmed t := hts t (by simp)
    have hw0 : w'.rdropWhile isWhiteSpace = [] := List.rdropWhile_eq_nil_iff.mpr hw'
    obtain ⟨u, x, rfl⟩ := (List.eq_nil_or_concat' t).resolve_left ht.ne_nil
    have hx : isWhiteSpace x = false := ht.last x (by simp)
    have : w ++ (u ++ [x]) ++ w' = (w ++ u) ++ x :: w' := by simp
    rw [this, rdropWhile_append_cons hx, hw0]
    simpa using Spread.last (t := u ++ [x]) hw .nil
  | @cons w t w' u ts rest hw hw' _ ih =>
    rw [rdropWhile_append_cons (by decide)]
    exact .cons hw hw' (ih fun t ht => hts t (by simp [List.mem_cons.mp ht]))

theorem Spread.trim {ts : List JsString} {s : JsString} (h : Spread ts s)
    (hts : ∀ t ∈ ts, Trimmed t) : Spread ts (trim s) :=
  (h.dropWhile hts).rdropWhile hts

theorem Spread.eq_nil {ts : List JsString} {s : JsString} (h : Spread ts s)
    (hts : ∀ t ∈ ts, Trimmed t) (hs : Lionden.trim s = []) : ts = [] := by
  have h := h.trim hts
  rw [hs] at h
  generalize hw : ([] : JsString) = w at h
  cases h with
  | nil => rfl
  | @last w t w' =>
    have := (hts t (by simp)).ne_nil
    simp [this] at hw
  | cons => simp at hw

/-- A list spelled canonically holds the texts that it was made of, unless it was made of one empty
text. -/
theorem Spread.join_inv {ts texts : List JsString} {w : JsString} (hw : Spaces w)
    (h : Spread ts (w ++ Lionden.join (js ", ") texts)) (hts : ∀ t ∈ ts, Item t)
    (htexts : ∀ t ∈ texts, t = [] ∨ Item t) : ts = texts ∨ ts = [] ∧ texts = [[]] := by
  have htrimmed : ∀ t ∈ ts, Trimmed t := fun t ht => (hts t ht).toTrimmed
  have hclosed : ∀ {t}, t = [] ∨ Item t → punctuation.Closed t := by
    rintro t (rfl | ht)
    · exact closed_of_spaces .nil
    · exact ht.closed
  induction texts generalizing ts w with
  | nil =>
    rw [Lionden.join, List.append_nil] at h
    exact .inl (h.eq_nil htrimmed (trim_spaces hw))
  | cons t texts ih =>
    rw [List.forall_mem_cons] at htexts
    obtain ⟨ht, htexts⟩ := htexts
    have hwt := (closed_of_spaces hw).append (hclosed ht)
    cases texts with
    | nil =>
      rw [Lionden.join] at h
      rcases ht with rfl | ht
      · rw [List.append_nil] at h
        exact .inr ⟨h.eq_nil htrimmed (trim_spaces hw), rfl⟩
      · have htrim := trim_append_spaces hw ht.toTrimmed .nil
        rw [List.append_nil] at htrim
        generalize hs : w ++ t = s at h htrim hwt
        cases h with
        | nil hw' =>
          rw [trim_spaces hw'] at htrim
          exact absurd htrim.symm ht.ne_nil
        | last hv hv' =>
          rw [trim_append_spaces hv (htrimmed _ (by simp)) hv'] at htrim
          rw [htrim]
          exact .inl rfl
        | cons hv hv' =>
          exact ((closed_of_spread hv (hts _ (by simp)).closed hv').not_split hwt).elim
    | cons u texts =>
      have hjs : js ", " = [comma, 32] := by decide
      have hs : w ++ Lionden.join (js ", ") (t :: u :: texts) =
          (w ++ t) ++ comma :: ([32] ++ Lionden.join (js ", ") (u :: texts)) := by
        simp [Lionden.join, hjs]
      rw [hs] at h
      generalize hs' : (w ++ t) ++ comma :: ([32] ++ Lionden.join (js ", ") (u :: texts)) = s at h
      cases h with
      | nil hw' =>
        rw [← hs'] at hw'
        exact absurd (hw' comma (by simp)) (by decide)
      | @last v t' v' hv hv' =>
        have := closed_of_spread hv (hts t' (by simp)).closed hv'
        rw [← hs'] at this
        exact (hwt.not_split this).elim
      | @cons v t' v' u' ts rest hv hv' hrest =>
        have hsplit := closed_of_spread hv (hts t' (by simp)).closed hv'
        obtain ⟨hhead, rfl⟩ := hwt.split hsplit hs'
        have ht' := htrimmed t' (by simp)
        have htrim := trim_append_spaces hv ht' hv'
        rw [← hhead] at htrim
        have heq : t = t' := by
          rcases ht with rfl | ht
          · rw [List.append_nil, trim_spaces hw] at htrim
            exact absurd htrim.symm ht'.ne_nil
          · have := trim_append_spaces hw ht.toTrimmed .nil
            rw [List.append_nil] at this
            rw [← this, htrim]
        have hrest' := ih .space hrest (fun x hx => hts x (by simp [List.mem_cons.mp hx])) htexts
          fun x hx => htrimmed x (by simp [List.mem_cons.mp hx])
        rcases hrest' with hrest' | ⟨hnil, -⟩
        · rw [hrest', heq]
          exact .inl rfl
        · cases hnil

/-! ## The splitters -/

/-- Brackets around an inner text. -/
theorem unwrap_wrap {opening closing : CodeUnit} (ho : isWhiteSpace opening = false)
    (hc : isWhiteSpace closing = false) (inner : JsString) :
    unwrap opening closing (opening :: inner ++ [closing]) = trim inner := by
  have htrim : Trimmed (opening :: inner ++ [closing]) :=
    ⟨by simp, fun c h => by
      obtain rfl : opening = c := by simpa using h
      exact ho, fun c h => by
      rw [List.getLast?_concat] at h
      cases h
      exact hc⟩
  simp only [unwrap, trim_eq_self htrim, List.getLast?_concat]
  simp [sliceInner]

theorem foldl_arrayStep {d : Int} {t cur : JsString} {es : List JsString}
    (h : punctuation.Quiet d t) :
    t.foldl ArrayScan.step ⟨d, cur, es⟩ = ⟨d + punctuation.height t, cur ++ t, es⟩ := by
  induction t generalizing d cur with
  | nil => simp
  | cons c t ih =>
    obtain ⟨hc, ht⟩ := h
    change ¬ (d + punctuation.delta c = 0 ∧ c = comma) at hc
    rw [List.foldl_cons, ArrayScan.step]
    simp only [depthAfter_eq]
    rw [if_neg hc, ih ht]
    simp [add_assoc]

/-- What a scan has found when it ends. -/
def ArrayScan.result (st : ArrayScan) : List JsString :=
  if trim st.current = [] then st.elements else st.elements ++ [trim st.current]

theorem arrayScan_eq {ts es : List JsString} {s : JsString} (h : Spread ts s)
    (hts : ∀ t ∈ ts, Item t) : (s.foldl ArrayScan.step ⟨0, [], es⟩).result = es ++ ts := by
  induction h generalizing es with
  | nil hw =>
    rw [foldl_arrayStep ((closed_of_spaces hw).quiet 0 (Int.le_refl 0))]
    simp [ArrayScan.result, trim_spaces hw]
  | @last w t w' hw hw' =>
    have ht := hts t (by simp)
    rw [foldl_arrayStep ((closed_of_spread hw ht.closed hw').quiet 0 (Int.le_refl 0))]
    simp only [ArrayScan.result, List.nil_append]
    rw [trim_append_spaces hw ht.toTrimmed hw', if_neg ht.ne_nil]
  | @cons w t w' u ts rest hw hw' _ ih =>
    have ht := hts t (by simp)
    have hclosed := closed_of_spread hw ht.closed hw'
    rw [List.foldl_append, foldl_arrayStep (hclosed.quiet 0 (Int.le_refl 0)), List.foldl_cons,
      hclosed.height]
    have hstep : ArrayScan.step ⟨0 + 0, [] ++ (w ++ t ++ w'), es⟩ comma = ⟨0, [], es ++ [t]⟩ := by
      have hdepth : depthAfter 0 comma = 0 := by decide
      simp only [ArrayScan.step, add_zero, hdepth, List.nil_append, and_self, if_true]
      rw [trim_append_spaces hw ht.toTrimmed hw']
    rw [hstep, ih fun t ht => hts t (by simp [List.mem_cons.mp ht])]
    simp

/-- `s` spells the array of the texts `ts`. -/
def ArrayText (ts : List JsString) (s : JsString) : Prop :=
  ∃ inner, s = openBracket :: inner ++ [closeBracket] ∧ Spread ts inner

/-- **`parseArray` inverts the spelling of an array.** -/
theorem parseArray_eq {ts : List JsString} {s : JsString} (h : ArrayText ts s)
    (hts : ∀ t ∈ ts, Item t) : parseArray (.string s) = .ok ts := by
  obtain ⟨inner, rfl, hspread⟩ := h
  have htrimmed : ∀ t ∈ ts, Trimmed t := fun t ht => (hts t ht).toTrimmed
  have hunwrap := @unwrap_wrap openBracket closeBracket (by decide) (by decide) inner
  simp only [parseArray, asString, hunwrap, bind, Except.bind, pure, Except.pure]
  split
  · next hnil => rw [hspread.eq_nil htrimmed hnil]
  · have := @arrayScan_eq ts [] _ (hspread.trim htrimmed) hts
    simpa [ArrayScan.result] using this

/-- The canonical spelling of an array. -/
theorem arrayText_join (ts : List JsString) :
    ArrayText ts (js "[" ++ join (js ", ") ts ++ js "]") := by
  refine ⟨join (js ", ") ts, rfl, ?_⟩
  by_cases h : ts = []
  · subst h
    exact .nil .nil
  · exact .join h

theorem ArrayText.item {ts : List JsString} {s : JsString} (h : ArrayText ts s)
    (hts : ∀ t ∈ ts, punctuation.Closed t) : Item s := by
  obtain ⟨inner, rfl, hspread⟩ := h
  refine ⟨⟨by simp, fun c hc => ?_, fun c hc => ?_⟩,
    (hspread.inner hts).wrap (by decide) (by decide)⟩
  · obtain rfl : openBracket = c := by simpa using hc
    decide
  · rw [List.getLast?_concat] at hc
    cases hc
    decide

/-! ## Structs -/

/-- A key of a struct literal: an atom, and a property that can be set. -/
structure IsKey (k : JsString) : Prop where
  atom : IsAtom k
  ordinary : k ≠ js "__proto__"

/-- `p` spells the entry of the key `k` with the text `t`. -/
inductive Entry (k t : JsString) : JsString → Prop
  | mk {w w'} : Spaces w → Spaces w' → Entry k t (k ++ w ++ colon :: (w' ++ t))

/-- `s` spells the struct of the entries `es`. -/
def StructText (es : List (JsString × JsString)) (s : JsString) : Prop :=
  ∃ pieces inner, s = openBrace :: inner ++ [closeBrace] ∧
    List.Forall₂ (fun e p => Entry e.1 e.2 p) es pieces ∧ Spread pieces inner

theorem IsKey.plain {k w : JsString} (hk : IsKey k) (hw : Spaces w) :
    punctuation.Closed (k ++ w) ∧ colon ∉ k ++ w := by
  refine ⟨hk.atom.item.closed.append (closed_of_spaces hw), fun h => ?_⟩
  rcases List.mem_append.mp h with h | h
  · exact absurd (hk.atom.2 _ h) (by decide)
  · exact absurd (hw _ h) (by decide)

theorem closed_colon : punctuation.Closed [colon] :=
  Punctuation.closed_of_plain (by decide)

theorem Entry.item {k t p : JsString} (h : Entry k t p) (hk : IsKey k) (ht : Item t) : Item p := by
  cases h with
  | @mk w w' hw hw' =>
    have hclosed := (hk.plain hw).1.append
      (closed_colon.append ((closed_of_spaces hw').append ht.closed))
    refine ⟨⟨by simp, fun c hc => ?_, fun c hc => ?_⟩, hclosed⟩
    · obtain ⟨d, u, rfl⟩ := List.exists_cons_of_ne_nil hk.atom.1
      obtain rfl : d = c := by simpa using hc
      exact hk.atom.item.head d rfl
    · refine ht.last c ?_
      obtain ⟨u, x, rfl⟩ := (List.eq_nil_or_concat' t).resolve_left ht.ne_nil
      have : k ++ w ++ colon :: (w' ++ (u ++ [x])) = (k ++ w ++ colon :: (w' ++ u)) ++ [x] := by
        simp
      rw [this, List.getLast?_concat] at hc
      rw [List.getLast?_concat, hc]

/-- Characters of depth 0 without a separator are collected; so are colons once the key is there. -/
theorem foldl_structStep {d : Int} {t cur key : JsString} {res : Properties}
    (h : punctuation.Quiet d t) (hkey : key ≠ [] ∨ colons.Quiet d t) :
    t.foldl StructScan.step ⟨d, cur, key, res⟩ =
      ⟨d + punctuation.height t, cur ++ t, key, res⟩ := by
  induction t generalizing d cur with
  | nil => simp
  | cons c t ih =>
    obtain ⟨hc, ht⟩ := h
    change ¬ (d + punctuation.delta c = 0 ∧ c = comma) at hc
    have hcolon : ¬ (d + punctuation.delta c = 0 ∧ c = colon ∧ key = []) := by
      rintro ⟨hd, rfl, hnil⟩
      exact hkey.elim (fun h => h hnil) fun h => h.1 ⟨hd, rfl⟩
    rw [List.foldl_cons, StructScan.step]
    simp only [depthAfter_eq]
    rw [if_neg hcolon, if_neg hc, ih ht (hkey.imp_right And.right)]
    simp [add_assoc]

/-- What a scan has found when it ends. -/
def StructScan.final (st : StructScan) : Properties := st.result.set st.key (trim st.current)

/-- An entry leaves its key and its text. -/
theorem structScan_entry {k t p w w' : JsString} {res : Properties} (h : Entry k t p)
    (hk : IsKey k) (ht : Item t) (hw : Spaces w) (hw' : Spaces w') :
    ∃ cur, (w ++ p ++ w').foldl StructScan.step ⟨0, [], [], res⟩ = ⟨0, cur, k, res⟩ ∧
      trim cur = t := by
  cases h with
  | @mk v v' hv hv' =>
    have hwk : punctuation.Closed (w ++ k ++ v) := by
      rw [List.append_assoc]
      exact (closed_of_spaces hw).append (hk.plain hv).1
    have hwkc : colon ∉ w ++ k ++ v := by
      rw [List.append_assoc]
      intro h
      rcases List.mem_append.mp h with h | h
      · exact absurd (hw _ h) (by decide)
      · exact (hk.plain hv).2 h
    have hval := closed_of_spread hv' ht.closed hw'
    have hsplit : w ++ (k ++ v ++ colon :: (v' ++ t)) ++ w' =
        (w ++ k ++ v) ++ colon :: (v' ++ t ++ w') := by simp
    have hstep : StructScan.step ⟨0, w ++ k ++ v, [], res⟩ colon = ⟨0, [], k, res⟩ := by
      have hdepth : depthAfter 0 colon = 0 := by decide
      simp only [StructScan.step, hdepth, and_self, if_true]
      rw [trim_append_spaces hw hk.atom.item.toTrimmed hv]
    refine ⟨v' ++ t ++ w', ?_, trim_append_spaces hv' ht.toTrimmed hw'⟩
    rw [hsplit, List.foldl_append, foldl_structStep (hwk.quiet 0 (Int.le_refl 0)) (.inr (Punctuation.quiet_of_not_mem hwkc 0)),
      hwk.height, List.foldl_cons, List.nil_append, add_zero, hstep,
      foldl_structStep (hval.quiet 0 (Int.le_refl 0)) (.inl hk.atom.1), hval.height]
    simp

theorem Properties.set_of_isKey {res : Properties} {k t : JsString} (hk : IsKey k) :
    res.set k t = (k, t) :: res := by
  simp [Properties.set, hk.atom.1, hk.ordinary]

theorem structScan_eq {es : List (JsString × JsString)} {pieces : List JsString} {s : JsString}
    {res : Properties} (h : Spread pieces s)
    (hpieces : List.Forall₂ (fun e p => Entry e.1 e.2 p) es pieces)
    (hes : ∀ e ∈ es, IsKey e.1 ∧ Item e.2) :
    (s.foldl StructScan.step ⟨0, [], [], res⟩).final = es.reverse ++ res := by
  induction h generalizing es res with
  | @nil w hw =>
    cases hpieces
    have hcolon : colon ∉ w := fun h => absurd (hw _ h) (by decide)
    rw [foldl_structStep ((closed_of_spaces hw).quiet 0 (Int.le_refl 0))
      (.inr (Punctuation.quiet_of_not_mem hcolon 0))]
    simp [StructScan.final, Properties.set]
  | @last w p w' hw hw' =>
    obtain ⟨⟨k, t⟩, es, hp, hnil, rfl⟩ := List.forall₂_cons_right_iff.mp hpieces
    cases hnil
    obtain ⟨hk, ht⟩ := hes (k, t) (by simp)
    obtain ⟨cur, hfold, htrim⟩ := @structScan_entry k t p w w' res hp hk ht hw hw'
    simp only [hfold, StructScan.final, htrim, Properties.set_of_isKey hk]
    rfl
  | @cons w p w' u ts rest hw hw' _ ih =>
    obtain ⟨⟨k, t⟩, es, hp, htail, rfl⟩ := List.forall₂_cons_right_iff.mp hpieces
    obtain ⟨hk, ht⟩ := hes (k, t) (by simp)
    obtain ⟨cur, hfold, htrim⟩ := @structScan_entry k t p w w' res hp hk ht hw hw'
    have hstep : StructScan.step ⟨0, cur, k, res⟩ comma = ⟨0, [], [], (k, t) :: res⟩ := by
      have hdepth : depthAfter 0 comma = 0 := by decide
      have hcolon : ¬ comma = colon := by decide
      simp only [StructScan.step, hdepth, hcolon, false_and, and_false, if_false, and_self, if_true,
        htrim, Properties.set_of_isKey hk]
    rw [List.foldl_append, hfold, List.foldl_cons, hstep,
      ih htail fun e he => hes e (by simp [he])]
    simp

theorem Spread.items {es : List (JsString × JsString)} {pieces : List JsString}
    (hpieces : List.Forall₂ (fun e p => Entry e.1 e.2 p) es pieces)
    (hes : ∀ e ∈ es, IsKey e.1 ∧ Item e.2) : ∀ p ∈ pieces, Item p := by
  induction hpieces with
  | nil => simp
  | cons hp _ ih =>
    rw [List.forall_mem_cons] at hes ⊢
    exact ⟨hp.item hes.1.1 hes.1.2, ih hes.2⟩

/-- **`parseStruct` inverts the spelling of a struct.** -/
theorem parseStruct_eq {es : List (JsString × JsString)} {s : JsString} (h : StructText es s)
    (hes : ∀ e ∈ es, IsKey e.1 ∧ Item e.2) : parseStruct (.string s) = .ok es.reverse := by
  obtain ⟨pieces, inner, rfl, hpieces, hspread⟩ := h
  have hitems := Spread.items hpieces hes
  have hunwrap := @unwrap_wrap openBrace closeBrace (by decide) (by decide) inner
  have htrim := hspread.trim fun p hp => (hitems p hp).toTrimmed
  have := @structScan_eq es pieces _ [] htrim hpieces hes
  simp only [parseStruct, asString, hunwrap, bind, Except.bind, pure, Except.pure]
  simpa [StructScan.final] using this

theorem entry_canonical (k t : JsString) : Entry k t (k ++ js ": " ++ t) := by
  have := @Entry.mk k t [] [32] .nil .space
  have hjs : js ": " = [colon, 32] := by decide
  simpa [hjs] using this

/-- The canonical spelling of a struct. -/
theorem structText_join (es : List (JsString × JsString)) :
    StructText es (js "\x7b " ++ join (js ", ") (es.map fun e => e.1 ++ js ": " ++ e.2) ++
      js " \x7d") := by
  have hopen : js "\x7b " = [openBrace, 32] := by decide
  have hclose : js " \x7d" = [32, closeBrace] := by decide
  refine ⟨es.map fun e => e.1 ++ js ": " ++ e.2,
    [32] ++ join (js ", ") (es.map fun e => e.1 ++ js ": " ++ e.2) ++ [32], ?_, ?_, ?_⟩
  · simp [hopen, hclose]
  · rw [List.forall₂_map_right_iff, List.forall₂_same]
    exact fun e _ => entry_canonical e.1 e.2
  · by_cases h : es = []
    · subst h
      exact .nil (Spaces.space.append .space)
    · exact ((Spread.join (by simpa using h)).spaces_left .space).spaces_right .space

theorem StructText.item {es : List (JsString × JsString)} {s : JsString} (h : StructText es s)
    (hes : ∀ e ∈ es, IsKey e.1 ∧ Item e.2) : Item s := by
  obtain ⟨pieces, inner, rfl, hpieces, hspread⟩ := h
  have hitems := Spread.items hpieces hes
  refine ⟨⟨by simp, fun c hc => ?_, fun c hc => ?_⟩,
    (hspread.inner fun p hp => (hitems p hp).closed).wrap (by decide) (by decide)⟩
  · obtain rfl : openBrace = c := by simpa using hc
    decide
  · rw [List.getLast?_concat] at hc
    cases hc
    decide

end Lionden.Codegen
