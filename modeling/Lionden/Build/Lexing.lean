import Lionden.Build.Scrubber

/-!
# What a source is made of

A source is a list of lexemes: characters of code, comments and quoted literals. A comment or a literal
that is not closed is the last lexeme.

* `scrub_sourceOf`: a scrubbed source is its lexemes with the comments and literals blanked.
* `exists_lexical`: every source is made of lexemes.
* `strip_strip`: a scrubbed source has nothing left to scrub.
-/

namespace Lionden.Build

/-! ## Pieces -/

inductive Lexeme where
  | code (c : CodeUnit)
  | line (text : JsString)
  | block (text : JsString)
  | quoted (quote : CodeUnit) (text : JsString)
  | openBlock (text : JsString)
  | openQuoted (quote : CodeUnit) (text : JsString)

namespace Lexeme

def text : Lexeme → JsString
  | .code c => [c]
  | .line text => unit '/' :: unit '/' :: text
  | .block text => unit '/' :: unit '*' :: (text ++ [unit '*', unit '/'])
  | .quoted quote text => quote :: (text ++ [quote])
  | .openBlock text => unit '/' :: unit '*' :: text
  | .openQuoted quote text => quote :: text

/-- Code is kept. Of a comment or a literal only the newlines are. -/
def scrubbed : Lexeme → JsString
  | .code c => [c]
  | lexeme => lexeme.text.map blank

/-- The lexeme is what it is called, and ends where `rest` begins. -/
def Stands (rest : JsString) : Lexeme → Prop
  | .code c => isQuote c = false ∧
      (c = unit '/' → rest.head? ≠ some (unit '/') ∧ rest.head? ≠ some (unit '*'))
  | .line text => 10 ∉ text ∧ ∀ c ∈ rest.head?, c = 10
  | .block text => ¬ [unit '*', unit '/'] <:+: text
  | .quoted quote text => isQuote quote ∧ quote ∉ text
  | .openBlock text => ¬ [unit '*', unit '/'] <:+: text ∧ rest = []
  | .openQuoted quote text => isQuote quote ∧ quote ∉ text ∧ rest = []

end Lexeme

def sourceOf (lexemes : List Lexeme) : JsString := lexemes.flatMap Lexeme.text

def Lexical : List Lexeme → Prop
  | [] => True
  | lexeme :: lexemes => lexeme.Stands (sourceOf lexemes) ∧ Lexical lexemes

/-! ## A scrubbed source -/

theorem scrub_code_newline (rest : JsString) :
    scrub .code (10 :: rest) = 10 :: scrub .code rest := by
  cases rest with
  | nil => rfl
  | cons d rest =>
    rw [scrub, if_neg, if_neg, if_neg]
    · decide
    · exact fun h => absurd h.1 (by decide)
    · exact fun h => absurd h.1 (by decide)

theorem scrub_line {text rest : JsString} (htext : 10 ∉ text) (hrest : ∀ c ∈ rest.head?, c = 10) :
    scrub .line (text ++ rest) = text.map blank ++ scrub .code rest := by
  induction text with
  | nil =>
    cases rest with
    | nil => rfl
    | cons c rest =>
      obtain rfl := hrest c rfl
      rw [scrub_code_newline, List.nil_append, scrub, if_pos rfl]
      rfl
  | cons c text ih =>
    obtain ⟨hc, htext⟩ := not_or.mp (mt List.mem_cons.mpr htext)
    rw [List.cons_append, scrub, if_neg (Ne.symm hc), ih htext, List.map_cons, blank,
      if_neg (Ne.symm hc)]
    rfl

theorem scrub_openBlock {text : JsString} (htext : ¬ [unit '*', unit '/'] <:+: text) :
    scrub .block text = text.map blank := by
  induction text with
  | nil => rfl
  | cons c text ih =>
    have hrest := ih fun h => htext (List.infix_cons h)
    cases text with
    | nil => rfl
    | cons d text =>
      rw [scrub, if_neg, hrest]
      · rfl
      · rintro ⟨rfl, rfl⟩
        exact htext ⟨[], text, rfl⟩

theorem scrub_block {text rest : JsString} (htext : ¬ [unit '*', unit '/'] <:+: text) :
    scrub .block (text ++ unit '*' :: unit '/' :: rest) =
      text.map blank ++ 32 :: 32 :: scrub .code rest := by
  induction text with
  | nil => rw [List.nil_append, scrub, if_pos ⟨rfl, rfl⟩]; rfl
  | cons c text ih =>
    have hrest := ih fun h => htext (List.infix_cons h)
    cases text with
    | nil =>
      rw [List.cons_append, List.nil_append, scrub, if_neg]
      · exact congrArg _ hrest
      · exact fun h => absurd h.2 (by decide)
    | cons d text =>
      rw [List.cons_append, List.cons_append, scrub, if_neg]
      · exact congrArg _ hrest
      · rintro ⟨rfl, rfl⟩
        exact htext ⟨[], text, rfl⟩

theorem scrub_openQuoted {quote : CodeUnit} {text : JsString} (htext : quote ∉ text) :
    scrub (.quoted quote) text = text.map blank := by
  induction text with
  | nil => rfl
  | cons c text ih =>
    obtain ⟨hc, htext⟩ := not_or.mp (mt List.mem_cons.mpr htext)
    rw [scrub, if_neg (Ne.symm hc), ih htext]
    rfl

theorem scrub_quoted {quote : CodeUnit} {text rest : JsString} (htext : quote ∉ text) :
    scrub (.quoted quote) (text ++ quote :: rest) = text.map blank ++ 32 :: scrub .code rest := by
  induction text with
  | nil => rw [List.nil_append, scrub, if_pos rfl]; rfl
  | cons c text ih =>
    obtain ⟨hc, htext⟩ := not_or.mp (mt List.mem_cons.mpr htext)
    rw [List.cons_append, scrub, if_neg (Ne.symm hc), ih htext]
    rfl

theorem scrub_opening {quote : CodeUnit} (hquote : isQuote quote) (rest : JsString) :
    scrub .code (quote :: rest) = 32 :: scrub (.quoted quote) rest := by
  have hne : quote ≠ unit '/' := by
    rintro rfl
    exact absurd hquote (by decide)
  cases rest with
  | nil => simp [scrub, hquote]
  | cons d rest =>
    rw [scrub, if_neg fun h => hne h.1, if_neg fun h => hne h.1, if_pos hquote]

theorem scrub_opening_block (rest : JsString) :
    scrub .code (unit '/' :: unit '*' :: rest) = 32 :: 32 :: scrub .block rest := by
  rw [scrub, if_neg (by decide), if_pos ⟨rfl, rfl⟩]

theorem blank_quote {quote : CodeUnit} (hquote : isQuote quote) : blank quote = 32 := by
  rw [blank, if_neg]
  rintro rfl
  exact absurd hquote (by decide)

/-- A scrubbed source is its lexemes with the comments and literals blanked. -/
theorem scrub_sourceOf {lexemes : List Lexeme} (h : Lexical lexemes) :
    stripCommentsAndStrings (sourceOf lexemes) = lexemes.flatMap Lexeme.scrubbed := by
  rw [stripCommentsAndStrings]
  induction lexemes with
  | nil => rfl
  | cons lexeme lexemes ih =>
    obtain ⟨hstands, hlexical⟩ := h
    have hrest := ih hlexical
    rw [List.flatMap_cons, ← hrest, sourceOf, List.flatMap_cons, ← sourceOf]
    generalize sourceOf lexemes = rest at hstands
    cases lexeme with
    | code c =>
      obtain ⟨hquote, hslash⟩ := hstands
      cases rest with
      | nil =>
        change scrub .code [c] = [c] ++ scrub .code []
        simp [scrub, hquote]
      | cons d rest =>
        change scrub .code (c :: d :: rest) = [c] ++ scrub .code (d :: rest)
        rw [scrub, if_neg, if_neg, if_neg (by simp [hquote])]
        · rfl
        · rintro ⟨hc, rfl⟩
          exact (hslash hc).2 rfl
        · rintro ⟨hc, rfl⟩
          exact (hslash hc).1 rfl
    | line text =>
      change scrub .code (unit '/' :: unit '/' :: (text ++ rest)) = _
      rw [scrub, if_pos ⟨rfl, rfl⟩, scrub_line hstands.1 hstands.2]
      rfl
    | block text =>
      change scrub .code (unit '/' :: unit '*' :: (text ++ [unit '*', unit '/'] ++ rest)) = _
      rw [scrub_opening_block, List.append_assoc]
      refine (congrArg (fun t => 32 :: 32 :: t) (scrub_block hstands)).trans ?_
      simp only [Lexeme.scrubbed, Lexeme.text, List.map_cons, List.map_append, List.cons_append,
        List.append_assoc]
      rfl
    | quoted quote text =>
      obtain ⟨hquote, htext⟩ := hstands
      change scrub .code (quote :: (text ++ [quote] ++ rest)) = _
      rw [scrub_opening hquote, List.append_assoc]
      refine (congrArg (fun t => 32 :: t) (scrub_quoted htext)).trans ?_
      simp only [Lexeme.scrubbed, Lexeme.text, List.map_cons, List.map_append, List.cons_append,
        List.append_assoc, blank_quote hquote]
      rfl
    | openBlock text =>
      obtain ⟨htext, rfl⟩ := hstands
      change scrub .code (unit '/' :: unit '*' :: text ++ []) = _
      rw [List.append_nil, scrub_opening_block, scrub_openBlock htext]
      exact (List.append_nil _).symm
    | openQuoted quote text =>
      obtain ⟨hquote, htext, rfl⟩ := hstands
      change scrub .code (quote :: (text ++ [])) = _
      rw [scrub_opening hquote, List.append_nil, scrub_openQuoted htext]
      refine (List.append_nil _).symm.trans ?_
      simp only [Lexeme.scrubbed, Lexeme.text, List.map_cons, blank_quote hquote]
      rfl

/-! ## Every source is made of lexemes -/

/-- A text up to its first `*/`, if it has one. -/
theorem split_block (text : JsString) :
    (∃ body rest, text = body ++ unit '*' :: unit '/' :: rest ∧
      ¬ [unit '*', unit '/'] <:+: body) ∨ ¬ [unit '*', unit '/'] <:+: text := by
  induction text with
  | nil => exact .inr (by simp)
  | cons c text ih =>
    by_cases hhere : [unit '*', unit '/'] <+: c :: text
    · obtain ⟨rest, hrest⟩ := hhere
      exact .inl ⟨[], rest, hrest.symm, by simp⟩
    rcases ih with ⟨body, rest, rfl, hbody⟩ | hnone
    · refine .inl ⟨c :: body, rest, rfl, fun hinfix => ?_⟩
      rcases List.infix_cons_iff.mp hinfix with hstarts | hinfix
      · exact hhere (hstarts.trans (List.prefix_append (c :: body) _))
      · exact hbody hinfix
    · exact .inr fun hinfix => (List.infix_cons_iff.mp hinfix).elim hhere hnone

theorem split_first (c : CodeUnit) (text : JsString) :
    (∃ body rest, text = body ++ c :: rest ∧ c ∉ body) ∨ c ∉ text := by
  by_cases hmem : c ∈ text
  · obtain ⟨body, rest, rfl, hbody⟩ := List.eq_append_cons_of_mem hmem
    exact .inl ⟨body, rest, rfl, hbody⟩
  · exact .inr hmem

theorem Lexical.cons_code {c : CodeUnit} {lexemes : List Lexeme} (h : Lexical lexemes)
    (hquote : isQuote c = false) (hslash : c = unit '/' →
      (sourceOf lexemes).head? ≠ some (unit '/') ∧ (sourceOf lexemes).head? ≠ some (unit '*')) :
    Lexical (.code c :: lexemes) ∧ sourceOf (.code c :: lexemes) = c :: sourceOf lexemes :=
  ⟨⟨⟨hquote, hslash⟩, h⟩, rfl⟩

theorem exists_lexical (src : JsString) : ∃ lexemes, Lexical lexemes ∧ sourceOf lexemes = src := by
  generalize hn : src.length = n
  induction n using Nat.strongRecOn generalizing src with
  | _ n ih =>
  subst hn
  cases src with
  | nil => exact ⟨[], trivial, rfl⟩
  | cons c rest =>
  cases hquote : isQuote c with
  | true =>
    rcases split_first c rest with ⟨body, after, rfl, hbody⟩ | hnone
    · obtain ⟨lexemes, hlexical, rfl⟩ := ih after.length (by simp; omega) after rfl
      refine ⟨.quoted c body :: lexemes, ⟨⟨hquote, hbody⟩, hlexical⟩, ?_⟩
      simp [sourceOf, Lexeme.text]
    · exact ⟨[.openQuoted c rest], ⟨⟨hquote, hnone, rfl⟩, trivial⟩, by simp [sourceOf, Lexeme.text]⟩
  | false =>
    by_cases hline : c = unit '/' ∧ rest.head? = some (unit '/')
    · obtain ⟨rfl, hhead⟩ := hline
      obtain ⟨rest, rfl⟩ := List.head?_eq_some_iff.mp hhead
      obtain ⟨lexemes, hlexical, hpieces⟩ := ih (rest.dropWhile (· ≠ 10)).length
        (by
          have hle := List.length_dropWhile_le (· ≠ 10) rest
          rw [List.length_cons, List.length_cons]
          omega) _ rfl
      refine ⟨.line (rest.takeWhile (· ≠ 10)) :: lexemes, ⟨⟨?_, ?_⟩, hlexical⟩, ?_⟩
      · exact fun hmem => absurd (List.mem_takeWhile_imp hmem) (by simp)
      · rw [hpieces]
        intro d hd
        have := List.head?_dropWhile_not (· ≠ 10) rest
        rw [Option.mem_def.mp hd] at this
        simpa using this
      · change unit '/' :: unit '/' :: rest.takeWhile (· ≠ 10) ++ sourceOf lexemes = _
        rw [hpieces, List.cons_append, List.cons_append, List.takeWhile_append_dropWhile]
    by_cases hblock : c = unit '/' ∧ rest.head? = some (unit '*')
    · obtain ⟨rfl, hhead⟩ := hblock
      obtain ⟨rest, rfl⟩ := List.head?_eq_some_iff.mp hhead
      rcases split_block rest with ⟨body, after, rfl, hbody⟩ | hnone
      · obtain ⟨lexemes, hlexical, rfl⟩ := ih after.length (by simp; omega) after rfl
        exact ⟨.block body :: lexemes, ⟨hbody, hlexical⟩, by simp [sourceOf, Lexeme.text]⟩
      · exact ⟨[.openBlock rest], ⟨⟨hnone, rfl⟩, trivial⟩, by simp [sourceOf, Lexeme.text]⟩
    · obtain ⟨lexemes, hlexical, rfl⟩ := ih rest.length (by simp) rest rfl
      exact ⟨.code c :: lexemes, hlexical.cons_code hquote fun hc =>
        ⟨fun h => hline ⟨hc, h⟩, fun h => hblock ⟨hc, h⟩⟩⟩

/-! ## Character by character -/

/-- A character is kept, or it is not a newline and a space takes its place. -/
def Scrubs (c o : CodeUnit) : Prop := o = c ∨ c ≠ 10 ∧ o = 32

theorem scrubs_blank (c : CodeUnit) : Scrubs c (blank c) := by
  rw [blank]
  split
  · next hc => exact .inl hc.symm
  · next hc => exact .inr ⟨hc, rfl⟩

theorem forall₂_map_blank (text : JsString) : List.Forall₂ Scrubs text (text.map blank) :=
  List.forall₂_map_right_iff.mpr (List.forall₂_same.mpr fun c _ => scrubs_blank c)

theorem Lexeme.forall₂_scrubbed (lexeme : Lexeme) : List.Forall₂ Scrubs lexeme.text lexeme.scrubbed := by
  cases lexeme with
  | code c => exact .cons (.inl rfl) .nil
  | line | block | quoted | openBlock | openQuoted => exact forall₂_map_blank _

theorem forall₂_scrubbed (lexemes : List Lexeme) :
    List.Forall₂ Scrubs (sourceOf lexemes) (lexemes.flatMap Lexeme.scrubbed) := by
  induction lexemes with
  | nil => exact .nil
  | cons lexeme lexemes ih => exact List.rel_append lexeme.forall₂_scrubbed ih

theorem getElem?_scrubs {src out : JsString} (h : List.Forall₂ Scrubs src out) (i : Nat) :
    out[i]? = src[i]? ∨ src[i]? ≠ some 10 ∧ out[i]? = some 32 := by
  induction h generalizing i with
  | nil => exact .inl rfl
  | cons hscrubs _ ih =>
    cases i with
    | zero =>
      rcases hscrubs with rfl | ⟨hne, rfl⟩
      · exact .inl rfl
      · exact .inr ⟨fun heq => hne (Option.some.inj heq), rfl⟩
    | succ i => exact ih i

/-! ## Scrubbing a scrubbed source -/

/-- No comment and no literal begins in a text. -/
def Plain (text : JsString) : Prop :=
  (∀ c ∈ text, isQuote c = false) ∧
    text.IsChain fun c d => c = unit '/' → d ≠ unit '/' ∧ d ≠ unit '*'

theorem strip_plain {text : JsString} (h : Plain text) : stripCommentsAndStrings text = text := by
  have hlexical : Lexical (text.map .code) ∧ sourceOf (text.map .code) = text := by
    obtain ⟨hquote, hchain⟩ := h
    induction text with
    | nil => exact ⟨trivial, rfl⟩
    | cons c text ih =>
      obtain ⟨hl, hs⟩ := ih (fun d hd => hquote d (List.mem_cons_of_mem _ hd)) hchain.tail
      have hcons := hl.cons_code (hquote c (List.mem_cons_self ..)) (c := c) fun hc => by
        rw [hs]
        cases text with
        | nil => exact ⟨nofun, nofun⟩
        | cons d text => simpa using (List.isChain_cons_cons.mp hchain).1 hc
      exact ⟨hcons.1, hcons.2.trans (congrArg _ hs)⟩
  have := scrub_sourceOf hlexical.1
  rw [hlexical.2] at this
  rw [this, List.flatMap_map]
  exact List.flatMap_singleton' text

theorem Plain.append_blank {text rest : JsString} (htext : ∀ c ∈ text, c = 10 ∨ c = 32)
    (h : Plain rest) : Plain (text ++ rest) := by
  induction text with
  | nil => exact h
  | cons c text ih =>
    obtain ⟨hquote, hchain⟩ := ih fun d hd => htext d (List.mem_cons_of_mem _ hd)
    rcases htext c (List.mem_cons_self ..) with rfl | rfl
    all_goals
      refine ⟨List.forall_mem_cons.mpr ⟨by decide, hquote⟩, List.isChain_cons.mpr ⟨?_, hchain⟩⟩
      exact fun d _ hc => absurd hc (by decide)

theorem plain_scrubbed {lexemes : List Lexeme} (h : Lexical lexemes) :
    Plain (lexemes.flatMap Lexeme.scrubbed) := by
  induction lexemes with
  | nil => exact ⟨nofun, .nil⟩
  | cons lexeme lexemes ih =>
    obtain ⟨hstands, hlexical⟩ := h
    have hrest := ih hlexical
    have hkept := forall₂_scrubbed lexemes
    rw [List.flatMap_cons]
    have hblank : ∀ text : JsString, ∀ c ∈ text.map blank, c = 10 ∨ c = 32 := by
      intro text c hc
      obtain ⟨d, -, rfl⟩ := List.mem_map.mp hc
      rw [blank]
      split
      · exact .inl rfl
      · exact .inr rfl
    cases lexeme with
    | code c =>
      obtain ⟨hquote, hslash⟩ := hstands
      change Plain (c :: lexemes.flatMap Lexeme.scrubbed)
      refine ⟨List.forall_mem_cons.mpr ⟨hquote, hrest.1⟩, List.isChain_cons.mpr ⟨?_, hrest.2⟩⟩
      intro d hd hc
      -- what comes next is as in the source, or a space
      rw [Option.mem_def, List.head?_eq_getElem?] at hd
      rcases getElem?_scrubs hkept 0 with hsame | ⟨-, hspace⟩
      · rw [hsame, ← List.head?_eq_getElem?] at hd
        rw [hd] at hslash
        exact ⟨fun heq => (hslash hc).1 (congrArg _ heq), fun heq => (hslash hc).2 (congrArg _ heq)⟩
      · obtain rfl := Option.some.inj (hspace.symm.trans hd)
        decide
    | line | block | quoted | openBlock | openQuoted => exact hrest.append_blank (hblank _)

theorem strip_strip (src : JsString) :
    stripCommentsAndStrings (stripCommentsAndStrings src) = stripCommentsAndStrings src := by
  obtain ⟨lexemes, hlexical, rfl⟩ := exists_lexical src
  rw [scrub_sourceOf hlexical]
  exact strip_plain (plain_scrubbed hlexical)

/-- A scrubbed source has the length of the source. Each of its characters is the one of the source or
a space, a newline is kept, and with the source cut into lexemes, code is kept and every other
character that is not a newline is blanked. Scrubbing it again changes nothing. -/
theorem stripCommentsAndStrings_projects (src : JsString) :
    (stripCommentsAndStrings src).length = src.length ∧
      (∀ i : Nat, (stripCommentsAndStrings src)[i]? = src[i]? ∨
        src[i]? ≠ some 10 ∧ (stripCommentsAndStrings src)[i]? = some 32) ∧
      (∃ lexemes, Lexical lexemes ∧ sourceOf lexemes = src) ∧
      (∀ lexemes, Lexical lexemes → sourceOf lexemes = src →
        stripCommentsAndStrings src = lexemes.flatMap Lexeme.scrubbed) ∧
      stripCommentsAndStrings (stripCommentsAndStrings src) = stripCommentsAndStrings src := by
  obtain ⟨lexemes, hlexical, rfl⟩ := exists_lexical src
  have heach : List.Forall₂ Scrubs (sourceOf lexemes) (stripCommentsAndStrings (sourceOf lexemes)) := by
    rw [scrub_sourceOf hlexical]
    exact forall₂_scrubbed lexemes
  refine ⟨heach.length_eq.symm, fun i => ?_, ⟨lexemes, hlexical, rfl⟩, fun lexemes' hlexical' heq => ?_,
    strip_strip _⟩
  · exact getElem?_scrubs heach i
  · rw [← heq]
    exact scrub_sourceOf hlexical'

end Lionden.Build
