import Lionden.Build.Lexing
import Lionden.Codegen.Leaf
import Lionden.Js.RegExp

/-!
# A program under another name

* `matchDeclaration_eq_some`: what the regular expression for a declaration matches.
* `findDeclaration_replace`: the first declaration of a text stays the first one under another id.
* `rename_touches_declaration`: only the id of the declaration is replaced, and it is what is then
  declared.
-/

namespace Lionden.Build

open Codegen (isIdentifierPart)
open Targets (RenamePlan)

/-- The program that a source declares. -/
def extractProgramId (content : JsString) : Option JsString :=
  (findDeclaration none (stripCommentsAndStrings content)).map (·.2)

def Word (text : JsString) : Prop := text ≠ [] ∧ ∀ c ∈ text, isIdentifierPart c

/-- `[\w]+\.aleo`. -/
def IsProgramId (id : JsString) : Prop := ∃ word, Word word ∧ id = word ++ js ".aleo"

/-! ## What is matched -/

/-- A colon or an opening brace: what comes after the id and white space. -/
def Opens (c : CodeUnit) : Prop := c = unit ':' ∨ c = unit '{'

theorem isIdentifierPart_of_space {c : CodeUnit} (h : isWhiteSpace c) : isIdentifierPart c = false := by
  rw [← Bool.not_eq_true]
  intro hpart
  have := Codegen.not_isSpecial (.inl hpart)
  rw [Codegen.isSpecial, h, Bool.true_or] at this
  exact Bool.false_ne_true this.symm

theorem Opens.not_space {c : CodeUnit} (h : Opens c) : isWhiteSpace c = false := by
  rcases h with rfl | rfl <;> decide

theorem drop_program (rest : JsString) : (js "program" ++ rest).drop 7 = rest := by
  have hlength : (js "program").length = 7 := by decide
  rw [← hlength, List.drop_left]

theorem drop_aleo (rest : JsString) : (js ".aleo" ++ rest).drop 5 = rest := by
  have hlength : (js ".aleo").length = 5 := by decide
  rw [← hlength, List.drop_left]

theorem startsWith_append (word rest : JsString) : startsWith (word ++ rest) word :=
  decide_eq_true (List.prefix_append ..)

theorem matchDeclaration_eq_some {text id : JsString} {k : Nat} :
    matchDeclaration text = some (k, id) ↔ ∃ spaces word trail c rest,
      text = js "program" ++ (spaces ++ (word ++ (js ".aleo" ++ (trail ++ c :: rest)))) ∧
        spaces ≠ [] ∧ Spaces spaces ∧ Word word ∧ Spaces trail ∧ Opens c ∧
        k = 7 + spaces.length ∧ id = word ++ js ".aleo" := by
  constructor
  · intro h
    unfold matchDeclaration at h
    split at h
    case isFalse => exact nomatch h
    next hprogram =>
    obtain ⟨rest, rfl⟩ := of_decide_eq_true hprogram
    dsimp only at h
    rw [drop_program] at h
    split at h
    case isFalse => exact nomatch h
    next hcond =>
    obtain ⟨hspaces, hword, haleo, hopens⟩ := hcond
    cases h
    obtain ⟨tail, htail⟩ := of_decide_eq_true haleo
    rw [← htail, drop_aleo, Option.any_eq_true] at hopens
    obtain ⟨c, hc, hopens⟩ := hopens
    obtain ⟨after, hafter⟩ := List.head?_eq_some_iff.mp hc
    refine ⟨_, _, tail.takeWhile isWhiteSpace, c, after, ?_, hspaces,
      fun d hd => List.mem_takeWhile_imp hd, ⟨hword, fun d hd => List.mem_takeWhile_imp hd⟩,
      fun d hd => List.mem_takeWhile_imp hd, by simpa [Opens] using hopens, rfl, rfl⟩
    rw [← hafter, List.takeWhile_append_dropWhile, htail, List.takeWhile_append_dropWhile,
      List.takeWhile_append_dropWhile]
  · rintro ⟨spaces, word, trail, c, rest, rfl, hne, hspaces, ⟨hword, hpart⟩, htrail, hopens, rfl, rfl⟩
    have hdot : ∀ d, (js ".aleo" ++ (trail ++ c :: rest)).head? = some d → isIdentifierPart d = false := by
      intro d hd
      obtain rfl := Option.some.inj hd
      decide
    have hhead : ∀ d, (word ++ (js ".aleo" ++ (trail ++ c :: rest))).head? = some d →
        isWhiteSpace d = false := by
      intro d hd
      obtain ⟨e, word, rfl⟩ := List.exists_cons_of_ne_nil hword
      obtain rfl := Option.some.inj hd
      rw [← Bool.not_eq_true]
      exact fun hspace => Bool.false_ne_true
        ((isIdentifierPart_of_space hspace).symm.trans (hpart e (List.mem_cons_self ..)))
    have hopen : ∀ d, (c :: rest).head? = some d → isWhiteSpace d = false := by
      intro d hd
      exact Option.some.inj hd ▸ hopens.not_space
    obtain ⟨hspaces', hrest⟩ := RegExp.takeWhile_dropWhile hspaces hhead
    obtain ⟨hword', htail⟩ := RegExp.takeWhile_dropWhile hpart hdot
    obtain ⟨-, hlast⟩ := RegExp.takeWhile_dropWhile htrail hopen
    unfold matchDeclaration
    rw [if_pos (startsWith_append ..)]
    dsimp only
    rw [drop_program, hspaces', hrest, hword', htail, drop_aleo, hlast, if_pos]
    refine ⟨hne, hword, startsWith_append .., ?_⟩
    rw [List.head?_cons, Option.any_some]
    simpa [Opens] using hopens

/-! ## The first declaration -/

/-- The character before what comes after `head`. -/
def lastOf (before : Option CodeUnit) (head : JsString) : Option CodeUnit := head.getLast?.or before

/-- No declaration begins in `head`. -/
def Skips : Option CodeUnit → JsString → JsString → Prop
  | _, [], _ => True
  | before, c :: head, tail =>
    (before.any isIdentifierPart ∨ matchDeclaration (c :: (head ++ tail)) = none) ∧
      Skips (some c) head tail

theorem lastOf_cons (before : Option CodeUnit) (c : CodeUnit) (head : JsString) :
    lastOf before (c :: head) = lastOf (some c) head := by
  cases head with
  | nil => rfl
  | cons d head => simp [lastOf, List.getLast?_cons]

theorem findDeclaration_eq_some {before : Option CodeUnit} {text id : JsString} {k : Nat} :
    findDeclaration before text = some (k, id) ↔ ∃ head tail j,
      text = head ++ tail ∧ k = head.length + j ∧ matchDeclaration tail = some (j, id) ∧
        (lastOf before head).any isIdentifierPart = false ∧ Skips before head tail := by
  induction text generalizing before k with
  | nil =>
    refine ⟨nofun, ?_⟩
    rintro ⟨head, tail, j, heq, -, hmatch, -⟩
    obtain ⟨-, rfl⟩ := List.append_eq_nil_iff.mp heq.symm
    exact nomatch hmatch
  | cons c rest ih =>
    unfold findDeclaration
    dsimp only
    constructor
    · intro h
      split at h
      next found hhere =>
        cases h
        split at hhere
        · exact nomatch hhere
        · next hbefore =>
          exact ⟨[], c :: rest, k, rfl, (Nat.zero_add k).symm, hhere, by simpa [lastOf] using hbefore,
            trivial⟩
      next hhere =>
        obtain ⟨⟨offset, id'⟩, hfound, heq⟩ := Option.map_eq_some_iff.mp h
        cases heq
        obtain ⟨head, tail, j, rfl, rfl, hmatch, hlast, hskips⟩ := ih.mp hfound
        refine ⟨c :: head, tail, j, rfl, by simp; omega, hmatch, lastOf_cons .. ▸ hlast, ?_, hskips⟩
        split at hhere
        · next hbefore => exact .inl hbefore
        · exact .inr hhere
    · rintro ⟨head, tail, j, heq, rfl, hmatch, hlast, hskips⟩
      cases head with
      | nil =>
        obtain rfl := heq
        rw [if_neg (by simpa [lastOf] using hlast), hmatch]
        simp
      | cons d head =>
        rw [List.cons_append] at heq
        obtain ⟨rfl, rfl⟩ := List.cons.inj heq
        have hrest := ih.mpr ⟨head, tail, j, rfl, rfl, hmatch, lastOf_cons .. ▸ hlast, hskips.2⟩
        have hhere : (if before.any isIdentifierPart = true then none
            else matchDeclaration (c :: (head ++ tail))) = none := by
          split
          · rfl
          · next hbefore => exact hskips.1.resolve_left hbefore
        rw [hhere, hrest]
        simp only [Option.map_some, List.length_cons, Option.some.injEq, Prod.mk.injEq, and_true]
        omega

/-- A text before a `p` ends after a part of the whole, or that part goes on with the `p`. -/
theorem split_before {h w x y : JsString} {c : CodeUnit} (heq : h ++ c :: w = x ++ y) :
    (∃ h', h = x ++ h' ∧ h' ++ c :: w = y) ∨ ∃ a, x = h ++ c :: a ∧ w = a ++ y := by
  rcases List.append_eq_append_iff.mp heq with ⟨a, rfl, hy⟩ | ⟨h', rfl, hy⟩
  · cases a with
    | nil => exact .inl ⟨[], by simp, hy⟩
    | cons d a =>
      obtain ⟨rfl, rfl⟩ := List.cons.inj hy
      exact .inr ⟨a, rfl, rfl⟩
  · exact .inl ⟨h', rfl, hy.symm⟩

/-- The keyword of a declaration is followed by white space, so no other declaration goes on over
it. -/
theorem match_inside {h spaces w w' : JsString} {x : Nat × JsString} (hne : h ≠ [])
    (hlast : ∀ d ∈ h.getLast?, isIdentifierPart d = false) (hspaces : Spaces spaces)
    (hsome : spaces ≠ [])
    (hmatch : matchDeclaration (h ++ (js "program" ++ (spaces ++ w))) = some x) :
    matchDeclaration (h ++ (js "program" ++ (spaces ++ w'))) = some x := by
  obtain ⟨k, id⟩ := x
  obtain ⟨spaces', word, trail, c, rest, heq, hne', hspaces', hword, htrail, hopens, rfl, rfl⟩ :=
    matchDeclaration_eq_some.mp hmatch
  suffices hinside : ∃ rest', h = js "program" ++ (spaces' ++ (word ++ (js ".aleo" ++
      (trail ++ c :: rest')))) by
    obtain ⟨rest', rfl⟩ := hinside
    exact matchDeclaration_eq_some.mpr ⟨spaces', word, trail, c, rest' ++ (js "program" ++ (spaces ++ w')),
      by simp only [List.append_assoc, List.cons_append], hne', hspaces', hword, htrail, hopens, rfl, rfl⟩
  have hkeyword : js "program" = unit 'p' :: js "rogram" := by decide
  have hp : isWhiteSpace (unit 'p') = false := by decide
  have hend : ∀ (front : JsString) {d : CodeUnit} {back : JsString}, h = front ++ (d :: back) →
      ¬ ∀ e ∈ d :: back, isIdentifierPart e := by
    rintro front d back rfl hpart
    have hback : d :: back ≠ [] := nofun
    have := hlast ((d :: back).getLast hback) (by
      rw [List.getLast?_append, List.getLast?_eq_some_getLast hback]
      rfl)
    rw [hpart _ (List.getLast_mem hback)] at this
    exact nomatch this
  rw [hkeyword, List.cons_append] at heq
  -- the text ends within the keyword, the white space, the id, or what comes after it
  rcases split_before heq with ⟨h₁, hh, heq₁⟩ | ⟨a, hx, -⟩
  case inr =>
    obtain ⟨d, h, rfl⟩ := List.exists_cons_of_ne_nil hne
    refine absurd (fun e he => ?_) (hend [] rfl)
    have hpart : ∀ e ∈ js "program", isIdentifierPart e := by decide
    exact hpart e (hkeyword ▸ hx ▸ List.mem_append_left _ he)
  rcases split_before heq₁ with ⟨h₂, rfl, heq₂⟩ | ⟨a, rfl, -⟩
  case inr => exact nomatch hp.symm.trans (hspaces' _ (by simp))
  rcases split_before heq₂ with ⟨h₃, rfl, heq₃⟩ | ⟨a, hx, hw⟩
  case inr =>
    cases h₂ with
    | cons d h₂ =>
      refine absurd (fun e he => ?_) (hend (unit 'p' :: js "rogram" ++ spaces') (by simpa using hh))
      exact hword.2 e (hx ▸ List.mem_append_left _ he)
    | nil =>
      -- the keyword would be the word before the suffix
      obtain ⟨e, spaces, rfl⟩ := List.exists_cons_of_ne_nil hsome
      have hspace : ∀ d, (e :: spaces ++ w).head? = some d → isIdentifierPart d = false :=
        fun d hd => Option.some.inj hd ▸ isIdentifierPart_of_space (hspaces e (List.mem_cons_self ..))
      have hdot : ∀ d, (js ".aleo" ++ (trail ++ c :: rest)).head? = some d →
          isIdentifierPart d = false := fun d hd => Option.some.inj hd ▸ by decide
      have hrogram : ∀ d ∈ js "rogram", isIdentifierPart d := by decide
      have ha : ∀ d ∈ a, isIdentifierPart d := fun d hd =>
        hword.2 d (by rw [hx]; exact List.mem_cons_of_mem _ hd)
      have hleft := (RegExp.takeWhile_dropWhile hrogram hspace).2
      have hright := (RegExp.takeWhile_dropWhile ha hdot).2
      rw [hw] at hleft
      have hsame : e :: spaces ++ w = js ".aleo" ++ (trail ++ c :: rest) := hleft.symm.trans hright
      obtain ⟨rfl, -⟩ := List.cons.inj hsame
      exact absurd (hspaces _ (List.mem_cons_self ..)) (by decide)
  rcases split_before heq₃ with ⟨h₄, rfl, heq₄⟩ | ⟨a, hx, -⟩
  case inr =>
    have hnone : unit 'p' ∉ js ".aleo" := by decide
    exact absurd (hx ▸ by simp) hnone
  rcases split_before heq₄ with ⟨h₅, rfl, heq₅⟩ | ⟨a, rfl, -⟩
  case inr => exact nomatch hp.symm.trans (htrail _ (by simp))
  cases h₅ with
  | nil =>
    obtain ⟨rfl, -⟩ := List.cons.inj heq₅
    exact absurd hopens (by rintro (h | h) <;> exact absurd h (by decide))
  | cons d h₅ =>
    obtain ⟨rfl, -⟩ := List.cons.inj heq₅
    exact ⟨h₅, by rw [hh, hkeyword]⟩

/-- The first declaration of a text is still the first one under another id. -/
theorem Skips.replace {before : Option CodeUnit} {head spaces w w' : JsString}
    (h : Skips before head (js "program" ++ (spaces ++ w)))
    (hlast : (lastOf before head).any isIdentifierPart = false) (hspaces : Spaces spaces)
    (hsome : spaces ≠ []) : Skips before head (js "program" ++ (spaces ++ w')) := by
  induction head generalizing before with
  | nil => trivial
  | cons c head ih =>
    obtain ⟨hhere, hrest⟩ := h
    rw [lastOf_cons] at hlast
    refine ⟨hhere.imp_right fun hnone => ?_, ih hrest hlast⟩
    rw [Option.eq_none_iff_forall_ne_some] at hnone ⊢
    refine fun x hx => hnone x (match_inside (h := c :: head) (w := w') nofun ?_ hspaces hsome hx)
    intro d hd
    rw [← lastOf_cons none, lastOf, Option.mem_def.mp hd] at hlast
    simpa using hlast

/-! ## The id among the lexemes -/

theorem Lexeme.text_ne_nil (lexeme : Lexeme) : lexeme.text ≠ [] := by
  cases lexeme <;> exact nofun

theorem Lexeme.scrubbed_ne_nil (lexeme : Lexeme) : lexeme.scrubbed ≠ [] := by
  cases lexeme <;> exact nofun

/-- A character that is not blank is code. -/
theorem Lexeme.eq_code {lexeme : Lexeme} {c : CodeUnit} (hc : c ∈ lexeme.scrubbed) (hspace : c ≠ 32)
    (hnewline : c ≠ 10) : lexeme = .code c := by
  cases lexeme with
  | code d => rw [List.mem_singleton.mp hc]
  | line | block | quoted | openBlock | openQuoted =>
    obtain ⟨d, -, rfl⟩ := List.mem_map.mp hc
    rw [blank] at hspace hnewline
    split at hspace
    · next hd => exact absurd (if_pos hd) hnewline
    · exact absurd rfl hspace

/-- A word without blanks is a run of lexemes. -/
theorem split_lexemes {lexemes : List Lexeme} {front word back : JsString}
    (heq : lexemes.flatMap Lexeme.scrubbed = front ++ (word ++ back)) (hword : word ≠ [])
    (hplain : ∀ c ∈ word, c ≠ 32 ∧ c ≠ 10) : ∃ before after,
      lexemes = before ++ (word.map .code ++ after) ∧ before.flatMap Lexeme.scrubbed = front ∧
        after.flatMap Lexeme.scrubbed = back := by
  induction lexemes generalizing front word with
  | nil =>
    obtain ⟨-, hnil⟩ := List.append_eq_nil_iff.mp heq.symm
    exact absurd (List.append_eq_nil_iff.mp hnil).1 hword
  | cons lexeme lexemes ih =>
    obtain ⟨c, word, rfl⟩ := List.exists_cons_of_ne_nil hword
    obtain ⟨hc, hplain'⟩ := List.forall_mem_cons.mp hplain
    rw [List.flatMap_cons, List.cons_append] at heq
    rcases split_before heq.symm with ⟨front', rfl, hrest⟩ | ⟨a, hscrubbed, hrest⟩
    · obtain ⟨before, after, rfl, rfl, rfl⟩ := ih hrest.symm hword hplain
      exact ⟨lexeme :: before, after, rfl, rfl, rfl⟩
    have hmem : c ∈ lexeme.scrubbed := by
      rw [hscrubbed]
      exact List.mem_append_right _ (List.mem_cons_self ..)
    obtain rfl := Lexeme.eq_code hmem hc.1 hc.2
    -- the lexeme is the first character of the word
    obtain ⟨rfl, rfl⟩ : front = [] ∧ a = [] := by
      have hlength := congrArg List.length hscrubbed
      rw [List.length_append] at hlength
      change 1 = front.length + (a.length + 1) at hlength
      exact ⟨List.eq_nil_of_length_eq_zero (by omega), List.eq_nil_of_length_eq_zero (by omega)⟩
    cases word with
    | nil => exact ⟨[], lexemes, rfl, rfl, hrest.symm⟩
    | cons d word =>
      obtain ⟨before, after, rfl, hbefore, hafter⟩ := @ih [] (d :: word) hrest.symm nofun hplain'
      cases before with
      | nil => exact ⟨[], after, rfl, rfl, hafter⟩
      | cons lexeme before =>
        exact absurd (List.append_eq_nil_iff.mp hbefore).1 lexeme.scrubbed_ne_nil

/-- A character that neither begins nor ends a comment or a literal. -/
def Ordinary (c : CodeUnit) : Prop :=
  isQuote c = false ∧ c ≠ unit '/' ∧ c ≠ unit '*' ∧ c ≠ 32 ∧ c ≠ 10

theorem ordinary_of_part {c : CodeUnit} (h : isIdentifierPart c) : Ordinary c := by
  refine ⟨?_, ?_, ?_, ?_, ?_⟩
  · cases hquote : isQuote c with
    | false => rfl
    | true =>
      rcases (Bool.or_eq_true _ _).mp hquote with hc | hc <;> obtain rfl := of_decide_eq_true hc <;>
        exact absurd h (by decide)
  all_goals
    rintro rfl
    exact absurd h (by decide)

theorem IsProgramId.ordinary {id : JsString} (h : IsProgramId id) : id ≠ [] ∧ ∀ c ∈ id, Ordinary c := by
  obtain ⟨word, ⟨hne, hpart⟩, rfl⟩ := h
  refine ⟨fun hnil => hne (List.append_eq_nil_iff.mp hnil).1, fun c hc => ?_⟩
  rcases List.mem_append.mp hc with hc | hc
  · exact ordinary_of_part (hpart c hc)
  · have hsuffix : ∀ c ∈ js ".aleo", Ordinary c := by
      unfold Ordinary
      decide
    exact hsuffix c hc

/-- A lexeme ends before an ordinary character as it does before another one. -/
theorem Lexeme.Stands.ordinary {lexeme : Lexeme} {c d : CodeUnit} {rest rest' : JsString}
    (h : lexeme.Stands (c :: rest)) (hc : Ordinary c) (hd : Ordinary d) :
    lexeme.Stands (d :: rest') := by
  obtain ⟨-, -, -, -, hnewline⟩ := hc
  obtain ⟨-, hslash, hstar, -, -⟩ := hd
  cases lexeme with
  | code e => exact ⟨h.1, fun _ => ⟨fun heq => hslash (Option.some.inj heq),
      fun heq => hstar (Option.some.inj heq)⟩⟩
  | line text => exact absurd (h.2 c rfl) hnewline
  | block text => exact h
  | quoted quote text => exact h
  | openBlock text => exact nomatch h.2
  | openQuoted quote text => exact nomatch h.2.2

theorem Lexeme.Stands.same_head {lexeme : Lexeme} {c : CodeUnit} {rest rest' : JsString}
    (h : lexeme.Stands (c :: rest)) : lexeme.Stands (c :: rest') := by
  cases lexeme with
  | code | line | block | quoted => exact h
  | openBlock text => exact nomatch h.2
  | openQuoted quote text => exact nomatch h.2.2

theorem Lexical.word {word : JsString} {after : List Lexeme} (h : Lexical after)
    (hword : ∀ c ∈ word, Ordinary c) : Lexical (word.map .code ++ after) := by
  induction word with
  | nil => exact h
  | cons c word ih =>
    obtain ⟨⟨hquote, hslash, -⟩, hword⟩ := List.forall_mem_cons.mp hword
    exact ⟨⟨hquote, fun hc => absurd hc hslash⟩, ih hword⟩

theorem Lexical.right {before after : List Lexeme} (h : Lexical (before ++ after)) : Lexical after := by
  induction before with
  | nil => exact h
  | cons lexeme before ih => exact ih h.2

theorem sourceOf_append (before after : List Lexeme) :
    sourceOf (before ++ after) = sourceOf before ++ sourceOf after := List.flatMap_append

theorem sourceOf_word (word : JsString) : sourceOf (word.map .code) = word := by
  rw [sourceOf, List.flatMap_map]
  exact List.flatMap_singleton' word

theorem scrubbed_word (word : JsString) : (word.map Lexeme.code).flatMap Lexeme.scrubbed = word := by
  rw [List.flatMap_map]
  exact List.flatMap_singleton' word

/-- A word of the code may be replaced: every other lexeme stays what it is. -/
theorem Lexical.replace {before after : List Lexeme} {word word' : JsString}
    (h : Lexical (before ++ (word.map .code ++ after))) (hne : word ≠ []) (hne' : word' ≠ [])
    (hword : ∀ c ∈ word, Ordinary c) (hword' : ∀ c ∈ word', Ordinary c) :
    Lexical (before ++ (word'.map .code ++ after)) := by
  induction before with
  | nil =>
    have hafter : Lexical after := Lexical.right h
    exact hafter.word hword'
  | cons lexeme before ih =>
    obtain ⟨hstands, hrest⟩ := h
    refine ⟨?_, ih hrest⟩
    cases before with
    | nil =>
      obtain ⟨c, word, rfl⟩ := List.exists_cons_of_ne_nil hne
      obtain ⟨d, word', rfl⟩ := List.exists_cons_of_ne_nil hne'
      exact Lexeme.Stands.ordinary hstands (hword c (List.mem_cons_self ..))
        (hword' d (List.mem_cons_self ..))
    | cons next before =>
      obtain ⟨c, text, htext⟩ := List.exists_cons_of_ne_nil next.text_ne_nil
      change lexeme.Stands (next.text ++ sourceOf (before ++ (word.map .code ++ after))) at hstands
      change lexeme.Stands (next.text ++ sourceOf (before ++ (word'.map .code ++ after)))
      rw [htext] at hstands ⊢
      exact Lexeme.Stands.same_head hstands

/-! ## The renamed program -/

/-- What stands before and after the id of a program declaration, without comments and literals. -/
def Declares (before after : JsString) : Prop :=
  (∃ head spaces, before = head ++ (js "program" ++ spaces) ∧ spaces ≠ [] ∧ Spaces spaces ∧
    ∀ c ∈ head.getLast?, isIdentifierPart c = false) ∧
  ∃ spaces c rest, after = spaces ++ c :: rest ∧ Spaces spaces ∧ Opens c

/-- The source is cut into lexemes at the id of its declaration. Only these lexemes are replaced, the
others stay lexemes of the same kind, and the new id is what the result declares. -/
theorem rename_touches_declaration {source : JsString} {rename : RenamePlan}
    (hsource : extractProgramId source = some rename.sourceProgramId)
    (htarget : IsProgramId rename.targetProgramId) : ∃ before after : List Lexeme,
      Lexical (before ++ (rename.sourceProgramId.map .code ++ after)) ∧
      source = sourceOf before ++ (rename.sourceProgramId ++ sourceOf after) ∧
      Declares (before.flatMap Lexeme.scrubbed) (after.flatMap Lexeme.scrubbed) ∧
      Lexical (before ++ (rename.targetProgramId.map .code ++ after)) ∧
      ∃ text, rewriteMainProgramDeclaration source rename = .ok text ∧
        text = sourceOf before ++ (rename.targetProgramId ++ sourceOf after) ∧
        extractProgramId text = some rename.targetProgramId := by
  obtain ⟨⟨k, id⟩, hfound, hid⟩ := Option.map_eq_some_iff.mp hsource
  obtain rfl : id = rename.sourceProgramId := hid
  obtain ⟨lexemes, hlexical, rfl⟩ := exists_lexical source
  have hfirst := hfound
  rw [scrub_sourceOf hlexical] at hfirst
  obtain ⟨head, tail, j, hsplit, rfl, hmatch, hlast, hskips⟩ := findDeclaration_eq_some.mp hfirst
  obtain ⟨spaces, word, trail, c, rest, rfl, hsome, hspaces, hword, htrail, hopens, rfl, hid⟩ :=
    matchDeclaration_eq_some.mp hmatch
  have hprogram : IsProgramId rename.sourceProgramId := ⟨word, hword, hid⟩
  obtain ⟨hne, hordinary⟩ := hprogram.ordinary
  obtain ⟨hne', hordinary'⟩ := htarget.ordinary
  have hcut : lexemes.flatMap Lexeme.scrubbed = head ++ (js "program" ++ spaces) ++
      (rename.sourceProgramId ++ (trail ++ c :: rest)) := by
    rw [hsplit, hid]
    simp only [List.append_assoc]
  obtain ⟨before, after, rfl, hbefore, hafter⟩ := split_lexemes hcut hne fun d hd =>
    ⟨(hordinary d hd).2.2.2.1, (hordinary d hd).2.2.2.2⟩
  have hrenamed := hlexical.replace hne hne' hordinary hordinary'
  have hsourceOf : ∀ id : JsString, sourceOf (before ++ (id.map .code ++ after)) =
      sourceOf before ++ (id ++ sourceOf after) := fun id => by
    rw [sourceOf_append, sourceOf_append, sourceOf_word]
  have hstart : head.length + (7 + spaces.length) = (sourceOf before).length := by
    rw [(forall₂_scrubbed before).length_eq, hbefore]
    have hlength : (js "program").length = 7 := by decide
    simp only [List.length_append, hlength]
  refine ⟨before, after, hlexical, hsourceOf _, ⟨⟨head, spaces, hbefore, hsome, hspaces, ?_⟩,
    trail, c, rest, hafter, htrail, hopens⟩, hrenamed,
    sourceOf before ++ (rename.targetProgramId ++ sourceOf after), ?_, rfl, ?_⟩
  · intro d hd
    rw [lastOf, Option.mem_def.mp hd] at hlast
    simpa using hlast
  · rw [rewriteMainProgramDeclaration, hfound]
    simp only [if_true]
    rw [hstart, hsourceOf, ← List.drop_drop, List.take_left, List.drop_left, List.drop_left,
      List.append_assoc]
  · obtain ⟨word', hword', htarget⟩ := htarget
    have hagain : findDeclaration none (head ++ (js "program" ++ (spaces ++ (word' ++ (js ".aleo" ++
        (trail ++ c :: rest)))))) = some (head.length + (7 + spaces.length), word' ++ js ".aleo") :=
      findDeclaration_eq_some.mpr ⟨head, _, _, rfl, rfl, matchDeclaration_eq_some.mpr
        ⟨spaces, word', trail, c, rest, rfl, hsome, hspaces, hword', htrail, hopens, rfl, rfl⟩, hlast,
        hskips.replace hlast hspaces hsome⟩
    rw [extractProgramId, ← hsourceOf, scrub_sourceOf hrenamed, List.flatMap_append, List.flatMap_append,
      hbefore, hafter, scrubbed_word, htarget]
    simp only [List.append_assoc]
    rw [hagain]
    rfl

theorem rename_in_comment :
    ∃ before after : List Lexeme,
      Lexical (before ++ ((js "a.aleo").map .code ++ after)) ∧
      js "// program a.aleo \x7b\nprogram a.aleo\x7b\x7d" = sourceOf before ++ (js "a.aleo" ++ sourceOf after) ∧
      Declares (before.flatMap Lexeme.scrubbed) (after.flatMap Lexeme.scrubbed) ∧
      Lexical (before ++ ((js "b.aleo").map .code ++ after)) ∧
      ∃ text, rewriteMainProgramDeclaration (js "// program a.aleo \x7b\nprogram a.aleo\x7b\x7d")
          ⟨js "a.aleo", js "b.aleo"⟩ = .ok text ∧
        text = sourceOf before ++ (js "b.aleo" ++ sourceOf after) ∧
        extractProgramId text = some (js "b.aleo") :=
  @rename_touches_declaration (js "// program a.aleo \x7b\nprogram a.aleo\x7b\x7d") ⟨js "a.aleo", js "b.aleo"⟩
    (by decide +kernel) ⟨js "b", ⟨by decide, by decide⟩, by decide⟩

end Lionden.Build
