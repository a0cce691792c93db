import Lionden.Codegen.Abi
import Lionden.Targets.Selection

/-!
# Comments, strings and the program declaration

A source is scrubbed before it is searched: in a comment or a string only the newlines stay.

* `stripCommentsAndStrings`: the scrubbed text.
* `rewriteMainProgramDeclaration`: a program under another name.
* `rewrite_self`: under its own name it is what it was.
-/

namespace Lionden.Build

open Codegen (isIdentifierPart)
open Targets (RenamePlan)

/-! ## Scrubbing -/

/-- What a character is part of: code, a comment that ends with its line, a comment that is closed, or
a string. -/
inductive Span where
  | code
  | line
  | block
  | quoted (quote : CodeUnit)

/-- What is left of a character: a newline or a space. -/
def blank (ch : CodeUnit) : CodeUnit := if ch = 10 then 10 else 32

def isQuote (ch : CodeUnit) : Bool := ch = 34 || ch = 39

/-- The rest of a text that begins within a span. A comment or a string that is not closed goes on to
the end. -/
def scrub : Span → JsString → JsString
  | _, [] => []
  | .code, [c] => [if isQuote c then 32 else c]
  | .code, c :: d :: rest =>
    if c = unit '/' ∧ d = unit '/' then 32 :: 32 :: scrub .line rest
    else if c = unit '/' ∧ d = unit '*' then 32 :: 32 :: scrub .block rest
    else if isQuote c then 32 :: scrub (.quoted c) (d :: rest)
    else c :: scrub .code (d :: rest)
  | .line, c :: rest => if c = 10 then 10 :: scrub .code rest else 32 :: scrub .line rest
  | .block, [c] => [blank c]
  | .block, c :: d :: rest =>
    if c = unit '*' ∧ d = unit '/' then 32 :: 32 :: scrub .code rest
    else blank c :: scrub .block (d :: rest)
  | .quoted quote, c :: rest =>
    if c = quote then 32 :: scrub .code rest else blank c :: scrub (.quoted quote) rest

def stripCommentsAndStrings (src : JsString) : JsString := scrub .code src

/-! ## The declaration -/

def startsWith (s t : JsString) : Bool := decide (t <+: s)

/-- `program\s+([\w]+\.aleo)\s*(?=[:{])` at the beginning of a text: the offset of the id, and the id.
A word is matched as a whole, since no dot is part of one. -/
def matchDeclaration (text : JsString) : Option (Nat × JsString) :=
  if startsWith text (js "program") then
    let rest := text.drop 7
    let spaces := rest.takeWhile isWhiteSpace
    let rest := rest.dropWhile isWhiteSpace
    let word := rest.takeWhile isIdentifierPart
    let rest := rest.dropWhile isIdentifierPart
    if spaces ≠ [] ∧ word ≠ [] ∧ startsWith rest (js ".aleo") ∧
        ((rest.drop 5).dropWhile isWhiteSpace).head?.any (fun c => c = unit ':' || c = unit '{') then
      some (7 + spaces.length, word ++ js ".aleo")
    else none
  else none

/-- The first declaration of a text that stands after the character `before`: a word boundary comes
before it. -/
def findDeclaration (before : Option CodeUnit) : JsString → Option (Nat × JsString)
  | [] => none
  | c :: rest =>
    let here := if before.any isIdentifierPart then none else matchDeclaration (c :: rest)
    match here with
    | some found => some found
    | none => (findDeclaration (some c) rest).map fun (offset, id) => (offset + 1, id)

def rewriteMainProgramDeclaration (source : JsString) (rename : RenamePlan) :
    Except JsString JsString :=
  let mismatch : Except JsString JsString := .error (js "Cannot rename \"" ++
    rename.sourceProgramId ++ js "\" to \"" ++ rename.targetProgramId ++
    js "\": main.leo does not declare the source program.")
  match findDeclaration none (stripCommentsAndStrings source) with
  | some (idStart, id) =>
    if id = rename.sourceProgramId then
      .ok (source.take idStart ++ rename.targetProgramId ++ source.drop (idStart + id.length))
    else mismatch
  | none => mismatch

/-! ## A program under its own name -/

/-- A character that is neither a space nor a newline is as in the source. -/
theorem getElem?_scrub {span : Span} {src : JsString} {i : Nat} {ch : CodeUnit}
    (h : (scrub span src)[i]? = some ch) (hspace : ch ≠ 32) (hnewline : ch ≠ 10) :
    src[i]? = some ch := by
  have hblank (c : CodeUnit) : blank c = 32 ∨ blank c = 10 := by
    unfold blank
    split <;> simp
  fun_induction scrub span src generalizing i with
  | case1 => simp at h
  | case2 c =>
    cases i with
    | zero => grind
    | succ i => simp at h
  | case3 c d rest hc ih =>
    match i with
    | 0 => grind
    | 1 => grind
    | i + 2 => exact ih h
  | case4 c d rest hline hc ih =>
    match i with
    | 0 => grind
    | 1 => grind
    | i + 2 => exact ih h
  | case5 c d rest hline hblock hquote ih =>
    match i with
    | 0 => grind
    | i + 1 => exact ih h
  | case6 c d rest hline hblock hquote ih =>
    match i with
    | 0 => exact h
    | i + 1 => exact ih h
  | case7 rest ih =>
    match i with
    | 0 => grind
    | i + 1 => exact ih h
  | case8 c rest hc ih =>
    match i with
    | 0 => grind
    | i + 1 => exact ih h
  | case9 c =>
    match i with
    | 0 => grind
    | i + 1 => simp at h
  | case10 c d rest hc ih =>
    match i with
    | 0 => grind
    | 1 => grind
    | i + 2 => exact ih h
  | case11 c d rest hc ih =>
    match i with
    | 0 => grind
    | i + 1 => exact ih h
  | case12 rest quote ih =>
    match i with
    | 0 => grind
    | i + 1 => exact ih h
  | case13 quote c rest hc ih =>
    match i with
    | 0 => grind
    | i + 1 => exact ih h

/-- The id of a declaration stands where it is said to, and has no white space. -/
theorem matchDeclaration_some {text id : JsString} {k : Nat}
    (h : matchDeclaration text = some (k, id)) :
    id <+: text.drop k ∧ ∀ c ∈ id, c ≠ 32 ∧ c ≠ 10 := by
  unfold matchDeclaration at h
  split at h
  case isFalse => exact nomatch h
  next hprogram =>
  dsimp only at h
  split at h
  case isFalse => exact nomatch h
  next hcond =>
  obtain ⟨-, -, haleo, -⟩ := hcond
  cases h
  unfold startsWith at haleo
  rw [decide_eq_true_eq] at haleo
  constructor
  · -- What is dropped before the id is the keyword and the white space after it.
    have hdrop : text.drop (7 + ((text.drop 7).takeWhile isWhiteSpace).length) =
        (text.drop 7).dropWhile isWhiteSpace := by
      rw [← List.drop_drop]
      generalize text.drop 7 = rest
      nth_rewrite 2 [← List.takeWhile_append_dropWhile (p := isWhiteSpace) (l := rest)]
      exact List.drop_left
    rw [hdrop]
    obtain ⟨rest, hrest⟩ := haleo
    refine ⟨rest, ?_⟩
    rw [List.append_assoc, hrest, List.takeWhile_append_dropWhile]
  · intro c hc
    rcases List.mem_append.mp hc with hword | hsuffix
    · have := List.mem_takeWhile_imp hword
      constructor <;> rintro rfl <;> exact absurd this (by decide)
    · have hplain : ∀ c ∈ js ".aleo", c ≠ 32 ∧ c ≠ 10 := by decide
      exact hplain c hsuffix

theorem findDeclaration_some {before : Option CodeUnit} {text id : JsString} {k : Nat}
    (h : findDeclaration before text = some (k, id)) :
    id <+: text.drop k ∧ ∀ c ∈ id, c ≠ 32 ∧ c ≠ 10 := by
  induction text generalizing before k with
  | nil => exact nomatch h
  | cons c rest ih =>
    unfold findDeclaration at h
    dsimp only at h
    split at h
    next found hhere =>
      cases h
      split at hhere
      · exact nomatch hhere
      · exact matchDeclaration_some hhere
    next =>
      obtain ⟨⟨offset, id'⟩, hfound, heq⟩ := Option.map_eq_some_iff.mp h
      cases heq
      exact ih hfound

/-- The declaration that is found in the scrubbed text stands in the source. -/
theorem declaration_in_source {source id : JsString} {k : Nat}
    (h : findDeclaration none (stripCommentsAndStrings source) = some (k, id)) :
    id <+: source.drop k := by
  obtain ⟨hscrubbed, hplain⟩ := findDeclaration_some h
  rw [List.prefix_iff_getElem?] at hscrubbed ⊢
  intro i hi
  have hchar := hplain id[i] (List.getElem_mem hi)
  have hget := hscrubbed i hi
  rw [List.getElem?_drop] at hget ⊢
  exact getElem?_scrub hget hchar.1 hchar.2

/-- A program that is given its own name stays as it is. -/
theorem rewrite_self {source id text : JsString}
    (h : rewriteMainProgramDeclaration source ⟨id, id⟩ = .ok text) : text = source := by
  unfold rewriteMainProgramDeclaration at h
  dsimp only at h
  split at h
  next idStart found hfound =>
    split at h
    next heq =>
      subst heq
      cases h
      obtain ⟨rest, hrest⟩ := declaration_in_source hfound
      rw [List.append_assoc, ← List.drop_drop, ← hrest, List.drop_left, hrest,
        List.take_append_drop]
    next => exact nomatch h
  next => exact nomatch h

end Lionden.Build
