import Lionden.Js.Text

/-!
# Parts of regular expressions

A pattern is what it matches at the beginning of a text: a function to what it captures, or to the
rest of the text.

* `after`, `afterSpace`, `afterSemicolon`: a literal, `\s+` and `\s*;`.
* `firstAtLine`, `firstAtLine_eq_some`: the first match of a pattern `/^…/m`.
-/

namespace Lionden.RegExp

variable {α : Type}

/-- The rest of `s` after `word`. -/
def after (word s : JsString) : Option JsString :=
  if word <+: s then some (s.drop word.length) else none

/-- The rest of `s` after `\s*;`. -/
def afterSemicolon (s : JsString) : Option JsString := after (js ";") (s.dropWhile isWhiteSpace)

/-- The rest of `s` after `\s+`. -/
def afterSpace (s : JsString) : Option JsString :=
  match s with
  | c :: rest => if isWhiteSpace c then some (rest.dropWhile isWhiteSpace) else none
  | [] => none

theorem after_eq_some {word s rest : JsString} : after word s = some rest ↔ s = word ++ rest := by
  unfold after
  constructor
  · intro h
    split at h
    · next hword =>
      obtain ⟨t, rfl⟩ := hword
      rw [List.drop_left] at h
      rw [Option.some.inj h]
    · cases h
  · rintro rfl
    rw [if_pos (List.prefix_append _ _), List.drop_left]

/-- Where the longest run of a class of characters ends. -/
theorem takeWhile_dropWhile {p : CodeUnit → Bool} {run rest : JsString} (hrun : ∀ c ∈ run, p c = true)
    (hrest : ∀ c, rest.head? = some c → p c = false) :
    (run ++ rest).takeWhile p = run ∧ (run ++ rest).dropWhile p = rest := by
  rw [List.takeWhile_append_of_pos hrun, List.dropWhile_append_of_pos hrun]
  cases rest with
  | nil => exact ⟨by rw [List.takeWhile_nil, List.append_nil], rfl⟩
  | cons c rest =>
    have hc : ¬p c = true := Bool.eq_false_iff.mp (hrest c rfl)
    rw [List.takeWhile_cons_of_neg hc, List.dropWhile_cons_of_neg hc, List.append_nil]
    exact ⟨rfl, rfl⟩

theorem dropWhile_head {p : CodeUnit → Bool} {s : JsString} {c : CodeUnit}
    (h : (s.dropWhile p).head? = some c) : p c = false := by
  induction s with
  | nil => cases h
  | cons d s ih =>
    rw [List.dropWhile_cons] at h
    split at h
    · exact ih h
    · next hd =>
      cases h
      exact Bool.eq_false_iff.mpr hd

/-- `\s*;` where no space precedes the rest. -/
theorem afterSemicolon_eq_some {s rest : JsString} :
    afterSemicolon s = some rest ↔ ∃ spaces, Spaces spaces ∧ s = spaces ++ js ";" ++ rest := by
  unfold afterSemicolon
  rw [after_eq_some]
  constructor
  · intro h
    refine ⟨s.takeWhile isWhiteSpace, fun c hc => List.mem_takeWhile_imp hc, ?_⟩
    rw [List.append_assoc, ← h, List.takeWhile_append_dropWhile]
  · rintro ⟨spaces, hspaces, rfl⟩
    rw [List.append_assoc]
    exact (takeWhile_dropWhile hspaces fun c hc => by cases hc; decide).2

/-- `\s+` before what is no space. -/
theorem afterSpace_eq_some {s rest : JsString} :
    afterSpace s = some rest ↔
      (∃ spaces, spaces ≠ [] ∧ Spaces spaces ∧ s = spaces ++ rest) ∧
        ∀ c, rest.head? = some c → isWhiteSpace c = false := by
  constructor
  · intro h
    cases s with
    | nil => cases h
    | cons c s =>
      rw [afterSpace] at h
      split at h
      · next hc =>
        obtain rfl := Option.some.inj h
        refine ⟨⟨c :: s.takeWhile isWhiteSpace, List.cons_ne_nil _ _, ?_, ?_⟩,
          fun d hd => dropWhile_head hd⟩
        · exact List.forall_mem_cons.mpr ⟨hc, fun d hd => List.mem_takeWhile_imp hd⟩
        · rw [List.cons_append, List.takeWhile_append_dropWhile]
      · cases h
  · rintro ⟨⟨spaces, hne, hspaces, rfl⟩, hrest⟩
    cases spaces with
    | nil => exact absurd rfl hne
    | cons c spaces =>
      obtain ⟨hc, hspaces⟩ := List.forall_mem_cons.mp hspaces
      rw [List.cons_append, afterSpace, if_pos hc, (takeWhile_dropWhile hspaces hrest).2]

/-! ## Lines -/

def isLineTerminator (c : CodeUnit) : Bool := c = 10 || c = 13 || c = 8232 || c = 8233

/-- The first match at the beginning of a line. -/
def firstAtLine (pattern : JsString → Option α) (lineStart : Bool) (s : JsString) : Option α :=
  match if lineStart then pattern s else none with
  | some a => some a
  | none =>
    match s with
    | [] => none
    | c :: rest => firstAtLine pattern (isLineTerminator c) rest

/-- What follows `before` is at the beginning of a line. -/
def EndsLine (lineStart : Bool) (before : JsString) : Prop :=
  match before.getLast? with
  | none => lineStart = true
  | some c => isLineTerminator c = true

theorem endsLine_cons {lineStart : Bool} {c : CodeUnit} {before : JsString} :
    EndsLine lineStart (c :: before) ↔ EndsLine (isLineTerminator c) before := by
  unfold EndsLine
  rw [List.getLast?_cons]
  cases before.getLast? <;> rfl

/-- `pattern` matches with `a` at the beginning of a line, and at no earlier one. -/
def FirstAtLine (pattern : JsString → Option α) (lineStart : Bool) (s : JsString) (a : α) : Prop :=
  ∃ before rest, s = before ++ rest ∧ EndsLine lineStart before ∧ pattern rest = some a ∧
    ∀ before' rest', s = before' ++ rest' → EndsLine lineStart before' →
      before'.length < before.length → pattern rest' = none

theorem firstAtLine_eq_some {pattern : JsString → Option α} {lineStart : Bool} {s : JsString} {a : α} :
    firstAtLine pattern lineStart s = some a ↔ FirstAtLine pattern lineStart s a := by
  induction s generalizing lineStart with
  | nil =>
    unfold firstAtLine
    constructor
    · intro h
      split at h
      · next b hb =>
        cases h
        split at hb
        · next hline => exact ⟨[], [], rfl, hline, hb, fun _ _ _ _ h => nomatch h⟩
        · cases hb
      · cases h
    · rintro ⟨before, rest, heq, hends, hmatch, -⟩
      obtain ⟨rfl, rfl⟩ := List.append_eq_nil_iff.mp heq.symm
      have hline : lineStart = true := hends
      rw [if_pos hline, hmatch]
  | cons c s ih =>
    unfold firstAtLine
    constructor
    · intro h
      split at h
      · next b hb =>
        cases h
        split at hb
        · next hline => exact ⟨[], _, rfl, hline, hb, fun _ _ _ _ h => nomatch h⟩
        · cases hb
      · next hnone =>
        obtain ⟨before, rest, rfl, hends, hmatch, hfirst⟩ := ih.mp h
        refine ⟨c :: before, rest, rfl, endsLine_cons.mpr hends, hmatch, ?_⟩
        intro before' rest' heq hends' hlength
        cases before' with
        | nil =>
          have hline : lineStart = true := hends'
          rw [if_pos hline] at hnone
          rwa [heq] at hnone
        | cons d before' =>
          obtain ⟨rfl, htail⟩ := List.cons.inj heq
          exact hfirst before' rest' htail (endsLine_cons.mp hends') (Nat.lt_of_succ_lt_succ hlength)
    · rintro ⟨before, rest, heq, hends, hmatch, hfirst⟩
      cases before with
      | nil =>
        have hline : lineStart = true := hends
        rw [if_pos hline, heq, List.nil_append, hmatch]
      | cons d before =>
        obtain ⟨rfl, htail⟩ := List.cons.inj heq
        have hnone : (if lineStart = true then pattern (c :: s) else none) = none := by
          split
          · next hline => exact hfirst [] _ rfl hline (Nat.succ_pos _)
          · rfl
        rw [hnone]
        refine ih.mpr ⟨before, rest, htail, endsLine_cons.mp hends, hmatch, ?_⟩
        intro before' rest' heq' hends' hlength
        exact hfirst (c :: before') rest' (congrArg (c :: ·) heq') (endsLine_cons.mpr hends')
          (Nat.succ_lt_succ hlength)

end Lionden.RegExp
