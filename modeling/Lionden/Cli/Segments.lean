import Lionden.Cli.TaskDispatch

/-!
# Named segments (`task-dispatch.ts`)

An argument vector is a task id between named segments and bare tokens.

* `Segment`, `Item`: what stands on the command line, with its tokens.
* `findFrom_segments`: the first pass steps over named segments, if no flag takes the token after
  them.
* `parseLoop_invariant`: what every token keeps, the second pass keeps.
* `parseLoop_segment`, `parseLoop_items`: the second pass stores every segment under its slot.
-/

namespace Lionden.Cli

open Lionden.Core

/-- A named segment: `--flag`, `--o=v` or `--o v`. -/
inductive Segment where
  | flag (name : JsString)
  | inline (name value : JsString)
  | valued (name value : JsString)
  deriving DecidableEq

namespace Segment

def name : Segment → JsString
  | flag name | inline name _ | valued name _ => name

def tokens : Segment → List JsString
  | flag name => [js "--" ++ name]
  | inline name value => [js "--" ++ name ++ [61] ++ value]
  | valued name value => [js "--" ++ name, value]

/-- The flags are booleans, and the options with a value of their own token are not. -/
def WellFormed (L : Lookups) : Segment → Prop
  | flag name => 61 ∉ name ∧ (L.route name).isBoolean = true
  | inline name _ => 61 ∉ name
  | valued name value =>
    61 ∉ name ∧ (L.route name).isBoolean = false ∧ isOptionToken value = false

/-- Where the segment is stored. -/
def slot (L : Lookups) (s : Segment) : Slot := (L.route s.name).slot

/-- What is stored there. -/
def value (L : Lookups) : Segment → JsValue
  | flag _ => .boolean true
  | inline name value =>
    if (L.route name).isBoolean then .boolean (coerceFlagValue (some value)) else .string value
  | valued _ value => .string value

/-- What the segment does to the parsed arguments. -/
def apply (L : Lookups) (p : ParsedArgs) (s : Segment) : ParsedArgs := p.store (s.slot L) (s.value L)

end Segment

/-- A segment or a bare token. -/
inductive Item where
  | segment (s : Segment)
  | bare (arg : JsString)

def Item.tokens : Item → List JsString
  | segment s => s.tokens
  | bare arg => [arg]

/-! ## Tokens -/

theorem isOptionToken_dashes (s : JsString) : isOptionToken (js "--" ++ s) = true := rfl

theorem splitOptionToken_dashes (body : JsString) :
    splitOptionToken (js "--" ++ body) =
      if 61 ∈ body then (body.takeWhile (· ≠ 61), some ((body.dropWhile (· ≠ 61)).drop 1))
      else (body, none) := rfl

theorem splitOptionToken_name {name : JsString} (h : 61 ∉ name) :
    splitOptionToken (js "--" ++ name) = (name, none) := by
  rw [splitOptionToken_dashes, if_neg h]

theorem splitOptionToken_inline {name : JsString} (h : 61 ∉ name) (value : JsString) :
    splitOptionToken (js "--" ++ name ++ [61] ++ value) = (name, some value) := by
  have hname (c : CodeUnit) (hc : c ∈ name) : decide (c ≠ 61) = true :=
    decide_eq_true fun heq => h (heq ▸ hc)
  rw [List.append_assoc, List.append_assoc, splitOptionToken_dashes, if_pos (by simp),
    List.takeWhile_append_of_pos hname, List.dropWhile_append_of_pos hname]
  simp

/-! ## The first pass -/

variable {R : Registry} {L : Lookups}

theorem findFrom_cons (R : Registry) (i : Nat) (arg : JsString) (rest : List JsString)
    (first : Option (JsString × Nat)) :
    R.findFrom i (arg :: rest) first =
      if isOptionToken arg then
        if (splitOptionToken arg).2.isNone && R.isValuedOption (splitOptionToken arg).1 &&
            R.canConsume rest then R.findFrom (i + 2) rest.tail first
        else R.findFrom (i + 1) rest first
      else if R.isTask arg then some (arg, i)
      else R.findFrom (i + 1) rest (first.or (some (arg, i))) := by
  cases rest <;> rfl

theorem findFrom_inline {name : JsString} (h : 61 ∉ name) (value : JsString) (i : Nat)
    (rest : List JsString) (first : Option (JsString × Nat)) :
    R.findFrom i ((js "--" ++ name ++ [61] ++ value) :: rest) first = R.findFrom (i + 1) rest first := by
  rw [findFrom_cons, splitOptionToken_inline h, List.append_assoc, List.append_assoc,
    isOptionToken_dashes]
  simp

/-- An option without a value of its own: it takes the next token or does not. -/
theorem findFrom_name {name : JsString} (h : 61 ∉ name) (i : Nat) (rest : List JsString)
    (first : Option (JsString × Nat)) :
    R.findFrom i ((js "--" ++ name) :: rest) first =
      if R.isValuedOption name && R.canConsume rest then R.findFrom (i + 2) rest.tail first
      else R.findFrom (i + 1) rest first := by
  rw [findFrom_cons, splitOptionToken_name h, isOptionToken_dashes]
  simp

theorem findFrom_bare {arg : JsString} (hbare : isOptionToken arg = false)
    (htask : R.isTask arg = false) (i : Nat) (rest : List JsString)
    (first : Option (JsString × Nat)) :
    R.findFrom i (arg :: rest) first = R.findFrom (i + 1) rest (first.or (some (arg, i))) := by
  rw [findFrom_cons]
  simp [hbare, htask]

theorem findFrom_task {arg : JsString} (hbare : isOptionToken arg = false)
    (htask : R.isTask arg = true) (i : Nat) (rest : List JsString)
    (first : Option (JsString × Nat)) : R.findFrom i (arg :: rest) first = some (arg, i) := by
  rw [findFrom_cons]
  simp [hbare, htask]

/-- A flag that the first pass takes for an option with a value. -/
def Segment.isGreedy (R : Registry) : Segment → Bool
  | flag name => R.isValuedOption name
  | _ => false

/-- The value is not taken for the task id: the first pass knows that it is a value, or it is no
task. -/
def Segment.Safe (R : Registry) : Segment → Prop
  | valued name value => R.isValuedOption name = true ∨ R.isTask value = false
  | _ => True

theorem Segment.tokens_head (s : Segment) : ∃ rest, s.tokens = s.tokens.headD [] :: rest ∧
    isOptionToken (s.tokens.headD []) = true := by
  cases s <;> exact ⟨_, rfl, rfl⟩

theorem hasTaskToken_append (R : Registry) (a b : List JsString) :
    R.hasTaskToken (a ++ b) = (R.hasTaskToken a || R.hasTaskToken b) := List.any_append

/-- An option token is taken by no option. -/
theorem canConsume_segments (s : Segment) (segments : List Segment) (more : List JsString) :
    R.canConsume ((s :: segments).flatMap Segment.tokens ++ more) = false := by
  obtain ⟨rest, htokens, hhead⟩ := s.tokens_head
  rw [List.flatMap_cons, htokens, List.cons_append, List.cons_append, Registry.canConsume, hhead]
  rfl

/-- The first pass steps over named segments, to the task token that is among what follows. -/
theorem findFrom_segments {segments : List Segment} {more : List JsString}
    (hwf : ∀ s ∈ segments, s.WellFormed L) (hsafe : ∀ s ∈ segments, s.Safe R)
    (htask : R.hasTaskToken more = true)
    (hgreedy : ∀ s ∈ segments, s.isGreedy R = true → R.canConsume more = false) (i : Nat)
    (first : Option (JsString × Nat)) :
    ∃ first', R.findFrom i (segments.flatMap Segment.tokens ++ more) first =
      R.findFrom (i + (segments.flatMap Segment.tokens).length) more first' := by
  induction segments generalizing i first with
  | nil => exact ⟨first, rfl⟩
  | cons s segments ih =>
    have ih := fun i first => ih (fun s' hs' => hwf s' (List.mem_cons_of_mem s hs'))
      (fun s' hs' => hsafe s' (List.mem_cons_of_mem s hs'))
      (fun s' hs' => hgreedy s' (List.mem_cons_of_mem s hs')) i first
    have hs := hwf s List.mem_cons_self
    have hrest : R.hasTaskToken (segments.flatMap Segment.tokens ++ more) = true := by
      rw [hasTaskToken_append, htask, Bool.or_true]
    cases s with
    | flag name =>
      have hnot : (R.isValuedOption name &&
          R.canConsume (segments.flatMap Segment.tokens ++ more)) = false := by
        cases segments with
        | nil =>
          cases hvalued : R.isValuedOption name with
          | false => rfl
          | true => exact hgreedy _ List.mem_cons_self hvalued
        | cons s' segments => rw [canConsume_segments, Bool.and_false]
      obtain ⟨first', hfirst⟩ := ih (i + 1) first
      refine ⟨first', ?_⟩
      simp only [List.flatMap_cons, Segment.tokens, List.cons_append, List.nil_append,
        List.length_cons]
      rw [findFrom_name hs.1, hnot, if_neg Bool.false_ne_true, hfirst]
      congr 1
      omega
    | inline name value =>
      obtain ⟨first', hfirst⟩ := ih (i + 1) first
      refine ⟨first', ?_⟩
      simp only [List.flatMap_cons, Segment.tokens, List.cons_append, List.nil_append,
        List.length_cons]
      rw [findFrom_inline hs, hfirst]
      congr 1
      omega
    | valued name value =>
      have hconsume : R.canConsume (value :: (segments.flatMap Segment.tokens ++ more)) = true := by
        rw [Registry.canConsume, hs.2.2, hrest]
        rfl
      simp only [List.flatMap_cons, Segment.tokens, List.cons_append, List.nil_append,
        List.length_cons]
      rw [findFrom_name hs.1, hconsume, Bool.and_true]
      cases hvalued : R.isValuedOption name with
      | true =>
        obtain ⟨first', hfirst⟩ := ih (i + 2) first
        refine ⟨first', ?_⟩
        rw [if_pos rfl, List.tail_cons, hfirst]
        congr 1
        omega
      | false =>
        have hvalue : R.isTask value = false :=
          (hsafe _ List.mem_cons_self).resolve_left (by rw [hvalued]; exact Bool.false_ne_true)
        obtain ⟨first', hfirst⟩ := ih (i + 2) (first.or (some (value, i + 1)))
        refine ⟨first', ?_⟩
        rw [if_neg Bool.false_ne_true, findFrom_bare hs.2.2 hvalue, hfirst]
        congr 1
        omega

/-! ## The second pass -/

theorem parseLoop_cons (L : Lookups) (taskIndex : Option Nat) (i : Nat) (arg : JsString)
    (rest : List JsString) (p : ParsedArgs) :
    parseLoop L taskIndex i (arg :: rest) p =
      if taskIndex = some i then parseLoop L taskIndex (i + 1) rest p
      else if isOptionToken arg then
        if (parseOption (L.route (splitOptionToken arg).1) (splitOptionToken arg).2
            (nextValue taskIndex i rest) p).2 then
          parseLoop L taskIndex (i + 2) rest.tail (parseOption (L.route (splitOptionToken arg).1)
            (splitOptionToken arg).2 (nextValue taskIndex i rest) p).1
        else parseLoop L taskIndex (i + 1) rest (parseOption (L.route (splitOptionToken arg).1)
            (splitOptionToken arg).2 (nextValue taskIndex i rest) p).1
      else parseBare taskIndex i arg p >>= parseLoop L taskIndex (i + 1) rest := by
  cases rest <;> rfl

/-- What every token keeps, the parse keeps. -/
theorem parseLoop_invariant {L : Lookups} {taskIndex : Option Nat} {I : ParsedArgs → Prop}
    (hoption : ∀ route inlineValue next p, I p → I (parseOption route inlineValue next p).1)
    (hbare : ∀ i arg p p', I p → parseBare taskIndex i arg p = .ok p' → I p') {i : Nat}
    {tokens : List JsString} {p p' : ParsedArgs} (hp : I p)
    (h : parseLoop L taskIndex i tokens p = .ok p') : I p' := by
  induction hlength : tokens.length using Nat.strong_induction_on generalizing i tokens p with
  | _ n ih =>
    cases tokens with
    | nil =>
      cases h
      exact hp
    | cons arg rest =>
      have hrest : rest.length < n := by rw [← hlength]; exact Nat.lt_succ_self _
      have htail : rest.tail.length < n := by rw [List.length_tail]; omega
      rw [parseLoop_cons] at h
      split at h
      · exact ih _ hrest hp h rfl
      · split at h
        · split at h
          · exact ih _ htail (hoption _ _ _ p hp) h rfl
          · exact ih _ hrest (hoption _ _ _ p hp) h rfl
        · obtain ⟨p₁, hp₁, h⟩ := Fallible.bind_ok.mp h
          exact ih _ hrest (hbare i arg p p₁ hp hp₁) h rfl

theorem parseOption_boolean {route : Route} (h : route.isBoolean = true)
    (inlineValue next : Option JsString) (p : ParsedArgs) :
    parseOption route inlineValue next p =
      (p.store route.slot (.boolean (coerceFlagValue inlineValue)), false) := if_pos h

theorem parseOption_inline {route : Route} (h : route.isBoolean = false) (value : JsString)
    (next : Option JsString) (p : ParsedArgs) :
    parseOption route (some value) next p = (p.store route.slot (.string value), false) := by
  unfold parseOption
  rw [h]
  rfl

theorem parseOption_next {route : Route} (h : route.isBoolean = false) (value : JsString)
    (p : ParsedArgs) :
    parseOption route none (some value) p = (p.store route.slot (.string value), true) := by
  unfold parseOption
  rw [h]
  rfl

theorem parseLoop_segment {s : Segment} (hs : s.WellFormed L) {t i : Nat}
    (haway : t < i ∨ i + s.tokens.length ≤ t) (rest : List JsString) (p : ParsedArgs) :
    parseLoop L (some t) i (s.tokens ++ rest) p =
      parseLoop L (some t) (i + s.tokens.length) rest (s.apply L p) := by
  have hne : some t ≠ some i := by
    intro heq
    cases heq
    cases s <;> simp [Segment.tokens] at haway
  cases s with
  | flag name =>
    rw [Segment.tokens, List.singleton_append, parseLoop_cons, if_neg hne, isOptionToken_dashes,
      if_pos rfl, splitOptionToken_name hs.1, parseOption_boolean hs.2]
    rfl
  | inline name value =>
    rw [Segment.tokens, List.singleton_append, parseLoop_cons, if_neg hne,
      splitOptionToken_inline hs, List.append_assoc, List.append_assoc, isOptionToken_dashes,
      if_pos rfl, Segment.apply, Segment.value, Segment.slot, Segment.name]
    cases hboolean : (L.route name).isBoolean with
    | true =>
      rw [parseOption_boolean hboolean]
      rfl
    | false =>
      rw [parseOption_inline hboolean]
      rfl
  | valued name value =>
    have hnext : nextValue (some t) i (value :: rest) = some value := by
      have ht : some t ≠ some (i + 1) := fun heq => by
        cases heq
        simp [Segment.tokens] at haway
      rw [nextValue, if_neg (by simp only [ht, hs.2.2]; simp)]
    rw [Segment.tokens, List.cons_append, List.singleton_append, parseLoop_cons, if_neg hne,
      isOptionToken_dashes, if_pos rfl, splitOptionToken_name hs.1, hnext, parseOption_next hs.2.1]
    rfl

theorem parseLoop_segments {segments : List Segment} (hwf : ∀ s ∈ segments, s.WellFormed L)
    {t i : Nat} (haway : i + (segments.flatMap Segment.tokens).length ≤ t) (more : List JsString)
    (p : ParsedArgs) :
    parseLoop L (some t) i (segments.flatMap Segment.tokens ++ more) p =
      parseLoop L (some t) (i + (segments.flatMap Segment.tokens).length) more
        (segments.foldl (Segment.apply L) p) := by
  induction segments generalizing i p with
  | nil => rfl
  | cons s segments ih =>
    obtain ⟨hs, hsegments⟩ := List.forall_mem_cons.mp hwf
    rw [List.flatMap_cons, List.length_append] at haway ⊢
    rw [List.append_assoc, parseLoop_segment hs (.inr (by omega)), ih hsegments (by omega),
      List.foldl_cons, Nat.add_assoc]

/-- A segment is well formed, a bare token is no option. -/
def Item.WellFormed (L : Lookups) : Item → Prop
  | segment s => s.WellFormed L
  | bare arg => isOptionToken arg = false

/-- What an item after the task does to the parsed arguments. -/
def Item.apply (L : Lookups) (p : ParsedArgs) : Item → Except JsString ParsedArgs
  | segment s => .ok (s.apply L p)
  | bare arg => pushPositional p arg

theorem parseLoop_items {items : List Item} (hwf : ∀ item ∈ items, item.WellFormed L) {t i : Nat}
    (hi : t < i) (p : ParsedArgs) :
    parseLoop L (some t) i (items.flatMap Item.tokens) p = items.foldlM (Item.apply L) p := by
  induction items generalizing i p with
  | nil => rfl
  | cons item items ih =>
    obtain ⟨hitem, hitems⟩ := List.forall_mem_cons.mp hwf
    rw [List.flatMap_cons, List.foldlM_cons]
    cases item with
    | segment s =>
      rw [Item.tokens, parseLoop_segment hitem (.inl hi)]
      exact ih hitems (by omega) _
    | bare arg =>
      have hne : some t ≠ some i := fun heq => by cases heq; omega
      rw [Item.tokens, List.singleton_append, parseLoop_cons, if_neg hne, hitem,
        if_neg Bool.false_ne_true, parseBare, if_pos hi]
      exact congrArg (pushPositional p arg >>= ·) (funext fun p => ih hitems (by omega) p)

end Lionden.Cli
