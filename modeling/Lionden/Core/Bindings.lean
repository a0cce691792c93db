import Lionden.Core.PrepareAgain

/-!
# Which parameter takes which bare value (`task-runner.ts`)

* `bindings`: the loop of `applyPositionalArguments`, with what each parameter takes.
* `absorbed`: how many bare values the parameters take that have no value by name.
* `bindings_indices`: the loop takes that many, each once and in order.
-/

namespace Lionden.Core

variable {id : JsString} {values : List (Option JsValue)} {defs : List TaskPositionalArgument}
  {p : TaskPositionalArgument} {cursor : Nat} {result bound : Args}

/-- A parameter with the indices of the bare values that it is bound to. -/
abbrev Binding := TaskPositionalArgument × List Nat

/-- The indices of the bare values that a parameter takes from `cursor` on. -/
def taken (values : List (Option JsValue)) (cursor : Nat) (p : TaskPositionalArgument) : List Nat :=
  if p.variadic then List.range' cursor (values.length - cursor) else [cursor]

/-- What the loop over the positional definitions binds, until it throws. -/
def bindings (values : List (Option JsValue)) :
    List TaskPositionalArgument → Nat → Args → List Binding
  | [], _, _ => []
  | p :: defs, cursor, result =>
    let binds := !has result p.name && decide (cursor < values.length)
    let after := if binds then assign result p.name (bareValue values cursor p) else result
    let next := if binds then (if p.variadic then values.length else cursor + 1) else cursor
    let rest :=
      if p.required && isUndefined (read after p.name) then [] else bindings values defs next after
    if binds then (p, taken values cursor p) :: rest else rest

/-- The value of a binding. -/
def Binding.value (values : List (Option JsValue)) (b : Binding) : JsValue :=
  if b.1.variadic then .array (b.2.map fun i => values[i]?.join)
  else (b.2.head?.bind fun i => values[i]?.join).getD .undefined

/-- How many of `n` bare values the parameters take. -/
def absorbed : List TaskPositionalArgument → Nat → Nat
  | [], _ => 0
  | _, 0 => 0
  | p :: ps, n + 1 => if p.variadic then n + 1 else absorbed ps n + 1

/-! ## The loop -/

theorem value_taken (h : cursor < values.length) :
    Binding.value values (p, taken values cursor p) = bareValue values cursor p := by
  unfold Binding.value taken bareValue
  by_cases hp : p.variadic
  · simp only [hp, if_true]
    congr 1
    refine List.ext_getElem (by simp) fun i hi _ => ?_
    have hlt : cursor + i < values.length := by simp at hi; omega
    simp [List.getElem?_eq_getElem hlt]
  · simp [hp]

/-- A parameter that takes bare values. -/
theorem bindings_cons_taken (hhas : has result p.name = false) (hlt : cursor < values.length) :
    bindings values (p :: defs) cursor result = (p, taken values cursor p) ::
      if p.required &&
          isUndefined (read (assign result p.name (bareValue values cursor p)) p.name) then []
      else bindings values defs (if p.variadic then values.length else cursor + 1)
        (assign result p.name (bareValue values cursor p)) := by
  simp [bindings, hhas, hlt]

/-- A parameter that takes none. -/
theorem bindings_cons_skip (h : has result p.name = true ∨ values.length ≤ cursor) :
    bindings values (p :: defs) cursor result =
      if p.required && isUndefined (read result p.name) then []
      else bindings values defs cursor result := by
  have hbinds : (!has result p.name && decide (cursor < values.length)) = false := by
    rcases h with hhas | hle
    · simp [hhas]
    · simp [hle]
  simp [bindings, hbinds]

/-- What the loop adds to the arguments are the bindings. -/
theorem bindPositionals_bindings (h : bindPositionals id values defs cursor result = .ok bound) :
    bound = (bindings values defs cursor result).foldl
      (fun result b => assign result b.1.name (b.value values)) result := by
  induction defs generalizing cursor result with
  | nil =>
    cases h
    rfl
  | cons p defs ih =>
    obtain ⟨after, next, hrest, hrequired, hstep⟩ := bindPositionals_cons h
    have hthrows : (p.required && isUndefined (read after p.name)) = false := by
      cases hp : p.required with
      | true => exact hrequired hp
      | false => rfl
    rcases hstep with ⟨hhas, hlt, rfl, rfl⟩ | ⟨hskip, rfl, rfl⟩
    · rw [bindings_cons_taken hhas hlt]
      simp only [hthrows, List.foldl_cons, value_taken hlt]
      exact ih hrest
    · rw [bindings_cons_skip hskip, hthrows]
      exact ih hrest

/-- Once the bare values are used up nothing is bound. -/
theorem bindings_of_le (h : values.length ≤ cursor) : bindings values defs cursor result = [] := by
  induction defs with
  | nil => rfl
  | cons p defs ih =>
    rw [bindings_cons_skip (.inr h), ih, ite_self]

/-- The loop binds parameters without a value by name, in their order. -/
theorem bindings_sublist (values : List (Option JsValue)) (defs : List TaskPositionalArgument)
    (cursor : Nat) (result : Args) :
    ((bindings values defs cursor result).map Prod.fst).Sublist (free (has result) defs) := by
  induction defs generalizing cursor result with
  | nil => exact List.Sublist.refl _
  | cons p defs ih =>
    rcases le_or_gt values.length cursor with hle | hlt
    · rw [bindings_of_le hle]
      exact List.nil_sublist _
    · cases hhas : has result p.name with
      | true =>
        rw [bindings_cons_skip (.inl hhas), free_cons_of_named hhas]
        split
        · exact List.nil_sublist _
        · exact ih cursor result
      | false =>
        rw [bindings_cons_taken hhas hlt, free_cons_of_not hhas, List.map_cons]
        refine List.Sublist.cons_cons p ?_
        rw [← has_assign hhas (bareValue values cursor p)]
        split
        · exact List.nil_sublist _
        · exact ih _ _

theorem free_not_named {named : JsString → Bool} (h : p ∈ free named defs) :
    named p.name = false := by
  induction defs generalizing named with
  | nil => cases h
  | cons q defs ih =>
    rw [free] at h
    split at h
    · exact ih h
    · next hq =>
      rcases List.mem_cons.mp h with rfl | h
      · simpa using hq
      · exact (Bool.or_eq_false_iff.mp (ih h)).1

/-- No two of them have the same name. -/
theorem free_nodup (named : JsString → Bool) (defs : List TaskPositionalArgument) :
    ((free named defs).map TaskPositionalArgument.name).Nodup := by
  induction defs generalizing named with
  | nil => exact List.nodup_nil
  | cons p defs ih =>
    rw [free]
    split
    · exact ih named
    · refine List.nodup_cons.mpr ⟨fun hmem => ?_, ih _⟩
      obtain ⟨q, hq, hname⟩ := List.mem_map.mp hmem
      have hnot := (Bool.or_eq_false_iff.mp (free_not_named hq)).2
      exact absurd hname (by simpa using hnot)

/-- Where no two parameters have the same name, they are all those without a value by name. -/
theorem free_eq_filter {named : JsString → Bool}
    (h : (defs.map TaskPositionalArgument.name).Nodup) :
    free named defs = defs.filter fun p => !named p.name := by
  induction defs generalizing named with
  | nil => rfl
  | cons p defs ih =>
    obtain ⟨hp, hdefs⟩ := List.nodup_cons.mp h
    cases hnamed : named p.name with
    | true =>
      rw [free_cons_of_named hnamed, ih hdefs, List.filter_cons_of_neg (by simp [hnamed])]
    | false =>
      rw [free_cons_of_not hnamed, ih hdefs, List.filter_cons_of_pos (by simp [hnamed])]
      congr 1
      refine List.filter_congr fun q hq => ?_
      have hne : q.name ≠ p.name := fun heq => hp (heq ▸ List.mem_map_of_mem hq)
      simp [hne]

/-! ## How many values are bound -/

@[simp] theorem absorbed_zero (ps : List TaskPositionalArgument) : absorbed ps 0 = 0 := by
  cases ps <;> rfl

theorem absorbed_cons (ps : List TaskPositionalArgument) (n : Nat) :
    absorbed (p :: ps) (n + 1) = if p.variadic then n + 1 else absorbed ps n + 1 := rfl

/-- All the values are taken if there are parameters enough, or one takes them all. -/
theorem absorbed_eq_iff {ps : List TaskPositionalArgument} {n : Nat} :
    absorbed ps n = n ↔ n ≤ ps.length ∨ ∃ p ∈ ps, p.variadic = true := by
  induction ps generalizing n with
  | nil => cases n <;> simp [absorbed]
  | cons p ps ih =>
    cases n with
    | zero => simp
    | succ n =>
      by_cases hp : p.variadic = true
      · simp [absorbed, hp]
      · simp [absorbed, hp, ih]

theorem absorbed_le (ps : List TaskPositionalArgument) (n : Nat) : absorbed ps n ≤ n := by
  induction ps generalizing n with
  | nil => exact Nat.zero_le n
  | cons p ps ih =>
    cases n with
    | zero => exact le_rfl
    | succ n =>
      rw [absorbed_cons]
      split
      · exact le_rfl
      · exact Nat.succ_le_succ (ih n)

/-- No property is undefined. -/
def Defined (args : Args) : Prop := ∀ k v, args.get? k = some v → isUndefined v = false

theorem Defined.read (h : Defined result) {name : JsString} (hhas : has result name = true) :
    isUndefined (read result name) = false := by
  unfold Core.read
  cases hget : result.get? name with
  | some v => exact h name v hget
  | none =>
    rw [has, hget, Option.isSome_none, Bool.false_or] at hhas
    by_cases hproto : name = proto
    · rw [if_pos hproto]
      rfl
    · have hmem : name ∈ objectPrototype := by simpa [isInherited, hproto] using hhas
      rw [if_neg hproto, inherited, if_pos hmem]
      rfl

theorem Defined.assign (h : Defined result) (name : JsString) {value : JsValue}
    (hvalue : isUndefined value = false) : Defined (assign result name value) := by
  intro k v hget
  rw [get?_assign] at hget
  split at hget
  · cases hget
    exact hvalue
  · exact h k v hget

/-- Every bare value is there. -/
def AllDefined (values : List (Option JsValue)) : Prop :=
  ∀ v ∈ values, isUndefined (v.getD .undefined) = false

theorem AllDefined.bareValue (h : AllDefined values) (hlt : cursor < values.length) :
    isUndefined (bareValue values cursor p) = false := by
  unfold Core.bareValue
  split
  · rfl
  · rw [List.getElem?_eq_getElem hlt]
    exact h _ (List.getElem_mem hlt)

/-- Where nothing is undefined, the loop takes as many bare values as there are parameters for, each
once and in order. -/
theorem bindings_indices (hvalues : AllDefined values) (hresult : Defined result) :
    (bindings values defs cursor result).flatMap Prod.snd =
      List.range' cursor (absorbed (free (has result) defs) (values.length - cursor)) := by
  induction defs generalizing cursor result with
  | nil => simp [bindings, free, absorbed]
  | cons p defs ih =>
    rcases le_or_gt values.length cursor with hle | hlt
    · rw [bindings_of_le hle, Nat.sub_eq_zero_of_le hle, absorbed_zero]
      rfl
    · cases hhas : has result p.name with
      | true =>
        rw [bindings_cons_skip (.inl hhas), hresult.read hhas, Bool.and_false,
          if_neg Bool.false_ne_true, free_cons_of_named hhas]
        exact ih hresult
      | false =>
        have hvalue : isUndefined (bareValue values cursor p) = false := hvalues.bareValue hlt
        have hafter := hresult.assign p.name hvalue
        have hread := hafter.read (has_assign_self result p.name (bareValue values cursor p))
        obtain ⟨left, hleft⟩ := Nat.exists_eq_add_of_lt hlt
        have hn : values.length - cursor = left + 1 := by omega
        rw [bindings_cons_taken hhas hlt, free_cons_of_not hhas, hn, absorbed_cons]
        simp only [hread, Bool.and_false, Bool.false_eq_true, if_false, List.flatMap_cons]
        rw [ih hafter, has_assign hhas, taken]
        by_cases hp : p.variadic = true
        · simp [hp, hn]
        · have hrest : values.length - (cursor + 1) = left := by omega
          simp only [hp, Bool.false_eq_true, if_false, hrest]
          rw [List.range'_succ]
          rfl

/-- In any case the loop takes the first bare values, each once and in order. -/
theorem bindings_indices_prefix (values : List (Option JsValue))
    (defs : List TaskPositionalArgument) (cursor : Nat) (result : Args) :
    ∃ k, (bindings values defs cursor result).flatMap Prod.snd = List.range' cursor k := by
  induction defs generalizing cursor result with
  | nil => exact ⟨0, rfl⟩
  | cons p defs ih =>
    by_cases hskip : has result p.name = true ∨ values.length ≤ cursor
    · rw [bindings_cons_skip hskip]
      split
      · exact ⟨0, rfl⟩
      · exact ih cursor result
    · obtain ⟨hhas, hlt⟩ := not_or.mp hskip
      rw [Bool.not_eq_true] at hhas
      rw [not_le] at hlt
      rw [bindings_cons_taken hhas hlt, List.flatMap_cons, taken]
      by_cases hp : p.variadic = true
      · refine ⟨values.length - cursor, ?_⟩
        simp only [hp, if_true, bindings_of_le le_rfl, ite_self, List.flatMap_nil, List.append_nil]
      · obtain ⟨k, hk⟩ := ih (cursor + 1) (assign result p.name (bareValue values cursor p))
        simp only [hp, Bool.false_eq_true, if_false]
        split
        · exact ⟨1, rfl⟩
        · exact ⟨k + 1, by rw [hk, List.range'_succ]; rfl⟩

end Lionden.Core
