import Mathlib.Data.List.Infix
import Mathlib.Data.List.TakeWhile

/-!
# Words: factors of concatenations

Facts about `<+:` (prefix), `<:+` (suffix) and `<:+:` (factor) of `a ++ b` over any alphabet.

* `prefix_append_split`, `infix_append_split`: where a prefix or a factor of `a ++ b` begins.
* `infix_of_infix_mask`: a word without the closing symbol of a mask that is not a factor of the
  mask itself is a factor of what follows it.
* `run_unique`: the longest prefix of a word whose symbols satisfy a predicate is one only.
-/

namespace Lionden.Word

variable {α : Type*}

/-- A prefix of `a ++ b` ends in `a`, or is `a` and a prefix of `b`. -/
theorem prefix_append_split {x a b : List α} (h : x <+: a ++ b) :
    x <+: a ∨ ∃ y, x = a ++ y ∧ y <+: b := by
  rcases List.prefix_or_prefix_of_prefix h (List.prefix_append a b) with h' | ⟨y, rfl⟩
  · exact .inl h'
  · exact .inr ⟨y, rfl, (List.prefix_append_right_inj a).mp h⟩

/-- A factor of `a ++ b` lies in `b`, or begins in `a`. -/
theorem infix_append_split {x a b : List α} (h : x <:+: a ++ b) :
    x <:+: b ∨ ∃ a', a' ≠ [] ∧ a' <:+ a ∧ x <+: a' ++ b := by
  obtain ⟨p, s, hps⟩ := h
  rw [List.append_assoc] at hps
  rcases List.append_eq_append_iff.mp hps with ⟨q, rfl, hq⟩ | ⟨q, rfl, hq⟩
  · by_cases hne : q = []
    · subst hne
      simp only [List.nil_append] at hq
      exact .inl ⟨[], s, by simpa using hq⟩
    · exact .inr ⟨q, hne, List.suffix_append _ _, s, hq⟩
  · exact .inl ⟨q, s, by simpa using hq.symm⟩

/-- `infix_append_split` for a single symbol. -/
theorem infix_cons_split {x b : List α} {c : α} (h : x <:+: c :: b) : x <:+: b ∨ x <+: c :: b :=
  (List.infix_cons_iff.mp h).symm

/-- A word without `close` that is not a factor of the mask `m ++ [close]` does not meet it. -/
theorem infix_of_infix_mask {x m b : List α} {close : α} (hx : close ∉ x)
    (hm : ¬ x <:+: m ++ [close]) (h : x <:+: (m ++ [close]) ++ b) : x <:+: b := by
  rcases infix_append_split h with h | ⟨a', hne, ha', hpre⟩
  · exact h
  · exfalso
    have hlast : close ∈ a' := by
      obtain ⟨p, hp⟩ := ha'
      have hl := congrArg List.getLast? hp
      rw [List.getLast?_append_of_ne_nil _ hne, List.getLast?_concat] at hl
      exact List.mem_of_getLast? hl
    rcases prefix_append_split hpre with h' | ⟨y, rfl, -⟩
    · exact hm (h'.isInfix.trans ha'.isInfix)
    · exact hx (List.mem_append_left _ hlast)

/-- A word that does not begin with `o` and is a prefix of a word that does is empty. -/
theorem eq_nil_of_prefix_cons {x b : List α} {o : α} (hx : o ∉ x) (h : x <+: o :: b) : x = [] := by
  cases x with
  | nil => rfl
  | cons c t => exact absurd (List.cons_prefix_cons.mp h).1 fun hc => hx (by simp [hc])

/-- Two splittings of a word after its longest prefix in `p` are the same. -/
theorem run_unique {p : α → Bool} {r₁ r₂ t₁ t₂ : List α} (h : r₁ ++ t₁ = r₂ ++ t₂)
    (h₁ : ∀ c ∈ r₁, p c = true) (h₂ : ∀ c ∈ r₂, p c = true)
    (e₁ : ∀ c t', t₁ = c :: t' → p c = false) (e₂ : ∀ c t', t₂ = c :: t' → p c = false) :
    r₁ = r₂ ∧ t₁ = t₂ := by
  induction r₁ generalizing r₂ with
  | nil =>
    cases r₂ with
    | nil => exact ⟨rfl, h⟩
    | cons c r₂ => exact absurd (h₂ c (by simp)) (by rw [e₁ c _ h]; simp)
  | cons c r₁ ih =>
    cases r₂ with
    | nil => exact absurd (h₁ c (by simp)) (by rw [e₂ c _ h.symm]; simp)
    | cons d r₂ =>
      simp only [List.cons_append, List.cons.injEq] at h
      obtain ⟨rfl, ht⟩ := ih h.2 (fun x hx => h₁ x (by simp [hx])) (fun x hx => h₂ x (by simp [hx]))
      exact ⟨by rw [h.1], ht⟩

end Lionden.Word
