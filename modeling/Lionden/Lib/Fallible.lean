import Mathlib.Data.List.Forall2
import Mathlib.Data.List.Nodup

/-!
# Fallible computations and association lists

* `bind_ok`, `map_ok`, `mapM_ok`, `forM_ok`: what a computation in `Except` did that returned.
* `bind_error`, `mapM_error`: where the error of a computation comes from.
* `exists_values`: a list with a value for each of its elements.
* `lookup_of_mem`: in an association list with distinct keys the order does not matter.
* `lookup_of_unique`, `lookup_none`: the same for a key that has one value at most.
* `lookup_filterMap`, `lookup_filter_ne`: what is found in a list of keys with their values, and
  without the entries of another key.
-/

namespace Lionden.Fallible

variable {ε α β κ : Type}

theorem bind_ok {x : Except ε α} {f : α → Except ε β} {b : β} :
    (x >>= f) = .ok b ↔ ∃ a, x = .ok a ∧ f a = .ok b := by
  cases x with
  | error e => exact ⟨fun h => (nomatch h), fun ⟨_, h, _⟩ => (nomatch h)⟩
  | ok a =>
    refine ⟨fun h => ⟨a, rfl, h⟩, ?_⟩
    rintro ⟨_, h, hf⟩
    cases h
    exact hf

theorem map_ok {x : Except ε α} {f : α → β} {b : β} :
    (f <$> x) = .ok b ↔ ∃ a, x = .ok a ∧ f a = b := by
  cases x with
  | error e => exact ⟨fun h => (nomatch h), fun ⟨_, h, _⟩ => (nomatch h)⟩
  | ok a =>
    refine ⟨fun h => ⟨a, rfl, by cases h; rfl⟩, ?_⟩
    rintro ⟨_, h, rfl⟩
    cases h
    rfl

theorem mapM_ok {f : α → Except ε β} {xs : List α} {ys : List β} :
    xs.mapM f = .ok ys ↔ List.Forall₂ (fun x y => f x = .ok y) xs ys := by
  induction xs generalizing ys with
  | nil =>
    rw [List.mapM_nil, List.forall₂_nil_left_iff]
    exact ⟨fun h => by cases h; rfl, fun h => by rw [h]; rfl⟩
  | cons x xs ih =>
    simp only [List.mapM_cons, bind_ok, List.forall₂_cons_left_iff, ih]
    constructor
    · rintro ⟨y, hy, zs, hzs, h⟩
      cases h
      exact ⟨y, zs, hy, hzs, rfl⟩
    · rintro ⟨y, zs, hy, hzs, rfl⟩
      exact ⟨y, hy, zs, hzs, rfl⟩

theorem forM_ok {f : α → Except ε Unit} {xs : List α} :
    xs.forM f = .ok () ↔ ∀ x ∈ xs, f x = .ok () := by
  induction xs with
  | nil => exact ⟨fun _ x hx => (nomatch hx), fun _ => rfl⟩
  | cons x xs ih =>
    change (f x >>= fun _ => xs.forM f) = .ok () ↔ _
    rw [bind_ok, List.forall_mem_cons, ← ih]
    exact ⟨fun ⟨_, hx, hxs⟩ => ⟨hx, hxs⟩, fun ⟨hx, hxs⟩ => ⟨(), hx, hxs⟩⟩

theorem bind_error {x : Except ε α} {f : α → Except ε β} {e : ε} :
    (x >>= f) = .error e ↔ x = .error e ∨ ∃ a, x = .ok a ∧ f a = .error e := by
  cases x with
  | error e' =>
    refine ⟨fun h => .inl (by cases h; rfl), ?_⟩
    rintro (h | ⟨_, h, _⟩)
    · cases h
      rfl
    · cases h
  | ok a =>
    refine ⟨fun h => .inr ⟨a, rfl, h⟩, ?_⟩
    rintro (h | ⟨_, h, hf⟩)
    · cases h
    · cases h
      exact hf

theorem mapM_error {f : α → Except ε β} {xs : List α} {e : ε} (h : xs.mapM f = .error e) :
    ∃ x ∈ xs, f x = .error e := by
  induction xs with
  | nil => cases h
  | cons x xs ih =>
    simp only [List.mapM_cons, bind_error] at h
    rcases h with hx | ⟨y, -, hxs | ⟨ys, -, h⟩⟩
    · exact ⟨x, List.mem_cons_self, hx⟩
    · obtain ⟨z, hz, he⟩ := ih hxs
      exact ⟨z, List.mem_cons_of_mem x hz, he⟩
    · cases h

/-- An entry of an association list with distinct keys is found under its key. -/
theorem lookup_of_mem [BEq κ] [LawfulBEq κ] {l : List (κ × α)} {k : κ} {a : α}
    (hl : (l.map Prod.fst).Nodup) (h : (k, a) ∈ l) : l.lookup k = some a := by
  induction l with
  | nil => cases h
  | cons e l ih =>
    obtain ⟨k', a'⟩ := e
    rw [List.map_cons, List.nodup_cons] at hl
    rcases List.mem_cons.mp h with heq | hmem
    · cases heq
      exact List.lookup_cons_self
    · have hne : (k == k') = false := by
        rw [beq_eq_false_iff_ne]
        rintro rfl
        exact hl.1 (List.mem_map.mpr ⟨(k, a), hmem, rfl⟩)
      rw [List.lookup_cons, hne]
      exact ih hl.2 hmem

theorem mem_of_lookup [BEq κ] [LawfulBEq κ] {l : List (κ × α)} {k : κ} {a : α}
    (h : l.lookup k = some a) : (k, a) ∈ l := by
  obtain ⟨l₁, l₂, rfl, -⟩ := List.lookup_eq_some_iff.mp h
  simp

theorem lookup_none [BEq κ] [LawfulBEq κ] {l : List (κ × α)} {k : κ} :
    l.lookup k = none ↔ ∀ a, (k, a) ∉ l := by
  rw [List.lookup_eq_none_iff]
  refine ⟨fun h a ha => by simpa using h _ ha, fun h p hp => ?_⟩
  obtain ⟨k', a⟩ := p
  rw [bne_iff_ne]
  rintro rfl
  exact h a hp

/-- An entry whose key has one value only is found under its key. -/
theorem lookup_of_unique [BEq κ] [LawfulBEq κ] {l : List (κ × α)} {k : κ} {a : α}
    (hunique : ∀ b, (k, b) ∈ l → b = a) (h : (k, a) ∈ l) : l.lookup k = some a := by
  cases hlookup : l.lookup k with
  | none => exact absurd h (lookup_none.mp hlookup a)
  | some b => rw [hunique b (mem_of_lookup hlookup)]

/-- Keys of a list with the values that they have. -/
theorem lookup_filterMap [BEq κ] [LawfulBEq κ] (g : κ → Option α) (l : List κ) (k : κ) :
    (l.filterMap fun x => (g x).map fun a => (x, a)).lookup k = if k ∈ l then g k else none := by
  induction l with
  | nil => rfl
  | cons x l ih =>
    by_cases hx : k = x
    · subst hx
      cases hg : g k with
      | none => simp [hg, ih]
      | some a => simp [hg]
    · have hne : (k == x) = false := beq_eq_false_iff_ne.mpr hx
      cases hg : g x with
      | none => simp [hg, ih, hx]
      | some a => simp [hg, List.lookup_cons, hne, ih, hx]

/-- The entries of another key can be left out. -/
theorem lookup_filter_ne [BEq κ] [LawfulBEq κ] [DecidableEq κ] {l : List (κ × α)} {k k' : κ}
    (h : k ≠ k') : (l.filter fun entry => entry.1 ≠ k').lookup k = l.lookup k := by
  induction l with
  | nil => rfl
  | cons entry l ih =>
    obtain ⟨key, a⟩ := entry
    by_cases hkey : key = k'
    · subst hkey
      rw [List.filter_cons_of_neg (by simp), ih, List.lookup_cons, beq_eq_false_iff_ne.mpr h]
    · rw [List.filter_cons_of_pos (by simpa using hkey), List.lookup_cons, List.lookup_cons, ih]

/-- A value for each element of a list. -/
theorem exists_values {P : α → β → Prop} {l : List α} (h : ∀ a ∈ l, ∃ b, P a b) :
    ∃ ps : List (α × β), ps.map Prod.fst = l ∧ ∀ p ∈ ps, P p.1 p.2 := by
  induction l with
  | nil => exact ⟨[], rfl, by simp⟩
  | cons a l ih =>
    rw [List.forall_mem_cons] at h
    obtain ⟨⟨b, hb⟩, hl⟩ := h
    obtain ⟨ps, rfl, hps⟩ := ih hl
    exact ⟨(a, b) :: ps, rfl, List.forall_mem_cons.mpr ⟨hb, hps⟩⟩

end Lionden.Fallible
