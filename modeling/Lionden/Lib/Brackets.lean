import Mathlib.Algebra.BigOperators.Group.List.Basic
import Mathlib.Algebra.Order.Group.Int
import Mathlib.Algebra.Ring.Int.Defs

/-!
# Bracketed words

Words over an alphabet with brackets and one separator, as a scanner reads them that counts the
bracket depth and stops at every separator of depth 0.

* `Quiet d w`: the scanner, started at depth `d`, meets no separator of depth 0 in `w`.
* `Closed w`: `w` is one item of a list, at any depth; `Inner w`: `w` may stand between brackets.
* `Quiet.split`, `Closed.split`: a word can be split at a separator of depth 0 in one way only.
* `Cut`, `exists_cut`: every word can be cut at its separators of depth 0.
* `Inner.wrap`: brackets around an inner word make an item.
-/

namespace Lionden.Brackets

/-- The bracket depth that each symbol adds, and the symbol that separates items. -/
structure Punctuation (α : Type*) where
  delta : α → Int
  separator : α
  neutral : delta separator = 0

namespace Punctuation

variable {α : Type*} (P : Punctuation α)

/-- The depth that a word adds. -/
def height (w : List α) : Int := (w.map P.delta).sum

/-- No separator of depth 0 is met in `w` from depth `d` on. -/
def Quiet : Int → List α → Prop
  | _, [] => True
  | d, c :: w => ¬ (d + P.delta c = 0 ∧ c = P.separator) ∧ Quiet (d + P.delta c) w

structure Closed (w : List α) : Prop where
  height : P.height w = 0
  quiet : ∀ d, 0 ≤ d → P.Quiet d w

structure Inner (w : List α) : Prop where
  height : P.height w = 0
  quiet : ∀ d, 1 ≤ d → P.Quiet d w

variable {P} {a b w : List α}

@[simp] theorem height_nil : P.height [] = 0 := rfl

@[simp] theorem height_cons (c : α) : P.height (c :: w) = P.delta c + P.height w := by
  simp [height]

@[simp] theorem height_append : P.height (a ++ b) = P.height a + P.height b := by
  simp [height]

theorem quiet_append {d : Int} :
    P.Quiet d (a ++ b) ↔ P.Quiet d a ∧ P.Quiet (d + P.height a) b := by
  induction a generalizing d with
  | nil => simp [Quiet]
  | cons c a ih => simp only [List.cons_append, Quiet, ih, height_cons, and_assoc, add_assoc]

theorem Closed.inner (h : P.Closed w) : P.Inner w :=
  ⟨h.height, fun d hd => h.quiet d (by omega)⟩

theorem Closed.append (ha : P.Closed a) (hb : P.Closed b) : P.Closed (a ++ b) where
  height := by rw [height_append, ha.height, hb.height, add_zero]
  quiet d hd := quiet_append.mpr ⟨ha.quiet d hd, by rw [ha.height, add_zero]; exact hb.quiet d hd⟩

theorem Inner.append (ha : P.Inner a) (hb : P.Inner b) : P.Inner (a ++ b) where
  height := by rw [height_append, ha.height, hb.height, add_zero]
  quiet d hd := quiet_append.mpr ⟨ha.quiet d hd, by rw [ha.height, add_zero]; exact hb.quiet d hd⟩

/-- A word without brackets and separators is an item. -/
theorem closed_of_plain (h : ∀ c ∈ w, P.delta c = 0 ∧ c ≠ P.separator) : P.Closed w := by
  induction w with
  | nil => exact ⟨rfl, fun _ _ => trivial⟩
  | cons c w ih =>
    obtain ⟨⟨hc, hne⟩, hw⟩ := List.forall_mem_cons.mp h
    have hrest := ih hw
    refine ⟨by rw [height_cons, hc, hrest.height, add_zero], fun d hd => ⟨fun h => hne h.2, ?_⟩⟩
    rw [hc, add_zero]
    exact hrest.quiet d hd

theorem inner_separator : P.Inner [P.separator] where
  height := by rw [height_cons, P.neutral, height_nil, add_zero]
  quiet d hd := ⟨fun h => by rw [P.neutral] at h; omega, trivial⟩

theorem quiet_of_not_mem (h : P.separator ∉ w) (d : Int) : P.Quiet d w := by
  induction w generalizing d with
  | nil => trivial
  | cons c w ih =>
    rw [List.mem_cons, not_or] at h
    exact ⟨fun hs => h.1 hs.2.symm, ih h.2 _⟩

/-- A word that meets no separator does not go past one. -/
theorem Quiet.not_split {d : Int} (ha : d + P.height a = 0) (h : P.Quiet d (a ++ P.separator :: b)) :
    False := by
  have hquiet := (quiet_append.mp h).2.1
  rw [ha, P.neutral] at hquiet
  exact hquiet ⟨rfl, rfl⟩

/-- A word is split at the first separator of depth 0. -/
theorem Quiet.split {d : Int} {a' b' : List α} (ha : P.Quiet d a) (ha' : P.Quiet d a')
    (hd : d + P.height a = 0) (hd' : d + P.height a' = 0)
    (h : a ++ P.separator :: b = a' ++ P.separator :: b') : a = a' ∧ b = b' := by
  rcases List.append_eq_append_iff.mp h with ⟨x, rfl, hx⟩ | ⟨x, rfl, hx⟩
  · cases x with
    | nil => exact ⟨by simp, by simpa using hx⟩
    | cons c x =>
      obtain ⟨rfl, -⟩ := List.cons.inj hx
      exact (ha'.not_split hd).elim
  · cases x with
    | nil => exact ⟨by simp, by simpa using hx.symm⟩
    | cons c x =>
      obtain ⟨rfl, -⟩ := List.cons.inj hx
      exact (ha.not_split hd').elim

/-- A word has no separator of depth 0, or a first one. -/
theorem quiet_or_split (d : Int) : ∀ w : List α, P.Quiet d w ∨
    ∃ a b, w = a ++ P.separator :: b ∧ P.Quiet d a ∧ d + P.height a = 0
  | [] => .inl trivial
  | c :: w => by
    by_cases hc : d + P.delta c = 0 ∧ c = P.separator
    · obtain ⟨hd, rfl⟩ := hc
      rw [P.neutral] at hd
      exact .inr ⟨[], w, rfl, trivial, by simpa using hd⟩
    · rcases quiet_or_split (d + P.delta c) w with hquiet | ⟨a, b, rfl, ha, hd⟩
      · exact .inl ⟨hc, hquiet⟩
      · exact .inr ⟨c :: a, b, rfl, ⟨hc, ha⟩, by rw [height_cons, ← hd, add_assoc]⟩

/-- An item does not go past a separator. -/
theorem Closed.not_split (ha : P.Closed a) (h : P.Closed (a ++ P.separator :: b)) : False :=
  (h.quiet 0 (Int.le_refl 0)).not_split (by rw [ha.height, add_zero])

/-- The first item of a list ends at the first separator of depth 0. -/
theorem Closed.split {a' b' : List α} (ha : P.Closed a) (ha' : P.Closed a')
    (h : a ++ P.separator :: b = a' ++ P.separator :: b') : a = a' ∧ b = b' :=
  (ha.quiet 0 (Int.le_refl 0)).split (ha'.quiet 0 (Int.le_refl 0)) (by rw [ha.height, add_zero])
    (by rw [ha'.height, add_zero]) h

variable (P) in
/-- The pieces of a word between its separators of depth 0. -/
inductive Cut : List (List α) → List α → Prop
  | last {p : List α} : P.Quiet 0 p → Cut [p] p
  | cons {p : List α} {ps : List (List α)} {rest : List α} : P.Quiet 0 p → P.height p = 0 →
      Cut ps rest → Cut (p :: ps) (p ++ P.separator :: rest)

theorem exists_cut (w : List α) : ∃ ps, P.Cut ps w := by
  rcases quiet_or_split (P := P) 0 w with hquiet | ⟨a, b, hw, ha, hd⟩
  · exact ⟨[w], .last hquiet⟩
  · have hlt : b.length < w.length := by
      rw [hw, List.length_append, List.length_cons]
      omega
    obtain ⟨ps, hps⟩ := exists_cut b
    rw [hw]
    exact ⟨a :: ps, .cons ha (by simpa using hd) hps⟩
termination_by w.length

/-- Brackets around an inner word make an item. -/
theorem Inner.wrap {o c : α} (ho : P.delta o = 1) (hc : P.delta c = -1) (h : P.Inner w) :
    P.Closed (o :: w ++ [c]) := by
  have hsep : ∀ x, P.delta x ≠ 0 → x ≠ P.separator := fun x hx hs => hx (hs ▸ P.neutral)
  constructor
  · simp only [List.cons_append, height_cons, height_append, ho, hc, h.height, height_nil]
    omega
  · intro d hd
    refine ⟨fun hs => hsep o (by omega) hs.2, ?_⟩
    rw [ho]
    refine quiet_append.mpr ⟨h.quiet _ (by omega), fun hs => hsep c (by omega) hs.2, trivial⟩

end Punctuation

end Lionden.Brackets
