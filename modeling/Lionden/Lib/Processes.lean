import Lionden.Lib.Trace
import Mathlib.Logic.Function.Basic

/-!
# Processes on a shared state

A program performs operations `κ` on a shared state and goes on with their answers `ρ`. Alone it runs
to its end (`run`); among others it takes one operation at a time, and whatever the others do comes in
between. A process that takes no more steps was interrupted.

* `run_bind`: a program after another.
* `Safe I i Q p h`: process `i` keeps the invariant `I` of the state and the history when it goes on
  with `p` after a history that extends `h`, and returns what satisfies `Q`.
* `Safe.op`, `Safe.bind`: the rules.
* `System.invariant`: safe processes keep the invariant, in any order of their operations.
-/

namespace Lionden.Processes

/-- A program. -/
inductive Proc (κ : Type) (ρ : κ → Type) (α : Type) where
  | ret (a : α)
  | op (k : κ) (next : ρ k → Proc κ ρ α)

variable {κ : Type} {ρ : κ → Type} {α β σ ι : Type}

namespace Proc

def bind : Proc κ ρ α → (α → Proc κ ρ β) → Proc κ ρ β
  | ret a, f => f a
  | op k next, f => op k fun r => (next r).bind f

instance : Monad (Proc κ ρ) where
  pure := ret
  bind := bind

/-- One operation. -/
def perform (k : κ) : Proc κ ρ (ρ k) := op k ret

/-! ## Alone -/

/-- `act k s` is the answer of an operation and the state after it. -/
def run (act : (k : κ) → σ → ρ k × σ) : Proc κ ρ α → σ → α × σ
  | ret a, s => (a, s)
  | op k next, s => (next (act k s).1).run act (act k s).2

variable (act : (k : κ) → σ → ρ k × σ)

@[simp]
theorem run_pure (a : α) (s : σ) : (pure a : Proc κ ρ α).run act s = (a, s) := rfl

@[simp]
theorem run_perform (k : κ) (s : σ) : (perform k : Proc κ ρ (ρ k)).run act s = act k s := rfl

@[simp]
theorem run_bind (p : Proc κ ρ α) (f : α → Proc κ ρ β) (s : σ) :
    (p >>= f).run act s = (f (p.run act s).1).run act (p.run act s).2 := by
  induction p generalizing s with
  | ret a => rfl
  | op k next ih => exact ih _ _

end Proc

/-! ## Among others -/

structure System (κ : Type) (ρ : κ → Type) (α σ ι : Type) where
  state : σ
  procs : ι → Proc κ ρ α
  /-- The operations so far, with the processes that performed them. -/
  history : List (ι × κ)

section System

variable [DecidableEq ι] (act : (k : κ) → σ → ρ k × σ)

/-- The next operation of a process. -/
def System.step (s : System κ ρ α σ ι) (i : ι) : System κ ρ α σ ι :=
  match s.procs i with
  | .ret _ => s
  | .op k next =>
    { state := (act k s.state).2
      procs := Function.update s.procs i (next (act k s.state).1)
      history := s.history ++ [(i, k)] }

/-- Nothing has been performed. -/
def System.start (state : σ) (procs : ι → Proc κ ρ α) : System κ ρ α σ ι where
  state
  procs
  history := []

/-! ## Safety -/

variable (I : σ → List (ι × κ) → Prop) (i : ι)

def Safe (Q : α → List (ι × κ) → Prop) : Proc κ ρ α → List (ι × κ) → Prop
  | .ret a, h => ∀ h', h <+: h' → Q a h'
  | .op k next, h => ∀ s h', h <+: h' → I s h' →
    I (act k s).2 (h' ++ [(i, k)]) ∧ Safe Q (next (act k s).1) (h' ++ [(i, k)])

variable {act I i} {h : List (ι × κ)}

omit [DecidableEq ι] in
theorem Safe.ret {Q : α → List (ι × κ) → Prop} {a : α} (hQ : ∀ h', h <+: h' → Q a h') :
    Safe act I i Q (pure a) h := hQ

omit [DecidableEq ι] in
theorem Safe.mono {Q : α → List (ι × κ) → Prop} {p : Proc κ ρ α} {h' : List (ι × κ)}
    (hp : Safe act I i Q p h) (hext : h <+: h') : Safe act I i Q p h' := by
  cases p with
  | ret a => exact fun h'' hext' => hp h'' (hext.trans hext')
  | op k next => exact fun s h'' hext' => hp s h'' (hext.trans hext')

omit [DecidableEq ι] in
theorem Safe.bind {R : α → List (ι × κ) → Prop} {Q : β → List (ι × κ) → Prop} {p : Proc κ ρ α}
    {f : α → Proc κ ρ β} (hp : Safe act I i R p h)
    (hf : ∀ a h', h <+: h' → R a h' → Safe act I i Q (f a) h') :
    Safe act I i Q (p >>= f) h := by
  induction p generalizing h with
  | ret a => exact hf a h List.prefix_rfl (hp h List.prefix_rfl)
  | op k next ih =>
    intro s h' hext hI
    obtain ⟨hI', hnext⟩ := hp s h' hext hI
    exact ⟨hI', ih _ hnext fun a h'' hext' =>
      hf a h'' ((hext.trans (List.prefix_append _ _)).trans hext')⟩

omit [DecidableEq ι] in
/-- An operation, and what its answer says about the history. -/
theorem Safe.perform {k : κ} {Q : ρ k → List (ι × κ) → Prop}
    (hk : ∀ s h', h <+: h' → I s h' → I (act k s).2 (h' ++ [(i, k)]) ∧
      ∀ h'', h' ++ [(i, k)] <+: h'' → Q (act k s).1 h'') :
    Safe act I i Q (Proc.perform k) h := hk

omit [DecidableEq ι] in
theorem Safe.weaken {Q Q' : α → List (ι × κ) → Prop} {p : Proc κ ρ α} (hp : Safe act I i Q p h)
    (hQ : ∀ a h', h <+: h' → Q a h' → Q' a h') : Safe act I i Q' p h := by
  induction p generalizing h with
  | ret a => exact fun h' hext => hQ a h' hext (hp h' hext)
  | op k next ih =>
    intro s h' hext hI
    obtain ⟨hI', hnext⟩ := hp s h' hext hI
    exact ⟨hI', ih _ hnext fun a h'' hext' =>
      hQ a h'' ((hext.trans (List.prefix_append _ _)).trans hext')⟩

/-- The invariant holds, and each process is safe where it is. -/
def System.Holds (act : (k : κ) → σ → ρ k × σ) (I : σ → List (ι × κ) → Prop)
    (Q : ι → α → List (ι × κ) → Prop) (s : System κ ρ α σ ι) : Prop :=
  I s.state s.history ∧ ∀ i, Safe act I i (Q i) (s.procs i) s.history

theorem System.Holds.step {Q : ι → α → List (ι × κ) → Prop} {s : System κ ρ α σ ι}
    (h : s.Holds act I Q) (i : ι) : (s.step act i).Holds act I Q := by
  obtain ⟨hI, hprocs⟩ := h
  unfold System.step
  cases hp : s.procs i with
  | ret a => exact ⟨hI, hprocs⟩
  | op k next =>
    have hsafe := hprocs i
    rw [hp] at hsafe
    obtain ⟨hI', hnext⟩ := hsafe s.state s.history List.prefix_rfl hI
    refine ⟨hI', fun j => ?_⟩
    dsimp only
    by_cases hj : j = i
    · subst hj
      rw [Function.update_self]
      exact hnext
    · rw [Function.update_of_ne hj]
      exact (hprocs j).mono (List.prefix_append _ _)

/-- Whatever the processes do in turn. -/
theorem System.Holds.exec {Q : ι → α → List (ι × κ) → Prop} {s : System κ ρ α σ ι}
    (h : s.Holds act I Q) (schedule : List ι) :
    (Trace.exec (System.step act) s schedule).Holds act I Q := by
  induction schedule generalizing s with
  | nil => exact h
  | cons i schedule ih => exact ih (h.step i)

end System

end Lionden.Processes
