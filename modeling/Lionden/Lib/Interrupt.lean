import Mathlib.Logic.Function.Basic

/-!
# Programs that can be interrupted

A program reads a state and changes it by effects. Before any of its effects it may be interrupted;
at which effects and states is a parameter of the run. A program may also fail by itself.

`Triple safe P p Q F C`: a run of `p` from a state in `P` that is interrupted, if at all, where it is
safe, ends in `Q` if it returns, in `F` if it fails, and in `C` if it is interrupted.

* `Triple.bind`, `Triple.ite`, `Triple.perform`, `Triple.read`, `Triple.fail`: the rules of the constructs.
* `Triple.step`: one effect on a known state.
* `Triple.forM`: a loop.
* `Triple.and`: two triples of one program.
* `Triple.within`: a program on one member of a family of states leaves the others as they are.
-/

namespace Lionden.Interrupt

/-- How a program ends. -/
inductive Outcome (σ ε α : Type) where
  | returned (a : α) (s : σ)
  | failed (e : ε) (s : σ)
  | crashed (s : σ)

/-- The state a program leaves. -/
def Outcome.state {σ ε α : Type} : Outcome σ ε α → σ
  | .returned _ s => s
  | .failed _ s => s
  | .crashed s => s

/-- A program with effects `κ` on states `σ`. Its first argument says before which effects, and in
which states, it is interrupted. -/
def Prog (κ σ ε α : Type) : Type := (κ → σ → Bool) → σ → Outcome σ ε α

variable {κ σ ε α β ι : Type}

namespace Prog

def ret (a : α) : Prog κ σ ε α := fun _ s => .returned a s

def bind (p : Prog κ σ ε α) (f : α → Prog κ σ ε β) : Prog κ σ ε β := fun crash s =>
  match p crash s with
  | .returned a s' => f a crash s'
  | .failed e s' => .failed e s'
  | .crashed s' => .crashed s'

instance : Monad (Prog κ σ ε) where
  pure := ret
  bind := bind

def fail (e : ε) : Prog κ σ ε α := fun _ s => .failed e s

/-- The state. -/
def read : Prog κ σ ε σ := fun _ s => .returned s s

/-- One effect, unless the program is interrupted before it. -/
def perform (apply : κ → σ → σ) (k : κ) : Prog κ σ ε Unit := fun crash s =>
  if crash k s then .crashed s else .returned () (apply k s)

/-- A program on the member `i` of a family of states. -/
def within [DecidableEq ι] (i : ι) (p : Prog κ σ ε α) : Prog (ι × κ) (ι → σ) ε α := fun crash w =>
  match p (fun k s => crash (i, k) (Function.update w i s)) (w i) with
  | .returned a s => .returned a (Function.update w i s)
  | .failed e s => .failed e (Function.update w i s)
  | .crashed s => .crashed (Function.update w i s)

theorem within_other [DecidableEq ι] {i j : ι} (hj : j ≠ i) (p : Prog κ σ ε α)
    (crash : ι × κ → (ι → σ) → Bool) (w : ι → σ) : (p.within i crash w).state j = w j := by
  unfold within
  cases p (fun k s => crash (i, k) (Function.update w i s)) (w i) with
  | returned a s => exact Function.update_of_ne hj _ _
  | failed e s => exact Function.update_of_ne hj _ _
  | crashed s => exact Function.update_of_ne hj _ _

end Prog

def Triple (safe : κ → σ → Prop) (P : σ → Prop) (p : Prog κ σ ε α) (Q : α → σ → Prop)
    (F C : σ → Prop) : Prop :=
  ∀ crash s, (∀ k s, crash k s = true → safe k s) → P s → match p crash s with
    | .returned a s' => Q a s'
    | .failed _ s' => F s'
    | .crashed s' => C s'

namespace Triple

variable {safe : κ → σ → Prop} {P P' : σ → Prop} {F F' C C' : σ → Prop} {apply : κ → σ → σ}

/-- What a run that returns ends in. -/
theorem returned {p : Prog κ σ ε α} {Q : α → σ → Prop} {crash : κ → σ → Bool} {s s' : σ} {a : α}
    (h : Triple safe P p Q F C) (hcrash : ∀ k s, crash k s = true → safe k s) (hs : P s)
    (hreturned : p crash s = .returned a s') : Q a s' := by
  have hrun := h crash s hcrash hs
  rwa [hreturned] at hrun

theorem pure {a : α} {Q : α → σ → Prop} (h : ∀ s, P s → Q a s) :
    Triple safe P (Pure.pure a : Prog κ σ ε α) Q F C :=
  fun _ s _ hs => h s hs

theorem fail {e : ε} {Q : α → σ → Prop} (h : ∀ s, P s → F s) :
    Triple safe P (Prog.fail e : Prog κ σ ε α) Q F C :=
  fun _ s _ hs => h s hs

theorem ite {c : Prop} [Decidable c] {p q : Prog κ σ ε α} {Q : α → σ → Prop}
    (hp : c → Triple safe P p Q F C) (hq : ¬c → Triple safe P q Q F C) :
    Triple safe P (if c then p else q) Q F C := by
  split
  · next h => exact hp h
  · next h => exact hq h

theorem bind {p : Prog κ σ ε α} {f : α → Prog κ σ ε β} {M : α → σ → Prop} {Q : β → σ → Prop}
    (hp : Triple safe P p M F C) (hf : ∀ a, Triple safe (M a) (f a) Q F C) :
    Triple safe P (p >>= f) Q F C := by
  intro crash s hcrash hs
  have h := hp crash s hcrash hs
  show match Prog.bind p f crash s with
    | .returned a s' => Q a s'
    | .failed _ s' => F s'
    | .crashed s' => C s'
  unfold Prog.bind
  cases hrun : p crash s with
  | returned a s' =>
    rw [hrun] at h
    exact hf a crash s' hcrash h
  | failed e s' =>
    rw [hrun] at h
    exact h
  | crashed s' =>
    rw [hrun] at h
    exact h

theorem perform {k : κ} {Q : Unit → σ → Prop} (hcrash : ∀ s, P s → safe k s → C s)
    (h : ∀ s, P s → Q () (apply k s)) :
    Triple safe P (Prog.perform apply k : Prog κ σ ε Unit) Q F C := by
  intro crash s hsafe hs
  unfold Prog.perform
  by_cases hk : crash k s = true
  · rw [if_pos hk]
    exact hcrash s hs (hsafe k s hk)
  · rw [if_neg hk]
    exact h s hs

/-- Reading the state makes it known. -/
theorem read {f : σ → Prog κ σ ε α} {Q : α → σ → Prop}
    (h : ∀ s, P s → Triple safe (· = s) (f s) Q F C) : Triple safe P (Prog.read >>= f) Q F C :=
  fun crash s hcrash hs => h s hs crash s hcrash rfl

theorem weaken {p : Prog κ σ ε α} {Q Q' : α → σ → Prop} (h : Triple safe P p Q F C)
    (hP : ∀ s, P' s → P s) (hQ : ∀ a s, Q a s → Q' a s) (hF : ∀ s, F s → F' s)
    (hC : ∀ s, C s → C' s) : Triple safe P' p Q' F' C' := by
  intro crash s hcrash hs
  have hrun := h crash s hcrash (hP s hs)
  cases hp : p crash s with
  | returned a s' =>
    rw [hp] at hrun
    exact hQ a s' hrun
  | failed e s' =>
    rw [hp] at hrun
    exact hF s' hrun
  | crashed s' =>
    rw [hp] at hrun
    exact hC s' hrun

/-- What holds by each of two triples holds by both. -/
theorem and {p : Prog κ σ ε α} {Q Q' : α → σ → Prop} (h : Triple safe P p Q F C)
    (h' : Triple safe P p Q' F' C') :
    Triple safe P p (fun a s => Q a s ∧ Q' a s) (fun s => F s ∧ F' s) fun s => C s ∧ C' s := by
  intro crash s hcrash hs
  have hrun := h crash s hcrash hs
  have hrun' := h' crash s hcrash hs
  cases hp : p crash s with
  | returned a s' =>
    rw [hp] at hrun hrun'
    exact ⟨hrun, hrun'⟩
  | failed e s' =>
    rw [hp] at hrun hrun'
    exact ⟨hrun, hrun'⟩
  | crashed s' =>
    rw [hp] at hrun hrun'
    exact ⟨hrun, hrun'⟩

/-- A triple for every known state. -/
theorem known {p : Prog κ σ ε α} {Q : α → σ → Prop}
    (h : ∀ s, P s → Triple safe (· = s) p Q F C) : Triple safe P p Q F C :=
  fun crash s hcrash hs => h s hs crash s hcrash rfl

/-- One effect, and the rest of the program. -/
theorem step {k : κ} {f : Unit → Prog κ σ ε α} {Q : α → σ → Prop} {M : σ → Prop}
    (hcrash : ∀ s, P s → safe k s → C s) (hM : ∀ s, P s → M (apply k s))
    (h : Triple safe M (f ()) Q F C) : Triple safe P (Prog.perform apply k >>= f) Q F C :=
  bind (M := fun _ => M) (perform hcrash hM) fun _ => h

/-- A loop, with what holds after the elements that are done. -/
theorem forM {xs : List α} {f : α → Prog κ σ ε PUnit} {I : List α → σ → Prop}
    (h : ∀ done x rest, xs = done ++ x :: rest →
      Triple safe (I done) (f x) (fun _ => I (done ++ [x])) F C) :
    Triple safe (I []) (xs.forM f) (fun _ => I xs) F C := by
  suffices ∀ done rest, xs = done ++ rest →
      Triple safe (I done) (rest.forM f) (fun _ => I xs) F C from this [] xs rfl
  intro done rest
  induction rest generalizing done with
  | nil =>
    intro hxs
    rw [List.append_nil] at hxs
    subst hxs
    exact pure fun _ hs => hs
  | cons x rest ih =>
    intro hxs
    exact bind (h done x rest hxs) fun _ => ih (done ++ [x]) (by rw [hxs, List.append_assoc]; rfl)

/-- The other members of the family keep what they satisfy. -/
theorem within [DecidableEq ι] {i : ι} {p : Prog κ σ ε α} {P F C : ι → σ → Prop}
    {Q : α → ι → σ → Prop} (h : Triple safe (P i) p (fun a => Q a i) (F i) (C i))
    (hQ : ∀ a j s, j ≠ i → P j s → Q a j s) (hF : ∀ j s, j ≠ i → P j s → F j s)
    (hC : ∀ j s, j ≠ i → P j s → C j s) :
    Triple (fun k w => safe k.2 (w k.1)) (fun w => ∀ j, P j (w j)) (p.within i)
      (fun a w => ∀ j, Q a j (w j)) (fun w => ∀ j, F j (w j)) (fun w => ∀ j, C j (w j)) := by
  intro crash w hcrash hw
  have hrun := h (fun k s => crash (i, k) (Function.update w i s)) (w i)
    (fun k s hk => Function.update_self i s w ▸ hcrash (i, k) _ hk) (hw i)
  have hother {T : ι → σ → Prop} {s : σ} (hs : T i s) (hT : ∀ j s, j ≠ i → P j s → T j s) :
      ∀ j, T j (Function.update w i s j) := by
    intro j
    by_cases hj : j = i
    · subst hj
      rwa [Function.update_self]
    · rw [Function.update_of_ne hj]
      exact hT j (w j) hj (hw j)
  unfold Prog.within
  cases hp : p (fun k s => crash (i, k) (Function.update w i s)) (w i) with
  | returned a s =>
    rw [hp] at hrun
    exact hother hrun (hQ a)
  | failed e s =>
    rw [hp] at hrun
    exact hother hrun hF
  | crashed s =>
    rw [hp] at hrun
    exact hother hrun hC

end Triple

end Lionden.Interrupt
