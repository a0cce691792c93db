import Mathlib.Data.List.Basic

/-!
# Runs of a step function

`exec step s events` folds a step function over events.

* `exec_take_succ`, `exec_drop_succ`: the state after one more event, and after the rest.
* `AllSteps.invariant`: what steps under a condition preserve holds in all states of a run of such
  steps.
* `invariant_iff`: if a step from a state in `I` stays in `I` exactly under a condition, then all
  states of a run are in `I` exactly if all its steps satisfy the condition.
* `invariant_history_iff`: the same for a condition on the events before the step.
-/

namespace Lionden.Trace

variable {σ ε : Type} {step : σ → ε → σ}

/-- The state after a sequence of events. -/
def exec (step : σ → ε → σ) (s : σ) (events : List ε) : σ := events.foldl step s

theorem exec_take_succ {s : σ} {events : List ε} {k : Nat} {e : ε} (h : events[k]? = some e) :
    exec step s (events.take (k + 1)) = step (exec step s (events.take k)) e := by
  rw [List.take_add_one, h]
  exact List.foldl_concat ..

/-- What comes after an event. -/
theorem exec_drop_succ {s : σ} {events : List ε} {k : Nat} {e : ε} (h : events[k]? = some e) :
    exec step (step (exec step s (events.take k)) e) (events.drop (k + 1)) = exec step s events := by
  have htake : exec step s (events.take (k + 1)) = step (exec step s (events.take k)) e :=
    exec_take_succ h
  rw [← htake]
  exact List.foldl_append.symm.trans (congrArg (exec step s) (List.take_append_drop ..))

/-- Every event of the run meets a condition on the state before it. -/
def AllSteps (step : σ → ε → σ) (ok : σ → ε → Prop) (s : σ) (events : List ε) : Prop :=
  ∀ k e, events[k]? = some e → ok (exec step s (events.take k)) e

theorem AllSteps.invariant {I : σ → Prop} {ok : σ → ε → Prop}
    (hstep : ∀ s e, I s → ok s e → I (step s e)) {s : σ} (hs : I s) {events : List ε}
    (h : AllSteps step ok s events) (k : Nat) : I (exec step s (events.take k)) := by
  induction k with
  | zero => exact hs
  | succ k ih =>
    cases he : events[k]? with
    | none =>
      rw [List.take_add_one, he, Option.toList_none, List.append_nil]
      exact ih
    | some e =>
      rw [exec_take_succ he]
      exact hstep _ e ih (h k e he)

theorem allSteps_cons {ok : σ → ε → Prop} {s : σ} {e : ε} {events : List ε} :
    AllSteps step ok s (e :: events) ↔ ok s e ∧ AllSteps step ok (step s e) events := by
  constructor
  · intro h
    exact ⟨h 0 e rfl, fun k e' he => h (k + 1) e' he⟩
  · rintro ⟨hfirst, hrest⟩ (_ | k) e' he
    · obtain rfl := Option.some.inj he
      exact hfirst
    · exact hrest k e' he

instance decidableAllSteps {ok : σ → ε → Prop} [∀ s e, Decidable (ok s e)] :
    ∀ (s : σ) (events : List ε), Decidable (AllSteps step ok s events)
  | _, [] => .isTrue fun _ _ he => nomatch he
  | s, e :: events =>
    have : Decidable (AllSteps step ok (step s e) events) := decidableAllSteps (step s e) events
    decidable_of_iff (ok s e ∧ AllSteps step ok (step s e) events) allSteps_cons.symm

theorem invariant_iff {I : σ → Prop} {ok : σ → ε → Prop}
    (hstep : ∀ s e, I s → (I (step s e) ↔ ok s e)) {s : σ} (hs : I s) (events : List ε) :
    (∀ k, I (exec step s (events.take k))) ↔ AllSteps step ok s events := by
  constructor
  · intro h k e he
    have hnext := h (k + 1)
    rw [exec_take_succ he] at hnext
    exact (hstep _ e (h k)).mp hnext
  · exact AllSteps.invariant (fun s e hs => (hstep s e hs).mpr) hs

/-! ## Histories -/

theorem exec_concat {s : σ} (history : List ε) (e : ε) :
    exec step s (history ++ [e]) = step (exec step s history) e := List.foldl_concat ..

/-- A state predicate holds in every state of a run. -/
def Always (step : σ → ε → σ) (s : σ) (I : σ → Prop) (events : List ε) : Prop :=
  ∀ k, I (exec step s (events.take k))

theorem Always.last {I : σ → Prop} {s : σ} {events : List ε} (h : Always step s I events) :
    I (exec step s events) := by
  have hall := h events.length
  rwa [List.take_length] at hall

theorem Always.take {I : σ → Prop} {s : σ} {events : List ε} (h : Always step s I events) (k : Nat) :
    Always step s I (events.take k) := by
  intro j
  rw [List.take_take]
  exact h (min j k)

theorem always_concat {I : σ → Prop} {s : σ} {history : List ε} {e : ε} :
    Always step s I (history ++ [e]) ↔
      Always step s I history ∧ I (exec step s (history ++ [e])) := by
  constructor
  · intro h
    have hbefore := h.take history.length
    rw [List.take_left] at hbefore
    exact ⟨hbefore, h.last⟩
  · rintro ⟨hbefore, hlast⟩ k
    rcases Nat.lt_or_ge history.length k with hk | hk
    · have hlength : (history ++ [e]).length ≤ k := by
        rw [List.length_append, List.length_singleton]
        omega
      rw [List.take_of_length_le hlength]
      exact hlast
    · rw [List.take_append_of_le_length hk]
      exact hbefore k

theorem invariant_history_iff {I : σ → Prop} {ok : List ε → ε → Prop} {s : σ} (hs : I s)
    (hstep : ∀ history e, Always step s I history →
      (I (exec step s (history ++ [e])) ↔ ok history e)) (events : List ε) :
    Always step s I events ↔ ∀ k e, events[k]? = some e → ok (events.take k) e := by
  constructor
  · intro h k e he
    have hnext := h (k + 1)
    rw [List.take_add_one, he] at hnext
    exact (hstep _ e (h.take k)).mp hnext
  · intro hok k
    suffices Always step s I (events.take k) from this.last
    induction k with
    | zero => exact fun _ => by simpa [exec] using hs
    | succ k ih =>
      rw [List.take_add_one]
      cases he : events[k]? with
      | none => simpa using ih
      | some e => exact always_concat.mpr ⟨ih, (hstep _ e ih).mpr (hok k e he)⟩

end Lionden.Trace
