import Lionden.Deploy.Tasks

/-!
# Runs

A network runs through operations, each interrupted before any of its effects or not at all, through
new processes and through what the chain does by itself.

* `Event`, `Event.step`, `run`: events and the states they lead to.
* `Conditions`: conditions of the events on the state before them and on where they are interrupted.
* `Keeps.run`: what the operations keep under their conditions holds in every run of such events.
-/

namespace Lionden.Deploy

open Interrupt (Triple)

/-! ## Events -/

/-- Where an operation is interrupted: before which effects, on which program, in which states. -/
abbrev Crash := ProgramId × Effect → World → Bool

/-- What happens on a network. -/
inductive Event where
  | deploy (p : ProgramId) (env : Environment) (crash : Crash)
  | upgrade (p : ProgramId) (env : Environment) (crash : Crash)
  | recover (ids : List ProgramId) (env : ProgramId → Environment) (crash : Crash)
  /-- The next operation runs in a new process. -/
  | restart
  | chain (p : ProgramId) (ev : ChainEvent)

/-- A new process knows no record. -/
def forget (w : World) : World := fun p => { w p with cache := none, abiCache := none }

/-- The state after an operation; an interrupted one takes the process with it. -/
def settle {α : Type} : Interrupt.Outcome World JsString α → World
  | .returned _ w => w
  | .failed _ w => w
  | .crashed w => forget w

/-- The markers after an operation are those it leaves. -/
theorem settle_pending {α : Type} (o : Interrupt.Outcome World JsString α) (p : ProgramId) :
    (settle o p).pending = (o.state p).pending := by
  cases o with
  | returned a w => rfl
  | failed e w => rfl
  | crashed w => rfl

def Event.step (w : World) : Event → World
  | .deploy p env crash => settle ((deployAction p env).within p crash w)
  | .upgrade p env crash => settle ((upgradeAction p env).within p crash w)
  | .recover ids env crash => settle (recoverPendingDeployments env ids crash w)
  | .restart => forget w
  | .chain p ev => Function.update w p { w p with chain := ev.apply (w p).chain }

/-- The state after a sequence of events. -/
def run (w : World) (events : List Event) : World := events.foldl Event.step w

/-- Nothing is deployed. -/
def World.new : World := fun _ => .new

/-- The events of a run from `w` all satisfy a condition on the state before them. -/
def AllSteps (ok : World → Event → Prop) (w : World) : List Event → Prop
  | [] => True
  | event :: events => ok w event ∧ AllSteps ok (event.step w) events

/-- What every step that satisfies the condition preserves, every run of such steps preserves. -/
theorem run_invariant {I : World → Prop} {ok : World → Event → Prop}
    (hstep : ∀ w event, I w → ok w event → I (event.step w)) {w : World} {events : List Event}
    (hw : I w) (h : AllSteps ok w events) : I (run w events) := by
  induction events generalizing w with
  | nil => exact hw
  | cons event events ih => exact ih (hstep w event hw h.1) h.2

/-- What a task learns when everything goes well. -/
def Environment.smooth : Environment where
  devnode := false
  observed := true
  readable := true
  renamed := false
  skipDeployed := true
  shouldConfirm := true
  abi := some (js "[]")
  deployerAddress := none
  buildError := none
  confirmationError := none
  blockHeight := 7
  propagated := true
  now := js "2026-01-01T00-00-00-000Z"

def token : ProgramId := js "token.aleo"

def neverCrash : Crash := fun _ _ => false

/-! ## What runs keep -/

/-- Recovery settles the programs of its list, and leaves those that are settled. -/
theorem recoverPendingDeployments_spec {env : ProgramId → Environment} {ids : List ProgramId}
    {safe : Effect → ProgramState → Prop} {J C : ProgramState → Prop}
    {G H : ProgramId → ProgramState → Prop} {D : ProgramId → Prop} (hJC : ∀ s, J s → C s)
    (hrecover : ∀ p, Triple safe (fun s => J s ∧ G p s) (recoverPending p (env p))
      (fun _ s => J s ∧ G p s ∧ H p s) J C) :
    Triple (fun k w => safe k.2 (w k.1))
      (fun w => ∀ p, J (w p) ∧ (p ∈ ids → G p (w p)) ∧ (D p → H p (w p)))
      (recoverPendingDeployments env ids)
      (fun _ w => ∀ p, J (w p) ∧ (D p ∨ p ∈ ids → H p (w p)))
      (fun w => ∀ p, J (w p)) (fun w => ∀ p, C (w p)) := by
  induction ids generalizing D with
  | nil =>
    refine Triple.pure fun w h p => ⟨(h p).1, fun hp => (h p).2.2 ?_⟩
    exact hp.resolve_right List.not_mem_nil
  | cons q ids ih =>
    refine Triple.bind (M := fun _ w => ∀ p, J (w p) ∧ (p ∈ ids → G p (w p)) ∧
      (D p ∨ p = q → H p (w p))) ?_ fun recovered => ?_
    · refine (Triple.within (F := fun _ => J) (C := fun _ => C)
        (P := fun p s => J s ∧ (p ∈ q :: ids → G p s) ∧ (D p → H p s))
        (Q := fun _ p s => J s ∧ (p ∈ ids → G p s) ∧ (D p ∨ p = q → H p s))
        ((hrecover q).weaken ?_ ?_ (fun _ h => h) (fun _ h => h)) ?_ ?_ ?_)
      · intro s h
        exact ⟨h.1, h.2.1 List.mem_cons_self⟩
      · intro _ s h
        exact ⟨h.1, fun _ => h.2.1, fun _ => h.2.2⟩
      · intro _ p s hne h
        exact ⟨h.1, fun hp => h.2.1 (List.mem_cons_of_mem _ hp),
          fun hp => h.2.2 (hp.resolve_right hne)⟩
      · exact fun p s _ h => h.1
      · exact fun p s _ h => hJC s h.1
    · refine Triple.bind (M := fun _ w => ∀ p, J (w p) ∧ (D p ∨ p ∈ q :: ids → H p (w p))) ?_
        fun rest => Triple.pure fun _ h => h
      refine ih.weaken (fun _ h => h) (fun _ w h p => ⟨(h p).1, fun hp => (h p).2 ?_⟩)
        (fun _ h => h) (fun _ h => h)
      rw [List.mem_cons] at hp
      rcases hp with hp | rfl | hp
      · exact Or.inl (Or.inl hp)
      · exact Or.inl (Or.inr rfl)
      · exact Or.inr hp

/-- Conditions of the events of a run: where an operation may be interrupted, and on the state of a
program before an operation on it or an event of the chain. -/
structure Conditions where
  safe : Effect → ProgramState → Prop
  deploy : Environment → ProgramState → Prop
  upgrade : Environment → ProgramState → Prop
  recovery : Environment → ProgramState → Prop
  chain : ChainEvent → ProgramState → Prop

/-- An operation is interrupted only where it may be. -/
def Conditions.Safe (c : Conditions) (crash : Crash) : Prop :=
  ∀ k w, crash k w = true → c.safe k.2 (w k.1)

def Conditions.Ok (c : Conditions) (w : World) : Event → Prop
  | .deploy p env crash => c.Safe crash ∧ c.deploy env (w p)
  | .upgrade p env crash => c.Safe crash ∧ c.upgrade env (w p)
  | .recover ids env crash => c.Safe crash ∧ ∀ p ∈ ids, c.recovery (env p) (w p)
  | .restart => True
  | .chain p ev => c.chain ev (w p)

/-- The operations keep `J` under the conditions, and end in `C` when they are interrupted. -/
structure Keeps (c : Conditions) (J C : ProgramState → Prop) : Prop where
  interrupted : ∀ s, J s → C s
  forget : ∀ s, C s → J { s with cache := none, abiCache := none }
  deploy : ∀ p env, Triple c.safe (fun s => J s ∧ c.deploy env s) (deployAction p env)
    (fun _ => J) J C
  upgrade : ∀ p env, Triple c.safe (fun s => J s ∧ c.upgrade env s) (upgradeAction p env)
    (fun _ => J) J C
  recovery : ∀ p env, Triple c.safe (fun s => J s ∧ c.recovery env s) (recoverPending p env)
    (fun _ s => J s ∧ c.recovery env s) J C
  chain : ∀ ev s, J s → c.chain ev s → J { s with chain := ev.apply s.chain }

section Keeps

variable {c : Conditions} {J C : ProgramState → Prop} {w : World} {crash : Crash}

/-- The state after an operation of the network. -/
theorem Keeps.settle {α : Type} {P : World → Prop} {op : NetworkOp α} (h : Keeps c J C)
    (hop : Triple (fun k w => c.safe k.2 (w k.1)) P op (fun _ w => ∀ p, J (w p))
      (fun w => ∀ p, J (w p)) (fun w => ∀ p, C (w p)))
    (hcrash : c.Safe crash) (hw : P w) (p : ProgramId) : J (settle (op crash w) p) := by
  have hrun := hop crash w hcrash hw
  cases ho : op crash w with
  | returned a w' =>
    rw [ho] at hrun
    exact hrun p
  | failed e w' =>
    rw [ho] at hrun
    exact hrun p
  | crashed w' =>
    rw [ho] at hrun
    exact h.forget (w' p) (hrun p)

/-- The state after an operation on one program. -/
theorem Keeps.within {α : Type} {P : ProgramState → Prop} {op : Op α} (h : Keeps c J C)
    (hop : Triple c.safe (fun s => J s ∧ P s) op (fun _ => J) J C) (hcrash : c.Safe crash)
    (hw : ∀ q, J (w q)) {p : ProgramId} (hp : P (w p)) (q : ProgramId) :
    J (Deploy.settle (op.within p crash w) q) := by
  refine h.settle (P := fun w => ∀ q, J (w q) ∧ (q = p → P (w q))) ?_ hcrash
    (fun q => ⟨hw q, by rintro rfl; exact hp⟩) q
  refine Triple.within (P := fun q s => J s ∧ (q = p → P s)) (Q := fun _ _ => J)
    (F := fun _ => J) (C := fun _ => C)
    (hop.weaken (fun s hs => ⟨hs.1, hs.2 rfl⟩) (fun _ _ h => h) (fun _ h => h) (fun _ h => h)) ?_ ?_ ?_
  · exact fun _ _ _ _ h => h.1
  · exact fun _ _ _ h => h.1
  · exact fun _ s _ hs => h.interrupted s hs.1

theorem Keeps.step (h : Keeps c J C) (w : World) (event : Event) (hw : ∀ p, J (w p))
    (hok : c.Ok w event) (p : ProgramId) : J (event.step w p) := by
  cases event with
  | deploy q env crash => exact h.within (h.deploy q env) hok.1 hw hok.2 p
  | upgrade q env crash => exact h.within (h.upgrade q env) hok.1 hw hok.2 p
  | recover ids env crash =>
    refine h.settle ((recoverPendingDeployments_spec (D := fun _ => False) (H := fun _ _ => True)
      h.interrupted fun q => (h.recovery q (env q)).weaken (fun _ h => h)
        (fun _ _ h => ⟨h.1, h.2, trivial⟩) (fun _ h => h) (fun _ h => h)).weaken (fun _ h => h)
      (fun _ w hw p => (hw p).1) (fun _ h => h) (fun _ h => h)) hok.1
      (fun q => ⟨hw q, hok.2 q, False.elim⟩) p
  | restart => exact h.forget (w p) (h.interrupted (w p) (hw p))
  | chain q ev =>
    show J (Function.update w q _ p)
    by_cases hpq : p = q
    · subst hpq
      rw [Function.update_self]
      exact h.chain ev (w p) (hw p) hok
    · rw [Function.update_of_ne hpq]
      exact hw p

/-- **What the operations keep holds in every run** of events that satisfy the conditions. -/
theorem Keeps.run (h : Keeps c J C) (hnew : J .new) {events : List Event}
    (hok : AllSteps c.Ok World.new events) (p : ProgramId) : J (run World.new events p) :=
  run_invariant (I := fun w => ∀ p, J (w p)) (fun w event hw hok => h.step w event hw hok)
    (fun _ => hnew) hok p

end Keeps

end Lionden.Deploy
