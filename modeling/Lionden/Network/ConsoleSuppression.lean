import Lionden.Lib.Trace
import Mathlib.Data.List.Count
import Mathlib.Tactic.Common

/-!
# The suppressed console (`sdk-diagnostics.ts`)

`withSuppressedSdkConsoleNoise` replaces the console's methods while a call runs. Calls overlap, so
a counter tells when the first enters and the last exits.

* `step`: a call enters, its body returns, throws or settles, and the call goes on after that.
* `Active`, `Suppressed`: what the events say of the calls: a call is active from when it enters to
  the event that ends it.
* `Inv`: the counter counts the calls that have not exited, and the console is the one or the other
  by it.
* `suppression_balanced`: what follows for a run.
-/

namespace Lionden.Network.ConsoleSuppression

open Trace

inductive ConsoleMethod where
  | log
  | warn
  | error
  deriving DecidableEq

/-- What `console` has under a name: a function it had at first, or a filter. -/
inductive Method (F : Type) where
  | own (f : F)
  | filtered (method : ConsoleMethod)
  deriving DecidableEq

/-- `console`, as far as it is replaced. -/
structure Console (F : Type) where
  log : Method F
  warn : Method F
  error : Method F
  deriving DecidableEq

/-- Where a call of `withSuppressedSdkConsoleNoise` is. -/
inductive Phase where
  | running
  /-- The body has returned a promise. -/
  | pending
  /-- It has settled, and a job is queued. -/
  | settled
  | exited
  deriving DecidableEq

structure State (F : Type) where
  console : Console F
  activeConsoleSuppressionCount : Int := 0
  originalConsoleMethods : Option (Console F) := none
  /-- The calls by their order. -/
  calls : List Phase := []
  /-- How often the console was restored. -/
  restored : Nat := 0

variable {F : Type}

def makeFilteredConsoleMethod (method : ConsoleMethod) : Method F := .filtered method

/-- The console while calls are suppressed. -/
def filteredConsole : Console F where
  log := makeFilteredConsoleMethod .log
  warn := makeFilteredConsoleMethod .warn
  error := makeFilteredConsoleMethod .error

namespace State

variable (s : State F)

def installSdkConsoleSuppression : State F :=
  let s := if s.activeConsoleSuppressionCount = 0 then
    { s with
      originalConsoleMethods := some ⟨s.console.log, s.console.warn, s.console.error⟩
      console := filteredConsole }
  else s
  { s with activeConsoleSuppressionCount := s.activeConsoleSuppressionCount + 1 }

def uninstallSdkConsoleSuppression : State F :=
  let s := { s with activeConsoleSuppressionCount := s.activeConsoleSuppressionCount - 1 }
  if s.activeConsoleSuppressionCount > 0 then s
  else
    let s := { s with activeConsoleSuppressionCount := 0 }
    match s.originalConsoleMethods with
    | some originals =>
      { s with
        console := ⟨originals.log, originals.warn, originals.error⟩
        originalConsoleMethods := none
        restored := s.restored + 1 }
    | none => s

def setCall (n : Nat) (phase : Phase) : State F := { s with calls := s.calls.set n phase }

/-- `finally`. -/
def exit (n : Nat) : State F := (s.setCall n .exited).uninstallSdkConsoleSuppression

end State

inductive Event where
  | enter
  | bodyReturns (call : Nat)
  | bodyThrows (call : Nat)
  | bodySettles (call : Nat)
  /-- The job that goes on after the promise. -/
  | resume (call : Nat)
  deriving DecidableEq

/-- An event of a call that is elsewhere changes nothing. -/
def step (s : State F) : Event → State F
  | .enter => { s.installSdkConsoleSuppression with calls := s.calls ++ [.running] }
  | .bodyReturns n => if s.calls[n]? = some .running then s.setCall n .pending else s
  | .bodyThrows n => if s.calls[n]? = some .running then s.exit n else s
  | .bodySettles n => if s.calls[n]? = some .pending then s.setCall n .settled else s
  | .resume n => if s.calls[n]? = some .settled then s.exit n else s

/-- The calls that have not exited. -/
def State.active (s : State F) : Nat := s.calls.countP (· ≠ .exited)

/-! ## What the counter counts -/

structure Inv (own : Console F) (s : State F) : Prop where
  count : s.activeConsoleSuppressionCount = s.active
  idle : s.active = 0 → s.console = own ∧ s.originalConsoleMethods = none
  busy : 0 < s.active → s.console = filteredConsole ∧ s.originalConsoleMethods = some own

variable {own : Console F} {s : State F} {n : Nat} {phase : Phase}

theorem Inv.start (own : Console F) : Inv own { console := own } where
  count := rfl
  idle _ := ⟨rfl, rfl⟩
  busy h := absurd h (Nat.lt_irrefl 0)

/-- What a step does: the console is restored exactly if the last call exits. -/
def Balanced (own : Console F) (s s' : State F) : Prop :=
  Inv own s' ∧ s'.restored = s.restored + if 0 < s.active ∧ s'.active = 0 then 1 else 0

theorem Inv.refl (h : Inv own s) : Balanced own s s := by
  refine ⟨h, ?_⟩
  rw [if_neg (by omega), Nat.add_zero]

theorem active_pos (hn : s.calls[n]? = some phase) (hactive : phase ≠ .exited) : 0 < s.active :=
  List.countP_pos_iff.mpr ⟨phase, List.mem_of_getElem? hn, by simpa⟩

theorem setCall_active (hn : s.calls[n]? = some phase) (hactive : phase ≠ .exited)
    (next : Phase) :
    (s.setCall n next).active = if next = .exited then s.active - 1 else s.active := by
  obtain ⟨hlt, hget⟩ := List.getElem?_eq_some_iff.mp hn
  have hpos : 0 < s.active := active_pos hn hactive
  have hset : (s.setCall n next).active =
      s.active - (if decide (phase ≠ .exited) then 1 else 0) +
        if decide (next ≠ .exited) then 1 else 0 := by
    rw [State.active, State.setCall, List.countP_set hlt, hget]
    rfl
  rw [hset, decide_eq_true hactive, if_pos rfl]
  by_cases hnext : next = .exited
  · simp [hnext]
  · simp only [hnext, ne_eq, not_false_eq_true, decide_true, if_true, if_false]
    omega

/-- The step of a call that goes on but does not exit. -/
theorem Inv.setCall (h : Inv own s) (hn : s.calls[n]? = some phase) (hactive : phase ≠ .exited)
    {next : Phase} (hnext : next ≠ .exited) : Balanced own s (s.setCall n next) := by
  have hsame : (s.setCall n next).active = s.active := by
    rw [setCall_active hn hactive, if_neg hnext]
  have hinv : Inv own (s.setCall n next) :=
    { count := by rw [hsame]; exact h.count
      idle := by rw [hsame]; exact h.idle
      busy := by rw [hsame]; exact h.busy }
  refine ⟨hinv, ?_⟩
  rw [hsame, if_neg (by omega)]
  rfl

theorem enter_active : (step s .enter).active = s.active + 1 := by
  simp [step, State.active, List.countP_append]

theorem Inv.enter (h : Inv own s) : Balanced own s (step s .enter) := by
  have hcount : (step s .enter).activeConsoleSuppressionCount = s.active + 1 := by
    simp only [step, State.installSdkConsoleSuppression]
    split <;> rw [h.count]
  have hrestored : (step s .enter).restored = s.restored := by
    simp only [step, State.installSdkConsoleSuppression]
    split <;> rfl
  refine ⟨⟨by rw [hcount, enter_active]; rfl, by rw [enter_active]; nofun, fun _ => ?_⟩, ?_⟩
  · by_cases hidle : s.active = 0
    · obtain ⟨hconsole, -⟩ := h.idle hidle
      have hzero : s.activeConsoleSuppressionCount = 0 := by rw [h.count, hidle]; rfl
      simp only [step, State.installSdkConsoleSuppression, if_pos hzero, hconsole, and_self]
    · have hzero : ¬ s.activeConsoleSuppressionCount = 0 := by rw [h.count]; exact_mod_cast hidle
      simp only [step, State.installSdkConsoleSuppression, if_neg hzero]
      exact h.busy (Nat.pos_of_ne_zero hidle)
  · rw [enter_active, if_neg (by omega), hrestored, Nat.add_zero]

theorem uninstall_more (h : s.activeConsoleSuppressionCount - 1 > 0) :
    s.uninstallSdkConsoleSuppression =
      { s with activeConsoleSuppressionCount := s.activeConsoleSuppressionCount - 1 } :=
  if_pos h

theorem uninstall_last (h : ¬ s.activeConsoleSuppressionCount - 1 > 0)
    (hsaved : s.originalConsoleMethods = some own) :
    s.uninstallSdkConsoleSuppression = { s with
      console := own
      activeConsoleSuppressionCount := 0
      originalConsoleMethods := none
      restored := s.restored + 1 } := by
  refine (if_neg h).trans ?_
  simp only [hsaved]

theorem Inv.exit (h : Inv own s) (hn : s.calls[n]? = some phase) (hactive : phase ≠ .exited) :
    Balanced own s (s.exit n) := by
  have hpos : 0 < s.active := active_pos hn hactive
  have hless : (s.setCall n .exited).active = s.active - 1 := by
    rw [setCall_active hn hactive, if_pos rfl]
  obtain ⟨hconsole, hsaved⟩ := h.busy hpos
  have hcount := h.count
  by_cases hlast : s.active = 1
  · have hzero : ¬ s.activeConsoleSuppressionCount - 1 > 0 := by omega
    have hexit := @uninstall_last F own (s.setCall n .exited) hzero hsaved
    rw [← State.exit] at hexit
    have hnone : (s.exit n).active = 0 := by
      rw [hexit]
      exact hless.trans (by omega)
    refine ⟨⟨?_, fun _ => ?_, fun hbusy => absurd hbusy (by omega)⟩, ?_⟩
    · rw [hnone, hexit]
      rfl
    · rw [hexit]
      exact ⟨rfl, rfl⟩
    · rw [if_pos ⟨hpos, hnone⟩, hexit]
      rfl
  · have hmore : s.activeConsoleSuppressionCount - 1 > 0 := by omega
    have hexit := @uninstall_more F (s.setCall n .exited) hmore
    rw [← State.exit] at hexit
    have hsome : (s.exit n).active = s.active - 1 := by
      rw [hexit]
      exact hless
    refine ⟨⟨?_, fun hidle => absurd hidle (by omega), fun _ => ?_⟩, ?_⟩
    · rw [hsome, hexit]
      change s.activeConsoleSuppressionCount - 1 = _
      omega
    · rw [hexit]
      exact ⟨hconsole, hsaved⟩
    · rw [if_neg (by omega), hexit]
      rfl

theorem Inv.step (h : Inv own s) (e : Event) : Balanced own s (ConsoleSuppression.step s e) := by
  cases e with
  | enter => exact h.enter
  | bodyReturns n =>
    rw [ConsoleSuppression.step]
    split
    case isTrue hn => exact h.setCall hn nofun nofun
    case isFalse => exact h.refl
  | bodyThrows n =>
    rw [ConsoleSuppression.step]
    split
    case isTrue hn => exact h.exit hn nofun
    case isFalse => exact h.refl
  | bodySettles n =>
    rw [ConsoleSuppression.step]
    split
    case isTrue hn => exact h.setCall hn nofun nofun
    case isFalse => exact h.refl
  | resume n =>
    rw [ConsoleSuppression.step]
    split
    case isTrue hn => exact h.exit hn nofun
    case isFalse => exact h.refl

theorem Inv.exec (h : Inv own s) (events : List Event) :
    Inv own (Trace.exec ConsoleSuppression.step s events) := by
  induction events generalizing s with
  | nil => exact h
  | cons e events ih => exact ih (h.step e).1

theorem isActive_iff_active : (∃ phase ∈ s.calls, phase ≠ .exited) ↔ 0 < s.active := by
  simp [State.active, List.countP_pos_iff]

/-! ## The calls by their events -/

/-- The events end a call that has entered: its body throws, or it returns a promise that settles,
and the call goes on after that. -/
def Ends (n : Nat) (events : List Event) : Prop :=
  (∃ before after, events = before ++ .bodyThrows n :: after ∧ .bodyReturns n ∉ before) ∨
    [.bodyReturns n, .bodySettles n, .resume n].Sublist events

/-- Call `n` has entered by the events, and has not ended. -/
def Active (events : List Event) (n : Nat) : Prop :=
  ∃ before after, events = before ++ .enter :: after ∧ before.count .enter = n ∧ ¬ Ends n after

/-- The events that are still to come of a call that ends. -/
def EndsFrom (n : Nat) (events : List Event) : Phase → Prop
  | .running => Ends n events
  | .pending => [.bodySettles n, .resume n].Sublist events
  | .settled => [.resume n].Sublist events
  | .exited => True

theorem ends_cons {e : Event} {events : List Event} : Ends n (e :: events) ↔
    e = .bodyThrows n ∨ (e = .bodyReturns n ∧ [.bodySettles n, .resume n].Sublist events) ∨
      e ≠ .bodyReturns n ∧ Ends n events := by
  unfold Ends
  rw [List.cons_sublist_cons']
  constructor
  · rintro (⟨before, after, hevents, hreturns⟩ | hsub | ⟨rfl, hsub⟩)
    · cases before with
      | nil =>
        rw [List.nil_append, List.cons.injEq] at hevents
        exact .inl hevents.1
      | cons e' before =>
        rw [List.cons_append, List.cons.injEq] at hevents
        obtain ⟨rfl, rfl⟩ := hevents
        rw [List.mem_cons, not_or] at hreturns
        exact .inr (.inr ⟨Ne.symm hreturns.1, .inl ⟨before, after, rfl, hreturns.2⟩⟩)
    · by_cases he : e = .bodyReturns n
      · exact .inr (.inl ⟨he, (List.sublist_cons_self _ _).trans hsub⟩)
      · exact .inr (.inr ⟨he, .inr hsub⟩)
    · exact .inr (.inl ⟨rfl, hsub⟩)
  · rintro (rfl | ⟨rfl, hsub⟩ | ⟨he, ⟨before, after, rfl, hreturns⟩ | hsub⟩)
    · exact .inl ⟨[], events, rfl, List.not_mem_nil⟩
    · exact .inr (.inr ⟨rfl, hsub⟩)
    · refine .inl ⟨e :: before, after, rfl, ?_⟩
      rw [List.mem_cons, not_or]
      exact ⟨Ne.symm he, hreturns⟩
    · exact .inr (.inl hsub)

theorem sublist_pair_cons {a b e : Event} {events : List Event} :
    [a, b].Sublist (e :: events) ↔ [a, b].Sublist events ∨ a = e ∧ [b].Sublist events :=
  List.cons_sublist_cons'

/-- Where a call is after an event. -/
def Phase.after (n : Nat) (phase : Phase) (e : Event) : Phase :=
  match phase with
  | .running => if e = .bodyReturns n then .pending else if e = .bodyThrows n then .exited else phase
  | .pending => if e = .bodySettles n then .settled else phase
  | .settled => if e = .resume n then .exited else phase
  | .exited => phase

theorem endsFrom_cons {e : Event} {events : List Event} :
    EndsFrom n (e :: events) phase ↔ EndsFrom n events (phase.after n e) := by
  cases phase with
  | running =>
    unfold EndsFrom Phase.after
    by_cases hreturns : e = .bodyReturns n
    · simp [ends_cons, hreturns]
    · by_cases hthrows : e = .bodyThrows n
      · simp [ends_cons, hthrows]
      · simp [ends_cons, hreturns, hthrows]
  | pending =>
    unfold EndsFrom Phase.after
    rw [sublist_pair_cons]
    by_cases he : e = .bodySettles n
    · rw [if_pos he]
      refine ⟨fun h => h.elim (List.sublist_of_cons_sublist) And.right, fun h => .inr ⟨he.symm, h⟩⟩
    · rw [if_neg he, or_iff_left fun h => he h.1.symm]
  | settled =>
    unfold EndsFrom Phase.after
    rw [List.singleton_sublist, List.mem_cons]
    by_cases he : e = .resume n
    · rw [if_pos he]
      exact iff_of_true (.inl he.symm) trivial
    · rw [if_neg he, or_iff_right fun h => he h.symm, List.singleton_sublist]
  | exited => exact Iff.rfl

theorem uninstall_calls : s.uninstallSdkConsoleSuppression.calls = s.calls := by
  unfold State.uninstallSdkConsoleSuppression
  dsimp only
  split
  · rfl
  · split <;> rfl

/-- An event that takes call `m` from a phase to another one. -/
theorem moved_phase {s' : State F} (m : Nat) (before after : Phase) (hn : s.calls[n]? = some phase)
    (hmoved : s'.calls = if s.calls[m]? = some before then s.calls.set m after else s.calls) :
    s'.calls[n]? = some (if m = n ∧ phase = before then after else phase) := by
  obtain ⟨hlt, -⟩ := List.getElem?_eq_some_iff.mp hn
  rw [hmoved]
  by_cases hm : m = n
  · subst hm
    by_cases hphase : phase = before
    · rw [if_pos (hphase ▸ hn), if_pos ⟨rfl, hphase⟩, List.getElem?_set_self hlt]
    · rw [if_neg fun h => hphase (Option.some.inj (hn.symm.trans h)), if_neg fun h => hphase h.2, hn]
  · rw [if_neg (c := m = n ∧ phase = before) fun h => hm h.1]
    split
    · rw [List.getElem?_set_ne hm, hn]
    · exact hn

theorem exit_calls : (s.exit n).calls = s.calls.set n .exited := uninstall_calls

theorem step_phase (hn : s.calls[n]? = some phase) (e : Event) :
    (step s e).calls[n]? = some (phase.after n e) := by
  cases e with
  | enter =>
    obtain ⟨hlt, -⟩ := List.getElem?_eq_some_iff.mp hn
    change (s.calls ++ [Phase.running])[n]? = _
    rw [List.getElem?_append_left hlt, hn]
    cases phase <;> rfl
  | bodyReturns m =>
    refine (moved_phase m .running .pending hn ?_).trans ?_
    · rw [step]
      split <;> rfl
    · cases phase <;> simp [Phase.after]
  | bodyThrows m =>
    refine (moved_phase m .running .exited hn ?_).trans ?_
    · rw [step]
      split
      · exact exit_calls
      · rfl
    · cases phase <;> simp [Phase.after]
  | bodySettles m =>
    refine (moved_phase m .pending .settled hn ?_).trans ?_
    · rw [step]
      split <;> rfl
    · cases phase <;> simp [Phase.after]
  | resume m =>
    refine (moved_phase m .settled .exited hn ?_).trans ?_
    · rw [step]
      split
      · exact exit_calls
      · rfl
    · cases phase <;> simp [Phase.after]

/-- The events that follow end a call exactly if it then has exited. -/
theorem exec_phase (hn : s.calls[n]? = some phase) (events : List Event) :
    ∃ phase', (exec step s events).calls[n]? = some phase' ∧
      (phase' = .exited ↔ EndsFrom n events phase) := by
  induction events generalizing s phase with
  | nil =>
    refine ⟨phase, hn, ?_⟩
    cases phase <;> simp [EndsFrom, Ends]
  | cons e events ih =>
    obtain ⟨phase', hphase, hends⟩ := ih (step_phase hn e)
    exact ⟨phase', hphase, hends.trans endsFrom_cons.symm⟩

theorem step_length (e : Event) :
    (step s e).calls.length = s.calls.length + if e = .enter then 1 else 0 := by
  cases e with
  | enter => simp [step]
  | bodyReturns m | bodySettles m =>
    rw [step]
    split <;> simp [State.setCall]
  | bodyThrows m | resume m =>
    rw [step]
    split <;> simp [exit_calls]

theorem exec_length (events : List Event) :
    (exec step s events).calls.length = s.calls.length + events.count .enter := by
  induction events generalizing s with
  | nil => rfl
  | cons e events ih =>
    rw [List.count_cons]
    refine ih.trans ?_
    rw [step_length]
    simp only [beq_iff_eq]
    omega

theorem exists_split_of_lt_count {e : Event} {events : List Event} (h : n < events.count e) :
    ∃ before after, events = before ++ e :: after ∧ before.count e = n := by
  induction events generalizing n with
  | nil => exact absurd h (Nat.not_lt_zero n)
  | cons e' events ih =>
    by_cases he : e' = e
    · subst he
      cases n with
      | zero => exact ⟨[], events, rfl, rfl⟩
      | succ n =>
        rw [List.count_cons_self, Nat.succ_lt_succ_iff] at h
        obtain ⟨before, after, rfl, hcount⟩ := ih h
        exact ⟨e' :: before, after, rfl, by rw [List.count_cons_self, hcount]⟩
    · rw [List.count_cons_of_ne he] at h
      obtain ⟨before, after, rfl, hcount⟩ := ih h
      exact ⟨e' :: before, after, rfl, by rw [List.count_cons_of_ne he, hcount]⟩

def run (own : Console F) (events : List Event) : State F := exec step { console := own } events

theorem run_entered (own : Console F) {before : List Event} (hcount : before.count .enter = n)
    (after : List Event) :
    ∃ phase, (run own (before ++ .enter :: after)).calls[n]? = some phase ∧
      (phase = .exited ↔ Ends n after) := by
  have hlength : (run own before).calls.length = n := by
    rw [run, exec_length, hcount]
    exact Nat.zero_add n
  have hentered : (step (run own before) .enter).calls[n]? = some .running := by
    change ((run own before).calls ++ [Phase.running])[n]? = _
    rw [← hlength]
    exact List.getElem?_concat_length
  obtain ⟨phase, hphase, hends⟩ := exec_phase hentered after
  refine ⟨phase, ?_, hends⟩
  rw [run, exec, List.foldl_append]
  exact hphase

/-- A call is active. -/
def Suppressed (events : List Event) : Prop := ∃ n, Active events n

theorem run_active (own : Console F) (events : List Event) :
    0 < (run own events).active ↔ Suppressed events := by
  rw [← isActive_iff_active]
  constructor
  · rintro ⟨phase, hmem, hactive⟩
    obtain ⟨n, hn⟩ := List.getElem?_of_mem hmem
    obtain ⟨hlt, -⟩ := List.getElem?_eq_some_iff.mp hn
    rw [run, exec_length, List.length_nil, Nat.zero_add] at hlt
    obtain ⟨before, after, rfl, hcount⟩ := exists_split_of_lt_count hlt
    obtain ⟨phase', hphase, hends⟩ := run_entered own hcount after
    obtain rfl := Option.some.inj (hn.symm.trans hphase)
    exact ⟨n, before, after, rfl, hcount, fun h => hactive (hends.mpr h)⟩
  · rintro ⟨n, before, after, rfl, hcount, hends⟩
    obtain ⟨phase, hphase, hexited⟩ := run_entered own hcount after
    exact ⟨phase, List.mem_of_getElem? hphase, fun h => hends (hexited.mp h)⟩

instance (events : List Event) : Decidable (Suppressed events) :=
  decidable_of_iff _ (run_active filteredConsole (F := Unit) events)

/-! ## Runs -/

/-- After any events the console is the original one if no call is active, else it filters and goes
through to the original one; the next event restores it once if the last call ends by it, and
otherwise not. -/
theorem suppression_balanced (own : Console F) (events : List Event) :
    (¬ Suppressed events → (run own events).console = own) ∧
      (Suppressed events → (run own events).console = filteredConsole ∧
        (run own events).originalConsoleMethods = some own) ∧
      ∀ e, (run own (events ++ [e])).restored = (run own events).restored +
        if Suppressed events ∧ ¬ Suppressed (events ++ [e]) then 1 else 0 := by
  have hinv : Inv own (run own events) := (Inv.start own).exec events
  refine ⟨fun h => ?_, fun h => hinv.busy ((run_active own events).mpr h), fun e => ?_⟩
  · rw [← run_active own, Nat.pos_iff_ne_zero, not_not] at h
    exact (hinv.idle h).1
  · have hnext : run own (events ++ [e]) = step (run own events) e := List.foldl_concat ..
    rw [hnext, (hinv.step e).2, ← hnext]
    congr 1
    refine if_congr (and_congr (run_active own events) ?_) rfl rfl
    rw [← run_active own, Nat.pos_iff_ne_zero, not_not]

/-- Two calls that overlap; the first to enter is the first to exit. -/
theorem suppression_balanced_overlap (own : Console Nat) :
    let events := [.enter, .enter, .bodyThrows 0, .bodyReturns 1, .bodySettles 1]
    (run own events).console = filteredConsole ∧ (run own events).restored = 0 ∧
      (run own (events ++ [.resume 1])).console = own ∧
      (run own (events ++ [.resume 1])).restored = 1 := by
  intro events
  have hbusy : Suppressed events := by decide
  have hidle : ¬ Suppressed (events ++ [.resume 1]) := by decide
  obtain ⟨-, hfiltered, hrestored⟩ := suppression_balanced own events
  refine ⟨(hfiltered hbusy).1, rfl, (suppression_balanced own (events ++ [.resume 1])).1 hidle, ?_⟩
  rw [hrestored, if_pos ⟨hbusy, hidle⟩]
  rfl

end Lionden.Network.ConsoleSuppression
