import Lionden.Network.Devnode

/-!
# Children of a devnode manager

* `Sound`: what the manager records is about the current child.
* `isolated`: in runs where no child has an event that the manager records after another one has
  been spawned, and `start` is called when the calls before it are done with, each child has its
  state for itself.
-/

namespace Lionden.Network.DevnodeManager

variable {s : Devnode}

/-- The child has had an event that makes it terminal. -/
@[grind]
def Child.Ended (child : Child) : Prop :=
  child.closed = true ∨ child.errored = true ∨ child.drained = true

structure Sound (s : Devnode) : Prop where
  children : ∀ i child, s.children i = some child → i ≤ s.generation
  starts : ∀ j start, s.starts j = some start → j ≤ s.generation
  process : ∀ i, s.process = some i → i = s.generation
  running : s.process ≠ none ↔ s.children s.generation ≠ none ∧ s.terminal = false
  terminal : ∀ child, s.children s.generation = some child → (s.terminal = true ↔ child.Ended)
  exitInfo : ∀ child, s.children s.generation = some child →
    (s.exitInfo = none ↔ child.exited = false ∧ s.terminal = false)
  timers : ∀ i, s.timers i = true → ∃ child, s.children i = some child ∧ child.exited = true
  -- A race goes on while its child does, and a call that has not been aborted is the last one.
  racing : ∀ j start, s.starts j = some start → start.stage = .racing →
    j = s.generation ∧ s.process ≠ none
  raced : ∀ j start healthy, s.starts j = some start → start.stage = .raced healthy →
    start.aborted = true ∨ j = s.generation
  spawned : ∀ start healthy, s.starts s.generation = some start → start.stage = .raced healthy →
    s.children s.generation ≠ none
  lost : ∀ start, s.starts s.generation = some start → start.stage = .raced false →
    s.terminal = true
  shutdown : s.shutdownInitiated = true → ∀ start healthy, s.starts s.generation = some start →
    start.stage = .racing ∨ start.stage = .raced healthy → start.aborted = true

attribute [local grind =] Function.update_apply Option.map_eq_some_iff

namespace Sound

theorem new : Sound .new where
  children _ _ h := nomatch h
  starts _ _ h := nomatch h
  process _ h := nomatch h
  running := ⟨fun h => absurd rfl h, fun h => absurd rfl h.1⟩
  terminal _ h := nomatch h
  exitInfo _ h := nomatch h
  timers _ h := nomatch h
  racing _ _ h := nomatch h
  raced _ _ _ h := nomatch h
  spawned _ _ h := nomatch h
  lost _ h := nomatch h
  shutdown h := nomatch h

/-! ## Calls -/

theorem freshChild (h : Sound s) : s.children (s.generation + 1) = none := by
  cases hchild : s.children (s.generation + 1) with
  | none => rfl
  | some child => exact absurd (h.children _ _ hchild) (Nat.not_succ_le_self _)

theorem freshStart (h : Sound s) : s.starts (s.generation + 1) = none := by
  cases hstart : s.starts (s.generation + 1) with
  | none => rfl
  | some start => exact absurd (h.starts _ _ hstart) (Nat.not_succ_le_self _)

/-- The state is reset when there is no child and no call that has not been aborted. -/
theorem reset (h : Sound s) (hidle : s.process = none)
    (hdone : ∀ j start healthy, s.starts j = some start → start.stage = .raced healthy →
      start.aborted = true) : Sound s.resetPerProcessState := by
  have hchild := h.freshChild
  have hstart := h.freshStart
  obtain ⟨children, starts, process, running, terminal, exitInfo, timers, racing, raced, spawned,
    lost, shutdown⟩ := h
  unfold Devnode.resetPerProcessState Devnode.clearDrainTimer
  constructor
  all_goals dsimp only; grind

theorem notSpawned (h : Sound s) {options : StartOptions}
    {error : StartError} : Sound { s with
      starts := Function.update s.starts s.generation (some ⟨options, false, .threw error⟩) } := by
  obtain ⟨children, starts, process, running, terminal, exitInfo, timers, racing, raced, spawned,
    lost, shutdown⟩ := h
  constructor
  all_goals dsimp only; grind

theorem spawn (h : Sound s) (hchild : s.children s.generation = none)
    (hterminal : s.terminal = false) (hexitInfo : s.exitInfo = none)
    (hshutdown : s.shutdownInitiated = false) {options : StartOptions} : Sound { s with
      process := some s.generation
      logging := some s.generation
      children := Function.update s.children s.generation (some ⟨false, false, false, false, []⟩)
      starts := Function.update s.starts s.generation (some ⟨options, false, .racing⟩) } := by
  obtain ⟨children, starts, process, running, terminal, exitInfo, timers, racing, raced, spawned,
    lost, shutdown⟩ := h
  constructor
  all_goals dsimp only; grind

theorem start (h : Sound s) {options : StartOptions} {thrown : Option JsString}
    (hdone : s.isRunning = true ∨ ∀ j start healthy, s.starts j = some start →
      start.stage = .raced healthy → start.aborted = true) : Sound (s.start options thrown) := by
  unfold Devnode.start
  split
  · exact h
  · next hidle =>
    have hreset := h.reset (by simpa [Devnode.isRunning] using hidle) (hdone.resolve_left hidle)
    dsimp only
    split
    · exact hreset.notSpawned
    · exact hreset.spawn h.freshChild rfl rfl rfl

theorem setStage {j : Nat} {start : Start} {stage : Stage} (h : Sound s)
    (hj : s.starts j = some start) (hstage : stage ≠ .racing)
    (hraced : ∀ healthy, stage = .raced healthy → start.stage = .racing ∧ healthy = true) :
    Sound (s.setStage j start stage) := by
  obtain ⟨children, starts, process, running, terminal, exitInfo, timers, racing, raced, spawned,
    lost, shutdown⟩ := h
  unfold Devnode.setStage
  constructor
  all_goals dsimp only; grind

theorem stop (h : Sound s) : Sound s.stop := by
  obtain ⟨children, starts, process, running, terminal, exitInfo, timers, racing, raced, spawned,
    lost, shutdown⟩ := h
  unfold Devnode.stop Devnode.initiateShutdown
  split
  · constructor
    all_goals dsimp only; grind
  · exact ⟨children, starts, process, running, terminal, exitInfo, timers, racing, raced, spawned,
      lost, shutdown⟩

theorem timeout (h : Sound s) (j : Nat) : Sound (s.timeout j) := by
  unfold Devnode.timeout
  split
  · next start hj =>
    split
    · next hracing =>
      obtain ⟨rfl, hprocess⟩ := h.racing j start hj hracing
      obtain ⟨children, starts, process, running, terminal, exitInfo, timers, racing, raced,
        spawned, lost, shutdown⟩ := h
      have hrunning : s.isRunning = true := Option.isSome_iff_ne_none.mpr hprocess
      unfold Devnode.initiateShutdown Devnode.setStage
      rw [if_pos hrunning, if_pos hrunning]
      constructor
      all_goals dsimp only; grind
    · exact h
  · exact h

theorem healthy (h : Sound s) (j : Nat) : Sound (s.healthy j) := by
  unfold Devnode.healthy
  split
  · next start hj =>
    split
    · next hracing =>
      exact h.setStage hj nofun fun healthy heq => ⟨hracing, (Stage.raced.inj heq).symm⟩
    · exact h
  · exact h

theorem resume (h : Sound s) (j : Nat) : Sound (s.resume j) := by
  unfold Devnode.resume
  split
  · exact h
  · next start hj =>
    split
    · split
      · split
        · exact h.setStage hj nofun nofun
        · split
          · exact h.setStage hj nofun nofun
          · exact h.setStage hj nofun nofun
      · have hset : Sound (s.setStage j start .resolved) := h.setStage hj nofun nofun
        exact { hset with }
    · split
      · exact h.setStage hj nofun nofun
      · exact h
    · exact h
    · exact h
    · exact h

/-! ## Events of a child -/

theorem exit {i : Nat} {info : ExitInfo} (h : Sound s)
    (hturn : s.children s.generation ≠ none → i = s.generation) : Sound (s.exit i info) := by
  unfold Devnode.exit
  split
  · exact h
  · split
    · exact h
    · obtain ⟨children, starts, process, running, terminal, exitInfo, timers, racing, raced, spawned,
        lost, shutdown⟩ := h
      unfold Devnode.setChild
      constructor
      all_goals dsimp only; grind

theorem close {i : Nat} {info : ExitInfo} (h : Sound s)
    (hturn : s.children s.generation ≠ none → i = s.generation ∨ s.terminal = true) :
    Sound (s.close i info) := by
  unfold Devnode.close
  split
  · exact h
  · split
    · exact h
    · obtain ⟨children, starts, process, running, terminal, exitInfo, timers, racing, raced, spawned,
        lost, shutdown⟩ := h
      unfold Devnode.markTerminal Devnode.setChild Devnode.clearDrainTimer
      dsimp only
      split
      · constructor
        all_goals dsimp only; grind
      · constructor
        all_goals dsimp only; grind

theorem error {i : Nat} {message : JsString} (h : Sound s)
    (hturn : s.children s.generation ≠ none → i = s.generation) : Sound (s.error i message) := by
  unfold Devnode.error
  split
  · split
    · exact h
    · obtain ⟨children, starts, process, running, terminal, exitInfo, timers, racing, raced, spawned,
        lost, shutdown⟩ := h
      unfold Devnode.markTerminal Devnode.setChild Devnode.clearDrainTimer
      dsimp only
      split
      · constructor
        all_goals dsimp only; grind
      · constructor
        all_goals dsimp only; grind
  · exact h

theorem drain {i : Nat} (h : Sound s)
    (hturn : s.children s.generation ≠ none → i = s.generation ∨ s.terminal = true) :
    Sound (s.drain i) := by
  unfold Devnode.drain
  split
  · exact h
  · split
    · obtain ⟨children, starts, process, running, terminal, exitInfo, timers, racing, raced, spawned,
        lost, shutdown⟩ := h
      unfold Devnode.markTerminal Devnode.setChild Devnode.clearDrainTimer
      dsimp only
      split
      · split
        · constructor
          all_goals dsimp only; grind
        · constructor
          all_goals dsimp only; grind
      · constructor
        all_goals dsimp only; grind
    · exact h

theorem receive (h : Sound s) (i : Nat) (chunk : JsString) : Sound (s.receive i chunk) := by
  unfold Devnode.receive
  split
  · exact h
  · obtain ⟨children, starts, process, running, terminal, exitInfo, timers, racing, raced, spawned,
      lost, shutdown⟩ := h
    unfold Devnode.setChild
    constructor
    all_goals dsimp only; grind

end Sound

/-! ## Runs -/

/-- `start` passes its first check when no call before it still has to go on after its race, unless it
has been aborted, and a child has no event that the manager records after another one has been spawned:
a late `close` or expiry of its drain timer may come when the other one is terminal, too. -/
def InTurn (s : Devnode) : Event → Prop
  | .start .. => s.isRunning = true ∨ ∀ j start healthy, s.starts j = some start →
      start.stage = .raced healthy → start.aborted = true
  | .exit i _ | .error i _ => s.children s.generation ≠ none → i = s.generation
  | .close i _ | .drain i => s.children s.generation ≠ none → i = s.generation ∨ s.terminal = true
  | .stop | .resume _ | .healthy _ | .timeout _ | .output .. => True

theorem Sound.step {event : Event} (h : Sound s) (hturn : InTurn s event) : Sound (s.step event) := by
  cases event with
  | start options thrown => exact h.start hturn
  | stop => exact h.stop
  | resume j => exact h.resume j
  | healthy j => exact h.healthy j
  | timeout j => exact h.timeout j
  | exit i info => exact h.exit hturn
  | close i info => exact h.close hturn
  | error i message => exact h.error hturn
  | drain i => exact h.drain hturn
  | output i chunk => exact h.receive i chunk

/-- The child that has the event. -/
def Event.child : Event → Option Nat
  | .exit i _ | .close i _ | .error i _ | .drain i | .output i _ => some i
  | .start .. | .stop | .resume _ | .healthy _ | .timeout _ => none

/-- Nothing changes but for the other children and their drain timers. -/
structure SameRecord (s s' : Devnode) : Prop where
  state : { s with children := s'.children, timers := s'.timers } = s'
  child : s'.children s.generation = s.children s.generation
  timer : s'.timers s.generation = s.timers s.generation

theorem SameRecord.refl (s : Devnode) : SameRecord s s := ⟨rfl, rfl, rfl⟩

theorem SameRecord.setChild {i : Nat} {child : Child} (hne : i ≠ s.generation) :
    SameRecord s (s.setChild i child) := ⟨rfl, Function.update_of_ne hne.symm .., rfl⟩

/-- The drain timer of another child expires. -/
theorem SameRecord.drain {i : Nat} {child : Child} (hne : i ≠ s.generation) :
    SameRecord s { s.setChild i child with timers := Function.update s.timers i false } :=
  ⟨rfl, Function.update_of_ne hne.symm .., Function.update_of_ne hne.symm ..⟩

/-- A child that has not ended, and has not exited. -/
def Child.Alive (child : Child) : Prop := child.exited = false ∧ ¬child.Ended

/-- A step is about the child that it is of. -/
structure Isolated (s s' : Devnode) (event : Event) : Prop where
  earlier : s.children s.generation ≠ none → ∀ i, event.child = some i → i ≠ s.generation →
    SameRecord s s'
  running : s'.isRunning = true ↔
    ∃ child, s'.children s'.generation = some child ∧ ¬child.Ended
  resolves : ∀ j start start', s.starts j = some start → start.stage ≠ .resolved →
    s'.starts j = some start' → start'.stage = .resolved → start'.aborted = false →
    start.stage = .raced true ∧ ∃ child, s'.children j = some child ∧ child.Alive

theorem Sound.isRunning_iff (h : Sound s) : s.isRunning = true ↔
    ∃ child, s.children s.generation = some child ∧ ¬child.Ended := by
  have hterminal := h.terminal
  rw [Devnode.isRunning, Option.isSome_iff_ne_none, h.running, Option.ne_none_iff_exists']
  grind

theorem Sound.earlier {event : Event} {i : Nat} (hturn : InTurn s event)
    (hcurrent : s.children s.generation ≠ none) (hchild : event.child = some i)
    (hne : i ≠ s.generation) : SameRecord s (s.step event) := by
  cases event with
  | start | stop | resume | healthy | timeout => exact nomatch hchild
  | exit j info | error j message =>
    obtain rfl := Option.some.inj hchild
    exact absurd (hturn hcurrent) hne
  | close j info =>
    obtain rfl := Option.some.inj hchild
    have hterminal := (hturn hcurrent).resolve_left hne
    show SameRecord s (s.close j info)
    unfold Devnode.close
    split
    · exact .refl s
    · split
      · exact .refl s
      · unfold Devnode.markTerminal
        show SameRecord s (if s.terminal = true then _ else _)
        rw [if_pos hterminal]
        exact .setChild hne
  | drain j =>
    obtain rfl := Option.some.inj hchild
    have hterminal := (hturn hcurrent).resolve_left hne
    show SameRecord s (s.drain j)
    unfold Devnode.drain
    split
    · exact .refl s
    · split
      · dsimp only
        split
        · unfold Devnode.markTerminal
          show SameRecord s (if s.terminal = true then _ else _)
          rw [if_pos hterminal]
          exact .drain hne
        · exact .drain hne
      · exact .refl s
  | output j chunk =>
    obtain rfl := Option.some.inj hchild
    show SameRecord s (s.receive j chunk)
    unfold Devnode.receive
    split
    · exact .refl s
    · exact .setChild hne

/-- No call resolves. -/
def NoneResolves (s s' : Devnode) : Prop :=
  ∀ j start start', s.starts j = some start → s'.starts j = some start' →
    start'.stage = .resolved → start.stage = .resolved

namespace NoneResolves

theorem of_eq {s' : Devnode} (h : s'.starts = s.starts) : NoneResolves s s' := by
  intro j start start' hj hj' hresolved
  rw [h, hj] at hj'
  exact Option.some.inj hj' ▸ hresolved

theorem of_update {s' : Devnode} {i : Nat} {entry : Option Start}
    (h : s'.starts = Function.update s.starts i entry)
    (hentry : ∀ start start', s.starts i = some start → entry = some start' →
      start'.stage = .resolved → start.stage = .resolved) : NoneResolves s s' := by
  intro j start start' hj hj' hresolved
  rw [h] at hj'
  by_cases hji : j = i
  · subst hji
    rw [Function.update_self] at hj'
    exact hentry start start' hj hj' hresolved
  · rw [Function.update_of_ne hji, hj] at hj'
    exact Option.some.inj hj' ▸ hresolved

theorem setStage {s' : Devnode} {i : Nat} {start : Start} {stage : Stage}
    (h : s'.starts = Function.update s.starts i (some { start with stage }))
    (hstage : stage ≠ .resolved) : NoneResolves s s' := by
  refine of_update h fun _ start' _ hstart' hresolved => absurd ?_ hstage
  obtain rfl := Option.some.inj hstart'
  exact hresolved

theorem markTerminal {s' : Devnode} {info : ExitInfo} (h : s'.starts = s.starts) :
    NoneResolves s (s'.markTerminal info) := by
  unfold Devnode.markTerminal
  split
  · exact of_eq h
  · refine of_update (by rw [h]) fun start start' hstart hstart' hresolved => ?_
    rw [hstart, Option.map_some] at hstart'
    obtain rfl := Option.some.inj hstart'
    split at hresolved
    · exact nomatch hresolved
    · exact hresolved

theorem step {event : Event} (hevent : ∀ j, event ≠ .resume j) : NoneResolves s (s.step event) := by
  cases event with
  | resume j => exact absurd rfl (hevent j)
  | start options thrown =>
    show NoneResolves s (s.start options thrown)
    unfold Devnode.start
    split
    · exact of_eq rfl
    · dsimp only
      split
      · exact of_update rfl fun _ _ _ hstart' => by rw [← Option.some.inj hstart']; nofun
      · exact of_update rfl fun _ _ _ hstart' => by rw [← Option.some.inj hstart']; nofun
  | stop =>
    show NoneResolves s s.stop
    unfold Devnode.stop
    split
    · refine of_update rfl fun start start' hstart hstart' hresolved => ?_
      rw [hstart, Option.map_some] at hstart'
      obtain rfl := Option.some.inj hstart'
      exact hresolved
    · exact of_eq rfl
  | healthy j =>
    show NoneResolves s (s.healthy j)
    unfold Devnode.healthy
    split
    · split
      · exact setStage rfl nofun
      · exact of_eq rfl
    · exact of_eq rfl
  | timeout j =>
    show NoneResolves s (s.timeout j)
    unfold Devnode.timeout Devnode.initiateShutdown
    split
    · split
      · split
        · exact setStage rfl nofun
        · exact setStage rfl nofun
      · exact of_eq rfl
    · exact of_eq rfl
  | exit i info =>
    show NoneResolves s (s.exit i info)
    unfold Devnode.exit
    split
    · exact of_eq rfl
    · split <;> exact of_eq rfl
  | close i info =>
    show NoneResolves s (s.close i info)
    unfold Devnode.close
    split
    · exact of_eq rfl
    · split
      · exact of_eq rfl
      · exact markTerminal rfl
  | error i message =>
    show NoneResolves s (s.error i message)
    unfold Devnode.error
    split
    · split
      · exact of_eq rfl
      · exact markTerminal rfl
    · exact of_eq rfl
  | drain i =>
    show NoneResolves s (s.drain i)
    unfold Devnode.drain
    split
    · exact of_eq rfl
    · split
      · dsimp only
        split
        · exact markTerminal rfl
        · exact of_eq rfl
      · exact of_eq rfl
  | output i chunk =>
    show NoneResolves s (s.receive i chunk)
    unfold Devnode.receive
    split <;> exact of_eq rfl

end NoneResolves

/-- A call resolves only after its race: without an exit, or when it has been aborted. -/
theorem resume_cases (s : Devnode) (j : Nat) : NoneResolves s (s.resume j) ∨
    ∃ start healthy, s.starts j = some start ∧ start.stage = .raced healthy ∧
      (s.exitInfo = none ∨ s.shutdownInitiated = true) ∧ (s.resume j).children = s.children ∧
      (s.resume j).starts = Function.update s.starts j (some { start with stage := .resolved }) := by
  unfold Devnode.resume
  split
  · exact .inl (.of_eq rfl)
  · next start hj =>
    split
    · next healthy hraced =>
      split
      · split
        · next hshutdown => exact .inr ⟨start, healthy, hj, hraced, .inr hshutdown, rfl, rfl⟩
        · split
          · exact .inl (.setStage rfl nofun)
          · exact .inl (.setStage rfl nofun)
      · next hnone => exact .inr ⟨start, healthy, hj, hraced, .inl hnone, rfl, rfl⟩
    · split
      · exact .inl (.setStage rfl nofun)
      · exact .inl (.of_eq rfl)
    · exact .inl (.of_eq rfl)
    · exact .inl (.of_eq rfl)
    · exact .inl (.of_eq rfl)

theorem Sound.resolves {event : Event} (h : Sound s) {j : Nat} {start start' : Start}
    (hj : s.starts j = some start) (hstage : start.stage ≠ .resolved)
    (hj' : (s.step event).starts j = some start') (hresolved : start'.stage = .resolved)
    (haborted : start'.aborted = false) :
    start.stage = .raced true ∧ ∃ child, (s.step event).children j = some child ∧ child.Alive := by
  have hresolves : ¬NoneResolves s (s.step event) := fun hnone =>
    hstage (hnone j start start' hj hj' hresolved)
  obtain ⟨j', rfl⟩ : ∃ j', event = .resume j' := by
    by_contra hother
    exact hresolves (.step (not_exists.mp hother))
  obtain ⟨old, healthy, hold, hraced, hinfo, hchildren, hstarts⟩ :=
    (resume_cases s j').resolve_left hresolves
  -- It is this call that goes on.
  have hjj : j = j' := by
    by_contra hne
    refine hstage ?_
    rw [Devnode.step, hstarts, Function.update_of_ne hne, hj] at hj'
    exact Option.some.inj hj' ▸ hresolved
  subst hjj
  obtain rfl := Option.some.inj (hold.symm.trans hj)
  rw [Devnode.step, hstarts, Function.update_self] at hj'
  obtain rfl := Option.some.inj hj'
  obtain rfl : j = s.generation :=
    (h.raced j old healthy hj hraced).resolve_left (by simpa using haborted)
  have hnone : s.exitInfo = none := by
    refine hinfo.resolve_right fun hshutdown => ?_
    have habort := h.shutdown hshutdown old healthy hj (.inr hraced)
    exact nomatch haborted.symm.trans habort
  obtain ⟨child, hchild⟩ := Option.ne_none_iff_exists'.mp (h.spawned old healthy hj hraced)
  obtain ⟨hexited, hterminal⟩ := (h.exitInfo child hchild).mp hnone
  refine ⟨?_, child, (congrFun hchildren _).trans hchild, hexited, fun hended => ?_⟩
  · cases healthy with
    | true => exact hraced
    | false => exact nomatch hterminal.symm.trans (h.lost old hj hraced)
  · exact nomatch hterminal.symm.trans ((h.terminal child hchild).mpr hended)

open Trace (exec AllSteps allSteps_cons)

/-- **A child has its state for itself while no earlier one has a late event**: in runs whose steps are
in turn, an event of an earlier child changes nothing that is recorded of the current one, a child
runs exactly until it has ended, and a call of `start` that has not been aborted resolves only when its
own child is healthy and alive. -/
theorem isolated {events : List Event} (h : AllSteps Devnode.step InTurn .new events) {k : Nat}
    {event : Event} (hevent : events[k]? = some event) :
    Isolated (exec Devnode.step .new (events.take k)) (exec Devnode.step .new (events.take (k + 1)))
      event := by
  have hturn := h k event hevent
  have hsound := h.invariant (I := Sound) (fun s event hs hok => hs.step hok) Sound.new k
  rw [Trace.exec_take_succ hevent]
  exact ⟨fun hcurrent i hchild hne => Sound.earlier hturn hcurrent hchild hne,
    (hsound.step hturn).isRunning_iff,
    fun j start start' hj hstage hj' hresolved haborted =>
      hsound.resolves hj hstage hj' hresolved haborted⟩

def plain : StartOptions := ⟨none, none, none, none, none, none, none, none⟩

def exitZero : ExitInfo := ⟨some 0, none⟩

/-- A child is stopped, and another one is spawned. -/
def restarted : List Event :=
  [.start plain none, .healthy 1, .resume 1, .stop, .exit 1 exitZero, .close 1 exitZero,
    .start plain none, .output 1 [98]]

/-- The first call has resolved when the second one is made. -/
theorem restarted_settled (j : Nat) (start : Start) (healthy : Bool)
    (hj : (exec Devnode.step .new (restarted.take 6)).starts j = some start)
    (hraced : start.stage = .raced healthy) : start.aborted = true := by
  have hzero : (exec Devnode.step .new (restarted.take 6)).starts 0 = none := rfl
  have hlater (j : Nat) : (exec Devnode.step .new (restarted.take 6)).starts (j + 2) = none := rfl
  obtain _ | _ | j := j
  · rw [hzero] at hj
    cases hj
  · obtain rfl := Option.some.inj hj
    cases hraced
  · rw [hlater] at hj
    cases hj

theorem isolated_restarted : Isolated (exec Devnode.step .new (restarted.take 7))
    (exec Devnode.step .new (restarted.take 8)) (.output 1 [98]) := by
  have hturn : AllSteps Devnode.step InTurn .new restarted :=
    allSteps_cons.mpr ⟨.inr fun _ _ _ h => (nomatch h), allSteps_cons.mpr ⟨trivial,
      allSteps_cons.mpr ⟨trivial, allSteps_cons.mpr ⟨trivial, allSteps_cons.mpr ⟨fun _ => rfl,
        allSteps_cons.mpr ⟨fun _ => .inl rfl, allSteps_cons.mpr ⟨.inr restarted_settled,
          allSteps_cons.mpr ⟨trivial, fun _ _ h => (nomatch h)⟩⟩⟩⟩⟩⟩⟩⟩
  exact isolated hturn rfl

def lateClose : List Event :=
  [.start plain none, .exit 1 exitZero, .drain 1, .start plain none, .close 1 exitZero]

def lateStart : List Event :=
  [.start plain none, .exit 1 exitZero, .close 1 exitZero, .start plain none, .resume 1]

/-- After the drain grace of a child, its late `close` ends the next one; and a call of `start` resolves
whose child has ended, when another one has been spawned since. -/
theorem late_events :
    ¬Isolated (exec Devnode.step .new (lateClose.take 4)) (exec Devnode.step .new (lateClose.take 5))
      (.close 1 exitZero) ∧
    ¬Isolated (exec Devnode.step .new (lateStart.take 4)) (exec Devnode.step .new (lateStart.take 5))
      (.resume 1) := by
  constructor
  · intro h
    have hrunning := h.running.mpr ⟨_, rfl, by simp [Child.Ended]⟩
    exact nomatch hrunning
  · intro h
    have hresolves := h.resolves 1 _ _ rfl nofun rfl rfl rfl
    exact nomatch hresolves.1

end Lionden.Network.DevnodeManager
