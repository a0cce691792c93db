import Lionden.Lib.Trace
import Mathlib.Logic.Function.Basic

/-!
# Fixtures (`fixtures.ts`)

`loadFixture` keeps an entry for each fixture function: the promise of an execution while it goes on,
and then what it has returned. Whether there is a result is decided by its value.

* `Event`, `State.step`: what calls and executions do, in any order.
* `Kept`, `Sound`, `Sound.step`: the entry of an execution at each stage.
* `Spent`: the entry of an execution that is not used again.
* `once_iff`: every function is executed once in a run in which none is called when its entry is
  spent, and in no other.
-/

namespace Lionden.Testing

/-! ## Calls and executions -/

/-- What comes of the execution of a fixture function. A value is `none` if it is `undefined`. -/
inductive Outcome (V E : Type) where
  /-- Its promise is fulfilled, -/
  | fulfilled (value : Option V)
  /-- or rejected. -/
  | rejected (error : E)
  /-- The function throws, and returns no promise. -/
  | thrown (error : E)

variable {F C V E : Type}

/-- What a call that gets an outcome settles with. -/
def Outcome.settlement : Outcome V E → Except E (Option V)
  | fulfilled value => .ok value
  | rejected error => .error error
  | thrown error => .error error

/-- An entry of `fixtureCache`. A promise is named by the call whose execution returned it. -/
structure Entry (C V : Type) where
  result : Option (Option V)
  promise : Option C

/-- How far a call is. -/
inductive Status (C V E : Type) where
  /-- In the synchronous part of the function that it executes. -/
  | executing
  /-- It awaits the promise of its own execution, -/
  | pending
  /-- or that of another. -/
  | awaiting (d : C)
  | settled (settlement : Except E (Option V))

/-- An entry is named by the call that made it. -/
structure State (F C V E : Type) where
  cache : F → Option C
  entries : C → Entry C V
  calls : C → Option (F × Status C V E)
  /-- What has come of the execution of a call. -/
  outcomes : C → Option (Outcome V E)
  /-- The calls that have executed a function, the last one first. -/
  executions : F → List C

inductive Event (F C V E : Type) where
  /-- `loadFixture(fn)`. -/
  | load (c : C) (fn : F)
  /-- The function that the call executes returns its promise, -/
  | returned (c : C)
  /-- or throws. -/
  | threw (c : C) (error : E)
  /-- The promise is fulfilled with a value, -/
  | fulfilled (c : C) (value : Option V)
  /-- or rejected. -/
  | rejected (c : C) (error : E)
  /-- The call goes on after its `await`. -/
  | resumed (c : C)

def State.initial : State F C V E where
  cache _ := none
  entries _ := { result := none, promise := none }
  calls _ := none
  outcomes _ := none
  executions _ := []

/-- What a call does that finds the entry. -/
def Entry.found : Entry C V → Option (Status C V E)
  | { result := some (some value), .. } => some (.settled (.ok (some value)))
  | { promise := some d, .. } => some (.awaiting d)
  | _ => none

namespace State

variable [DecidableEq F] [DecidableEq C]

def setCall (s : State F C V E) (c : C) (fn : F) (status : Status C V E) : State F C V E :=
  { s with calls := Function.update s.calls c (some (fn, status)) }

/-- The part of `loadFixture` before the function returns. -/
def load (s : State F C V E) (c : C) (fn : F) : State F C V E :=
  match (s.cache fn).bind fun d => (s.entries d).found with
  | some status => s.setCall c fn status
  | none => { s.setCall c fn .executing with
      cache := Function.update s.cache fn (some c)
      entries := Function.update s.entries c { result := none, promise := none }
      executions := Function.update s.executions fn (c :: s.executions fn) }

/-- The part of `loadFixture` after its `await`. -/
def resume (s : State F C V E) (c : C) : State F C V E :=
  match s.calls c with
  | some (fn, .pending) =>
    match s.outcomes c with
    | none => s
    | some (.fulfilled value) => { s.setCall c fn (.settled (.ok value)) with
        entries := Function.update s.entries c { result := some value, promise := none } }
    | some outcome => s.setCall c fn (.settled outcome.settlement)
  | some (fn, .awaiting d) =>
    match s.outcomes d with
    | none => s
    | some outcome => s.setCall c fn (.settled outcome.settlement)
  | _ => s

/-- The promise of the execution of a call settles, unless it has. -/
def settle (s : State F C V E) (c : C) (outcome : Outcome V E) : State F C V E :=
  match s.calls c, s.outcomes c with
  | some (_, .pending), none => { s with outcomes := Function.update s.outcomes c (some outcome) }
  | _, _ => s

/-- An event that cannot happen changes nothing. -/
def step (s : State F C V E) : Event F C V E → State F C V E
  | .load c fn => if (s.calls c).isSome then s else s.load c fn
  | .returned c =>
    match s.calls c with
    | some (fn, .executing) => { s.setCall c fn .pending with
        entries := Function.update s.entries c { s.entries c with promise := some c } }
    | _ => s
  | .threw c error =>
    match s.calls c with
    | some (fn, .executing) => { s.setCall c fn (.settled (.error error)) with
        outcomes := Function.update s.outcomes c (some (.thrown error)) }
    | _ => s
  | .fulfilled c value => s.settle c (.fulfilled value)
  | .rejected c error => s.settle c (.rejected error)
  | .resumed c => s.resume c

end State

/-! ## Executions and their entries -/

/-- The entry of an execution, and what has come of it, by how far its call is. -/
inductive Kept (s : State F C V E) (d : C) : Status C V E → Prop where
  | executing (hentry : s.entries d = { result := none, promise := none })
      (houtcome : s.outcomes d = none) : Kept s d .executing
  | pending (hentry : s.entries d = { result := none, promise := some d })
      (houtcome : ∀ error, s.outcomes d ≠ some (.thrown error)) : Kept s d .pending
  | fulfilled (value : Option V) (hentry : s.entries d = { result := some value, promise := none })
      (houtcome : s.outcomes d = some (.fulfilled value)) : Kept s d (.settled (.ok value))
  | rejected (error : E) (hentry : s.entries d = { result := none, promise := some d })
      (houtcome : s.outcomes d = some (.rejected error)) : Kept s d (.settled (.error error))
  | thrown (error : E) (hentry : s.entries d = { result := none, promise := none })
      (houtcome : s.outcomes d = some (.thrown error)) : Kept s d (.settled (.error error))

/-- What a call for a function is that has not executed it: it has the promise of an execution, or
what came of one. -/
inductive Joined (s : State F C V E) (fn : F) : Status C V E → Prop where
  | awaiting (d : C) (hmem : d ∈ s.executions fn) : Joined s fn (.awaiting d)
  | settled (d : C) (outcome : Outcome V E) (hmem : d ∈ s.executions fn)
      (houtcome : s.outcomes d = some outcome) : Joined s fn (.settled outcome.settlement)

structure Sound (s : State F C V E) : Prop where
  cached : ∀ fn d, s.cache fn = some d → d ∈ s.executions fn
  called : ∀ c fn status, s.calls c = some (fn, status) → s.cache fn ≠ none
  own : ∀ d fn, d ∈ s.executions fn → ∃ status, s.calls d = some (fn, status) ∧ Kept s d status
  joined : ∀ c fn status, s.calls c = some (fn, status) → c ∉ s.executions fn →
    Joined s fn status
  unused : ∀ c, s.calls c = none → s.outcomes c = none

theorem Sound.initial : Sound (State.initial : State F C V E) where
  cached _ _ h := nomatch h
  called _ _ _ h := nomatch h
  own _ _ h := nomatch h
  joined _ _ _ h := nomatch h
  unused _ _ := rfl

section Steps

variable {s : State F C V E}

/-- What a call finds in an entry comes from the execution of the entry. -/
theorem Kept.found {d : C} {status found : Status C V E} (h : Kept s d status)
    (hfound : (s.entries d).found = some found) {fn : F} (hmem : d ∈ s.executions fn) :
    Joined s fn found := by
  cases h with
  | executing hentry => rw [hentry] at hfound; exact nomatch hfound
  | thrown error hentry => rw [hentry] at hfound; exact nomatch hfound
  | pending hentry => rw [hentry] at hfound; cases hfound; exact .awaiting d hmem
  | rejected error hentry => rw [hentry] at hfound; cases hfound; exact .awaiting d hmem
  | fulfilled value hentry houtcome =>
    rw [hentry] at hfound
    cases value with
    | none => exact nomatch hfound
    | some value => cases hfound; exact .settled d _ hmem houtcome

/-- What is joined stays so while executions and what came of them stay. -/
theorem Joined.mono {s' : State F C V E} {fn : F} {status : Status C V E} (h : Joined s fn status)
    (hexecutions : ∀ d ∈ s.executions fn, d ∈ s'.executions fn)
    (houtcomes : ∀ d outcome, s.outcomes d = some outcome → s'.outcomes d = some outcome) :
    Joined s' fn status := by
  cases h with
  | awaiting d hmem => exact .awaiting d (hexecutions d hmem)
  | settled d outcome hmem houtcome =>
    exact .settled d outcome (hexecutions d hmem) (houtcomes d outcome houtcome)

theorem Kept.congr {s' : State F C V E} {d : C} {status : Status C V E} (h : Kept s d status)
    (hentry : s'.entries d = s.entries d) (houtcome : s'.outcomes d = s.outcomes d) :
    Kept s' d status := by
  cases h with
  | executing h₁ h₂ => exact .executing (hentry.trans h₁) (houtcome.trans h₂)
  | pending h₁ h₂ => exact .pending (hentry.trans h₁) fun error => houtcome ▸ h₂ error
  | fulfilled value h₁ h₂ => exact .fulfilled value (hentry.trans h₁) (houtcome.trans h₂)
  | rejected error h₁ h₂ => exact .rejected error (hentry.trans h₁) (houtcome.trans h₂)
  | thrown error h₁ h₂ => exact .thrown error (hentry.trans h₁) (houtcome.trans h₂)

theorem Sound.own_of_mem (h : Sound s) {c : C} {fn fn' : F} {status : Status C V E}
    (hc : s.calls c = some (fn, status)) (hmem : c ∈ s.executions fn') :
    fn' = fn ∧ Kept s c status := by
  obtain ⟨status', hc', hkept⟩ := h.own c fn' hmem
  rw [hc] at hc'
  cases hc'
  exact ⟨rfl, hkept⟩

/-- A call that is in its function, or awaits its own promise, has executed it. -/
theorem Sound.mem_of_running (h : Sound s) {c : C} {fn : F} {status : Status C V E}
    (hc : s.calls c = some (fn, status)) (hrunning : status = .executing ∨ status = .pending) :
    c ∈ s.executions fn := by
  by_contra hmem
  have hjoined := h.joined c fn status hc hmem
  rcases hrunning with rfl | rfl <;> exact nomatch hjoined

theorem Sound.notMem (h : Sound s) {c : C} (hc : s.calls c = none) (fn : F) :
    c ∉ s.executions fn := by
  intro hmem
  obtain ⟨status, hstatus, -⟩ := h.own c fn hmem
  exact nomatch hc.symm.trans hstatus

theorem mem_executions_update [DecidableEq F] {c d : C} {fn fn' : F} :
    d ∈ Function.update s.executions fn (c :: s.executions fn) fn' ↔
      d = c ∧ fn' = fn ∨ d ∈ s.executions fn' := by
  by_cases hfn : fn' = fn
  · subst hfn
    simp
  · simp [hfn]

variable [DecidableEq C]

/-- One call, its entry and its outcome change. -/
theorem Sound.update {s' : State F C V E} (h : Sound s) {c : C} {fn : F} {status : Status C V E}
    (hcache : s'.cache = s.cache) (hexecutions : s'.executions = s.executions)
    (hcalls : s'.calls = Function.update s.calls c (some (fn, status)))
    (hentries : ∀ d ≠ c, s'.entries d = s.entries d)
    (houtcomes : ∀ d ≠ c, s'.outcomes d = s.outcomes d)
    (hkeeps : ∀ outcome, s.outcomes c = some outcome → s'.outcomes c = some outcome)
    (hcached : s.cache fn ≠ none)
    (hown : ∀ fn', c ∈ s.executions fn' → fn' = fn ∧ Kept s' c status)
    (hjoined : c ∉ s.executions fn → Joined s' fn status) : Sound s' where
  cached fn d hd := by
    rw [hcache] at hd
    rw [hexecutions]
    exact h.cached fn d hd
  called c' fn' status' hc' := by
    rw [hcalls, Function.update_apply] at hc'
    rw [hcache]
    split at hc'
    · cases hc'
      exact hcached
    · exact h.called c' fn' status' hc'
  own d fn' hd := by
    rw [hexecutions] at hd
    by_cases hdc : d = c
    · subst hdc
      obtain ⟨rfl, hkept⟩ := hown fn' hd
      exact ⟨status, by rw [hcalls, Function.update_self], hkept⟩
    · obtain ⟨status', hstatus', hkept⟩ := h.own d fn' hd
      refine ⟨status', ?_, hkept.congr (hentries d hdc) (houtcomes d hdc)⟩
      rwa [hcalls, Function.update_of_ne hdc]
  joined c' fn' status' hc' hmem := by
    rw [hexecutions] at hmem
    rw [hcalls, Function.update_apply] at hc'
    split at hc'
    · next heq =>
      cases hc'
      exact hjoined (heq ▸ hmem)
    · refine (h.joined c' fn' status' hc' hmem).mono (fun d hd => by rwa [hexecutions]) ?_
      intro d outcome houtcome
      by_cases hdc : d = c
      · rw [hdc] at houtcome ⊢
        exact hkeeps outcome houtcome
      · rwa [houtcomes d hdc]
  unused c' hc' := by
    rw [hcalls, Function.update_apply] at hc'
    split at hc'
    · exact nomatch hc'
    · next hne =>
      rw [houtcomes c' hne]
      exact h.unused c' hc'

theorem Sound.settle (h : Sound s) {c : C} {outcome : Outcome V E}
    (hpromise : ∀ error, outcome ≠ .thrown error) : Sound (s.settle c outcome) := by
  unfold State.settle
  split
  · next fn hc hnone =>
    have hmem := h.mem_of_running hc (.inr rfl)
    obtain ⟨-, hkept⟩ := h.own_of_mem hc hmem
    cases hkept with
    | pending hentry houtcome =>
      refine h.update rfl rfl (Function.update_eq_self_iff.mpr hc.symm).symm (fun _ _ => rfl)
        (fun d hd => Function.update_of_ne hd _ _) ?_ (h.called c fn _ hc) ?_
        fun hnot => absurd hmem hnot
      · intro outcome hsome
        exact nomatch hnone.symm.trans hsome
      · intro fn' hmem'
        refine ⟨(h.own_of_mem hc hmem').1, .pending hentry fun error herror => ?_⟩
        simp only [Function.update_self] at herror
        exact hpromise error (Option.some.inj herror)
  · exact h

theorem Sound.resume (h : Sound s) {c : C} : Sound (s.resume c) := by
  unfold State.resume
  split
  · next fn hc =>
    have hmem := h.mem_of_running hc (.inr rfl)
    obtain ⟨-, hkept⟩ := h.own_of_mem hc hmem
    cases hkept with
    | pending hentry houtcome =>
      split
      · exact h
      · next value hvalue =>
        refine h.update rfl rfl rfl (fun d hd => Function.update_of_ne hd _ _) (fun _ _ => rfl)
          (fun _ h => h) (h.called c fn _ hc) ?_ fun hnot => absurd hmem hnot
        intro fn' hmem'
        exact ⟨(h.own_of_mem hc hmem').1, .fulfilled value (by simp) hvalue⟩
      · next outcome hfulfilled hsome =>
        refine h.update rfl rfl rfl (fun _ _ => rfl) (fun _ _ => rfl) (fun _ h => h)
          (h.called c fn _ hc) ?_ fun hnot => absurd hmem hnot
        intro fn' hmem'
        refine ⟨(h.own_of_mem hc hmem').1, ?_⟩
        cases outcome with
        | fulfilled value => exact (hfulfilled value rfl).elim
        | thrown error => exact absurd hsome (houtcome error)
        | rejected error => exact .rejected error hentry hsome
  · next fn d hc =>
    split
    · exact h
    · next outcome hsome =>
      have hjoined : c ∉ s.executions fn := by
        intro hmem
        obtain ⟨-, hkept⟩ := h.own_of_mem hc hmem
        exact nomatch hkept
      refine h.update rfl rfl rfl (fun _ _ => rfl) (fun _ _ => rfl) (fun _ h => h)
        (h.called c fn _ hc) ?_ ?_
      · intro fn' hmem'
        obtain ⟨rfl, hkept⟩ := h.own_of_mem hc hmem'
        exact nomatch hkept
      · intro _
        cases h.joined c fn _ hc hjoined with
        | awaiting d hmem => exact .settled d outcome hmem hsome
  · exact h

variable [DecidableEq F]

/-- A call executes the function. -/
theorem Sound.execute (h : Sound s) {c : C} {fn : F} (hc : s.calls c = none) :
    Sound { s.setCall c fn .executing with
      cache := Function.update s.cache fn (some c)
      entries := Function.update s.entries c { result := none, promise := none }
      executions := Function.update s.executions fn (c :: s.executions fn) } where
  cached fn' d hd := by
    rw [mem_executions_update]
    dsimp only at hd
    rw [Function.update_apply] at hd
    split at hd
    · next hfn => exact .inl ⟨(Option.some.inj hd).symm, hfn⟩
    · exact .inr (h.cached fn' d hd)
  called c' fn' status hc' := by
    dsimp only [State.setCall] at hc' ⊢
    rw [Function.update_apply] at hc' ⊢
    split
    · exact Option.some_ne_none c
    · next hfn =>
      split at hc'
      · cases hc'
        exact absurd rfl hfn
      · exact h.called c' fn' status hc'
  own d fn' hd := by
    rcases mem_executions_update.mp hd with ⟨rfl, rfl⟩ | hd
    · exact ⟨.executing, by simp [State.setCall], .executing (by simp) (h.unused d hc)⟩
    · have hdc : d ≠ c := fun heq => h.notMem hc fn' (heq ▸ hd)
      obtain ⟨status, hstatus, hkept⟩ := h.own d fn' hd
      refine ⟨status, ?_, hkept.congr (Function.update_of_ne hdc _ _) rfl⟩
      simp only [State.setCall]
      rwa [Function.update_of_ne hdc]
  joined c' fn' status hc' hmem := by
    dsimp only [State.setCall] at hc' hmem
    rw [mem_executions_update, not_or] at hmem
    rw [Function.update_apply] at hc'
    split at hc'
    · next heq =>
      cases hc'
      exact absurd ⟨heq, rfl⟩ hmem.1
    · exact (h.joined c' fn' status hc' hmem.2).mono
        (fun d hd => mem_executions_update.mpr (.inr hd)) fun _ _ h => h
  unused c' hc' := by
    dsimp only [State.setCall] at hc'
    rw [Function.update_apply] at hc'
    split at hc'
    · exact nomatch hc'
    · exact h.unused c' hc'

theorem Sound.load (h : Sound s) {c : C} {fn : F} (hc : s.calls c = none) :
    Sound (s.load c fn) := by
  unfold State.load
  split
  · next status hfound =>
    obtain ⟨d, hcache, hfound⟩ := Option.bind_eq_some_iff.mp hfound
    have hmem := h.cached fn d hcache
    obtain ⟨status', -, hkept⟩ := h.own d fn hmem
    refine h.update rfl rfl rfl (fun _ _ => rfl) (fun _ _ => rfl) (fun _ h => h) ?_ ?_ ?_
    · rw [hcache]
      exact Option.some_ne_none d
    · exact fun fn' hmem' => absurd hmem' (h.notMem hc fn')
    · exact fun _ => (hkept.found hfound hmem).mono (fun _ h => h) fun _ _ h => h
  · exact h.execute hc

theorem Sound.returned (h : Sound s) {c : C} : Sound (s.step (.returned c)) := by
  unfold State.step
  dsimp only
  split
  · next fn hc =>
    have hmem := h.mem_of_running hc (.inl rfl)
    obtain ⟨-, hkept⟩ := h.own_of_mem hc hmem
    cases hkept with
    | executing hentry houtcome =>
      refine h.update rfl rfl rfl (fun d hd => Function.update_of_ne hd _ _) (fun _ _ => rfl)
        (fun _ h => h) (h.called c fn _ hc) ?_ fun hnot => absurd hmem hnot
      intro fn' hmem'
      refine ⟨(h.own_of_mem hc hmem').1, .pending ?_ fun error herror => ?_⟩
      · simp [hentry]
      · exact nomatch houtcome.symm.trans herror
  · exact h

theorem Sound.threw (h : Sound s) {c : C} {error : E} : Sound (s.step (.threw c error)) := by
  unfold State.step
  dsimp only
  split
  · next fn hc =>
    have hmem := h.mem_of_running hc (.inl rfl)
    obtain ⟨-, hkept⟩ := h.own_of_mem hc hmem
    cases hkept with
    | executing hentry houtcome =>
      refine h.update rfl rfl rfl (fun _ _ => rfl) (fun d hd => Function.update_of_ne hd _ _)
        ?_ (h.called c fn _ hc) ?_ fun hnot => absurd hmem hnot
      · intro outcome hsome
        exact nomatch houtcome.symm.trans hsome
      · intro fn' hmem'
        exact ⟨(h.own_of_mem hc hmem').1, .thrown error hentry (by simp)⟩
  · exact h

theorem Sound.step (h : Sound s) (event : Event F C V E) : Sound (s.step event) := by
  cases event with
  | load c fn =>
    show Sound (if (s.calls c).isSome then s else s.load c fn)
    by_cases hc : (s.calls c).isSome = true
    · rwa [if_pos hc]
    · rw [if_neg hc]
      exact h.load (Option.not_isSome_iff_eq_none.mp hc)
  | returned c => exact h.returned
  | threw c error => exact h.threw
  | fulfilled c value => exact h.settle nofun
  | rejected c error => exact h.settle nofun
  | resumed c => exact h.resume

end Steps

/-! ## Once -/

/-- Every call is for a function that has been executed once, and settles with what comes of that
execution: if it has settled, it has, and if not, it does as soon as it goes on. -/
def Once [DecidableEq C] (s : State F C V E) : Prop :=
  ∀ c fn status, s.calls c = some (fn, status) → ∃ d, s.executions fn = [d] ∧
    (∀ settlement, status = .settled settlement →
      ∃ outcome, s.outcomes d = some outcome ∧ outcome.settlement = settlement) ∧
    ∀ outcome, s.outcomes d = some outcome →
      (s.resume c).calls c = some (fn, .settled outcome.settlement)

/-- The entry of an execution is not used: the function has not returned its promise, it has thrown,
or its value is `undefined` and kept as the result. -/
def Spent (s : State F C V E) (d : C) : Prop :=
  ∃ fn status, s.calls d = some (fn, status) ∧
    (status = .executing ∨ (∃ error, s.outcomes d = some (.thrown error)) ∨
      status = .settled (.ok none))

/-- No function is called whose entry is spent. -/
def InTime (s : State F C V E) : Event F C V E → Prop
  | .load c fn => s.calls c = none → ∀ d, s.cache fn = some d → ¬Spent s d
  | _ => True

section Once

variable {s : State F C V E}

theorem Kept.found_eq_none_iff {d : C} {status : Status C V E} (h : Kept s d status) :
    (s.entries d).found = (none : Option (Status C V E)) ↔ status = .executing ∨
      (∃ error, s.outcomes d = some (.thrown error)) ∨ status = .settled (.ok none) := by
  cases h with
  | executing hentry => simp [hentry, Entry.found]
  | pending hentry houtcome => simp [hentry, Entry.found, houtcome]
  | fulfilled value hentry houtcome => cases value <;> simp [hentry, Entry.found, houtcome]
  | rejected error hentry houtcome => simp [hentry, Entry.found, houtcome]
  | thrown error hentry houtcome => simp [hentry, Entry.found, houtcome]

theorem Sound.spent_iff (h : Sound s) {d : C} {fn : F} (hmem : d ∈ s.executions fn) :
    Spent s d ↔ (s.entries d).found = (none : Option (Status C V E)) := by
  obtain ⟨status, hstatus, hkept⟩ := h.own d fn hmem
  rw [hkept.found_eq_none_iff]
  constructor
  · rintro ⟨fn', status', hstatus', hspent⟩
    rw [hstatus] at hstatus'
    cases hstatus'
    exact hspent
  · exact fun hspent => ⟨fn, status, hstatus, hspent⟩

/-- A function without an entry has not been executed. -/
theorem Sound.cache_eq_none_iff (h : Sound s) {fn : F} :
    s.cache fn = none ↔ s.executions fn = [] := by
  constructor
  · intro hnone
    rw [List.eq_nil_iff_forall_not_mem]
    intro d hmem
    obtain ⟨status, hstatus, -⟩ := h.own d fn hmem
    exact h.called d fn status hstatus hnone
  · intro hnil
    cases hcache : s.cache fn with
    | none => rfl
    | some d =>
      have hmem := h.cached fn d hcache
      rw [hnil] at hmem
      exact nomatch hmem

/-- A call for a function that has been executed once settles with what comes of it. -/
theorem Sound.settlement (h : Sound s) {c d : C} {fn : F} {settlement : Except E (Option V)}
    (hc : s.calls c = some (fn, .settled settlement)) (hd : s.executions fn = [d]) :
    ∃ outcome, s.outcomes d = some outcome ∧ outcome.settlement = settlement := by
  by_cases hmem : c ∈ s.executions fn
  · obtain ⟨-, hkept⟩ := h.own_of_mem hc hmem
    rw [hd, List.mem_singleton] at hmem
    subst hmem
    cases hkept with
    | fulfilled value _ houtcome => exact ⟨_, houtcome, rfl⟩
    | rejected error _ houtcome => exact ⟨_, houtcome, rfl⟩
    | thrown error _ houtcome => exact ⟨_, houtcome, rfl⟩
  · cases h.joined c fn _ hc hmem with
    | settled d' outcome hmem' houtcome =>
      rw [hd, List.mem_singleton] at hmem'
      subst hmem'
      exact ⟨outcome, houtcome, rfl⟩

variable [DecidableEq C]

/-- A call for a function that has been executed once has what comes of the execution. -/
theorem Sound.resume_settles (h : Sound s) {c d : C} {fn : F} {status : Status C V E}
    (hc : s.calls c = some (fn, status)) (hd : s.executions fn = [d]) {outcome : Outcome V E}
    (houtcome : s.outcomes d = some outcome) :
    (s.resume c).calls c = some (fn, .settled outcome.settlement) := by
  have hself (hrunning : status = .executing ∨ status = .pending) : c = d := by
    have hmem := h.mem_of_running hc hrunning
    rwa [hd, List.mem_singleton] at hmem
  cases status with
  | executing =>
    obtain rfl := hself (.inl rfl)
    obtain ⟨-, hkept⟩ := h.own_of_mem hc (h.mem_of_running hc (.inl rfl))
    cases hkept with
    | executing _ hnone => exact nomatch hnone.symm.trans houtcome
  | pending =>
    obtain rfl := hself (.inr rfl)
    cases outcome <;> simp [State.resume, hc, houtcome, State.setCall, Outcome.settlement]
  | awaiting d' =>
    have hjoined : c ∉ s.executions fn := fun hmem => nomatch (h.own_of_mem hc hmem).2
    cases h.joined c fn _ hc hjoined with
    | awaiting d' hmem =>
      rw [hd, List.mem_singleton] at hmem
      subst hmem
      simp [State.resume, hc, houtcome, State.setCall]
  | settled settlement =>
    obtain ⟨outcome', houtcome', rfl⟩ := h.settlement hc hd
    obtain rfl := Option.some.inj (houtcome.symm.trans houtcome')
    simp [State.resume, hc]

theorem Sound.once_iff_length (h : Sound s) : Once s ↔ ∀ fn, (s.executions fn).length ≤ 1 := by
  constructor
  · intro honce fn
    cases hlist : s.executions fn with
    | nil => exact Nat.zero_le 1
    | cons d rest =>
      obtain ⟨status, hstatus, -⟩ := h.own d fn (hlist ▸ List.mem_cons_self)
      obtain ⟨only, honly, -⟩ := honce d fn status hstatus
      rw [← hlist, honly]
      exact Nat.le_refl 1
  · intro hle c fn status hc
    obtain ⟨d, hcache⟩ := Option.ne_none_iff_exists'.mp (h.called c fn status hc)
    have hmem := h.cached fn d hcache
    have hlist : s.executions fn = [d] := by
      have hlength := hle fn
      match hlist : s.executions fn with
      | [] => rw [hlist] at hmem; exact nomatch hmem
      | [only] =>
        rw [hlist] at hmem
        rw [List.mem_singleton.mp hmem]
      | first :: second :: rest => simp [hlist] at hlength
    refine ⟨d, hlist, ?_, fun outcome houtcome => h.resume_settles hc hlist houtcome⟩
    rintro settlement rfl
    exact h.settlement hc hlist

theorem executions_settle {c : C} {outcome : Outcome V E} :
    (s.settle c outcome).executions = s.executions := by
  unfold State.settle
  split <;> rfl

theorem executions_resume {c : C} : (s.resume c).executions = s.executions := by
  unfold State.resume
  split
  · split <;> rfl
  · split <;> rfl
  · rfl

variable [DecidableEq F]

/-- After a call, every function has been executed once at most, exactly if the entry was not
spent. -/
theorem Sound.load_le_one_iff (h : Sound s) (hle : ∀ fn, (s.executions fn).length ≤ 1) {c : C}
    {fn : F} (hc : s.calls c = none) :
    (∀ fn', ((s.load c fn).executions fn').length ≤ 1) ↔ InTime s (.load c fn) := by
  show _ ↔ (s.calls c = none → ∀ d, s.cache fn = some d → ¬Spent s d)
  unfold State.load
  split
  · next status hfound =>
    obtain ⟨d, hcache, hfound⟩ := Option.bind_eq_some_iff.mp hfound
    refine ⟨fun _ _ d' hd' hspent => ?_, fun _ => hle⟩
    obtain rfl := Option.some.inj (hcache.symm.trans hd')
    rw [h.spent_iff (h.cached fn d hcache), hfound] at hspent
    exact nomatch hspent
  · next hnone =>
    have hnew : (∀ fn', (Function.update s.executions fn (c :: s.executions fn) fn').length ≤ 1) ↔
        s.executions fn = [] := by
      constructor
      · intro hle'
        have hlength := hle' fn
        rw [Function.update_self, List.length_cons] at hlength
        exact List.eq_nil_of_length_eq_zero (by omega)
      · intro hnil fn'
        by_cases hfn : fn' = fn
        · subst hfn
          simp [hnil]
        · rw [Function.update_of_ne hfn]
          exact hle fn'
    rw [hnew, ← h.cache_eq_none_iff]
    constructor
    · intro hnil _ d hd
      exact nomatch hnil.symm.trans hd
    · intro hintime
      cases hcache : s.cache fn with
      | none => rfl
      | some d =>
        refine absurd ((h.spent_iff (h.cached fn d hcache)).mpr ?_) (hintime hc d hcache)
        rw [hcache] at hnone
        exact hnone

/-- What one step does to the number of executions. -/
theorem Sound.step_le_one_iff (h : Sound s) (hle : ∀ fn, (s.executions fn).length ≤ 1)
    (event : Event F C V E) :
    (∀ fn, ((s.step event).executions fn).length ≤ 1) ↔ InTime s event := by
  have hsame (hexecutions : (s.step event).executions = s.executions) (hintime : InTime s event) :
      (∀ fn, ((s.step event).executions fn).length ≤ 1) ↔ InTime s event := by
    rw [hexecutions]
    exact ⟨fun _ => hintime, fun _ => hle⟩
  cases event with
  | load c fn =>
    cases hc : s.calls c with
    | none =>
      have hstep : s.step (.load c fn) = s.load c fn := by simp [State.step, hc]
      rw [hstep]
      exact h.load_le_one_iff hle hc
    | some call =>
      refine hsame (by simp [State.step, hc]) ?_
      intro hnone
      exact nomatch hc.symm.trans hnone
  | returned c =>
    refine hsame ?_ trivial
    simp only [State.step]
    split <;> rfl
  | threw c error =>
    refine hsame ?_ trivial
    simp only [State.step]
    split <;> rfl
  | fulfilled c value => exact hsame executions_settle trivial
  | rejected c error => exact hsame executions_settle trivial
  | resumed c => exact hsame executions_resume trivial

/-- **In every state of a run each function that is called has been executed once, and every call
for it settles with what comes of the execution, exactly if no function is called whose entry is
spent.** -/
theorem once_iff (events : List (Event F C V E)) :
    (∀ k, Once (Trace.exec State.step State.initial (events.take k))) ↔
      Trace.AllSteps State.step InTime State.initial events := by
  have hall : Trace.AllSteps State.step (fun _ _ => True) State.initial events :=
    fun _ _ _ => trivial
  have hsound := Trace.AllSteps.invariant (I := Sound)
    (fun _ event hs _ => Sound.step hs event) Sound.initial hall
  have hstep (s : State F C V E) (event : Event F C V E)
      (hs : Sound s ∧ ∀ fn, (s.executions fn).length ≤ 1) :
      (Sound (s.step event) ∧ ∀ fn, ((s.step event).executions fn).length ≤ 1) ↔ InTime s event :=
    ⟨fun h => (hs.1.step_le_one_iff hs.2 event).mp h.2,
      fun h => ⟨hs.1.step event, (hs.1.step_le_one_iff hs.2 event).mpr h⟩⟩
  have hiff := Trace.invariant_iff
    (I := fun s : State F C V E => Sound s ∧ ∀ fn, (s.executions fn).length ≤ 1) hstep
    ⟨Sound.initial, fun _ => Nat.zero_le 1⟩ events
  rw [← hiff]
  exact forall_congr' fun k => ⟨fun h => ⟨hsound k, (hsound k).once_iff_length.mp h⟩,
    fun h => (hsound k).once_iff_length.mpr h.2⟩

end Once

/-- A function is executed again that has returned `undefined`. -/
theorem executed_again : ¬∀ (events : List (Event Unit Nat Unit Unit)) (k : Nat),
    Once (Trace.exec State.step State.initial (events.take k)) := by
  intro h
  obtain ⟨d, hd, -⟩ := h [.load 0 (), .returned 0, .fulfilled 0 none, .resumed 0, .load 1 ()] 5 0 ()
    (.settled (.ok none)) rfl
  exact absurd (congrArg List.length hd) (show ¬2 = 1 by decide)

end Lionden.Testing
