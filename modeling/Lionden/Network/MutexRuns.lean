import Lionden.Network.Mutex
import Mathlib.Data.List.Range

/-!
# Whose turn it is

* `Inv`: at all times the first callers have released the mutex and the others wait in the order of
  their calls; at most one is at its turn.
* `Inv.step`: every event keeps that, and a job brings the next body closer to its start (`Due`).
* `sections_exclude`: what follows for a run.
-/

namespace Lionden.Network.Mutex

open Trace

/-- What the caller does whose turn it is. -/
inductive Turn where
  /-- There is no such caller. -/
  | free
  | queued
  | runs
  | awaits
  | ends (left : Nat) (body : Body)

namespace Turn

def caller : Turn → Option Caller
  | .free => none
  | .queued => some ⟨.queued, .unstarted⟩
  | .runs => some ⟨.body, .running⟩
  | .awaits => some ⟨.body, .pending⟩
  | .ends left body => some ⟨.ending left, body⟩

def queue (m : Nat) : Turn → List Nat
  | .queued | .ends .. => [m]
  | _ => []

def running (m : Nat) : Turn → Option Nat
  | .runs => some m
  | _ => none

/-- How many bodies have been started. -/
def started (m : Nat) : Turn → Nat
  | .free | .queued => m
  | _ => m + 1

end Turn

/-- A body that is no longer awaited. -/
def Body.IsEnded (kind : Kind) (body : Body) : Prop :=
  body = .over ∨ body = .trapped ∧ kind.capturesTraps = true

/-- How many jobs run at most until the next body is started. -/
def Kind.jobs (kind : Kind) : Nat := max kind.afterThrow kind.afterSettled + 1

/-- The first `m` callers have released the mutex, those after caller `m` wait in the order of their
calls. -/
structure Line (kind : Kind) (s : State) (m : Nat) : Prop where
  lock : s.lock = s.next
  promises : ∀ p, s.promises p =
    if p ≤ m then some ⟨true, []⟩
    else if p < s.next then some ⟨false, [p]⟩
    else if p = s.next then some ⟨false, []⟩
    else none
  done : ∀ n < m, ∃ body, s.callers n = some ⟨.done, body⟩ ∧ body.IsEnded kind
  waiting : ∀ n, m < n → n < s.next → s.callers n = some ⟨.waiting n, .unstarted⟩
  fresh : ∀ n, m < n → s.next ≤ n → s.callers n = none

/-- It is the turn of caller `m`. -/
structure Inv (kind : Kind) (s : State) (m : Nat) (turn : Turn) : Prop extends Line kind s m where
  le : m ≤ s.next
  free : turn = .free ↔ m = s.next
  caller : s.callers m = turn.caller
  queue : s.queue = turn.queue m
  running : s.running = turn.running m
  started : s.started = List.range (turn.started m)
  ended : ∀ left body, turn = .ends left body → body.IsEnded kind ∧ left + 1 < kind.jobs

variable {kind : Kind} {s : State} {m n left : Nat} {turn : Turn} {body : Body}

theorem Inv.start (kind : Kind) : Inv kind {} 0 .free where
  lock := rfl
  promises p := by
    change Function.update (fun _ => none) 0 (some (LockPromise.mk true [])) p = _
    rw [Function.update_apply]
    by_cases hp : p = 0
    · rw [if_pos hp, if_pos hp.le]
    · rw [if_neg hp, if_neg (by omega), if_neg (by simp), if_neg hp]
  done := nofun
  waiting n _ hn := absurd hn (Nat.not_lt_zero n)
  fresh _ _ _ := rfl
  le := le_rfl
  free := by simp
  caller := rfl
  queue := rfl
  running := rfl
  started := rfl
  ended := nofun

theorem Inv.lt (h : Inv kind s m turn) (hturn : turn ≠ .free) : m < s.next :=
  lt_of_le_of_ne h.le fun heq => hturn (h.free.mpr heq)

@[simp] theorem setCaller_callers (caller : Caller) :
    (s.setCaller n caller).callers n = some caller :=
  Function.update_self ..

theorem setCaller_callers_of_ne (caller : Caller) {d : Nat} (h : d ≠ n) :
    (s.setCaller n caller).callers d = s.callers d :=
  Function.update_of_ne h ..

/-- Only whose turn it is has changed. -/
theorem Line.setCaller (h : Line kind s m) (caller : Caller) :
    Line kind (s.setCaller m caller) m where
  lock := h.lock
  promises := h.promises
  done n hn := by
    rw [setCaller_callers_of_ne caller hn.ne]
    exact h.done n hn
  waiting n hlt hn := by
    rw [setCaller_callers_of_ne caller hlt.ne']
    exact h.waiting n hlt hn
  fresh n hlt hn := by
    rw [setCaller_callers_of_ne caller hlt.ne']
    exact h.fresh n hlt hn

/-- At most `k` jobs run until the body of the caller after `a` is started. -/
def Due (a k m : Nat) (turn : Turn) : Prop :=
  a + 1 < m ∨ a + 1 = m ∧ (turn = .queued → 0 < k) ∨
    a = m ∧ ∃ left body, turn = .ends left body ∧ left + 2 ≤ k

/-- After an event it is the turn of somebody, and a job has brought the next start closer. -/
def Goes (kind : Kind) (s : State) (m : Nat) (turn : Turn) (e : Event) : Prop :=
  ∃ m' turn', Inv kind (step kind s e) m' turn' ∧ s.next ≤ (step kind s e).next ∧
    ∀ a k, a + 1 < s.next → Due a (k + [e].count .runJob) m turn → Due a k m' turn'

/-! ## A call -/

theorem call_free (h : Inv kind s m .free) : Inv kind s.call m .queued := by
  have hm : m = s.next := h.free.mp rfl
  subst hm
  have hprevious := h.promises s.next
  rw [if_pos le_rfl] at hprevious
  have hcall : s.call = { s with
      next := s.next + 1
      lock := s.next + 1
      promises := Function.update s.promises (s.next + 1) (some ⟨false, []⟩)
      callers := Function.update s.callers s.next (some ⟨.queued, .unstarted⟩)
      queue := s.queue ++ [s.next] } := by
    simp only [State.call, State.awaitPrevious, h.lock]
    rw [Function.update_of_ne (Nat.ne_of_lt (Nat.lt_succ_self _)), hprevious]
    rfl
  rw [hcall]
  exact
    { lock := rfl
      promises := by
        intro p
        simp only [Function.update_apply, h.promises]
        grind
      done := fun n hn => by
        simp only [Function.update_of_ne hn.ne]
        exact h.done n hn
      waiting := fun n hlt hn => absurd hn (Nat.not_lt.mpr hlt)
      fresh := fun n hlt _ => by
        simp only [Function.update_of_ne hlt.ne']
        exact h.fresh n hlt hlt.le
      le := Nat.le_succ _
      free := by simp
      caller := Function.update_self ..
      queue := by rw [h.queue]; rfl
      running := h.running
      started := h.started
      ended := nofun }

theorem call_taken (h : Inv kind s m turn) (hturn : turn ≠ .free) : Inv kind s.call m turn := by
  have hlt := h.lt hturn
  have hprevious := h.promises s.next
  rw [if_neg (by omega), if_neg (lt_irrefl _), if_pos rfl] at hprevious
  have hcall : s.call = { s with
      next := s.next + 1
      lock := s.next + 1
      promises := Function.update (Function.update s.promises (s.next + 1) (some ⟨false, []⟩))
        s.next (some ⟨false, [s.next]⟩)
      callers := Function.update s.callers s.next (some ⟨.waiting s.next, .unstarted⟩) } := by
    simp only [State.call, State.awaitPrevious, h.lock]
    rw [Function.update_of_ne (Nat.ne_of_lt (Nat.lt_succ_self _)), hprevious]
    rfl
  rw [hcall]
  exact
    { lock := rfl
      promises := by
        intro p
        simp only [Function.update_apply, h.promises]
        grind
      done := fun n hn => by
        simp only [Function.update_of_ne (hn.trans hlt).ne]
        exact h.done n hn
      waiting := fun n hmn hn => by
        rcases (Nat.lt_succ_iff.mp hn).lt_or_eq with hn | rfl
        · simp only [Function.update_of_ne hn.ne]
          exact h.waiting n hmn hn
        · exact Function.update_self ..
      fresh := fun n hmn hn => by
        simp only [Function.update_of_ne (Nat.lt_of_succ_le hn).ne']
        exact h.fresh n hmn (Nat.le_of_succ_le hn)
      le := Nat.le_succ_of_le h.le
      free := iff_of_false hturn (by simp only; omega)
      caller := by
        simp only [Function.update_of_ne hlt.ne]
        exact h.caller
      queue := h.queue
      running := h.running
      started := h.started
      ended := h.ended }

theorem Inv.call (h : Inv kind s m turn) : Goes kind s m turn .call := by
  have hnext : s.next ≤ s.call.next := by
    simp only [State.call, State.awaitPrevious]
    split <;> exact Nat.le_succ _
  by_cases hturn : turn = .free
  · subst hturn
    refine ⟨m, .queued, call_free h, hnext, ?_⟩
    have hm := h.free.mp rfl
    rintro a k ha (hlt | ⟨hm', -⟩ | ⟨-, _, _, hends, -⟩)
    · exact .inl hlt
    · omega
    · cases hends
  · exact ⟨m, turn, call_taken h hturn, hnext, fun a k _ hdue => hdue⟩

/-! ## The end of a section -/

/-- Whoever waits for the caller at its turn goes on. -/
theorem Line.release (h : Line kind s m) (hlt : m < s.next) (hqueue : s.queue = [])
    (hrunning : s.running = none) (hstarted : s.started = List.range (m + 1))
    (hcaller : s.callers m = some ⟨.done, body⟩) (hended : body.IsEnded kind) :
    ∃ turn, Inv kind (s.release m) (m + 1) turn ∧ (turn = .free ∨ turn = .queued) := by
  have hdone : ∀ n < m + 1, ∃ body, s.callers n = some ⟨.done, body⟩ ∧ body.IsEnded kind := by
    intro n hn
    rcases (Nat.lt_succ_iff.mp hn).lt_or_eq with hn | rfl
    · exact h.done n hn
    · exact ⟨body, hcaller, hended⟩
  have hpromise := h.promises (m + 1)
  rw [if_neg (by omega)] at hpromise
  rcases (Nat.succ_le_of_lt hlt).lt_or_eq with hnext | hnext
  · rw [if_pos hnext] at hpromise
    have hwaiting := h.waiting (m + 1) (Nat.lt_succ_self m) hnext
    refine ⟨.queued, ?_, .inr rfl⟩
    simp only [State.release, hpromise]
    exact
      { lock := h.lock
        promises := by
          intro p
          simp only [Function.update_apply, h.promises]
          grind
        done := fun n hn => by
          simp only [List.mem_singleton, if_neg hn.ne]
          exact hdone n hn
        waiting := fun n hmn hn => by
          simp only [List.mem_singleton, if_neg hmn.ne']
          exact h.waiting n (by omega) hn
        fresh := fun n hmn hn => by
          simp only [List.mem_singleton, if_neg hmn.ne']
          exact h.fresh n (by omega) hn
        le := hnext.le
        free := iff_of_false nofun hnext.ne
        caller := by
          simp only [List.mem_singleton, if_true, hwaiting]
          rfl
        queue := by rw [hqueue]; rfl
        running := hrunning
        started := hstarted
        ended := nofun }
  · rw [if_neg hnext.not_lt, if_pos hnext] at hpromise
    refine ⟨.free, ?_, .inl rfl⟩
    simp only [State.release, hpromise]
    exact
      { lock := h.lock
        promises := by
          intro p
          simp only [Function.update_apply, h.promises]
          grind
        done := fun n hn => by
          simp only [List.not_mem_nil, if_false]
          exact hdone n hn
        waiting := fun n hmn hn => absurd hn (by simp only; omega)
        fresh := fun n hmn hn => by
          simp only [List.not_mem_nil, if_false]
          exact h.fresh n (by omega) hn
        le := hnext.le
        free := iff_of_true rfl hnext
        caller := by
          simp only [List.not_mem_nil, if_false]
          exact h.fresh (m + 1) (Nat.lt_succ_self m) hnext.ge
        queue := by rw [hqueue]; rfl
        running := hrunning
        started := hstarted
        ended := nofun }

/-- The section is over now, or one job sooner. -/
theorem Line.finish (h : Line kind s m) (hlt : m < s.next) (hqueue : s.queue = [])
    (hrunning : s.running = none) (hstarted : s.started = List.range (m + 1))
    (hended : body.IsEnded kind) (hleft : left < kind.jobs) :
    ∃ m' turn', Inv kind (s.finish m body left) m' turn' ∧
      (m' = m ∧ turn' = .ends (left - 1) body ∧ 0 < left ∨
        m' = m + 1 ∧ (turn' = .free ∨ turn' = .queued)) := by
  cases left with
  | zero =>
    obtain ⟨turn, hinv, hturn⟩ := (h.setCaller ⟨.done, body⟩).release hlt hqueue hrunning hstarted
      (setCaller_callers _) hended
    exact ⟨m + 1, turn, hinv, .inr ⟨rfl, hturn⟩⟩
  | succ left =>
    have hline := h.setCaller ⟨.ending left, body⟩
    refine ⟨m, .ends left body, ?_, .inl ⟨rfl, rfl, Nat.succ_pos left⟩⟩
    exact
      { lock := hline.lock
        promises := hline.promises
        done := hline.done
        waiting := hline.waiting
        fresh := hline.fresh
        le := hlt.le
        free := iff_of_false nofun hlt.ne
        caller := setCaller_callers _
        queue := by rw [State.finish, hqueue]; rfl
        running := hrunning
        started := hstarted
        ended := by
          rintro _ _ ⟨⟩
          exact ⟨hended, hleft⟩ }

@[simp] theorem release_next : (s.release n).next = s.next := by
  rw [State.release]
  split <;> rfl

@[simp] theorem finish_next : (s.finish n body left).next = s.next := by
  cases left with
  | zero => exact release_next
  | succ left => rfl

/-! ## Every event -/

/-- Where a caller is that has called. -/
theorem Inv.place (h : Inv kind s m turn) {caller : Caller} (hn : s.callers n = some caller) :
    (n < m ∧ ∃ body, caller = ⟨.done, body⟩ ∧ body.IsEnded kind) ∨
      (n = m ∧ turn.caller = some caller) ∨ (m < n ∧ caller = ⟨.waiting n, .unstarted⟩) := by
  rcases lt_trichotomy n m with hlt | rfl | hlt
  · obtain ⟨body, hbody, hended⟩ := h.done n hlt
    exact .inl ⟨hlt, body, Option.some.inj (hn.symm.trans hbody), hended⟩
  · exact .inr (.inl ⟨rfl, h.caller.symm.trans hn⟩)
  · rcases lt_or_ge n s.next with hnext | hnext
    · exact .inr (.inr ⟨hlt, Option.some.inj (hn.symm.trans (h.waiting n hlt hnext))⟩)
    · rw [h.fresh n hlt hnext] at hn
      cases hn

theorem Inv.stays (h : Inv kind s m turn) {e : Event} (hstep : step kind s e = s)
    (hturn : e = .runJob → turn = .free ∨ turn = .runs ∨ turn = .awaits) :
    Goes kind s m turn e := by
  refine ⟨m, turn, by rwa [hstep], by rw [hstep], ?_⟩
  intro a k _ hdue
  by_cases he : e = .runJob
  · rcases hdue with hlt | ⟨hm, -⟩ | ⟨-, left, body, hends, -⟩
    · exact .inl hlt
    · refine .inr (.inl ⟨hm, ?_⟩)
      rintro rfl
      simpa using hturn he
    · subst hends
      simpa using hturn he
  · rwa [List.count_singleton, beq_false_of_ne he, if_neg nofun] at hdue

/-- The section ends, by something else than a job. -/
theorem Inv.ends (h : Inv kind s m turn) {e : Event}
    (hstep : step kind s e = { s with running := none }.finish m body left)
    (hturn : turn = .runs ∨ turn = .awaits) (hended : body.IsEnded kind)
    (hleft : left < kind.jobs) : Goes kind s m turn e := by
  have hlt : m < s.next := h.lt (by rcases hturn with rfl | rfl <;> nofun)
  have hline : Line kind { s with running := none } m :=
    ⟨h.lock, h.promises, h.done, h.waiting, h.fresh⟩
  have hqueue : s.queue = [] := by rw [h.queue]; rcases hturn with rfl | rfl <;> rfl
  have hstarted : s.started = List.range (m + 1) := by
    rw [h.started]; rcases hturn with rfl | rfl <;> rfl
  obtain ⟨m', turn', hinv, hgoes⟩ := hline.finish hlt hqueue rfl hstarted hended hleft
  refine ⟨m', turn', by rwa [hstep], by rw [hstep, finish_next], ?_⟩
  rintro a k - (hdue | ⟨hm, -⟩ | ⟨-, left, body, rfl, -⟩)
  · rcases hgoes with ⟨rfl, -⟩ | ⟨rfl, -⟩
    · exact .inl hdue
    · exact .inl (hdue.trans (Nat.lt_succ_self m))
  · rcases hgoes with ⟨rfl, rfl, -⟩ | ⟨rfl, -⟩
    · exact .inr (.inl ⟨hm, nofun⟩)
    · exact .inl (by omega)
  · rcases hturn with hturn | hturn <;> cases hturn

theorem afterSettled_lt_jobs : kind.afterSettled < kind.jobs :=
  Nat.lt_succ_of_le (le_max_right ..)

theorem afterThrow_lt_jobs : kind.afterThrow < kind.jobs :=
  Nat.lt_succ_of_le (le_max_left ..)

theorem Inv.bodyReturns (h : Inv kind s m turn) : Goes kind s m turn .bodyReturns := by
  cases turn with
  | runs =>
    have hrunning : s.running = some m := h.running
    have hstep : step kind s .bodyReturns =
        { s.setCaller m ⟨.body, .pending⟩ with running := none } := by
      simp only [step, State.bodyReturns, hrunning]
    have hline := h.toLine.setCaller ⟨.body, .pending⟩
    refine ⟨m, .awaits, ?_, by rw [hstep]; rfl, ?_⟩
    · rw [hstep]
      exact
        { lock := hline.lock
          promises := hline.promises
          done := hline.done
          waiting := hline.waiting
          fresh := hline.fresh
          le := h.le
          free := iff_of_false nofun (h.lt nofun).ne
          caller := setCaller_callers _
          queue := h.queue
          running := rfl
          started := h.started
          ended := nofun }
    · rintro a k - (hdue | ⟨hm, -⟩ | ⟨-, _, _, hends, -⟩)
      · exact .inl hdue
      · exact .inr (.inl ⟨hm, nofun⟩)
      · cases hends
  | free | queued | awaits | ends =>
    have hrunning : s.running = none := h.running
    exact h.stays (by simp only [step, State.bodyReturns, hrunning]) nofun

theorem Inv.bodyThrows (h : Inv kind s m turn) : Goes kind s m turn .bodyThrows := by
  cases turn with
  | runs =>
    have hrunning : s.running = some m := h.running
    exact h.ends (by simp only [step, State.bodyThrows, hrunning]) (.inl rfl) (.inl rfl)
      afterThrow_lt_jobs
  | free | queued | awaits | ends =>
    have hrunning : s.running = none := h.running
    exact h.stays (by simp only [step, State.bodyThrows, hrunning]) nofun

/-- Only the caller at its turn may have a promise that is awaited. -/
theorem Inv.awaits (h : Inv kind s m turn) (hn : s.callers n = some ⟨.body, .pending⟩) :
    n = m ∧ turn = .awaits ∧ s.running = none := by
  rcases h.place hn with ⟨-, _, ⟨⟩, -⟩ | ⟨rfl, hturn⟩ | ⟨-, ⟨⟩⟩
  cases turn with
  | awaits => exact ⟨rfl, rfl, h.running⟩
  | free | queued | runs | ends => cases hturn

/-- What a trapped body has returned settles after all. -/
theorem Inv.settles (h : Inv kind s m turn) {control : Control} {e : Event}
    (hn : s.callers n = some ⟨control, .trapped⟩)
    (hstep : step kind s e = s.setCaller n ⟨control, .over⟩) (he : e ≠ .runJob) :
    Goes kind s m turn e := by
  have hcount : [e].count .runJob = 0 := List.count_eq_zero.mpr (by simpa using Ne.symm he)
  rw [Goes, hstep, hcount]
  rcases h.place hn with ⟨hlt, body, ⟨⟩, hended⟩ | ⟨rfl, hturn⟩ | ⟨-, ⟨⟩⟩
  · refine ⟨m, turn, ?_, le_rfl, fun a k _ hdue => hdue⟩
    exact
      { lock := h.lock
        promises := h.promises
        done := by
          intro d hd
          by_cases hdn : d = n
          · subst hdn
            exact ⟨.over, setCaller_callers _, .inl rfl⟩
          · rw [setCaller_callers_of_ne _ hdn]
            exact h.done d hd
        waiting := fun d hmd hd => by
          rw [setCaller_callers_of_ne _ (hlt.trans hmd).ne']
          exact h.waiting d hmd hd
        fresh := fun d hmd hd => by
          rw [setCaller_callers_of_ne _ (hlt.trans hmd).ne']
          exact h.fresh d hmd hd
        le := h.le
        free := h.free
        caller := by
          rw [setCaller_callers_of_ne _ hlt.ne']
          exact h.caller
        queue := h.queue
        running := h.running
        started := h.started
        ended := h.ended }
  · cases turn with
    | ends left body =>
      obtain ⟨rfl, rfl⟩ : .ending left = control ∧ body = .trapped := by
        simpa [Turn.caller] using hturn
      have hline := h.toLine.setCaller ⟨.ending left, .over⟩
      refine ⟨n, .ends left .over, ?_, le_rfl, ?_⟩
      · exact
          { lock := hline.lock
            promises := hline.promises
            done := hline.done
            waiting := hline.waiting
            fresh := hline.fresh
            le := h.le
            free := iff_of_false nofun (h.lt nofun).ne
            caller := setCaller_callers _
            queue := h.queue
            running := h.running
            started := h.started
            ended := by
              rintro _ _ ⟨⟩
              exact ⟨.inl rfl, (h.ended _ _ rfl).2⟩ }
      · rintro a k - (hdue | ⟨hm, -⟩ | ⟨hm, _, _, ⟨⟩, hleft⟩)
        · exact .inl hdue
        · exact .inr (.inl ⟨hm, nofun⟩)
        · exact .inr (.inr ⟨hm, _, _, rfl, hleft⟩)
    | free | queued | runs | awaits => cases hturn

theorem Inv.bodySettles (h : Inv kind s m turn) (n : Nat) :
    Goes kind s m turn (.bodySettles n) := by
  rcases hn : s.callers n with _ | ⟨control, body⟩
  · exact h.stays (by simp only [step, State.bodySettles, hn]) nofun
  · by_cases hpending : control = .body ∧ body = .pending
    · obtain ⟨rfl, rfl⟩ := hpending
      obtain ⟨rfl, rfl, hrunning⟩ := h.awaits hn
      refine h.ends ?_ (.inr rfl) (.inl rfl) afterSettled_lt_jobs
      rw [← hrunning]
      simp only [step, State.bodySettles, hn]
    · by_cases htrapped : body = .trapped
      · subst htrapped
        exact h.settles hn (by simp only [step, State.bodySettles, hn]) nofun
      · refine h.stays ?_ nofun
        simp only [step, State.bodySettles, hn]
        grind

theorem Inv.trap (h : Inv kind s m turn) (n : Nat) : Goes kind s m turn (.trap n) := by
  by_cases hn : kind.capturesTraps = true ∧ s.callers n = some ⟨.body, .pending⟩
  · obtain ⟨hcaptures, hn⟩ := hn
    obtain ⟨rfl, rfl, hrunning⟩ := h.awaits hn
    refine h.ends ?_ (.inr rfl) (.inr ⟨rfl, hcaptures⟩) afterSettled_lt_jobs
    rw [← hrunning]
    simp only [step, State.trap, hcaptures, hn]
  · refine h.stays ?_ nofun
    simp only [step, State.trap]
    grind

/-- Without a job in the queue nothing happens. -/
theorem runJob_idle (h : s.queue = []) : s.runJob = s := by
  simp only [State.runJob, h]
  split
  · rename_i heq
    cases heq
  · rfl

theorem Inv.runJob (h : Inv kind s m turn) : Goes kind s m turn .runJob := by
  cases turn with
  | free => exact h.stays (runJob_idle h.queue) fun _ => .inl rfl
  | awaits => exact h.stays (runJob_idle h.queue) fun _ => .inr (.inr rfl)
  | runs => exact h.stays (runJob_idle h.queue) fun _ => .inr (.inl rfl)
  | queued =>
    have hcaller : s.callers m = some ⟨.queued, .unstarted⟩ := h.caller
    have hqueue : s.queue = [m] := h.queue
    have hrunning : s.running = none := h.running
    have hstep : step kind s .runJob = { s.setCaller m ⟨.body, .running⟩ with
        running := some m
        queue := []
        started := s.started ++ [m] } := by
      simp only [step, State.runJob, hrunning, hqueue, hcaller]
    have hline := h.toLine.setCaller ⟨.body, .running⟩
    refine ⟨m, .runs, ?_, by rw [hstep]; rfl, ?_⟩
    · rw [hstep]
      exact
        { lock := hline.lock
          promises := hline.promises
          done := hline.done
          waiting := hline.waiting
          fresh := hline.fresh
          le := h.le
          free := iff_of_false nofun (h.lt nofun).ne
          caller := setCaller_callers _
          queue := rfl
          running := rfl
          started := by
            simp only [h.started]
            exact List.range_succ.symm
          ended := nofun }
    · rintro a k - (hdue | ⟨hm, -⟩ | ⟨-, _, _, ⟨⟩, -⟩)
      · exact .inl hdue
      · exact .inr (.inl ⟨hm, nofun⟩)
  | ends left body =>
    have hcaller : s.callers m = some ⟨.ending left, body⟩ := h.caller
    have hqueue : s.queue = [m] := h.queue
    have hrunning : s.running = none := h.running
    have hstep : step kind s .runJob = { s with queue := [] }.finish m body left := by
      simp only [step, State.runJob, hrunning, hqueue, hcaller]
    have hline : Line kind { s with queue := [] } m :=
      ⟨h.lock, h.promises, h.done, h.waiting, h.fresh⟩
    obtain ⟨hended, hleft⟩ := h.ended left body rfl
    obtain ⟨m', turn', hinv, hgoes⟩ := hline.finish (h.lt nofun) rfl hrunning h.started hended
      (Nat.lt_of_succ_lt hleft)
    refine ⟨m', turn', by rwa [hstep], by rw [hstep, finish_next], ?_⟩
    rintro a k - (hdue | ⟨hm, -⟩ | ⟨rfl, _, _, ⟨⟩, hk⟩)
    · rcases hgoes with ⟨rfl, -⟩ | ⟨rfl, -⟩
      · exact .inl hdue
      · exact .inl (hdue.trans (Nat.lt_succ_self m))
    · rcases hgoes with ⟨rfl, rfl, -⟩ | ⟨rfl, -⟩
      · exact .inr (.inl ⟨hm, nofun⟩)
      · exact .inl (by omega)
    · rw [List.count_singleton_self] at hk
      rcases hgoes with ⟨rfl, rfl, hpos⟩ | ⟨rfl, -⟩
      · exact .inr (.inr ⟨rfl, _, _, rfl, by omega⟩)
      · exact .inr (.inl ⟨rfl, fun _ => by omega⟩)

theorem Inv.step (h : Inv kind s m turn) : ∀ e, Goes kind s m turn e
  | .call => h.call
  | .bodyReturns => h.bodyReturns
  | .bodyThrows => h.bodyThrows
  | .bodySettles n => h.bodySettles n
  | .trap n => h.trap n
  | .runJob => h.runJob

/-! ## Runs -/

theorem Inv.exec (h : Inv kind s m turn) (events : List Event) :
    ∃ m' turn', Inv kind (Trace.exec (Mutex.step kind) s events) m' turn' ∧
      s.next ≤ (Trace.exec (Mutex.step kind) s events).next ∧
      ∀ a k, a + 1 < s.next → Due a (k + events.count .runJob) m turn → Due a k m' turn' := by
  induction events generalizing s m turn with
  | nil => exact ⟨m, turn, h, le_rfl, fun a k _ hdue => hdue⟩
  | cons e events ih =>
    obtain ⟨m₁, turn₁, hinv₁, hnext₁, hdue₁⟩ := h.step e
    obtain ⟨m₂, turn₂, hinv₂, hnext₂, hdue₂⟩ := ih hinv₁
    refine ⟨m₂, turn₂, hinv₂, hnext₁.trans hnext₂, fun a k ha hdue => ?_⟩
    refine hdue₂ a k (ha.trans_le hnext₁) (hdue₁ a _ ha ?_)
    rwa [Nat.add_assoc, Nat.add_comm (events.count _), ← List.count_append]

theorem Due.mono {a k k' : Nat} (h : Due a k m turn) (hk : k ≤ k') : Due a k' m turn := by
  rcases h with hlt | ⟨hm, hpos⟩ | ⟨hm, left, body, hends, hleft⟩
  · exact .inl hlt
  · exact .inr (.inl ⟨hm, fun hqueued => (hpos hqueued).trans_le hk⟩)
  · exact .inr (.inr ⟨hm, left, body, hends, hleft.trans hk⟩)

/-- A body that is due at once has been started. -/
theorem Inv.started_of_due (h : Inv kind s m turn) (hdue : Due n 0 m turn) (hn : n + 1 < s.next) :
    n + 1 ∈ s.started := by
  rw [h.started, List.mem_range]
  rcases hdue with hlt | ⟨rfl, hqueued⟩ | ⟨-, left, body, -, hleft⟩
  · cases turn <;> simp only [Turn.started] <;> omega
  · cases turn with
    | queued => exact absurd (hqueued rfl) (lt_irrefl 0)
    | free => exact absurd (h.free.mp rfl) hn.ne
    | runs | awaits | ends => exact Nat.lt_succ_self _
  · omega

/-- A caller is in its section: its body runs, or what it has returned is awaited. -/
def State.InSection (s : State) (kind : Kind) (n : Nat) : Prop :=
  ∃ control body, s.callers n = some ⟨control, body⟩ ∧
    (body = .running ∨ body = .pending ∨ body = .trapped ∧ kind.capturesTraps = false)

theorem Inv.inSection (h : Inv kind s m turn) (hn : s.InSection kind n) : n = m := by
  obtain ⟨control, body, hn, hbody⟩ := hn
  rcases h.place hn with ⟨-, _, ⟨⟩, hended⟩ | ⟨hm, -⟩ | ⟨-, ⟨⟩⟩
  · rcases hended with rfl | ⟨rfl, hcaptures⟩ <;> simp_all
  · exact hm
  · simp at hbody

/-- Where a section has ended, the next one is due. -/
theorem Inv.due (h : Inv kind s m turn) {control : Control}
    (hn : s.callers n = some ⟨control, body⟩) (hended : body.IsEnded kind) :
    Due n kind.jobs m turn := by
  rcases h.place hn with ⟨hlt, -⟩ | ⟨rfl, hturn⟩ | ⟨-, ⟨⟩⟩
  · rcases (Nat.succ_le_of_lt hlt).lt_or_eq with hlt | heq
    · exact .inl hlt
    · exact .inr (.inl ⟨heq, fun _ => Nat.succ_pos _⟩)
  · cases turn with
    | ends left body =>
      exact .inr (.inr ⟨rfl, left, body, rfl, (h.ended left body rfl).2⟩)
    | queued | runs | awaits =>
      obtain ⟨-, rfl⟩ : _ ∧ _ = body := by simpa [Turn.caller] using hturn
      simp [Body.IsEnded] at hended
    | free => cases hturn
  · simp [Body.IsEnded] at hended

/-- For every run of either mutex: at most one caller is in its section, the bodies are started in
the order of the calls, and where a body has ended in whichever way, the next one is started in at
most so many jobs. -/
theorem sections_exclude (kind : Kind) (events : List Event) :
    let s := Trace.exec (step kind) {} events
    (∀ a b, s.InSection kind a → s.InSection kind b → a = b) ∧
      s.started = List.range s.started.length ∧
      ∀ n control body, s.callers n = some ⟨control, body⟩ → body.IsEnded kind → n + 1 < s.next →
        ∀ later : List Event, kind.jobs ≤ later.count .runJob →
          n + 1 ∈ (Trace.exec (step kind) s later).started := by
  intro s
  obtain ⟨m, turn, hinv, -⟩ := (Inv.start kind).exec events
  refine ⟨?_, ?_, ?_⟩
  · intro a b ha hb
    exact (hinv.inSection ha).trans (hinv.inSection hb).symm
  · rw [hinv.started, List.length_range]
  · intro n control body hn hended hnext later hlater
    obtain ⟨m', turn', hinv', hnext', hdue⟩ := hinv.exec later
    have hdue' : Due n (0 + later.count .runJob) m turn :=
      (hinv.due hn hended).mono (by rwa [Nat.zero_add])
    exact hinv'.started_of_due (hdue n 0 hnext hdue') (hnext.trans_le hnext')

/-- The promise that the body of a caller has returned has not settled. -/
def State.Unsettled (s : State) (n : Nat) : Prop :=
  ∃ control body, s.callers n = some ⟨control, body⟩ ∧ body ∈ [.running, .pending, .trapped]

/-- With a trap the mutex is released while the promise of the first body is pending. -/
theorem trapped_section_unsettled :
    ¬ ∀ (events : List Event) (a b : Nat),
      (Trace.exec (step (runWithLocalWasmTrapCapture 0)) {} events).Unsettled a →
        (Trace.exec (step (runWithLocalWasmTrapCapture 0)) {} events).Unsettled b → a = b := by
  intro h
  have hrun := h [.call, .call, .runJob, .bodyReturns, .trap 0, .runJob, .runJob] 0 1
  exact absurd (hrun ⟨.done, .trapped, by decide, by decide⟩ ⟨.body, .running, by decide, by decide⟩)
    (by decide)

end Lionden.Network.Mutex
