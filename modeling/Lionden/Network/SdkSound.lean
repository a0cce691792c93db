import Lionden.Lib.Fallible
import Lionden.Network.SdkObjects

/-!
# What holds of the SDK objects

`Sound` holds in every state: which promise is whose, and that a signer's failed one is evicted by a
queued reaction.

* `Sound.step`: every event keeps it.
-/

namespace Lionden.Network.Sdk

variable {privateKey : Option JsString} {s : Connection}

/-- It is neither fulfilled nor rejected. -/
@[grind]
def Status.Pending : Status → Prop
  | creating | created _ => True
  | fulfilled _ | rejected => False

/-- The call waits for the initialisation. -/
@[grind]
def Stage.Awaits (a : Nat) (stage : Stage) : Prop :=
  stage = .awaitsDefault a ∨ stage = .awaitsSigner a

/-- The signer whose objects an initialisation makes. -/
@[grind]
def Connection.signerOf (s : Connection) (a : Nat) : Option (Option JsString) :=
  (s.attempts a).map (·.signer)

structure Sound (s : Connection) : Prop where
  numbered : ∀ a attempt, s.attempts a = some attempt → a < s.nextAttempt
  awaited : ∀ a attempt, s.attempts a = some attempt → attempt.status.Pending →
    ∃ c call, s.calls c = some call ∧ call.stage.Awaits a
  closed : s.closed = true → s.sdkObjects = none ∧ s.signerSdkResolved = []
  -- The default objects are initialised once, and those of signers after them.
  default : s.closed = false → ∀ a status, s.attempts a = some ⟨none, status⟩ →
    s.sdkObjectsPromise = some a
  promise : ∀ a, s.sdkObjectsPromise = some a → s.signerOf a = some none
  objects : s.sdkObjects ≠ none → ∀ a status, s.attempts a = some ⟨none, status⟩ →
    ¬status.Pending ∧ status ≠ .rejected
  signers : s.closed = false → s.sdkObjects = none →
    ∀ a key status, s.attempts a ≠ some ⟨some key, status⟩
  -- A signer has one promise at a time, and none when its objects are there.
  inflight : ∀ key a, s.signerSdkInflight key = some a → s.signerOf a = some (some key)
  unresolved : s.closed = false → ∀ key a, s.signerSdkInflight key = some a →
    s.signerSdkResolved.lookup key = none
  pending : s.closed = false → ∀ a key status, s.attempts a = some ⟨some key, status⟩ →
    status.Pending → s.signerSdkInflight key = some a
  -- A promise that is rejected is about to be evicted.
  evicts : s.closed = false → ∀ key a, s.signerSdkInflight key = some a →
    s.attempts a = some ⟨some key, .rejected⟩ → .evict key ∈ s.jobs
  closing : s.closing ≠ none → s.closed = true
  -- A call goes on to the objects of its signer with the default ones.
  fulfilled : s.closed = false → ∀ a account,
    s.attempts a = some ⟨none, .fulfilled account⟩ → s.sdkObjects ≠ none
  queued : s.closed = false → ∀ c call, s.calls c = some call → call.stage = .queued →
    s.sdkObjects ≠ none
  awaitsDefault : ∀ c call a, s.calls c = some call → call.stage = .awaitsDefault a →
    s.signerOf a = some none
  evicting : s.closed = false → ∀ key, .evict key ∈ s.jobs → s.jobs.count (.evict key) = 1 ∧
    s.signerSdkInflight key ≠ none ∧
    ∀ a, s.signerSdkInflight key = some a → s.attempts a = some ⟨some key, .rejected⟩

attribute [local grind =] Function.update_apply

namespace Sound

/-! ## Initialisations -/

/-- An initialisation that is pending goes on. -/
theorem setStatus {a : Nat} {signer : Option JsString} {status status' : Status} (h : Sound s)
    (ha : s.attempts a = some ⟨signer, status⟩) (hpending : status.Pending)
    (hpending' : status'.Pending) : Sound (s.setStatus a signer status') := by
  obtain ⟨numbered, awaited, closed, default, promise, objects, signers, inflight, unresolved,
    pending, evicts, closing, fulfilled, queued, awaitsDefault, evicting⟩ := h
  unfold Connection.setStatus
  constructor
  case awaited =>
    intro b attempt hb hp
    by_cases hba : b = a
    · exact hba ▸ awaited a _ ha hpending
    · exact awaited b attempt ((Function.update_of_ne hba ..).symm.trans hb) hp
  all_goals dsimp only; grind

theorem createAccount (h : Sound s) (a : Nat) : Sound (s.createAccount a) := by
  unfold Connection.createAccount
  split
  · next signer ha =>
    have hstatus : Sound (s.setStatus a signer (.created s.accounts)) :=
      h.setStatus ha trivial trivial
    exact { hstatus with }
  · exact h

/-- A promise that is rejected queues its eviction. -/
theorem reject {a : Nat} {signer : Option JsString} {status : Status} (h : Sound s)
    (ha : s.attempts a = some ⟨signer, status⟩) (hpending : status.Pending) :
    Sound (s.reject a signer) := by
  obtain ⟨numbered, awaited, closed, default, promise, objects, signers, inflight, unresolved,
    pending, evicts, closing, fulfilled, queued, awaitsDefault, evicting⟩ := h
  unfold Connection.reject Connection.setStatus
  constructor
  case awaited =>
    intro b attempt hb hp
    by_cases hba : b = a
    · dsimp only at hb
      rw [hba, Function.update_self] at hb
      obtain rfl := Option.some.inj hb
      exact hp.elim
    · exact awaited b attempt ((Function.update_of_ne hba ..).symm.trans hb) hp
  case evicting =>
    intro hopen key hkey
    dsimp only at hopen hkey ⊢
    cases signer with
    | none => grind
    | some own =>
      by_cases hown : key = own
      · subst hown
        have hinflight : s.signerSdkInflight key = some a := pending hopen a key status ha hpending
        have hnew : Job.evict key ∉ s.jobs := fun hold => by
          have hrejected := (evicting hopen key hold).2.2 a hinflight
          grind
        refine ⟨?_, by grind, by grind⟩
        simp [List.count_append, List.count_eq_zero_of_not_mem hnew]
      · grind
  all_goals dsimp only; grind

/-- The objects have been made before the connection is closed. -/
theorem fulfil {a account : Nat} {signer : Option JsString} (h : Sound s)
    (ha : s.attempts a = some ⟨signer, .created account⟩) : Sound (s.finish a) := by
  unfold Connection.finish
  rw [ha]
  dsimp only
  split
  · next hclosed =>
    have hreject := h.reject ha trivial
    exact { hreject with closed := hreject.closed }
  · next hopen =>
    have hopen : s.closed = false := eq_false_of_ne_true hopen
    obtain ⟨numbered, awaited, closed, default, promise, objects, signers, inflight, unresolved,
      pending, evicts, closing, fulfilled, queued, awaitsDefault, evicting⟩ := h
    have hawaited (b : Nat) (attempt : Attempt) (hp : attempt.status.Pending)
        (hb : Function.update s.attempts a (some ⟨signer, .fulfilled account⟩) b = some attempt) :
        ∃ c call, s.calls c = some call ∧ call.stage.Awaits b := by
      by_cases hba : b = a
      · rw [hba, Function.update_self] at hb
        obtain rfl := Option.some.inj hb
        exact hp.elim
      · exact awaited b attempt ((Function.update_of_ne hba ..).symm.trans hb) hp
    cases signer with
    | none =>
      unfold Connection.setStatus
      constructor
      case awaited => exact fun b attempt hb hp => hawaited b attempt hp hb
      all_goals dsimp only; grind
    | some key =>
      have hinflight : s.signerSdkInflight key = some a := pending hopen a key _ ha trivial
      unfold Connection.setStatus
      constructor
      case awaited => exact fun b attempt hb hp => hawaited b attempt hp hb
      case unresolved =>
        intro _ other b hb
        dsimp only at hb ⊢
        by_cases hother : other = key
        · rw [hother, Function.update_self] at hb
          exact nomatch hb
        · rw [Function.update_of_ne hother] at hb
          rw [List.lookup_cons, beq_eq_false_iff_ne.mpr hother]
          exact (Fallible.lookup_filter_ne hother).trans (unresolved hopen other b hb)
      all_goals dsimp only; grind

/-! ## Calls -/

theorem fresh (h : Sound s) : s.attempts s.nextAttempt = none := by
  cases hattempt : s.attempts s.nextAttempt with
  | none => rfl
  | some attempt => exact absurd (h.numbered _ _ hattempt) (lt_irrefl _)

/-- A call that waits for nothing pending may go on. -/
theorem awaited_update (h : Sound s) (c : Nat) (call' : Call)
    (hidle : ∀ a attempt call, s.calls c = some call → call.stage.Awaits a →
      s.attempts a = some attempt → ¬attempt.status.Pending)
    (a : Nat) (attempt : Attempt) (ha : s.attempts a = some attempt)
    (hp : attempt.status.Pending) :
    ∃ d call, Function.update s.calls c (some call') d = some call ∧ call.stage.Awaits a := by
  obtain ⟨d, call, hcall, hawaits⟩ := h.awaited a attempt ha hp
  have hne : d ≠ c := by
    rintro rfl
    exact hidle a attempt call hcall hawaits ha hp
  exact ⟨d, call, (Function.update_of_ne hne ..).trans hcall, hawaits⟩

theorem setStage {c : Nat} {call : Call} {stage : Stage} (h : Sound s)
    (hidle : ∀ a attempt call, s.calls c = some call → call.stage.Awaits a →
      s.attempts a = some attempt → ¬attempt.status.Pending)
    (hqueued : stage = .queued → s.closed = false → s.sdkObjects ≠ none)
    (hdefault : ∀ a, stage = .awaitsDefault a → s.signerOf a = some none) :
    Sound (s.setStage c call stage) := by
  have hawaited := h.awaited_update c { call with stage } hidle
  obtain ⟨numbered, awaited, closed, default, promise, objects, signers, inflight, unresolved,
    pending, evicts, closing, fulfilled, queued, awaitsDefault, evicting⟩ := h
  unfold Connection.setStage
  constructor
  case awaited => exact hawaited
  case queued => dsimp only; grind
  case awaitsDefault => dsimp only; grind
  all_goals assumption

/-- A call goes on by a new initialisation. -/
theorem startSigner {c : Nat} {call : Call} {key : JsString} (h : Sound s)
    (hidle : ∀ a attempt call, s.calls c = some call → call.stage.Awaits a →
      s.attempts a = some attempt → ¬attempt.status.Pending)
    (hdefault : s.closed = false → s.sdkObjects ≠ none)
    (hresolved : s.signerSdkResolved.lookup key = none)
    (hinflight : s.signerSdkInflight key = none) :
    Sound { (s.start (some key)).setStage c call (.awaitsSigner s.nextAttempt) with
      signerSdkInflight := Function.update s.signerSdkInflight key (some s.nextAttempt) } := by
  have hfresh := h.fresh
  have hawaited := h.awaited_update c { call with stage := .awaitsSigner s.nextAttempt } hidle
  obtain ⟨numbered, awaited, closed, default, promise, objects, signers, inflight, unresolved,
    pending, evicts, closing, fulfilled, queued, awaitsDefault, evicting⟩ := h
  unfold Connection.start Connection.setStatus Connection.setStage
  constructor
  case awaited =>
    intro a attempt ha hp
    dsimp only at ha ⊢
    by_cases hnew : a = s.nextAttempt
    · exact ⟨c, _, Function.update_self .., .inr (by rw [hnew])⟩
    · exact hawaited a attempt ((Function.update_of_ne hnew ..).symm.trans ha) hp
  all_goals clear awaited hawaited hidle; dsimp only; grind

theorem startDefault {c : Nat} {call : Call} (h : Sound s) (hnew : s.calls c = none)
    (hopen : s.closed = false) (hobjects : s.sdkObjects = none)
    (hpromise : s.sdkObjectsPromise = none) :
    Sound { (s.start none).setStage c call (.awaitsDefault s.nextAttempt) with
      sdkObjectsPromise := some s.nextAttempt } := by
  have hfresh := h.fresh
  have hawaited := h.awaited_update c { call with stage := .awaitsDefault s.nextAttempt }
    fun _ _ _ hcall => nomatch hnew.symm.trans hcall
  obtain ⟨numbered, awaited, closed, default, promise, objects, signers, inflight, unresolved,
    pending, evicts, closing, fulfilled, queued, awaitsDefault, evicting⟩ := h
  unfold Connection.start Connection.setStatus Connection.setStage
  constructor
  case awaited =>
    intro a attempt ha hp
    dsimp only at ha ⊢
    by_cases hnext : a = s.nextAttempt
    · exact ⟨c, _, Function.update_self .., .inl (by rw [hnext])⟩
    · exact hawaited a attempt ((Function.update_of_ne hnext ..).symm.trans ha) hp
  all_goals clear awaited hawaited; dsimp only; grind

/-! ## The queue -/

theorem evict {key : JsString} {jobs : List Job} (h : Sound s) (hjobs : s.jobs = .evict key :: jobs) :
    Sound { s with
      jobs
      signerSdkInflight := Function.update s.signerSdkInflight key none } := by
  obtain ⟨numbered, awaited, closed, default, promise, objects, signers, inflight, unresolved,
    pending, evicts, closing, fulfilled, queued, awaitsDefault, evicting⟩ := h
  constructor
  all_goals dsimp only; grind

theorem dequeue {c : Nat} {jobs : List Job} (h : Sound s) (hjobs : s.jobs = .resume c :: jobs) :
    Sound { s with jobs } := by
  obtain ⟨numbered, awaited, closed, default, promise, objects, signers, inflight, unresolved,
    pending, evicts, closing, fulfilled, queued, awaitsDefault, evicting⟩ := h
  constructor
  all_goals dsimp only; grind

theorem enqueue {c : Nat} (h : Sound s) : Sound { s with jobs := s.jobs ++ [.resume c] } := by
  obtain ⟨numbered, awaited, closed, default, promise, objects, signers, inflight, unresolved,
    pending, evicts, closing, fulfilled, queued, awaitsDefault, evicting⟩ := h
  constructor
  all_goals dsimp only; grind

/-! ## Closing -/

theorem close (h : Sound s) : Sound s.close := by
  obtain ⟨numbered, awaited, closed, default, promise, objects, signers, inflight, unresolved,
    pending, evicts, closing, fulfilled, queued, awaitsDefault, evicting⟩ := h
  unfold Connection.close Connection.destroy
  constructor
  all_goals dsimp only; grind

theorem finishClose (h : Sound s) : Sound s.finishClose := by
  have hcleared : s.closing ≠ none →
      Sound { s with closing := none, sdkObjects := none, sdkObjectsPromise := none } := by
    intro hclosing
    obtain ⟨numbered, awaited, closed, default, promise, objects, signers, inflight, unresolved,
      pending, evicts, closing, fulfilled, queued, awaitsDefault, evicting⟩ := h
    constructor
    all_goals dsimp only; grind
  unfold Connection.finishClose
  split
  · next hclosing =>
    have h' := hcleared fun hnone => by simp [hnone] at hclosing
    exact { h' with }
  · next hclosing => exact hcleared fun hnone => by simp [hnone] at hclosing
  · exact h

/-! ## Steps -/

theorem resume {c : Nat} {call : Call} (h : Sound s)
    (hidle : ∀ a attempt call, s.calls c = some call → call.stage.Awaits a →
      s.attempts a = some attempt → ¬attempt.status.Pending)
    (hobjects : s.closed = false → s.sdkObjects ≠ none) :
    Sound (s.resume privateKey c call) := by
  have hreturned : Sound (s.setStage c call .returned) := h.setStage hidle (by simp) (by simp)
  unfold Connection.resume
  split
  · exact hreturned
  · next key _ =>
    split
    · exact hreturned
    · split
      · exact hreturned
      · exact h.setStage hidle (by simp) (by simp)
      · next hresolved hinflight => exact h.startSigner hidle hobjects hresolved hinflight

theorem call (h : Sound s) (c : Nat) (signer : Option JsString) : Sound (s.call c signer) := by
  unfold Connection.call
  split
  · exact h
  · next hnew =>
    have hidle : ∀ a attempt call, s.calls c = some call → call.stage.Awaits a →
        s.attempts a = some attempt → ¬attempt.status.Pending :=
      fun _ _ _ hcall => nomatch hnew.symm.trans hcall
    dsimp only
    split
    · exact h.setStage hidle nofun nofun
    · next hopen =>
      split
      · next hobjects =>
        have hsome : s.sdkObjects ≠ none := fun hnone => by rw [hnone] at hobjects; cases hobjects
        have hqueued : Sound (s.setStage c ⟨signer, .refused, s.isRejected⟩ .queued) :=
          h.setStage hidle (fun _ _ => hsome) nofun
        exact hqueued.enqueue
      · next a _ hpromise =>
        exact h.setStage hidle nofun fun b hb => Stage.awaitsDefault.inj hb ▸ h.promise a hpromise
      · next hobjects hpromise =>
        exact h.startDefault hnew (eq_false_of_ne_true hopen) hobjects hpromise

theorem runJob (h : Sound s) : Sound (s.runJob privateKey) := by
  unfold Connection.runJob
  split
  · exact h
  · next hjobs => exact h.evict hjobs
  · next c jobs hjobs =>
    have hdequeue := h.dequeue hjobs
    split
    · next call hcall =>
      split
      · next hqueued =>
        refine hdequeue.resume (fun a _ other hother hawaits => ?_)
          fun hopen => h.queued hopen c call hcall hqueued
        obtain rfl := Option.some.inj (hcall.symm.trans hother)
        simp [Stage.Awaits, hqueued] at hawaits
      · exact hdequeue
    · exact hdequeue

theorem wake (h : Sound s) (c : Nat) : Sound (s.wake privateKey c) := by
  unfold Connection.wake
  split
  · exact h
  · next call hcall =>
    -- What it awaits is settled.
    have hidle {a : Nat} {attempt : Attempt} (hawaits : call.stage.Awaits a)
        (ha : s.attempts a = some attempt) (hsettled : ¬attempt.status.Pending) :
        ∀ b attempt call, s.calls c = some call → call.stage.Awaits b →
          s.attempts b = some attempt → ¬attempt.status.Pending := by
      grind
    split
    · next a hstage =>
      split
      · next signer account hattempt =>
        refine h.resume (hidle (.inl hstage) hattempt id) fun hopen => ?_
        have hsigner := h.awaitsDefault c call a hcall hstage
        rw [Connection.signerOf, hattempt, Option.map_some, Option.some.injEq] at hsigner
        subst hsigner
        exact h.fulfilled hopen a account hattempt
      · next hattempt => exact h.setStage (hidle (.inl hstage) hattempt id) nofun nofun
      · exact h
    · next a hstage =>
      split
      · next hattempt => exact h.setStage (hidle (.inr hstage) hattempt id) nofun nofun
      · next hattempt => exact h.setStage (hidle (.inr hstage) hattempt id) nofun nofun
      · exact h
    · exact h

theorem fail (h : Sound s) (a : Nat) : Sound (s.fail a) := by
  unfold Connection.fail
  split
  · next ha => exact h.reject ha trivial
  · next ha => exact h.reject ha trivial
  · exact h

theorem finish (h : Sound s) (a : Nat) : Sound (s.finish a) := by
  cases hattempt : s.attempts a with
  | none => rwa [Connection.finish, hattempt]
  | some attempt =>
    obtain ⟨signer, status⟩ := attempt
    cases status with
    | created account => exact h.fulfil hattempt
    | creating | fulfilled | rejected => rwa [Connection.finish, hattempt]

theorem step (h : Sound s) (event : Event) : Sound (s.step privateKey event) := by
  cases event with
  | call c signer => exact h.call c signer
  | createAccount a => exact h.createAccount a
  | fail a => exact h.fail a
  | finish a => exact h.finish a
  | job => exact h.runJob
  | wake c => exact h.wake c
  | close => exact h.close
  | finishClose => exact h.finishClose

theorem new : Sound .new := by
  constructor <;> nofun

end Sound

end Lionden.Network.Sdk
