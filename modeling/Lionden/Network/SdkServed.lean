import Lionden.Network.SdkRetry

/-!
# What answers a call

The initialisations for a key come one after another, and a call takes the latest one.

* `Newest`: what a connection keeps of a key is of the latest initialisation for it.
* `Call.Served`: what a call has got, or waits for, is newer than what had failed for its key.
* `retried_iff`: when a call is retried.
-/

namespace Lionden.Network.Sdk

variable {privateKey : Option JsString} {s s' : Connection}

attribute [local grind =] Function.update_apply

/-! ## What is kept for a key -/

structure Newest (s : Connection) : Prop where
  inflight : ∀ key a, s.signerSdkInflight key = some a →
    ∀ b, s.signerOf b = some (some key) → b ≤ a
  resolved : ∀ key account, s.signerSdkResolved.lookup key = some account →
    ∃ a, s.attempts a = some ⟨some key, .fulfilled account⟩ ∧
      ∀ b, s.signerOf b = some (some key) → b ≤ a
  objects : ∀ account, s.sdkObjects = some account →
    ∃ a, s.attempts a = some ⟨none, .fulfilled account⟩

/-- Initialisations stay, and a settled one stays as it is. -/
def Connection.Extends (s s' : Connection) : Prop :=
  ∀ a signer status, s.attempts a = some ⟨signer, status⟩ →
    ∃ status', s'.attempts a = some ⟨signer, status'⟩ ∧ (status.Pending ∨ status' = status)

theorem Connection.Extends.refl (s : Connection) : s.Extends s :=
  fun _ _ status ha => ⟨status, ha, .inr rfl⟩

theorem Connection.Extends.of_eq (h : s'.attempts = s.attempts) : s.Extends s' :=
  fun _ _ status ha => ⟨status, h ▸ ha, .inr rfl⟩

theorem Connection.Extends.signerOf (h : s.Extends s') {a : Nat} {signer : Option JsString}
    (ha : s.signerOf a = some signer) : s'.signerOf a = some signer := by
  obtain ⟨⟨signer', status⟩, hattempt, rfl⟩ := Option.map_eq_some_iff.mp ha
  obtain ⟨status', hattempt', -⟩ := h a signer' status hattempt
  rw [Connection.signerOf, hattempt', Option.map_some]

theorem Connection.Extends.fulfilled (h : s.Extends s') {a account : Nat}
    {signer : Option JsString} (ha : s.attempts a = some ⟨signer, .fulfilled account⟩) :
    s'.attempts a = some ⟨signer, .fulfilled account⟩ := by
  obtain ⟨status, ha', hpending | rfl⟩ := h a signer _ ha
  · exact hpending.elim
  · exact ha'

/-- An initialisation that is pending goes on. -/
theorem extends_setStatus {a : Nat} {signer : Option JsString} {status status' : Status}
    (ha : s.attempts a = some ⟨signer, status⟩) (hpending : status.Pending) :
    s.Extends (s.setStatus a signer status') := by
  intro b owner old hb
  unfold Connection.setStatus
  by_cases hba : b = a
  · subst hba
    obtain ⟨rfl, rfl⟩ := Attempt.mk.inj (Option.some.inj (ha.symm.trans hb))
    exact ⟨status', Function.update_self .., .inl hpending⟩
  · exact ⟨old, (Function.update_of_ne hba ..).trans hb, .inr rfl⟩

theorem extends_start (hs : Sound s) (signer : Option JsString) : s.Extends (s.start signer) := by
  intro a owner status ha
  have hne : a ≠ s.nextAttempt := by
    rintro rfl
    exact nomatch hs.fresh.symm.trans ha
  exact ⟨status, (Function.update_of_ne hne ..).trans ha, .inr rfl⟩

theorem signerOf_setStatus {a b : Nat} {signer : Option JsString} {status status' : Status}
    (ha : s.attempts a = some ⟨signer, status⟩) :
    (s.setStatus a signer status').signerOf b = s.signerOf b := by
  unfold Connection.setStatus Connection.signerOf
  by_cases hba : b = a
  · simp [hba, ha]
  · simp [hba]

/-- A new initialisation is of its own signer. -/
theorem signerOf_start_cases {b : Nat} {signer owner : Option JsString}
    (hb : (s.start signer).signerOf b = some owner) :
    s.signerOf b = some owner ∨ b = s.nextAttempt ∧ signer = owner := by
  by_cases hnew : b = s.nextAttempt
  · subst hnew
    exact .inr ⟨rfl, Option.some.inj ((s.signerOf_nextAttempt signer).symm.trans hb)⟩
  · refine .inl (Eq.trans (congrArg (Option.map Attempt.signer) ?_) hb)
    exact (Function.update_of_ne hnew ..).symm

theorem signerOf_lt (hs : Sound s) {a : Nat} {signer : Option JsString}
    (ha : s.signerOf a = some signer) : a < s.nextAttempt := by
  obtain ⟨attempt, hattempt, -⟩ := Option.map_eq_some_iff.mp ha
  exact hs.numbered a attempt hattempt

namespace Newest

theorem setStatus {a : Nat} {signer : Option JsString} {status status' : Status} (h : Newest s)
    (ha : s.attempts a = some ⟨signer, status⟩) (hpending : status.Pending) :
    Newest (s.setStatus a signer status') := by
  have hext : s.Extends (s.setStatus a signer status') := extends_setStatus ha hpending
  refine ⟨fun key b hb d hd => ?_, fun key account hresolved => ?_, fun account hobjects => ?_⟩
  · exact h.inflight key b hb d (signerOf_setStatus ha ▸ hd)
  · obtain ⟨b, hb, hlatest⟩ := h.resolved key account hresolved
    exact ⟨b, hext.fulfilled hb, fun d hd => hlatest d (signerOf_setStatus ha ▸ hd)⟩
  · obtain ⟨b, hb⟩ := h.objects account hobjects
    exact ⟨b, hext.fulfilled hb⟩

theorem start (hs : Sound s) (h : Newest s) {signer : Option JsString}
    (hresolved : ∀ key, signer = some key → s.signerSdkResolved.lookup key = none)
    (hinflight : ∀ key, signer = some key → s.signerSdkInflight key = none) :
    Newest (s.start signer) := by
  have hext := extends_start hs signer
  refine ⟨fun key b hb d hd => ?_, fun key account hkey => ?_, fun account hobjects => ?_⟩
  · rcases signerOf_start_cases hd with hold | ⟨-, hsigner⟩
    · exact h.inflight key b hb d hold
    · exact nomatch (hinflight key hsigner).symm.trans hb
  · obtain ⟨b, hb, hlatest⟩ := h.resolved key account hkey
    refine ⟨b, hext.fulfilled hb, fun d hd => ?_⟩
    rcases signerOf_start_cases hd with hold | ⟨-, hsigner⟩
    · exact hlatest d hold
    · exact nomatch (hresolved key hsigner).symm.trans hkey
  · obtain ⟨b, hb⟩ := h.objects account hobjects
    exact ⟨b, hext.fulfilled hb⟩

/-- The promise of a new initialisation. -/
theorem startSigner (hs : Sound s) (h : Newest s) {key : JsString}
    (hresolved : s.signerSdkResolved.lookup key = none)
    (hinflight : s.signerSdkInflight key = none) : Newest { s.start (some key) with
      signerSdkInflight := Function.update s.signerSdkInflight key (some s.nextAttempt) } := by
  have hstart : Newest (s.start (some key)) :=
    h.start hs (fun _ hkey => Option.some.inj hkey ▸ hresolved)
      fun _ hkey => Option.some.inj hkey ▸ hinflight
  refine { hstart with inflight := fun other b hb d hd => ?_ }
  by_cases hother : other = key
  · subst hother
    dsimp only at hb
    rw [Function.update_self] at hb
    obtain rfl := Option.some.inj hb
    rcases signerOf_start_cases hd with hold | ⟨rfl, -⟩
    · exact (signerOf_lt hs hold).le
    · exact le_rfl
  · exact hstart.inflight other b ((Function.update_of_ne hother ..).symm.trans hb) d hd

theorem createAccount (h : Newest s) (a : Nat) : Newest (s.createAccount a) := by
  unfold Connection.createAccount
  split
  · next signer ha =>
    have hstatus : Newest (s.setStatus a signer (.created s.accounts)) := h.setStatus ha trivial
    exact { hstatus with }
  · exact h

theorem reject {a : Nat} {signer : Option JsString} {status : Status} (h : Newest s)
    (ha : s.attempts a = some ⟨signer, status⟩) (hpending : status.Pending) :
    Newest (s.reject a signer) := by
  have hstatus : Newest (s.setStatus a signer .rejected) := h.setStatus ha hpending
  exact { hstatus with }

theorem fail (h : Newest s) (a : Nat) : Newest (s.fail a) := by
  unfold Connection.fail
  split
  · next ha => exact h.reject ha trivial
  · next ha => exact h.reject ha trivial
  · exact h

theorem finish (hs : Sound s) (h : Newest s) (a : Nat) : Newest (s.finish a) := by
  unfold Connection.finish
  split
  · next signer account ha =>
    split
    · have hreject := h.reject ha trivial
      exact { hreject with }
    · next hopen =>
      have hopen : s.closed = false := eq_false_of_ne_true hopen
      have hstatus : Newest (s.setStatus a signer (.fulfilled account)) := h.setStatus ha trivial
      have hfulfilled : (s.setStatus a signer (.fulfilled account)).attempts a =
          some ⟨signer, .fulfilled account⟩ := Function.update_self ..
      cases signer with
      | none => exact { hstatus with
          objects := fun _ hobjects => ⟨a, Option.some.inj hobjects ▸ hfulfilled⟩ }
      | some key =>
        have hinflight : s.signerSdkInflight key = some a := hs.pending hopen a key _ ha trivial
        refine { hstatus with inflight := fun other b hb => ?_, resolved := fun other kept hkept => ?_ }
        · exact hstatus.inflight other b (of_update_none hb).1
        · dsimp only at hkept
          by_cases hother : other = key
          · subst hother
            rw [List.lookup_cons, beq_self_eq_true] at hkept
            obtain rfl := Option.some.inj hkept
            exact ⟨a, hfulfilled, hstatus.inflight other a hinflight⟩
          · rw [List.lookup_cons, beq_eq_false_iff_ne.mpr hother] at hkept
            exact hstatus.resolved other kept ((Fallible.lookup_filter_ne hother).symm.trans hkept)
  · exact h

/-- A promise is dropped. -/
theorem evict (h : Newest s) (key : JsString) : Newest { s with
    signerSdkInflight := Function.update s.signerSdkInflight key none } :=
  { h with inflight := fun other b hb => h.inflight other b (of_update_none hb).1 }

theorem close (h : Newest s) : Newest s.close :=
  { h with inflight := nofun, resolved := nofun, objects := nofun }

theorem finishClose (h : Newest s) : Newest s.finishClose := by
  have hcleared : Newest { s with closing := none, sdkObjects := none, sdkObjectsPromise := none } :=
    { h with objects := nofun }
  unfold Connection.finishClose
  split
  · exact { hcleared with }
  · exact hcleared
  · exact h

theorem call (hs : Sound s) (h : Newest s) (c : Nat) (signer : Option JsString) :
    Newest (s.call c signer) := by
  unfold Connection.call
  split
  · exact h
  · dsimp only
    split
    · exact { h with }
    · split
      · exact { h with }
      · exact { h with }
      · have hstart : Newest (s.start none) := h.start hs nofun nofun
        exact { hstart with }

theorem resume (hs : Sound s) (h : Newest s) (c : Nat) (call : Call) :
    Newest (s.resume privateKey c call) := by
  unfold Connection.resume
  split
  · exact { h with }
  · split
    · exact { h with }
    · split
      · exact { h with }
      · exact { h with }
      · next hresolved hinflight =>
        have hstart := h.startSigner hs hresolved hinflight
        exact { hstart with }

theorem runJob (hs : Sound s) (h : Newest s) : Newest (s.runJob privateKey) := by
  unfold Connection.runJob
  split
  · exact h
  · next key jobs _ =>
    have hevict := h.evict key
    exact { hevict with }
  · next c jobs hjobs =>
    have hidle : Newest { s with jobs } := { h with }
    split
    · next call _ =>
      split
      · exact hidle.resume (hs.dequeue hjobs) c call
      · exact hidle
    · exact hidle

theorem wake (hs : Sound s) (h : Newest s) (c : Nat) : Newest (s.wake privateKey c) := by
  unfold Connection.wake
  split
  · exact h
  · next call _ =>
    split
    · split
      · exact h.resume hs c call
      · exact { h with }
      · exact h
    · split
      · exact { h with }
      · exact { h with }
      · exact h
    · exact h

theorem step (hs : Sound s) (h : Newest s) (event : Event) : Newest (s.step privateKey event) := by
  cases event with
  | call c signer => exact h.call hs c signer
  | createAccount a => exact h.createAccount a
  | fail a => exact h.fail a
  | finish a => exact h.finish hs a
  | job => exact h.runJob hs
  | wake c => exact h.wake hs c
  | close => exact h.close
  | finishClose => exact h.finishClose

theorem new : Newest .new := ⟨nofun, nofun, nofun⟩

end Newest

/-! ## What calls have -/

/-- What has failed for the signer before the call came before the initialisation. -/
def Call.NewFor (s : Connection) (call : Call) (signer : Option JsString) (a : Nat) : Prop :=
  ∀ b, call.failed b = true → s.signerOf b = some signer → b < a

structure Call.Served (privateKey : Option JsString) (s : Connection) (call : Call) : Prop where
  -- A call that goes on has the default objects.
  past : (call.stage = .queued ∨ call.stage = .returned ∨
      ∃ a, call.stage.Answers a ∧ s.signerOf a ≠ some none) →
    ∃ d account, s.attempts d = some ⟨none, .fulfilled account⟩
  returned : call.stage = .returned → Connection.usesDefault privateKey call.signer = false →
    ∃ a account, s.attempts a = some ⟨call.signer, .fulfilled account⟩ ∧
      call.NewFor s call.signer a
  answers : ∀ a, call.stage.Answers a → s.signerOf a = some none ∨
    Connection.usesDefault privateKey call.signer = false ∧ s.signerOf a = some call.signer ∧
      call.NewFor s call.signer a
  awaitsSigner : ∀ a, call.stage = .awaitsSigner a → s.signerOf a ≠ some none
  threw : ∀ a, call.stage = .threw a → s.signerOf a = some none →
    ∀ b, call.failed b = true → s.signerOf b = some none

/-- What has failed before a call is an initialisation. -/
theorem signerOf_failed {call : Call} (hfailed : ∀ a, call.failed a = true → s.isRejected a = true)
    {a : Nat} (ha : call.failed a = true) : ∃ signer, s.signerOf a = some signer := by
  obtain ⟨signer, hattempt⟩ := Connection.isRejected_iff.mp (hfailed a ha)
  exact ⟨signer, by rw [Connection.signerOf, hattempt]; rfl⟩

theorem Call.Served.mono {call : Call} (h : call.Served privateKey s) (hext : s.Extends s')
    (hfailed : ∀ a, call.failed a = true → s.isRejected a = true) :
    call.Served privateKey s' := by
  have hsame {a : Nat} (ha : call.failed a = true ∨ call.stage.Answers a) :
      s'.signerOf a = s.signerOf a := by
    have hknown : ∃ signer, s.signerOf a = some signer := by
      rcases ha with ha | ha
      · exact signerOf_failed hfailed ha
      · rcases h.answers a ha with hnone | ⟨-, hown, -⟩
        · exact ⟨none, hnone⟩
        · exact ⟨_, hown⟩
    obtain ⟨signer, hsigner⟩ := hknown
    rw [hsigner, hext.signerOf hsigner]
  have hnew {signer : Option JsString} {a : Nat} (ha : call.NewFor s signer a) :
      call.NewFor s' signer a := fun b hb hsigner => ha b hb (hsame (.inl hb) ▸ hsigner)
  constructor
  case past =>
    intro hstage
    obtain ⟨d, account, hd⟩ := h.past <| hstage.imp_right <| Or.imp_right fun hother => by
      obtain ⟨a, ha, hne⟩ := hother
      exact ⟨a, ha, hsame (.inr ha) ▸ hne⟩
    exact ⟨d, account, hext.fulfilled hd⟩
  case returned =>
    intro hstage huses
    obtain ⟨a, account, ha, hlater⟩ := h.returned hstage huses
    exact ⟨a, account, hext.fulfilled ha, hnew hlater⟩
  case answers =>
    intro a ha
    rcases h.answers a ha with hnone | ⟨huses, hown, hlater⟩
    · exact .inl (hext.signerOf hnone)
    · exact .inr ⟨huses, hext.signerOf hown, hnew hlater⟩
  case awaitsSigner =>
    intro a ha
    rw [hsame (.inr (.inl (.inr ha)))]
    exact h.awaitsSigner a ha
  case threw =>
    intro a ha hnone b hb
    rw [hsame (.inl hb)]
    rw [hsame (.inr (.inr ha))] at hnone
    exact h.threw a ha hnone b hb

/-- All calls but one. -/
def ServedBut (privateKey : Option JsString) (s : Connection) (c : Nat) : Prop :=
  ∀ d call, d ≠ c → s.calls d = some call → call.Served privateKey s

def Served (privateKey : Option JsString) (s : Connection) : Prop :=
  ∀ c call, s.calls c = some call → call.Served privateKey s

/-- What had failed before a call stays so. -/
def FailedStays (s : Connection) : Prop :=
  ∀ c call, s.calls c = some call → ∀ a, call.failed a = true → s.isRejected a = true

theorem Timely.failedStays (h : Timely s) : FailedStays s :=
  fun c call hcall => (h.calls c call hcall).failed

theorem Served.but (h : Served privateKey s) (c : Nat) : ServedBut privateKey s c :=
  fun d call _ hcall => h d call hcall

theorem Served.mono (ht : FailedStays s) (h : Served privateKey s) (hext : s.Extends s')
    (hcalls : s'.calls = s.calls) : Served privateKey s' := by
  intro c call hcall
  rw [hcalls] at hcall
  exact (h c call hcall).mono hext (ht c call hcall)

theorem ServedBut.mono {c : Nat} (ht : FailedStays s) (h : ServedBut privateKey s c)
    (hext : s.Extends s') (hcalls : s'.calls = s.calls) : ServedBut privateKey s' c := by
  intro d call hdc hcall
  rw [hcalls] at hcall
  exact (h d call hdc hcall).mono hext (ht d call hcall)

/-- A call goes on, or is made. -/
theorem ServedBut.setStage {c : Nat} {call : Call} {stage : Stage} (h : ServedBut privateKey s c)
    (hcall : { call with stage }.Served privateKey s) :
    Served privateKey (s.setStage c call stage) := by
  intro d other hother
  unfold Connection.setStage at hother
  by_cases hdc : d = c
  · subst hdc
    dsimp only at hother
    rw [Function.update_self] at hother
    obtain rfl := Option.some.inj hother
    exact { hcall with }
  · exact { h d other hdc ((Function.update_of_ne hdc ..).symm.trans hother) with }

/-- The call has its objects. -/
theorem served_returned {call : Call}
    (hdefault : ∃ d account, s.attempts d = some ⟨none, .fulfilled account⟩)
    (hown : Connection.usesDefault privateKey call.signer = false →
      ∃ a account, s.attempts a = some ⟨call.signer, .fulfilled account⟩ ∧
        call.NewFor s call.signer a) :
    { call with stage := .returned }.Served privateKey s where
  past _ := hdefault
  returned _ := hown
  answers := by simp [Stage.Answers, Stage.Awaits]
  awaitsSigner := nofun
  threw := nofun

theorem served_awaitsSigner {call : Call} {a : Nat}
    (hdefault : ∃ d account, s.attempts d = some ⟨none, .fulfilled account⟩)
    (huses : Connection.usesDefault privateKey call.signer = false)
    (hown : s.signerOf a = some call.signer) (hnew : call.NewFor s call.signer a) :
    { call with stage := .awaitsSigner a }.Served privateKey s where
  past _ := hdefault
  returned := nofun
  answers b hb := by
    obtain rfl : a = b := by simpa [Stage.Answers, Stage.Awaits] using hb
    exact .inr ⟨huses, hown, hnew⟩
  awaitsSigner b hb := by
    obtain rfl := Stage.awaitsSigner.inj hb
    rw [hown]
    intro hnone
    rw [Option.some.inj hnone] at huses
    exact nomatch huses
  threw := nofun

/-- The call has the default objects. -/
theorem ServedBut.resume {c : Nat} {call : Call} (hs : Sound s) (hn : Newest s) (ht : FailedStays s)
    (h : ServedBut privateKey s c)
    (hfailed : ∀ a, call.failed a = true → s.isRejected a = true)
    (hinflight : ∀ key a, s.signerSdkInflight key = some a → call.failed a = false)
    (hdefault : ∃ d account, s.attempts d = some ⟨none, .fulfilled account⟩) :
    Served privateKey (s.resume privateKey c call) := by
  have hdone (huses : Connection.usesDefault privateKey call.signer = true) :
      Served privateKey (s.setStage c call .returned) :=
    h.setStage (served_returned hdefault fun hown =>
      absurd (huses.symm.trans hown) (by decide))
  unfold Connection.resume
  split
  · next hsigner => exact hdone (by rw [hsigner]; rfl)
  · next key hsigner =>
    split
    · next huses => exact hdone (hsigner ▸ huses)
    · next huses =>
      have huses : Connection.usesDefault privateKey call.signer = false :=
        hsigner ▸ eq_false_of_ne_true huses
      split
      · next account hresolved =>
        obtain ⟨a, ha, hlatest⟩ := hn.resolved key account hresolved
        refine h.setStage (served_returned hdefault fun _ => ⟨a, account, hsigner ▸ ha, ?_⟩)
        intro b hb hown
        refine lt_of_le_of_ne (hlatest b (hsigner ▸ hown)) ?_
        rintro rfl
        obtain ⟨signer, hrejected⟩ := Connection.isRejected_iff.mp (hfailed b hb)
        cases ha.symm.trans hrejected
      · next a _ ha =>
        have hown : s.signerOf a = some call.signer := hsigner ▸ hs.inflight key a ha
        refine h.setStage (served_awaitsSigner hdefault huses hown fun b hb hkey => ?_)
        refine lt_of_le_of_ne (hn.inflight key a ha b (hsigner ▸ hkey)) ?_
        rintro rfl
        cases hb.symm.trans (hinflight key b ha)
      · have hext := extends_start hs (some key)
        have hown : (s.start (some key)).signerOf s.nextAttempt = some call.signer :=
          (s.signerOf_nextAttempt (some key)).trans (congrArg some hsigner.symm)
        obtain ⟨d, account, hd⟩ := hdefault
        have hawaits : Served privateKey
            ((s.start (some key)).setStage c call (.awaitsSigner s.nextAttempt)) := by
          refine (h.mono ht hext rfl).setStage
            (served_awaitsSigner ⟨d, account, hext.fulfilled hd⟩ huses hown fun b hb _ => ?_)
          obtain ⟨signer, hb'⟩ := signerOf_failed hfailed hb
          exact signerOf_lt hs hb'
        exact fun d other hother => { hawaits d other hother with }

namespace Served

theorem call (hs : Sound s) (hn : Newest s) (ht : Timely s) (h : Served privateKey s) (c : Nat)
    (signer : Option JsString) : Served privateKey (s.call c signer) := by
  unfold Connection.call
  split
  · exact h
  · have hbut := h.but c
    dsimp only
    split
    · refine hbut.setStage ?_
      constructor <;> simp [Stage.Answers, Stage.Awaits]
    · split
      · next account hobjects =>
        obtain ⟨d, hd⟩ := hn.objects account hobjects
        have hqueued : Served privateKey
            (s.setStage c ⟨signer, .refused, s.isRejected⟩ .queued) := by
          refine hbut.setStage ?_
          constructor
          case past => exact fun _ => ⟨d, account, hd⟩
          all_goals simp [Stage.Answers, Stage.Awaits]
        exact fun d other hother => { hqueued d other hother with }
      · next a hobjects hpromise =>
        have hsigner := hs.promise a hpromise
        refine hbut.setStage ?_
        constructor <;> simp [Stage.Answers, Stage.Awaits, hsigner]
      · next hobjects hpromise =>
        have hsigner := s.signerOf_nextAttempt none
        have hstage : Served privateKey ((s.start none).setStage c ⟨signer, .refused, s.isRejected⟩
            (.awaitsDefault s.nextAttempt)) := by
          refine (hbut.mono ht.failedStays (extends_start hs none) rfl).setStage ?_
          constructor <;> simp [Stage.Answers, Stage.Awaits, hsigner]
        exact fun d other hother => { hstage d other hother with }

theorem runJob (hs : Sound s) (hn : Newest s) (ht : Timely s) (h : Served privateKey s) :
    Served privateKey (s.runJob privateKey) := by
  unfold Connection.runJob
  split
  · exact h
  · exact fun c call hcall => { h c call hcall with }
  · next c jobs hjobs =>
    have hidle : Served privateKey { s with jobs } := fun d call hcall => { h d call hcall with }
    split
    · next call hcall =>
      have hc := ht.calls c call hcall
      split
      · next hqueued =>
        refine ServedBut.resume (hs.dequeue hjobs) { hn with } ht.failedStays (hidle.but c) hc.failed
          (fun key a hinflight => ?_) ((h c call hcall).past (.inl hqueued))
        refine eq_false_of_ne_true fun ha => ?_
        exact nomatch hc.evicted hqueued key a hinflight ha [] jobs hjobs
      · exact hidle
    · exact hidle

theorem wake (hs : Sound s) (hn : Newest s) (ht : Timely s) (h : Served privateKey s) (c : Nat) :
    Served privateKey (s.wake privateKey c) := by
  unfold Connection.wake
  split
  · exact h
  · next call hcall =>
    have hc := ht.calls c call hcall
    have hserved := h c call hcall
    split
    · next d hstage =>
      have hnone := hs.awaitsDefault c call d hcall hstage
      split
      · next signer account hattempt =>
        rw [Connection.signerOf, hattempt] at hnone
        obtain rfl := Option.some.inj hnone
        refine ServedBut.resume hs hn ht.failedStays (h.but c) hc.failed (fun key a _ => ?_)
          ⟨d, account, hattempt⟩
        -- Only what it waits for can have failed before, and that is fulfilled.
        refine eq_false_of_ne_true fun ha => ?_
        have hanswers := hc.default a ha (hc.onlyDefault d a hstage ha)
        obtain rfl : d = a := by simpa [hstage, Stage.Answers, Stage.Awaits] using hanswers
        have hrejected := hc.failed d ha
        rw [Connection.isRejected, hattempt] at hrejected
        cases hrejected
      · refine (h.but c).setStage ?_
        constructor
        case threw =>
          intro a ha _ b hb
          exact hc.onlyDefault d b hstage hb
        all_goals simp [Stage.Answers, Stage.Awaits, hnone]
      · exact h
    · next a hstage =>
      have hawaits : call.stage.Answers a := .inl (.inr hstage)
      have hother := hserved.awaitsSigner a hstage
      obtain ⟨huses, hown, hnew⟩ := (hserved.answers a hawaits).resolve_left hother
      have hdefault := hserved.past (.inr (.inr ⟨a, hawaits, hother⟩))
      split
      · next signer account hattempt =>
        refine (h.but c).setStage (served_returned hdefault fun _ => ⟨a, account, ?_, hnew⟩)
        rw [Connection.signerOf, hattempt] at hown
        rw [hattempt, ← Option.some.inj hown]
      · refine (h.but c).setStage ?_
        constructor
        case past => exact fun _ => hdefault
        case answers =>
          intro b hb
          obtain rfl : a = b := by simpa [Stage.Answers, Stage.Awaits] using hb
          exact .inr ⟨huses, hown, hnew⟩
        case threw =>
          intro b hb hnone
          obtain rfl := Stage.threw.inj hb
          exact absurd hnone hother
        all_goals simp
      · exact h
    · exact h

theorem reject {a : Nat} {signer : Option JsString} {status : Status} (ht : Timely s)
    (h : Served privateKey s) (ha : s.attempts a = some ⟨signer, status⟩)
    (hpending : status.Pending) : Served privateKey (s.reject a signer) :=
  h.mono ht.failedStays (extends_setStatus ha hpending) rfl

theorem createAccount (ht : Timely s) (h : Served privateKey s) (a : Nat) :
    Served privateKey (s.createAccount a) := by
  unfold Connection.createAccount
  split
  · next ha => exact h.mono ht.failedStays (extends_setStatus ha trivial) rfl
  · exact h

theorem fail (ht : Timely s) (h : Served privateKey s) (a : Nat) :
    Served privateKey (s.fail a) := by
  unfold Connection.fail
  split
  · next ha => exact reject ht h ha trivial
  · next ha => exact reject ht h ha trivial
  · exact h

theorem finish (ht : Timely s) (h : Served privateKey s) (a : Nat) :
    Served privateKey (s.finish a) := by
  unfold Connection.finish
  split
  · next signer account ha =>
    split
    · exact h.mono ht.failedStays (extends_setStatus ha trivial) rfl
    · have hext : s.Extends (s.setStatus a signer (.fulfilled account)) :=
        extends_setStatus ha trivial
      cases signer with
      | none => exact h.mono ht.failedStays hext rfl
      | some key => exact h.mono ht.failedStays hext rfl
  · exact h

theorem finishClose (ht : Timely s) (h : Served privateKey s) :
    Served privateKey s.finishClose := by
  unfold Connection.finishClose
  split
  · exact h.mono ht.failedStays (.of_eq rfl) rfl
  · exact h.mono ht.failedStays (.of_eq rfl) rfl
  · exact h

theorem step (hs : Sound s) (hn : Newest s) (ht : Timely s) (h : Served privateKey s)
    (event : Event) : Served privateKey (s.step privateKey event) := by
  cases event with
  | call c signer => exact call hs hn ht h c signer
  | createAccount a => exact createAccount ht h a
  | fail a => exact fail ht h a
  | finish a => exact finish ht h a
  | job => exact runJob hs hn ht h
  | wake c => exact wake hs hn ht h c
  | close => exact h.mono ht.failedStays (.of_eq rfl) rfl
  | finishClose => exact finishClose ht h

end Served

/-! ## Calls that are retried -/

/-- The key whose objects a call needs. -/
def ownKey (privateKey signer : Option JsString) : Option JsString :=
  if Connection.usesDefault privateKey signer then none else signer

/-- The initialisation of the default objects had failed when the call was made. -/
def Connection.DefaultFailed (s : Connection) (call : Call) : Prop :=
  ∃ a, call.failed a = true ∧ s.signerOf a = some none

/-- An initialisation for the key, later than those that had failed before the call, answers the call
or has made its objects. -/
def Call.TakenFrom (key : Option JsString) (s : Connection) (call : Call) (a : Nat) : Prop :=
  s.signerOf a = some key ∧ call.NewFor s key a ∧
    (call.stage.Answers a ∨ ∃ account, s.attempts a = some ⟨key, .fulfilled account⟩)

/-- A failure of the initialisations for a key before the call does not stick to it. -/
structure Call.Retried (key : Option JsString) (s : Connection) (c : Nat) (call : Call) : Prop where
  fresh : ∀ a, call.failed a = true → s.signerOf a = some key → ¬call.stage.Answers a
  own : ∀ a, call.stage.Answers a → s.signerOf a = some none ∨ s.signerOf a = some call.signer
  threw : ∀ a, call.stage = .threw a → s.isRejected a = true
  goesOn : call.stage = .queued → .resume c ∈ s.jobs
  -- Before it has the default objects, a call cannot have started an initialisation of its signer's.
  renewed : call.stage = .queued ∨
    ((∃ d, call.stage.Answers d ∧ s.signerOf d = some none) ∧
      ∀ a, call.failed a = true → s.signerOf a ≠ some key) ∨
    ∃ a, call.TakenFrom key s a

open Trace (exec)

theorem reachable (privateKey : Option JsString) (events : List Event) :
    let s := exec (Connection.step privateKey) .new events
    Sound s ∧ Timely s ∧ Newest s ∧ Served privateKey s :=
  List.foldlRecOn (motive := fun s => Sound s ∧ Timely s ∧ Newest s ∧ Served privateKey s) events _
    ⟨Sound.new, Timely.new, Newest.new, nofun⟩ fun _ h event _ =>
      ⟨h.1.step event, h.2.1.step h.1 event, h.2.2.1.step h.1 event,
        h.2.2.2.step h.1 h.2.2.1 h.2.1 event⟩

/-- What a call has of the default objects. -/
theorem Call.Served.takenFromDefault {call : Call} (h : call.Served privateKey s)
    (hopen : call.stage ≠ .refused) (hnever : ¬s.DefaultFailed call) :
    call.stage = .queued ∨ ∃ a, call.TakenFrom none s a := by
  have hnew (a : Nat) : call.NewFor s none a := fun b hb hnone => absurd ⟨b, hb, hnone⟩ hnever
  have hpast (hstage : call.stage = .queued ∨ call.stage = .returned ∨
      ∃ a, call.stage.Answers a ∧ s.signerOf a ≠ some none) : ∃ a, call.TakenFrom none s a := by
    obtain ⟨d, account, hd⟩ := h.past hstage
    exact ⟨d, by rw [Connection.signerOf, hd]; rfl, hnew d, .inr ⟨account, hd⟩⟩
  have hanswers {a : Nat} (ha : call.stage.Answers a) : ∃ a, call.TakenFrom none s a := by
    by_cases hnone : s.signerOf a = some none
    · exact ⟨a, hnone, hnew a, .inl ha⟩
    · exact hpast (.inr (.inr ⟨a, ha, hnone⟩))
  cases hstage : call.stage with
  | queued => exact .inl rfl
  | returned => exact .inr (hpast (.inr (.inl hstage)))
  | refused => exact absurd hstage hopen
  | awaitsDefault a => exact .inr (hanswers (.inl (.inl hstage)))
  | awaitsSigner a => exact .inr (hanswers (.inl (.inr hstage)))
  | threw a => exact .inr (hanswers (.inr hstage))

/-- What a call has of its signer's objects. -/
theorem Call.Served.takenFromSigner {c : Nat} {call : Call} (hs : Sound s)
    (hcall : s.calls c = some call) (ht : call.Timely s c) (h : call.Served privateKey s)
    (hopen : call.stage ≠ .refused)
    (huses : Connection.usesDefault privateKey call.signer = false) : call.stage = .queued ∨
      ((∃ d, call.stage.Answers d ∧ s.signerOf d = some none) ∧
        ∀ a, call.failed a = true → s.signerOf a ≠ some call.signer) ∨
      ∃ a, call.TakenFrom call.signer s a := by
  have hsigner : call.signer ≠ none := by
    intro hnone
    rw [hnone] at huses
    exact nomatch huses
  have hother {a : Nat} (hnone : s.signerOf a = some none) : s.signerOf a ≠ some call.signer :=
    fun hown => hsigner (Option.some.inj (hown.symm.trans hnone))
  cases hstage : call.stage with
  | queued => exact .inl rfl
  | refused => exact absurd hstage hopen
  | returned =>
    obtain ⟨a, account, ha, hnew⟩ := h.returned hstage huses
    exact .inr (.inr ⟨a, by rw [Connection.signerOf, ha]; rfl, hnew, .inr ⟨account, ha⟩⟩)
  | awaitsDefault d =>
    have hnone := hs.awaitsDefault c call d hcall hstage
    exact .inr (.inl ⟨⟨d, .inl (.inl rfl), hnone⟩, fun a ha =>
      hother (ht.onlyDefault d a hstage ha)⟩)
  | awaitsSigner a =>
    obtain ⟨-, hown, hnew⟩ := (h.answers a (.inl (.inr hstage))).resolve_left (h.awaitsSigner a hstage)
    exact .inr (.inr ⟨a, hown, hnew, .inl (.inl (.inr hstage))⟩)
  | threw a =>
    rcases h.answers a (.inr hstage) with hnone | ⟨-, hown, hnew⟩
    · exact .inr (.inl ⟨⟨a, .inr rfl, hnone⟩, fun b hb => hother (h.threw a hstage hnone b hb)⟩)
    · exact .inr (.inr ⟨a, hown, hnew, .inl (.inr hstage)⟩)

/-- A call whose initialisation is fulfilled returns. -/
theorem wake_returns {c : Nat} {call : Call} (hs : Sound s) (hcall : s.calls c = some call)
    {a account : Nat} (hawaits : call.stage.Awaits a)
    (ha : s.attempts a = some ⟨ownKey privateKey call.signer, .fulfilled account⟩) :
    (s.wake privateKey c).calls c = some { call with stage := .returned } := by
  have hreturned : (s.setStage c call .returned).calls c = some { call with stage := .returned } :=
    Function.update_self ..
  rcases hawaits with hstage | hstage
  · have hnone := hs.awaitsDefault c call a hcall hstage
    rw [Connection.signerOf, ha, Option.map_some, Option.some_inj] at hnone
    have huses : Connection.usesDefault privateKey call.signer = true := by
      by_contra hother
      rw [ownKey, if_neg hother] at hnone
      exact hother (congrArg (Connection.usesDefault privateKey) hnone)
    have hresume : s.resume privateKey c call = s.setStage c call .returned := by
      unfold Connection.resume
      split
      · rfl
      · next key hkey => rw [if_pos (hkey ▸ huses)]
    unfold Connection.wake
    simp only [hcall, hstage, ha, hresume, hreturned]
  · unfold Connection.wake
    simp only [hcall, hstage, ha, hreturned]

/-- **Only a failure of the default objects sticks**: a call on an open connection is retried, for
its own key, unless this is the default one and its initialisation had failed before; and for the
default key, whether it is its own or not, unless that had. A call whose new initialisation succeeds
returns. -/
theorem retried_iff (privateKey : Option JsString) (events : List Event) (c : Nat) (call : Call)
    (hcall : (exec (Connection.step privateKey) .new events).calls c = some call)
    (hopen : call.stage ≠ .refused) :
    (call.Retried (ownKey privateKey call.signer)
        (exec (Connection.step privateKey) .new events) c ↔
      ¬(Connection.usesDefault privateKey call.signer = true ∧
        (exec (Connection.step privateKey) .new events).DefaultFailed call)) ∧
    (call.Retried none (exec (Connection.step privateKey) .new events) c ↔
      ¬(exec (Connection.step privateKey) .new events).DefaultFailed call) ∧
    ∀ a account, call.stage.Awaits a →
      (exec (Connection.step privateKey) .new events).attempts a =
        some ⟨ownKey privateKey call.signer, .fulfilled account⟩ →
      ((exec (Connection.step privateKey) .new events).wake privateKey c).calls c =
        some { call with stage := .returned } := by
  obtain ⟨hs, ht, -, h⟩ := reachable privateKey events
  generalize exec (Connection.step privateKey) .new events = s at *
  have hc := ht.calls c call hcall
  have hserved := h c call hcall
  have hdefault : call.Retried none s c ↔ ¬s.DefaultFailed call := by
    constructor
    · rintro hretried ⟨a, ha, hnone⟩
      exact hretried.fresh a ha hnone ((hc.default a ha hnone).resolve_left hopen)
    · intro hnever
      exact ⟨fun a ha hnone => absurd ⟨a, ha, hnone⟩ hnever, hc.own, hc.threw, hc.queued,
        (hserved.takenFromDefault hopen hnever).imp_right .inr⟩
  refine ⟨?_, hdefault, fun a account hawaits ha => wake_returns hs hcall hawaits ha⟩
  by_cases huses : Connection.usesDefault privateKey call.signer = true
  · rw [ownKey, if_pos huses, hdefault]
    simp [huses]
  · rw [ownKey, if_neg huses]
    refine iff_of_true ⟨fun a ha hkey => ?_, hc.own, hc.threw, hc.queued,
      hserved.takenFromSigner hs hcall hc hopen (eq_false_of_ne_true huses)⟩ (fun h => huses h.1)
    cases hsigner : call.signer with
    | none => simp [hsigner, Connection.usesDefault] at huses
    | some key => exact hc.signer a key ha (hsigner ▸ hkey)

/-- The objects of a signer are made again for the second call. -/
def signerFails : List Event :=
  [.call 0 (some [1]), .createAccount 0, .finish 0, .wake 0, .createAccount 1, .fail 1, .call 1 (some [1]),
    .job, .wake 0, .job]

theorem retried_signer : ∃ call,
    (exec (Connection.step none) .new signerFails).calls 1 = some call ∧
      call.stage = .awaitsSigner 2 ∧
      call.Retried (ownKey none call.signer) (exec (Connection.step none) .new signerFails) 1 :=
  ⟨_, rfl, rfl, (retried_iff none signerFails 1 _ rfl nofun).1.mpr fun h => absurd h.1 (by decide)⟩

def defaultFails : List Event :=
  [.call 0 none, .createAccount 0, .fail 0, .wake 0, .call 1 none, .wake 1]

/-- The second call throws the error that the first one did. -/
theorem default_sticks : ∃ call,
    (exec (Connection.step none) .new defaultFails).calls 1 = some call ∧
      call.failed 0 = true ∧ call.stage = .threw 0 ∧
      ¬call.Retried (ownKey none call.signer) (exec (Connection.step none) .new defaultFails) 1 :=
  ⟨_, rfl, rfl, rfl, fun h => h.fresh 0 rfl rfl (.inr rfl)⟩

end Lionden.Network.Sdk
