import Lionden.Network.SdkAccounts

/-!
# Calls after a failed initialisation

A signer's promise that is rejected is evicted before any call that is made after it goes on.
`sdkObjectsPromise` stays, so the calls after a failed initialisation of the default objects get its
error.

* `Timely`: which of the initialisations that failed before a call can still answer it.
* `Timely.step`: every event keeps it.
-/

namespace Lionden.Network.Sdk

variable {privateKey : Option JsString} {s : Connection}

/-- The call waits for the initialisation, or threw its error. -/
@[grind]
def Stage.Answers (a : Nat) (stage : Stage) : Prop := stage.Awaits a ∨ stage = .threw a

@[grind =]
theorem Connection.isRejected_iff {a : Nat} :
    s.isRejected a = true ↔ ∃ signer, s.attempts a = some ⟨signer, .rejected⟩ := by
  unfold Connection.isRejected
  cases hattempt : s.attempts a with
  | none => simp
  | some attempt =>
    obtain ⟨signer, status⟩ := attempt
    simp

theorem Sound.default_of_rejected {a : Nat} (h : Sound s) (hopen : s.closed = false)
    (hobjects : s.sdkObjects = none) (ha : s.isRejected a = true) :
    s.sdkObjectsPromise = some a ∧ s.signerOf a = some none := by
  obtain ⟨signer, hattempt⟩ := Connection.isRejected_iff.mp ha
  cases signer with
  | none => exact ⟨h.default hopen a _ hattempt, by rw [Connection.signerOf, hattempt]; rfl⟩
  | some key => exact absurd hattempt (h.signers hopen hobjects a key _)

structure Call.Timely (s : Connection) (c : Nat) (call : Call) : Prop where
  queued : call.stage = .queued → .resume c ∈ s.jobs
  failed : ∀ a, call.failed a = true → s.isRejected a = true
  threw : ∀ a, call.stage = .threw a → s.isRejected a = true
  default : ∀ a, call.failed a = true → s.signerOf a = some none →
    call.stage = .refused ∨ call.stage.Answers a
  onlyDefault : ∀ d a, call.stage = .awaitsDefault d → call.failed a = true →
    s.signerOf a = some none
  signer : ∀ a key, call.failed a = true → s.signerOf a = some (some key) → ¬call.stage.Answers a
  ofSigner : ∀ a, call.stage = .awaitsSigner a → call.failed a = false
  own : ∀ a, call.stage.Answers a → s.signerOf a = some none ∨ s.signerOf a = some call.signer
  -- The eviction is queued when the promise is rejected, before the call.
  evicted : call.stage = .queued → ∀ key a, s.signerSdkInflight key = some a →
    call.failed a = true → ∀ before after, s.jobs = before ++ .resume c :: after →
      .evict key ∈ before

structure Timely (s : Connection) : Prop where
  resumes : ∀ c, .resume c ∈ s.jobs → s.calls c ≠ none
  calls : ∀ c call, s.calls c = some call → call.Timely s c

/-- All calls but the one that is about to go on. -/
structure TimelyBut (s : Connection) (c : Nat) : Prop where
  resumes : ∀ d, .resume d ∈ s.jobs → d = c ∨ s.calls d ≠ none
  others : ∀ d call, d ≠ c → s.calls d = some call → call.Timely s d

theorem Timely.but (h : Timely s) (c : Nat) : TimelyBut s c where
  resumes d hd := .inr (h.resumes d hd)
  others d call _ hcall := h.calls d call hcall

attribute [local grind =] Function.update_apply

theorem eq_of_append_singleton {job : Job} {jobs before after : List Job} (hjob : job ∉ jobs)
    (h : jobs ++ [job] = before ++ job :: after) : jobs = before := by
  rcases List.eq_nil_or_concat after with rfl | ⟨after, last, rfl⟩
  · exact (List.append_inj' h rfl).1
  · rw [List.concat_eq_append, ← List.cons_append, ← List.append_assoc] at h
    refine absurd ?_ hjob
    rw [(List.append_inj' h rfl).1]
    exact List.mem_append_right _ List.mem_cons_self

/-- The promises of the other signers stay. -/
theorem of_update_none {inflight : JsString → Option Nat} {key other : JsString} {a : Nat}
    (h : Function.update inflight key none other = some a) : inflight other = some a ∧ other ≠ key := by
  by_cases hother : other = key
  · rw [hother, Function.update_self] at h
    exact nomatch h
  · rw [Function.update_of_ne hother] at h
    exact ⟨h, hother⟩

theorem Connection.signerOf_nextAttempt (s : Connection) (signer : Option JsString) :
    (s.start signer).signerOf s.nextAttempt = some signer := by
  simp [signerOf, start, setStatus]

theorem isRejected_start {a : Nat} {signer : Option JsString} (hs : Sound s)
    (ha : s.isRejected a = true) : (s.start signer).isRejected a = true := by
  have hfresh := hs.fresh
  unfold Connection.start Connection.setStatus
  grind

theorem signerOf_start {a : Nat} {signer owner : Option JsString} (hs : Sound s)
    (ha : s.signerOf a = some owner) : (s.start signer).signerOf a = some owner := by
  have hfresh := hs.fresh
  unfold Connection.signerOf at ha
  unfold Connection.start Connection.setStatus Connection.signerOf
  grind

namespace Call.Timely

variable {c : Nat} {call : Call}

/-- Initialisations keep their signers and stay rejected. -/
theorem mono {attempts : Nat → Option Attempt} (h : call.Timely s c)
    (hkeeps : ∀ a, s.isRejected a = true → { s with attempts }.isRejected a = true)
    (hsigner : ∀ a signer, s.signerOf a = some signer →
      { s with attempts }.signerOf a = some signer) :
    call.Timely { s with attempts } c := by
  have hsame {a : Nat} (ha : call.failed a = true) :
      { s with attempts }.signerOf a = s.signerOf a := by
    obtain ⟨signer, hattempt⟩ := Connection.isRejected_iff.mp (h.failed a ha)
    have hold : s.signerOf a = some signer := by rw [Connection.signerOf, hattempt]; rfl
    rw [hsigner a signer hold, hold]
  exact {
    queued := h.queued
    failed := fun a ha => hkeeps a (h.failed a ha)
    threw := fun a hstage => hkeeps a (h.threw a hstage)
    default := fun a ha hnone => h.default a ha (hsame ha ▸ hnone)
    onlyDefault := fun d a hstage ha => (hsame ha).trans (h.onlyDefault d a hstage ha)
    signer := fun a key ha hkey => h.signer a key ha (hsame ha ▸ hkey)
    ofSigner := h.ofSigner
    own := fun a hanswers => (h.own a hanswers).imp (hsigner a _) (hsigner a _)
    evicted := h.evicted }

/-- A reaction comes behind those that are queued. -/
theorem enqueue {job : Job} (h : call.Timely s c) (hjob : job ≠ .resume c) :
    call.Timely { s with jobs := s.jobs ++ [job] } c := by
  refine { h with queued := fun hstage => ?_, evicted := ?_ }
  · exact List.mem_append_left _ (h.queued hstage)
  · intro hstage key a hinflight hfailed before after hjobs
    rcases List.eq_nil_or_concat after with rfl | ⟨after, last, rfl⟩
    · exact absurd (List.cons.inj (List.append_inj' hjobs rfl).2).1 hjob
    · rw [List.concat_eq_append, ← List.cons_append, ← List.append_assoc] at hjobs
      exact h.evicted hstage key a hinflight hfailed before after (List.append_inj' hjobs rfl).1

/-- Another reaction runs. -/
theorem dequeue {job : Job} {jobs : List Job} {inflight : JsString → Option Nat}
    (h : call.Timely s c) (hjobs : s.jobs = job :: jobs) (hjob : job ≠ .resume c)
    (hinflight : ∀ key a, inflight key = some a →
      s.signerSdkInflight key = some a ∧ job ≠ .evict key) :
    call.Timely { s with jobs, signerSdkInflight := inflight } c := by
  refine { h with queued := fun hstage => ?_, evicted := ?_ }
  · have hqueued := h.queued hstage
    rw [hjobs] at hqueued
    exact (List.mem_cons.mp hqueued).resolve_left hjob.symm
  · intro hstage key a ha hfailed before after hafter
    obtain ⟨hold, hne⟩ := hinflight key a ha
    have hmem : .evict key ∈ job :: before := by
      refine h.evicted hstage key a hold hfailed (job :: before) after ?_
      rw [hjobs]
      exact congrArg (job :: ·) hafter
    exact (List.mem_cons.mp hmem).resolve_left hne.symm

/-- The promise of a signer changes, to one that no call knows. -/
theorem setInflight {inflight : JsString → Option Nat} (h : call.Timely s c)
    (hnew : ∀ key a, inflight key = some a →
      s.signerSdkInflight key = some a ∨ s.isRejected a = false) :
    call.Timely { s with signerSdkInflight := inflight } c := by
  refine { h with evicted := fun hstage key a ha hfailed => ?_ }
  rcases hnew key a ha with hold | hnever
  · exact h.evicted hstage key a hold hfailed
  · exact nomatch (h.failed a hfailed).symm.trans hnever

theorem start {signer : Option JsString} (hs : Sound s) (h : call.Timely s c) :
    call.Timely (s.start signer) c := by
  have hfresh := hs.fresh
  have hset : call.Timely (s.setStatus s.nextAttempt signer .creating) c := by
    refine h.mono ?_ fun a owner ha => signerOf_start hs ha
    grind
  exact { hset with }

end Call.Timely

namespace Timely

/-! ## Initialisations -/

/-- An initialisation that is pending goes on. -/
theorem setStatus {a : Nat} {signer : Option JsString} {status status' : Status} (h : Timely s)
    (ha : s.attempts a = some ⟨signer, status⟩) (hpending : status.Pending) :
    Timely (s.setStatus a signer status') := by
  refine ⟨h.resumes, fun c call hcall => (h.calls c call hcall).mono ?_ ?_⟩
  · grind
  · unfold Connection.signerOf
    grind

theorem reject {a : Nat} {signer : Option JsString} {status : Status} (h : Timely s)
    (ha : s.attempts a = some ⟨signer, status⟩) (hpending : status.Pending) :
    Timely (s.reject a signer) := by
  have hstatus : Timely (s.setStatus a signer .rejected) := h.setStatus ha hpending
  unfold Connection.reject
  cases signer with
  | none =>
    rw [Option.map_none, Option.toList_none, List.append_nil]
    exact ⟨hstatus.resumes, hstatus.calls⟩
  | some key =>
    refine ⟨fun c hc => ?_, fun c call hcall => (hstatus.calls c call hcall).enqueue nofun⟩
    exact hstatus.resumes c ((List.mem_append.mp hc).resolve_right (by simp))

theorem createAccount (h : Timely s) (a : Nat) : Timely (s.createAccount a) := by
  unfold Connection.createAccount
  split
  · next signer ha =>
    have hstatus : Timely (s.setStatus a signer (.created s.accounts)) := h.setStatus ha trivial
    exact ⟨hstatus.resumes, fun c call hcall => { hstatus.calls c call hcall with }⟩
  · exact h

theorem fail (h : Timely s) (a : Nat) : Timely (s.fail a) := by
  unfold Connection.fail
  split
  · next ha => exact h.reject ha trivial
  · next ha => exact h.reject ha trivial
  · exact h

theorem finish (h : Timely s) (a : Nat) : Timely (s.finish a) := by
  unfold Connection.finish
  split
  · next signer account ha =>
    split
    · have hreject := h.reject ha trivial
      exact ⟨hreject.resumes, fun c call hcall => { hreject.calls c call hcall with }⟩
    · have hstatus : Timely (s.setStatus a signer (.fulfilled account)) := h.setStatus ha trivial
      cases signer with
      | none => exact ⟨hstatus.resumes, fun c call hcall => { hstatus.calls c call hcall with }⟩
      | some key =>
        refine ⟨hstatus.resumes, fun c call hcall => ?_⟩
        have hcall' := (hstatus.calls c call hcall).setInflight
          fun other b (hb : Function.update s.signerSdkInflight key none other = some b) =>
            .inl (of_update_none hb).1
        exact { hcall' with }
  · exact h

end Timely

/-! ## Calls -/

namespace TimelyBut

variable {c : Nat} {call : Call}

/-- A call goes on, or is made. -/
theorem setStage {stage : Stage} (h : TimelyBut s c) (hcall : { call with stage }.Timely s c) :
    Timely (s.setStage c call stage) := by
  refine ⟨fun d hd => ?_, fun d other hother => ?_⟩
  · unfold Connection.setStage
    by_cases hdc : d = c
    · simp [hdc]
    · simpa [hdc] using h.resumes d hd
  · unfold Connection.setStage at hother
    by_cases hdc : d = c
    · subst hdc
      dsimp only at hother
      rw [Function.update_self] at hother
      obtain rfl := Option.some.inj hother
      exact { hcall with }
    · exact { h.others d other hdc ((Function.update_of_ne hdc ..).symm.trans hother) with }

/-- A call goes on that no initialisation answers that had failed. -/
theorem goOn {stage : Stage} (h : TimelyBut s c)
    (hfailed : ∀ a, call.failed a = true → s.isRejected a = true)
    (hdefault : ∀ a, call.failed a = true → s.signerOf a ≠ some none)
    (hstage : stage = .returned ∨
      ∃ a, call.failed a = false ∧
        (s.signerOf a = some none ∨ s.signerOf a = some call.signer) ∧
        (stage = .awaitsSigner a ∨ stage = .threw a ∧ s.isRejected a = true)) :
    Timely (s.setStage c call stage) := by
  refine h.setStage ?_
  constructor
  all_goals dsimp only; grind

theorem start (hs : Sound s) (h : TimelyBut s c) (signer : Option JsString) :
    TimelyBut (s.start signer) c :=
  ⟨h.resumes, fun d other hdc hother => (h.others d other hdc hother).start hs⟩

/-- The call has the default objects. -/
theorem resume (hs : Sound s) (h : TimelyBut s c)
    (hfailed : ∀ a, call.failed a = true → s.isRejected a = true)
    (hdefault : ∀ a, call.failed a = true → s.signerOf a ≠ some none)
    (hinflight : ∀ key a, s.signerSdkInflight key = some a → call.failed a = false) :
    Timely (s.resume privateKey c call) := by
  have hreturned : Timely (s.setStage c call .returned) := h.goOn hfailed hdefault (.inl rfl)
  unfold Connection.resume
  split
  · exact hreturned
  · next key hkey =>
    split
    · exact hreturned
    · split
      · exact hreturned
      · next a _ ha =>
        have hown : s.signerOf a = some call.signer := hkey ▸ hs.inflight key a ha
        exact h.goOn hfailed hdefault (.inr ⟨a, hinflight key a ha, .inr hown, .inl rfl⟩)
      · have hnew : s.isRejected s.nextAttempt = false := by
          rw [Connection.isRejected, hs.fresh, Option.any_none]
        have hnever : call.failed s.nextAttempt = false :=
          eq_false_of_ne_true fun hnext => absurd ((hfailed _ hnext).symm.trans hnew) (by simp)
        have hown : (s.start (some key)).signerOf s.nextAttempt = some call.signer :=
          (s.signerOf_nextAttempt (some key)).trans (congrArg some hkey.symm)
        have hdefault' (a : Nat) (ha : call.failed a = true) :
            (s.start (some key)).signerOf a ≠ some none := by
          obtain ⟨owner, hattempt⟩ := Connection.isRejected_iff.mp (hfailed a ha)
          have howner : s.signerOf a = some owner := by rw [Connection.signerOf, hattempt]; rfl
          rw [signerOf_start hs howner, ← howner]
          exact hdefault a ha
        have hawaits : Timely ((s.start (some key)).setStage c call (.awaitsSigner s.nextAttempt)) :=
          (h.start hs (some key)).goOn (fun a ha => isRejected_start hs (hfailed a ha)) hdefault'
            (.inr ⟨_, hnever, .inr hown, .inl rfl⟩)
        refine ⟨hawaits.resumes, fun d other hother => ?_⟩
        have hother' := (hawaits.calls d other hother).setInflight fun own a
            (ha : Function.update s.signerSdkInflight key (some s.nextAttempt) own = some a) => ?_
        · exact { hother' with }
        · by_cases hown : own = key
          · rw [hown, Function.update_self] at ha
            obtain rfl := Option.some.inj ha
            have hcreating : (s.start (some key)).isRejected s.nextAttempt = false := by
              simp [Connection.isRejected, Connection.start, Connection.setStatus]
            exact .inr hcreating
          · exact .inl ((Function.update_of_ne hown ..).symm.trans ha)

end TimelyBut

namespace Timely

theorem call (hs : Sound s) (h : Timely s) (c : Nat) (signer : Option JsString) :
    Timely (s.call c signer) := by
  unfold Connection.call
  split
  · exact h
  · next hnew =>
    have hbut := h.but c
    dsimp only
    split
    · refine hbut.setStage ?_
      constructor
      all_goals dsimp only; grind
    · next hopen =>
      have hopen : s.closed = false := eq_false_of_ne_true hopen
      split
      · next default hobjects =>
        have hjob : Job.resume c ∉ s.jobs := fun hmem => h.resumes c hmem hnew
        have hdefault {a : Nat} (ha : s.isRejected a = true) : s.signerOf a ≠ some none := by
          obtain ⟨owner, hattempt⟩ := Connection.isRejected_iff.mp ha
          rw [Connection.signerOf, hattempt, Option.map_some]
          rintro heq
          obtain rfl := Option.some.inj heq
          exact (hs.objects (by simp [hobjects]) a _ hattempt).2 rfl
        have hevict {key : JsString} {a : Nat} (hinflight : s.signerSdkInflight key = some a)
            (ha : s.isRejected a = true) : .evict key ∈ s.jobs := by
          have hsigner := hs.inflight key a hinflight
          obtain ⟨owner, hattempt⟩ := Connection.isRejected_iff.mp ha
          rw [Connection.signerOf, hattempt, Option.map_some] at hsigner
          obtain rfl := Option.some.inj hsigner
          exact hs.evicts hopen key a hinflight hattempt
        have hstage : Timely ({ s with jobs := s.jobs ++ [Job.resume c] }.setStage c
            ⟨signer, .refused, s.isRejected⟩ .queued) := by
          refine TimelyBut.setStage ⟨fun d hd => ?_, fun d other hdc hother => ?_⟩ ?_
          · rcases List.mem_append.mp hd with hold | hd
            · exact .inr (h.resumes d hold)
            · exact .inl (Job.resume.inj (List.mem_singleton.mp hd))
          · exact (h.calls d other hother).enqueue fun heq => hdc (Job.resume.inj heq).symm
          · exact {
              queued := fun _ => List.mem_append_right _ (List.mem_singleton.mpr rfl)
              failed := fun _ ha => ha
              threw := nofun
              default := fun a ha hsigner => absurd hsigner (hdefault ha)
              onlyDefault := nofun
              signer := fun _ _ _ _ hanswers => hanswers.elim (·.elim nofun nofun) nofun
              ofSigner := nofun
              own := fun _ hanswers => (hanswers.elim (·.elim nofun nofun) nofun : False).elim
              evicted := fun _ key a hinflight ha before after hjobs =>
                eq_of_append_singleton hjob hjobs ▸ hevict hinflight ha }
        exact ⟨hstage.resumes, fun d other hother => { hstage.calls d other hother with }⟩
      · next a hobjects hpromise =>
        refine hbut.setStage ?_
        have hfailed (b : Nat) := hs.default_of_rejected (a := b) hopen hobjects
        have hsigner := hs.promise a hpromise
        constructor
        all_goals dsimp only; grind
      · next hobjects hpromise =>
        have hnone (a : Nat) : s.isRejected a = false :=
          eq_false_of_ne_true fun ha =>
            nomatch hpromise.symm.trans (hs.default_of_rejected hopen hobjects ha).1
        have hstage : Timely ((s.start none).setStage c ⟨signer, .refused, s.isRejected⟩
            (.awaitsDefault s.nextAttempt)) := by
          refine (hbut.start hs none).setStage ?_
          have hsigner := s.signerOf_nextAttempt none
          constructor
          all_goals dsimp only; grind
        exact ⟨hstage.resumes, fun d other hother => { hstage.calls d other hother with }⟩

theorem runJob (hs : Sound s) (h : Timely s) : Timely (s.runJob privateKey) := by
  unfold Connection.runJob
  split
  · exact h
  · next key jobs hjobs =>
    refine ⟨fun c hc => h.resumes c (hjobs ▸ List.mem_cons_of_mem _ hc), fun c call hcall => ?_⟩
    have hcall' := (h.calls c call hcall).dequeue hjobs nofun
      fun other a (ha : Function.update s.signerSdkInflight key none other = some a) =>
        ⟨(of_update_none ha).1, fun heq => (of_update_none ha).2 (Job.evict.inj heq).symm⟩
    exact { hcall' with }
  · next c jobs hjobs =>
    have hresumes (d : Nat) (hd : .resume d ∈ jobs) : s.calls d ≠ none :=
      h.resumes d (hjobs ▸ List.mem_cons_of_mem _ hd)
    have hothers (d : Nat) (other : Call) (hdc : d ≠ c) (hother : s.calls d = some other) :
        other.Timely { s with jobs } d := by
      have hother' : other.Timely
          { s with jobs, signerSdkInflight := s.signerSdkInflight } d :=
        (h.calls d other hother).dequeue hjobs (fun heq => hdc (Job.resume.inj heq).symm)
          fun _ _ ha => ⟨ha, nofun⟩
      exact { hother' with }
    -- The call itself need not be resumed again.
    have hdone (hidle : ∀ call, s.calls c = some call → call.stage ≠ .queued) :
        Timely { s with jobs } := by
      refine ⟨hresumes, fun d other hother => ?_⟩
      by_cases hdc : d = c
      · subst hdc
        have hstage := hidle other hother
        exact { h.calls d other hother with
          queued := fun hqueued => absurd hqueued hstage
          evicted := fun hqueued => absurd hqueued hstage }
      · exact hothers d other hdc hother
    split
    · next call hcall =>
      have hc := h.calls c call hcall
      split
      · next hqueued =>
        have hbut : TimelyBut { s with jobs } c := ⟨fun d hd => .inr (hresumes d hd), hothers⟩
        refine hbut.resume (hs.dequeue hjobs) hc.failed (fun a ha hnone => ?_) fun key a hinflight => ?_
        · have hanswers := hc.default a ha hnone
          simp [hqueued, Stage.Answers, Stage.Awaits] at hanswers
        · refine eq_false_of_ne_true fun ha => ?_
          exact nomatch hc.evicted hqueued key a hinflight ha [] jobs hjobs
      · next hqueued =>
        exact hdone fun other hother => Option.some.inj (hcall.symm.trans hother) ▸ hqueued
    · next hnone => exact hdone fun other hother => nomatch hnone.symm.trans hother

theorem wake (hs : Sound s) (h : Timely s) (c : Nat) : Timely (s.wake privateKey c) := by
  unfold Connection.wake
  split
  · exact h
  · next call hcall =>
    have hc := h.calls c call hcall
    have hbut := h.but c
    split
    · next d hstage =>
      -- Only what it waits for can have failed before.
      have honly {a : Nat} (ha : call.failed a = true) : a = d := by
        have hanswers := hc.default a ha (hc.onlyDefault d a hstage ha)
        simpa [hstage, Stage.Answers, Stage.Awaits, eq_comm] using hanswers
      split
      · next signer account hattempt =>
        have hnone (a : Nat) : call.failed a = false := by
          refine eq_false_of_ne_true fun ha => ?_
          have hrejected := hc.failed a ha
          rw [honly ha, Connection.isRejected, hattempt] at hrejected
          exact nomatch hrejected
        refine hbut.resume hs hc.failed (fun a ha => ?_) fun _ a _ => hnone a
        exact nomatch ha.symm.trans (hnone a)
      · next signer hattempt =>
        refine hbut.setStage ?_
        obtain ⟨queued, failed, threw, default, onlyDefault, signer, ofSigner, own, evicted⟩ := hc
        constructor
        all_goals dsimp only; grind
      · exact h
    · next a hstage =>
      have ha := hc.ofSigner a hstage
      have hdefault (b : Nat) (hb : call.failed b = true) : s.signerOf b ≠ some none := by
        intro hsigner
        have hanswers := hc.default b hb hsigner
        simp only [hstage, Stage.Answers, Stage.Awaits, reduceCtorEq, false_or, or_false,
          Stage.awaitsSigner.injEq] at hanswers
        rw [← hanswers, ha] at hb
        exact nomatch hb
      split
      · exact hbut.goOn hc.failed hdefault (.inl rfl)
      · next hattempt =>
        have hown := hc.own a (.inl (.inr hstage))
        exact hbut.goOn hc.failed hdefault
          (.inr ⟨a, ha, hown, .inr ⟨rfl, Connection.isRejected_iff.mpr ⟨_, hattempt⟩⟩⟩)
      · exact h
    · exact h

/-! ## Closing -/

theorem close (h : Timely s) : Timely s.close := by
  refine ⟨h.resumes, fun c call hcall => ?_⟩
  exact { h.calls c call hcall with evicted := nofun }

theorem finishClose (h : Timely s) : Timely s.finishClose := by
  have hcleared : Timely { s with closing := none, sdkObjects := none, sdkObjectsPromise := none } :=
    ⟨h.resumes, fun c call hcall => { h.calls c call hcall with }⟩
  unfold Connection.finishClose
  split
  · exact ⟨h.resumes, fun c call hcall => { h.calls c call hcall with }⟩
  · exact hcleared
  · exact h

/-! ## Runs -/

theorem step (hs : Sound s) (h : Timely s) (event : Event) :
    Timely (s.step privateKey event) := by
  cases event with
  | call c signer => exact call hs h c signer
  | createAccount a => exact h.createAccount a
  | fail a => exact h.fail a
  | finish a => exact h.finish a
  | job => exact runJob hs h
  | wake c => exact wake hs h c
  | close => exact h.close
  | finishClose => exact h.finishClose

theorem new : Timely .new := ⟨nofun, nofun⟩

end Timely

end Lionden.Network.Sdk
