import Lionden.Network.SdkSound

/-!
# The accounts of a connection

An account is destroyed by `close`, or by the initialisation that made it: unless the initialisation
fails with the account made.

* `closed_destroys`: where that does not happen, no account outlives a closed connection.
-/

namespace Lionden.Network.Sdk

variable {privateKey : Option JsString} {s : Connection}

/-- The account is destroyed, or it is where something will destroy it. -/
def Connection.Owns (s : Connection) (account : Nat) : Prop :=
  s.destroyed account = true ∨ s.sdkObjects = some account ∨
    (∃ key, (key, account) ∈ s.signerSdkResolved) ∨
    ∃ a signer, s.attempts a = some ⟨signer, .created account⟩

def OwnsAll (s : Connection) : Prop := ∀ account < s.accounts, s.Owns account

/-- An initialisation fails before its account is made. -/
def FailsEarly (s : Connection) : Event → Prop
  | .fail a => ∀ attempt, s.attempts a = some attempt → attempt.status = .creating
  | _ => True

instance (s : Connection) : DecidablePred (FailsEarly s)
  | .fail a =>
    match h : s.attempts a with
    | none => .isTrue fun _ h' => nomatch h.symm.trans h'
    | some attempt => decidable_of_iff (attempt.status = .creating) (by simp [FailsEarly, h])
  | .call .. | .createAccount _ | .finish _ | .job | .wake _ | .close | .finishClose => .isTrue trivial

/-- Another initialisation goes on. -/
theorem Connection.Owns.setStatus {a account : Nat} {signer : Option JsString} {status : Status}
    (h : s.Owns account) (hother : ∀ signer, s.attempts a ≠ some ⟨signer, .created account⟩) :
    (s.setStatus a signer status).Owns account := by
  rcases h with hdestroyed | hobjects | hresolved | ⟨b, other, hb⟩
  · exact .inl hdestroyed
  · exact .inr (.inl hobjects)
  · exact .inr (.inr (.inl hresolved))
  · have hne : b ≠ a := by
      rintro rfl
      exact hother other hb
    exact .inr (.inr (.inr ⟨b, other, (Function.update_of_ne hne ..).trans hb⟩))

/-- Only what is destroyed changes. -/
theorem Connection.Owns.destroy {account : Nat} (h : s.Owns account) (accounts : List Nat) :
    (s.destroy accounts).Owns account := by
  rcases h with hdestroyed | hrest
  · exact .inl (by simp [Connection.destroy, hdestroyed])
  · exact .inr hrest

theorem Connection.destroyed_of_mem {account : Nat} {accounts : List Nat}
    (h : account ∈ accounts) : (s.destroy accounts).destroyed account = true := by
  simp [Connection.destroy, h]

namespace OwnsAll

theorem createAccount (h : OwnsAll s) (a : Nat) : OwnsAll (s.createAccount a) := by
  unfold Connection.createAccount
  split
  · next signer ha =>
    intro account haccount
    by_cases hnew : account = s.accounts
    · exact .inr (.inr (.inr ⟨a, signer, by rw [hnew]; exact Function.update_self ..⟩))
    · have hold : s.Owns account := h account (by dsimp only at haccount; omega)
      have hset : (s.setStatus a signer (.created s.accounts)).Owns account :=
        hold.setStatus fun _ hcreated => by simp [ha] at hcreated
      exact hset
  · exact h

theorem start (hs : Sound s) (h : OwnsAll s) (signer : Option JsString) :
    OwnsAll (s.start signer) := by
  intro account haccount
  have hset : (s.setStatus s.nextAttempt signer .creating).Owns account :=
    (h account haccount).setStatus fun _ hcreated => nomatch hs.fresh.symm.trans hcreated
  exact hset

theorem fail {a : Nat} (h : OwnsAll s) (hok : FailsEarly s (.fail a)) : OwnsAll (s.fail a) := by
  have hreject {signer : Option JsString} {status : Status}
      (ha : s.attempts a = some ⟨signer, status⟩) : OwnsAll (s.reject a signer) := by
    intro account haccount
    have hset : (s.setStatus a signer .rejected).Owns account :=
      (h account haccount).setStatus fun _ hcreated => nomatch hok _ hcreated
    exact hset
  unfold Connection.fail
  split
  · next ha => exact hreject ha
  · next ha => exact hreject ha
  · exact h

/-- The objects are cached, in place of none, or their account is destroyed. -/
theorem finish (hs : Sound s) (h : OwnsAll s) (a : Nat) : OwnsAll (s.finish a) := by
  unfold Connection.finish
  split
  · next signer account ha =>
    have hset {status : Status} {other : Nat} (hother : other < s.accounts)
        (hne : other ≠ account) : (s.setStatus a signer status).Owns other :=
      (h other hother).setStatus fun _ hcreated => by
        simp only [ha, Option.some.injEq, Attempt.mk.injEq, Status.created.injEq] at hcreated
        exact hne hcreated.2.symm
    split
    · intro other hother
      by_cases hne : other = account
      · exact .inl (Connection.destroyed_of_mem (List.mem_singleton.mpr hne))
      · exact (hset hother hne).destroy [account]
    · next hopen =>
      have hopen : s.closed = false := eq_false_of_ne_true hopen
      intro other hother
      cases signer with
      | none =>
        have hempty : s.sdkObjects = none := by
          by_contra hobjects
          exact (hs.objects hobjects a _ ha).1 trivial
        by_cases hne : other = account
        · exact .inr (.inl (congrArg some hne.symm))
        · rcases hset hother hne with hdestroyed | hobjects | hrest
          · exact .inl hdestroyed
          · exact nomatch hempty.symm.trans hobjects
          · exact .inr (.inr hrest)
      | some key =>
        have hlookup : s.signerSdkResolved.lookup key = none :=
          hs.unresolved hopen key a (hs.pending hopen a key _ ha trivial)
        by_cases hne : other = account
        · exact .inr (.inr (.inl ⟨key, List.mem_cons.mpr (.inl (by rw [hne]))⟩))
        · rcases hset hother hne with hdestroyed | hobjects | ⟨entry, hentry⟩ | hrest
          · exact .inl hdestroyed
          · exact .inr (.inl hobjects)
          · have hkey : entry ≠ key := by
              rintro rfl
              have hkey := List.lookup_eq_none_iff.mp hlookup _ hentry
              simp at hkey
            refine .inr (.inr (.inl ⟨entry, List.mem_cons_of_mem _ ?_⟩))
            exact List.mem_filter.mpr ⟨hentry, decide_eq_true hkey⟩
          · exact .inr (.inr (.inr hrest))
  · exact h

/-- What was in a cache is destroyed. -/
theorem close (h : OwnsAll s) : OwnsAll s.close := by
  intro account haccount
  rcases h account haccount with hdestroyed | hobjects | ⟨key, hkey⟩ | hcreated
  · exact .inl (by simp [Connection.close, Connection.destroy, hdestroyed])
  · refine .inl (Connection.destroyed_of_mem (List.mem_append_right _ ?_))
    rw [hobjects]
    exact List.mem_singleton.mpr rfl
  · have hmem : account ∈ s.signerSdkResolved.map (·.2) := List.mem_map_of_mem hkey
    exact .inl (Connection.destroyed_of_mem (List.mem_append_left _ hmem))
  · exact .inr (.inr (.inr hcreated))

theorem finishClose (hs : Sound s) (h : OwnsAll s) : OwnsAll s.finishClose := by
  have hcleared (hclosing : s.closing ≠ none) :
      OwnsAll { s with closing := none, sdkObjects := none, sdkObjectsPromise := none } := by
    intro account haccount
    rcases h account haccount with hdestroyed | hobjects | hrest
    · exact .inl hdestroyed
    · exact nomatch (hs.closed (hs.closing hclosing)).1.symm.trans hobjects
    · exact .inr (.inr hrest)
  unfold Connection.finishClose
  split
  · next hclosing =>
    have hnext := hcleared fun hnone => by simp [hnone] at hclosing
    exact fun account haccount => (hnext account haccount).destroy _
  · next hclosing => exact hcleared fun hnone => by simp [hnone] at hclosing
  · exact h

theorem resume {c : Nat} {call : Call} (hs : Sound s) (h : OwnsAll s) :
    OwnsAll (s.resume privateKey c call) := by
  unfold Connection.resume
  split
  · exact h
  · next key _ =>
    split
    · exact h
    · split
      · exact h
      · exact h
      · exact h.start hs (some key)

theorem call (hs : Sound s) (h : OwnsAll s) (c : Nat) (signer : Option JsString) :
    OwnsAll (s.call c signer) := by
  unfold Connection.call
  split
  · exact h
  · dsimp only
    split
    · exact h
    · split
      · exact h
      · exact h
      · exact h.start hs none

theorem runJob (hs : Sound s) (h : OwnsAll s) : OwnsAll (s.runJob privateKey) := by
  unfold Connection.runJob
  split
  · exact h
  · exact h
  · next c jobs hjobs =>
    split
    · split
      · exact resume (s := { s with jobs }) (hs.dequeue hjobs) h
      · exact h
    · exact h

theorem wake (hs : Sound s) (h : OwnsAll s) (c : Nat) : OwnsAll (s.wake privateKey c) := by
  unfold Connection.wake
  split
  · exact h
  · split
    · split
      · exact resume hs h
      · exact h
      · exact h
    · split
      · exact h
      · exact h
      · exact h
    · exact h

theorem step {event : Event} (hs : Sound s) (h : OwnsAll s) (hok : FailsEarly s event) :
    OwnsAll (s.step privateKey event) := by
  cases event with
  | call c signer => exact call hs h c signer
  | createAccount a => exact h.createAccount a
  | fail a => exact h.fail hok
  | finish a => exact finish hs h a
  | job => exact runJob hs h
  | wake c => exact wake hs h c
  | close => exact h.close
  | finishClose => exact finishClose hs h

end OwnsAll

/-- The call has returned or thrown. -/
def Stage.Settled : Stage → Prop
  | returned | threw _ | refused => True
  | awaitsDefault _ | queued | awaitsSigner _ => False

instance : DecidablePred Stage.Settled
  | .returned | .threw _ | .refused => .isTrue trivial
  | .awaitsDefault _ | .queued | .awaitsSigner _ => .isFalse id

def Connection.Settled (s : Connection) : Prop :=
  ∀ c call, s.calls c = some call → call.stage.Settled

def Connection.LeaksNone (s : Connection) : Prop :=
  s.closed = true → s.Settled → ∀ account < s.accounts, s.destroyed account = true

/-- Nothing is left that would destroy an account later. -/
theorem OwnsAll.leaksNone (hs : Sound s) (h : OwnsAll s) : s.LeaksNone := by
  intro hclosed hsettled account haccount
  obtain ⟨hobjects, hresolved⟩ := hs.closed hclosed
  rcases h account haccount with hdestroyed | hobject | ⟨key, hkey⟩ | ⟨a, signer, ha⟩
  · exact hdestroyed
  · exact nomatch hobjects.symm.trans hobject
  · rw [hresolved] at hkey
    exact nomatch hkey
  · obtain ⟨c, call, hcall, hawaits⟩ := hs.awaited a _ ha trivial
    have hidle := hsettled c call hcall
    rcases hawaits with hstage | hstage <;> rw [hstage] at hidle <;> exact hidle.elim

open Trace (exec AllSteps)

/-- **A closed connection leaks no account while initialisations fail only before their account is
made**: in every state of a run, once the connection is closed and its calls are settled, all its
accounts are destroyed. -/
theorem closed_destroys {events : List Event}
    (h : AllSteps (Connection.step privateKey) FailsEarly .new events) (k : Nat) :
    (exec (Connection.step privateKey) .new (events.take k)).LeaksNone := by
  have hsound := AllSteps.invariant (I := fun s => Sound s ∧ OwnsAll s)
    (fun s event hs hok => ⟨hs.1.step event, hs.2.step hs.1 hok⟩)
    ⟨Sound.new, fun _ hnone => nomatch hnone⟩ h k
  exact hsound.2.leaksNone hsound.1

/-- The first initialisation fails, or the connection is closed while a signer's account is made. -/
theorem closed_destroys_both :
    (exec (Connection.step none) .new
      ([.call 0 none, .fail 0, .wake 0, .call 1 (some [1]), .close, .wake 1, .finishClose].take 7)
      ).LeaksNone ∧
    (exec (Connection.step none) .new
      ([.call 0 (some [1]), .createAccount 0, .finish 0, .wake 0, .createAccount 1, .close,
        .finish 1, .wake 0].take 8)).LeaksNone :=
  ⟨closed_destroys (by decide) 7, closed_destroys (by decide) 8⟩

/-- What is left of an initialisation that fails with the account made. -/
theorem failed_leaks :
    ¬(exec (Connection.step none) .new
      [.call 0 none, .createAccount 0, .fail 0, .wake 0, .close, .finishClose]).LeaksNone := by
  intro h
  refine absurd (h rfl ?_ 0 (by decide)) (by decide)
  rintro (_ | c) call hcall
  · obtain rfl := Option.some.inj hcall
    trivial
  · exact nomatch hcall

end Lionden.Network.Sdk
