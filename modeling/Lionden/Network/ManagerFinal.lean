import Lionden.Network.ManagerRuns

/-!
# Disconnecting

A `connect` that is in flight when `disconnectAll` is called goes on, and its connection and accounts
are installed in the empty manager.

* `disconnected_iff`: `disconnectAll` is final exactly when no such `connect` gets that far.
-/

namespace Lionden.Network.Connect

variable {config : Config} {derive : ResolveForNetworkOptions → JsString → JsString} {s : Manager}

open Trace (exec AllSteps exec_drop_succ)

/-- Nothing is left of the connections. -/
structure Clean (s : Manager) : Prop where
  activeConnection : s.activeConnection = none
  activeNamedAccounts : s.activeNamedAccounts = []
  connections : s.connections = []
  closed : ∀ c connection, s.created c = some connection → connection.closed = true
  resolvedNamedAccountsCache : s.resolvedNamedAccountsCache = []
  cache : s.cache = []

/-- All calls of `connect` have returned or thrown. -/
def Manager.Settled (s : Manager) : Prop :=
  ∀ t task phase, s.tasks t = some (task, phase) → ∃ result, phase = .settled result

/-- It is neither a call of `connect` nor one of `disconnectAll`. -/
def Event.Late : Event → Prop
  | .connect .. | .disconnectAll => False
  | .advance .. | .getConnection | .close _ => True

def Phase.isResolved : Phase → Bool
  | resolved .. => true
  | resolving .. | threw .. | closing _ | settling _ | settled _ => false

/-- A connection is installed. -/
def Installs (s : Manager) : Event → Bool
  | .advance t _ => (s.tasks t).any fun entry => entry.2.isResolved
  | .connect .. | .getConnection | .disconnectAll | .close _ => false

/-! ## Without a connection that is installed -/

/-- Accounts are cached only for a task that is about to install them. -/
structure Quiet (s : Manager) : Prop where
  activeConnection : s.activeConnection = none
  activeNamedAccounts : s.activeNamedAccounts = []
  connections : s.connections = []
  resolvedNamedAccountsCache : s.resolvedNamedAccountsCache = []
  cache : s.cache = [] ∨ ∃ t task c accounts, s.tasks t = some (task, .resolved c accounts)

namespace Quiet

theorem disconnectAll (s : Manager) : Quiet s.disconnectAll := ⟨rfl, rfl, rfl, rfl, .inl rfl⟩

/-- A task goes on that is not about to install. -/
theorem setPhase {t : Nat} {task : Task} {phase : Phase} (h : Quiet s)
    (ht : s.tasks t = some (task, phase)) (hphase : ∀ c accounts, phase ≠ .resolved c accounts)
    (phase' : Phase) : Quiet (s.setPhase t task phase') := by
  refine { h with cache := h.cache.imp_right ?_ }
  rintro ⟨t', own, c, accounts, ht'⟩
  have hne : t' ≠ t := by
    rintro rfl
    exact hphase c accounts (Prod.mk.inj (Option.some.inj (ht.symm.trans ht'))).2
  exact ⟨t', own, c, accounts, (Function.update_of_ne hne ..).trans ht'⟩

theorem resolveEntries {t : Nat} {task : Task} {phase : Phase} {c : Nat} {result : NamedAccounts}
    {entries : List (JsString × NamedEntry)} (h : Quiet s) (ht : s.tasks t = some (task, phase))
    (hphase : ∀ c accounts, phase ≠ .resolved c accounts) :
    Quiet (s.resolveEntries t task c result entries) := by
  unfold Manager.resolveEntries
  split
  · exact { h.setPhase ht hphase (.resolved c result) with
      cache := .inr ⟨t, task, c, result, Function.update_self ..⟩ }
  · split
    · exact h.setPhase ht hphase _
    · exact h.setPhase ht hphase _

theorem advance {t : Nat} {thrown : Option JsString} (h : Quiet s)
    (hinstalls : Installs s (.advance t thrown) = false) : Quiet (s.advance derive t thrown) := by
  unfold Manager.advance
  split
  · exact h
  · next task phase ht =>
    split
    · exact h
    · dsimp only
      split
      · exact h
      · split
        · exact h.setPhase ht nofun _
        · exact h.resolveEntries ht nofun
    · rw [Installs, ht] at hinstalls
      exact nomatch hinstalls
    · next c error =>
      have hset := h.setPhase ht nofun (.closing error)
      exact { hset with }
    · exact h.setPhase ht nofun _
    · next result =>
      have hset := h.setPhase ht nofun (.settled result)
      exact { hset with }
    · exact h

theorem step {event : Event} (h : Quiet s) (hlate : event.Late) (hinstalls : Installs s event = false) :
    Quiet (s.step config derive event) := by
  cases event with
  | connect | disconnectAll => exact hlate.elim
  | advance t thrown => exact h.advance hinstalls
  | getConnection =>
    show Quiet s.getUsableActiveConnection
    unfold Manager.getUsableActiveConnection
    rw [h.activeConnection]
    exact h
  | close connection => exact { h with }

/-- No task is left for which accounts are cached, or that has a connection. -/
theorem clean (hs : Sound config derive s) (h : Quiet s) (hsettled : s.Settled) : Clean s := by
  refine { h with closed := fun c connection hc => ?_, cache := ?_ }
  · by_contra hopen
    rcases hs.owned c connection hc (eq_false_of_ne_true hopen) with
      hcached | ⟨t, task, phase, ht, hholds⟩
    · rw [h.connections] at hcached
      exact nomatch hcached
    · obtain ⟨result, rfl⟩ := hsettled t task phase ht
      exact nomatch hholds
  · refine h.cache.resolve_right ?_
    rintro ⟨t, task, c, accounts, ht⟩
    obtain ⟨result, hresult⟩ := hsettled t task _ ht
    exact nomatch hresult

end Quiet

/-! ## With one -/

/-- Accounts that are cached stay so. -/
theorem resolvedCache_step {event : Event} (hlate : event.Late)
    (h : s.resolvedNamedAccountsCache ≠ []) :
    (s.step config derive event).resolvedNamedAccountsCache ≠ [] := by
  cases event with
  | connect | disconnectAll => exact hlate.elim
  | advance t thrown =>
    show (s.advance derive t thrown).resolvedNamedAccountsCache ≠ []
    unfold Manager.advance
    split
    · exact h
    · split
      · exact h
      · dsimp only
        split
        · exact h
        · split
          · exact h
          · unfold Manager.resolveEntries
            split
            · exact h
            · split <;> exact h
      · exact List.cons_ne_nil _ _
      · exact h
      · exact h
      · exact h
      · exact h
  | getConnection =>
    show s.getUsableActiveConnection.resolvedNamedAccountsCache ≠ []
    unfold Manager.getUsableActiveConnection
    split
    · exact h
    · split <;> exact h
  | close connection => exact h

theorem resolvedCache_exec {events : List Event} (hlate : ∀ event ∈ events, event.Late)
    (h : s.resolvedNamedAccountsCache ≠ []) :
    (exec (Manager.step config derive) s events).resolvedNamedAccountsCache ≠ [] := by
  induction events generalizing s with
  | nil => exact h
  | cons event events ih =>
    rw [List.forall_mem_cons] at hlate
    exact ih hlate.2 (resolvedCache_step hlate.1 h)

theorem resolvedCache_installs {event : Event} (h : Installs s event = true) :
    (s.step config derive event).resolvedNamedAccountsCache ≠ [] := by
  cases event with
  | advance t thrown =>
    show (s.advance derive t thrown).resolvedNamedAccountsCache ≠ []
    obtain ⟨⟨task, phase⟩, ht, hphase⟩ := (Option.any_eq_true ..).mp h
    cases phase with
    | resolved c accounts => simp [Manager.advance, ht, set]
    | resolving | threw | closing | settling | settled => exact nomatch hphase
  | connect | getConnection | disconnectAll | close => exact nomatch h

/-! ## Runs -/

/-- **`disconnectAll` is final exactly when no connection is installed after it**: once the calls of
`connect` before it are settled, nothing is left of what they made. -/
theorem disconnected_iff (config : Config) (derive : ResolveForNetworkOptions → JsString → JsString)
    (before after : List Event) (hlate : ∀ event ∈ after, event.Late)
    (hsettled :
      (exec (Manager.step config derive) .new (before ++ .disconnectAll :: after)).Settled) :
    Clean (exec (Manager.step config derive) .new (before ++ .disconnectAll :: after)) ↔
      AllSteps (Manager.step config derive) (fun s event => Installs s event = false)
        (exec (Manager.step config derive) .new (before ++ [.disconnectAll])) after := by
  have hend : exec (Manager.step config derive) .new (before ++ .disconnectAll :: after) =
      exec (Manager.step config derive)
        (exec (Manager.step config derive) .new (before ++ [.disconnectAll])) after := by
    simp [exec]
  constructor
  · intro hclean k event hevent
    refine eq_false_of_ne_true fun hinstalls => ?_
    refine absurd hclean.resolvedNamedAccountsCache ?_
    rw [hend, ← exec_drop_succ hevent]
    exact resolvedCache_exec (fun e he => hlate e (List.mem_of_mem_drop he))
      (resolvedCache_installs hinstalls)
  · intro hnone
    have hstart : Quiet (exec (Manager.step config derive) .new (before ++ [.disconnectAll])) := by
      have hlast : exec (Manager.step config derive) .new (before ++ [.disconnectAll]) =
          (exec (Manager.step config derive) .new before).disconnectAll :=
        List.foldl_concat ..
      exact hlast ▸ Quiet.disconnectAll _
    have hquiet : Quiet (exec (Manager.step config derive) .new
        (before ++ .disconnectAll :: after)) := by
      have hsteps : AllSteps (Manager.step config derive)
          (fun s event => event.Late ∧ Installs s event = false)
          (exec (Manager.step config derive) .new (before ++ [.disconnectAll])) after :=
        fun k event hevent => ⟨hlate event (List.mem_of_getElem? hevent), hnone k event hevent⟩
      have hlast := hsteps.invariant (fun s event hs hok => hs.step hok.1 hok.2) hstart after.length
      rwa [hend, ← List.take_length (l := after)]
    exact hquiet.clean (reachable config derive _).sound hsettled

/-- The second network has no value for the account, and its connection is closed. -/
theorem disconnected_failing :
    Clean (exec (Manager.step twoNetworks prefixed) .new
      ([.connect 0 none none, .advance 0 none, .advance 0 none, .advance 0 none,
          .connect 1 (some (js "b")) none] ++
        .disconnectAll :: [.advance 1 none, .advance 1 none, .advance 1 none])) := by
  refine (disconnected_iff twoNetworks prefixed _ _ (by simp [Event.Late]) ?_).mpr (by decide)
  rintro (_ | _ | t) task phase ht
  · exact ⟨_, (Prod.mk.inj (Option.some.inj ht)).2.symm⟩
  · exact ⟨_, (Prod.mk.inj (Option.some.inj ht)).2.symm⟩
  · exact nomatch ht

/-- The accounts are resolved after `disconnectAll`, and the connection becomes the active one. -/
theorem disconnected_late :
    (exec (Manager.step twoNetworks prefixed) .new
      ([.connect 0 none none] ++ .disconnectAll :: [.advance 0 none, .advance 0 none, .advance 0 none])
      ).Settled ∧
    ¬Clean (exec (Manager.step twoNetworks prefixed) .new
      ([.connect 0 none none] ++
        .disconnectAll :: [.advance 0 none, .advance 0 none, .advance 0 none])) := by
  constructor
  · rintro (_ | t) task phase ht
    · exact ⟨_, (Prod.mk.inj (Option.some.inj ht)).2.symm⟩
    · exact nomatch ht
  · intro h
    exact nomatch h.activeConnection

end Lionden.Network.Connect
