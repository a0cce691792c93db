import Lionden.Network.ManagerSound

/-!
# Interleaved calls of `connect`

* `consistent`: the active accounts are those of the active connection's network, and a `connect`
  that fails changes nothing that is active or open.
-/

namespace Lionden.Network.Connect

variable {config : Config} {derive : ResolveForNetworkOptions → JsString → JsString}
  {s s' : Manager}

/-! ## Calls and tasks -/

/-- What `connectPromise` is fulfilled with. -/
@[simp, grind]
def Phase.result : Phase → Option Nat
  | settling (.ok connection) | settled (.ok connection) => some connection
  | _ => none

/-- Calls stay, and tasks go on; a new one belongs to its call. -/
structure Progress (s s' : Manager) : Prop where
  calls : ∀ c call, s.calls c = some call → s'.calls c = some call
  tasks : ∀ t task phase, s.tasks t = some (task, phase) →
    ∃ phase', s'.tasks t = some (task, phase') ∧ (phase.result ≠ none → phase'.result ≠ none)
  owners : ∀ t task phase, s'.tasks t = some (task, phase) →
    (∃ phase', s.tasks t = some (task, phase')) ∨ s'.calls task.owner = some (.awaits t)

namespace Progress

theorem refl (s : Manager) : Progress s s :=
  ⟨fun _ _ h => h, fun _ _ phase h => ⟨phase, h, id⟩, fun _ _ phase h => .inl ⟨phase, h⟩⟩

/-- Nothing else matters than calls and tasks. -/
theorem congr {r r' : Manager} (h : Progress s s') (hcalls : r.calls = s.calls)
    (htasks : r.tasks = s.tasks) (hcalls' : r'.calls = s'.calls) (htasks' : r'.tasks = s'.tasks) :
    Progress r r' := by
  obtain ⟨calls, tasks, owners⟩ := h
  rw [← hcalls, ← hcalls'] at calls
  rw [← htasks, ← htasks'] at tasks
  rw [← htasks, ← htasks', ← hcalls'] at owners
  exact ⟨calls, tasks, owners⟩

theorem of_eq (hcalls : s'.calls = s.calls) (htasks : s'.tasks = s.tasks) : Progress s s' :=
  (refl s).congr rfl rfl hcalls htasks

theorem setPhase {t : Nat} {task : Task} {phase phase' : Phase}
    (ht : s.tasks t = some (task, phase)) (hresult : phase.result ≠ none → phase'.result ≠ none) :
    Progress s (s.setPhase t task phase') := by
  refine ⟨fun _ _ h => h, fun t' task' old h => ?_, fun t' task' new h => .inl ?_⟩
  · by_cases heq : t' = t
    · subst heq
      obtain ⟨rfl, rfl⟩ := Prod.mk.inj (Option.some.inj (h.symm.trans ht))
      exact ⟨phase', Function.update_self .., hresult⟩
    · exact ⟨old, (Function.update_of_ne heq ..).trans h, id⟩
  · by_cases heq : t' = t
    · subst heq
      unfold Manager.setPhase at h
      dsimp only at h
      rw [Function.update_self] at h
      obtain ⟨rfl, -⟩ := Prod.mk.inj (Option.some.inj h)
      exact ⟨phase, ht⟩
    · exact ⟨new, (Function.update_of_ne heq ..).symm.trans h⟩

theorem resolveEntries {t : Nat} {task : Task} {phase : Phase} {c : Nat} {result : NamedAccounts}
    {entries : List (JsString × NamedEntry)} (ht : s.tasks t = some (task, phase))
    (hresult : phase.result = none) : Progress s (s.resolveEntries t task c result entries) := by
  have hset (phase' : Phase) : Progress s (s.setPhase t task phase') :=
    setPhase ht fun h => absurd hresult h
  cases entries with
  | nil => exact (hset (.resolved c result)).congr rfl rfl rfl rfl
  | cons named entries =>
    unfold Manager.resolveEntries
    dsimp only
    split
    · exact hset _
    · exact hset _

theorem advance (t : Nat) (thrown : Option JsString) : Progress s (s.advance derive t thrown) := by
  unfold Manager.advance
  split
  · exact refl s
  · next task phase ht =>
    split
    · exact refl s
    · dsimp only
      split
      · exact refl s
      · split
        · exact setPhase ht nofun
        · exact resolveEntries ht rfl
    · next c accounts =>
      have hset : Progress s (s.setPhase t task (.settling (.ok c))) := setPhase ht nofun
      exact hset.congr rfl rfl rfl rfl
    · next c error =>
      have hset : Progress (s.closeAll [c]) ((s.closeAll [c]).setPhase t task (.closing error)) :=
        setPhase ht nofun
      exact hset.congr rfl rfl rfl rfl
    · exact setPhase ht nofun
    · next result =>
      have hset : Progress s (s.setPhase t task (.settled result)) :=
        setPhase ht (by cases result <;> simp)
      exact hset.congr rfl rfl rfl rfl
    · exact refl s

theorem setCall {c : Nat} (hnew : s.calls c = none) (call : Call) :
    Progress s (s.setCall c call) := by
  refine ⟨fun c' call' h => ?_, fun _ _ phase h => ⟨phase, h, id⟩, fun _ _ phase h => .inl ⟨phase, h⟩⟩
  have hne : c' ≠ c := by
    rintro rfl
    exact nomatch hnew.symm.trans h
  exact (Function.update_of_ne hne ..).trans h

/-- A call makes a task. -/
theorem start {c : Nat} {task : Task} {phase : Phase} (hnew : s.calls c = none)
    (hfresh : s.tasks s.nextTask = none) (howner : task.owner = c) :
    Progress s ((s.setCall c (.awaits s.nextTask)).setPhase s.nextTask task phase) := by
  refine ⟨(setCall hnew _).calls, fun t old oldPhase h => ?_, fun t new newPhase h => ?_⟩
  · have hne : t ≠ s.nextTask := by
      rintro rfl
      exact nomatch hfresh.symm.trans h
    exact ⟨oldPhase, (Function.update_of_ne hne ..).trans h, id⟩
  · by_cases heq : t = s.nextTask
    · subst heq
      unfold Manager.setPhase at h
      dsimp only at h
      rw [Function.update_self] at h
      obtain ⟨rfl, -⟩ := Prod.mk.inj (Option.some.inj h)
      exact .inr (howner ▸ Function.update_self ..)
    · exact .inl ⟨newPhase, (Function.update_of_ne heq ..).symm.trans h⟩

theorem connectNew {c : Nat} {name : JsString} {networkConfig : NetworkConfig}
    {thrown : Option JsString} (hnew : s.calls c = none) (hfresh : s.tasks s.nextTask = none) :
    Progress s (s.connectNew config c name networkConfig thrown) := by
  have hstart (phase : Phase) :
      Progress s ((s.setCall c (.awaits s.nextTask)).setPhase s.nextTask ⟨c, name, networkConfig⟩
        phase) := start hnew hfresh rfl
  unfold Manager.connectNew
  split
  · exact setCall hnew _
  · dsimp only
    split
    · next error => exact (hstart (.settling (.error error))).congr rfl rfl rfl rfl
    · unfold Manager.resolveForNetwork
      split
      · next accounts _ => exact (hstart (.resolved s.nextConnection accounts)).congr rfl rfl rfl rfl
      · unfold Manager.resolveEntries
        split
        · exact (hstart (.resolved s.nextConnection [])).congr rfl rfl rfl rfl
        · split
          · exact (hstart (.threw s.nextConnection _)).congr rfl rfl rfl rfl
          · exact (hstart (.resolving s.nextConnection [] _)).congr rfl rfl rfl rfl

theorem connect {c : Nat} (hnew : s.calls c = none) (hfresh : s.tasks s.nextTask = none)
    (name thrown : Option JsString) : Progress s (s.connect config c name thrown) := by
  unfold Manager.connect
  dsimp only
  split
  · exact setCall hnew _
  · next networkConfig _ =>
    split
    · exact connectNew hnew hfresh
    · next existing _ =>
      split
      · exact (connectNew (s := { s with
          connections := delete s.connections (name.getD config.defaultNetwork) }) hnew
            hfresh).congr rfl rfl rfl rfl
      · exact (setCall hnew (.returned existing)).congr rfl rfl rfl rfl

theorem step (h : Sound config derive s) (event : Event) :
    Progress s (s.step config derive event) := by
  cases event with
  | connect c name thrown =>
    unfold Manager.step
    dsimp only
    split
    · exact refl s
    · next hnew => exact connect hnew h.freshTask name thrown
  | advance t thrown => exact advance t thrown
  | getConnection =>
    show Progress s s.getUsableActiveConnection
    unfold Manager.getUsableActiveConnection
    split
    · exact refl s
    · split
      · exact of_eq rfl rfl
      · exact refl s
  | disconnectAll => exact of_eq rfl rfl
  | close connection => exact of_eq rfl rfl

end Progress

/-! ## Calls that fail -/

/-- An open connection is cached for a network. -/
def Manager.OpenCached (s : Manager) (name : JsString) (c : Nat) : Prop :=
  (name, c) ∈ s.connections ∧ s.isClosed c = false

structure Unchanged (s s' : Manager) : Prop where
  activeConnection : s'.activeConnection = s.activeConnection
  activeNamedAccounts : s'.activeNamedAccounts = s.activeNamedAccounts
  cached : ∀ name c, s'.OpenCached name c ↔ s.OpenCached name c

/-- The step is one of a call of `connect`. -/
def Event.Of (s : Manager) (c : Nat) : Event → Prop
  | .connect c' _ _ => c' = c
  | .advance t _ => ∃ task phase, s.tasks t = some (task, phase) ∧ task.owner = c
  | .getConnection | .disconnectAll | .close _ => False

/-- The call has thrown, or will throw what its promise is rejected with. -/
def Manager.Failed (s : Manager) (c : Nat) : Prop :=
  ∃ error, s.calls c = some (.threw error) ∨ ∃ t task, s.calls c = some (.awaits t) ∧
    (s.tasks t = some (task, .settling (.error error)) ∨
      s.tasks t = some (task, .settled (.error error)))

def Manager.Succeeded (s : Manager) (c : Nat) : Prop :=
  (∃ connection, s.calls c = some (.returned connection)) ∨
    ∃ t task phase, s.calls c = some (.awaits t) ∧ s.tasks t = some (task, phase) ∧
      phase.result ≠ none

theorem Manager.Succeeded.progress {c : Nat} (h : s.Succeeded c) (hprogress : Progress s s') :
    s'.Succeeded c := by
  rcases h with ⟨connection, hcall⟩ | ⟨t, task, phase, hcall, htask, hresult⟩
  · exact .inl ⟨connection, hprogress.calls c _ hcall⟩
  · obtain ⟨phase', htask', hkept⟩ := hprogress.tasks t task phase htask
    exact .inr ⟨t, task, phase', hprogress.calls c _ hcall, htask', hkept hresult⟩

theorem Manager.Succeeded.not_failed {c : Nat} (h : s.Succeeded c) : ¬s.Failed c := by
  rintro ⟨error, hthrew | ⟨t, task, hawaits, hphase⟩⟩
  · rcases h with ⟨connection, hcall⟩ | ⟨t, task, phase, hcall, -⟩
    · exact nomatch hcall.symm.trans hthrew
    · exact nomatch hcall.symm.trans hthrew
  · rcases h with ⟨connection, hcall⟩ | ⟨t', task', phase, hcall, htask, hresult⟩
    · exact nomatch hcall.symm.trans hawaits
    · obtain rfl := Call.awaits.inj (Option.some.inj (hcall.symm.trans hawaits))
      rcases hphase with hphase | hphase <;>
        obtain ⟨-, rfl⟩ := Prod.mk.inj (Option.some.inj (htask.symm.trans hphase)) <;>
        exact hresult rfl

/-- A task belongs to the call that awaits it. -/
def Manager.Owners (s : Manager) : Prop :=
  ∀ t task phase, s.tasks t = some (task, phase) → s.calls task.owner = some (.awaits t)

theorem Manager.Owners.progress (h : s.Owners) (hprogress : Progress s s') : s'.Owners := by
  intro t task phase ht
  rcases hprogress.owners t task phase ht with ⟨phase', hold⟩ | hnew
  · exact hprogress.calls _ _ (h t task phase' hold)
  · exact hnew

namespace Unchanged

theorem of_isClosed (hactive : s'.activeConnection = s.activeConnection)
    (haccounts : s'.activeNamedAccounts = s.activeNamedAccounts)
    (hconnections : s'.connections = s.connections)
    (hclosed : ∀ name c, (name, c) ∈ s.connections → s'.isClosed c = s.isClosed c) :
    Unchanged s s' := by
  refine ⟨hactive, haccounts, fun name c => ?_⟩
  unfold Manager.OpenCached
  rw [hconnections]
  exact and_congr_right fun hmem => by rw [hclosed name c hmem]

theorem of_eq (hactive : s'.activeConnection = s.activeConnection)
    (haccounts : s'.activeNamedAccounts = s.activeNamedAccounts)
    (hconnections : s'.connections = s.connections) (hcreated : s'.created = s.created) :
    Unchanged s s' :=
  of_isClosed hactive haccounts hconnections fun _ _ _ => by
    rw [Manager.isClosed, Manager.isClosed, hcreated]

theorem trans {s'' : Manager} (h : Unchanged s s') (h' : Unchanged s' s'') : Unchanged s s'' where
  activeConnection := h'.activeConnection.trans h.activeConnection
  activeNamedAccounts := h'.activeNamedAccounts.trans h.activeNamedAccounts
  cached name c := (h'.cached name c).trans (h.cached name c)

theorem resolveEntries {r : Manager} (h : Unchanged r s) (t : Nat) (task : Task) (c : Nat)
    (result : NamedAccounts) (entries : List (JsString × NamedEntry)) :
    Unchanged r (s.resolveEntries t task c result entries) := by
  refine h.trans ?_
  unfold Manager.resolveEntries
  split
  · exact of_eq rfl rfl rfl rfl
  · split
    · exact of_eq rfl rfl rfl rfl
    · exact of_eq rfl rfl rfl rfl

theorem advance (h : Sound config derive s) (howners : s.Owners) {t : Nat} {task : Task}
    {phase : Phase} (ht : s.tasks t = some (task, phase)) (thrown : Option JsString) :
    Unchanged s (s.advance derive t thrown) ∨ (s.advance derive t thrown).Succeeded task.owner := by
  unfold Manager.advance
  rw [ht]
  dsimp only
  split
  · exact .inl (of_eq rfl rfl rfl rfl)
  · split
    · exact .inl (of_eq rfl rfl rfl rfl)
    · split
      · exact .inl (of_eq rfl rfl rfl rfl)
      · exact .inl (resolveEntries (of_eq rfl rfl rfl rfl) ..)
  · exact .inr (.inr ⟨t, task, _, howners t task _ ht, Function.update_self .., nofun⟩)
  · next c error =>
    -- The connection that it closes is not cached.
    obtain ⟨hname, -, -, hnone⟩ := h.holds t task _ c ht rfl
    refine .inl (of_isClosed rfl rfl rfl fun name c' hmem => ?_)
    have hlookup := Fallible.lookup_of_mem h.keys hmem
    have hne : c' ≠ c := by
      rintro rfl
      obtain rfl := Option.some.inj (hname.symm.trans (h.cached name c' hlookup).1)
      exact nomatch hnone.symm.trans hlookup
    simp only [Manager.isClosed, Manager.setPhase, Manager.closeAll]
    cases s.created c' with
    | none => rfl
    | some connection => simp [hne]
  · exact .inl (of_eq rfl rfl rfl rfl)
  · exact .inl (of_eq rfl rfl rfl rfl)
  · exact .inl (of_eq rfl rfl rfl rfl)

theorem connectNew (h : Sound config derive s) (c : Nat) (name : JsString)
    (networkConfig : NetworkConfig) (thrown : Option JsString) :
    Unchanged s (s.connectNew config c name networkConfig thrown) := by
  unfold Manager.connectNew
  split
  · exact of_eq rfl rfl rfl rfl
  · dsimp only
    split
    · exact of_eq rfl rfl rfl rfl
    · -- The new connection is not cached.
      have hcreated : Unchanged s { s with
          created := Function.update s.created s.nextConnection (some ⟨name, false⟩) } := by
        refine of_isClosed rfl rfl rfl fun name' c' hmem => ?_
        obtain ⟨hname, -⟩ := h.cached name' c' (Fallible.lookup_of_mem h.keys hmem)
        obtain ⟨connection, hconnection, -⟩ := Option.map_eq_some_iff.mp hname
        have hne : c' ≠ s.nextConnection := Nat.ne_of_lt (h.created c' connection hconnection)
        show (Function.update s.created s.nextConnection _ c').any (·.closed) = s.isClosed c'
        rw [Function.update_of_ne hne, Manager.isClosed]
      refine hcreated.trans ?_
      unfold Manager.resolveForNetwork
      split
      · exact of_eq rfl rfl rfl rfl
      · refine resolveEntries ?_ ..
        exact of_eq rfl rfl rfl rfl

theorem connect (h : Sound config derive s) (c : Nat) (name thrown : Option JsString) :
    Unchanged s (s.connect config c name thrown) ∨ (s.connect config c name thrown).Succeeded c := by
  unfold Manager.connect
  dsimp only
  split
  · exact .inl (of_eq rfl rfl rfl rfl)
  · next networkConfig _ =>
    split
    · exact .inl (connectNew h ..)
    · next existing hexisting =>
      split
      · next hclosed =>
        have hdelete : Unchanged s { s with
            connections := delete s.connections (name.getD config.defaultNetwork) } := by
          refine ⟨rfl, rfl, fun name' c' => ⟨fun hopen => ?_, fun hopen => ?_⟩⟩
          · exact ⟨List.mem_of_mem_filter hopen.1, hopen.2⟩
          · refine ⟨List.mem_filter.mpr ⟨hopen.1, decide_eq_true fun heq => ?_⟩, hopen.2⟩
            have hlookup := Fallible.lookup_of_mem h.keys hopen.1
            dsimp only at heq
            rw [heq, hexisting] at hlookup
            rw [Option.some.inj hlookup] at hclosed
            exact nomatch hopen.2.symm.trans hclosed
        exact .inl (hdelete.trans (connectNew (h.deleteClosed hexisting hclosed) ..))
      · exact .inr (.inl ⟨existing, Function.update_self ..⟩)

theorem step {event : Event} {c : Nat} (h : Sound config derive s) (howners : s.Owners)
    (hof : event.Of s c) :
    Unchanged s (s.step config derive event) ∨ (s.step config derive event).Succeeded c := by
  cases event with
  | connect c' name thrown =>
    obtain rfl := hof
    unfold Manager.step
    dsimp only
    split
    · exact .inl (of_eq rfl rfl rfl rfl)
    · exact connect h c' name thrown
  | advance t thrown =>
    obtain ⟨task, phase, ht, rfl⟩ := hof
    exact advance h howners ht thrown
  | getConnection | disconnectAll | close => exact hof.elim

end Unchanged

/-! ## Runs -/

open Trace (exec exec_take_succ exec_drop_succ)

structure Reachable (config : Config) (derive : ResolveForNetworkOptions → JsString → JsString)
    (s : Manager) : Prop where
  sound : Sound config derive s
  owners : s.Owners

theorem Reachable.step (h : Reachable config derive s) (event : Event) :
    Reachable config derive (s.step config derive event) :=
  ⟨h.sound.step event, h.owners.progress (.step h.sound event)⟩

theorem reachable (config : Config) (derive : ResolveForNetworkOptions → JsString → JsString)
    (events : List Event) :
    Reachable config derive (exec (Manager.step config derive) .new events) :=
  List.foldlRecOn events _ ⟨Sound.new, nofun⟩ fun _ h event _ => h.step event

/-- What a call has come to stays so. -/
theorem Manager.Succeeded.exec {c : Nat} (h : s.Succeeded c) (hs : Reachable config derive s)
    (events : List Event) : (exec (Manager.step config derive) s events).Succeeded c := by
  induction events generalizing s with
  | nil => exact h
  | cons event events ih => exact ih (h.progress (.step hs.sound event)) (hs.step event)

structure Consistent (config : Config) (derive : ResolveForNetworkOptions → JsString → JsString)
    (s : Manager) : Prop where
  active : ∀ c, s.activeConnection = some c →
    ∃ name, s.nameOf c = some name ∧ Resolved config derive name s.activeNamedAccounts
  inactive : s.activeConnection = none → s.activeNamedAccounts = []
  one : ∀ name name' c c', s.OpenCached name c → s.OpenCached name' c' →
    s.nameOf c = s.nameOf c' → c = c'

theorem Sound.isConsistent (h : Sound config derive s) : Consistent config derive s := by
  refine ⟨h.active, h.inactive, fun name name' c c' hc hc' hnames => ?_⟩
  have hlookup := Fallible.lookup_of_mem h.keys hc.1
  have hlookup' := Fallible.lookup_of_mem h.keys hc'.1
  rw [(h.cached name c hlookup).1, (h.cached name' c' hlookup').1] at hnames
  obtain rfl := Option.some.inj hnames
  exact Option.some.inj (hlookup.symm.trans hlookup')

/-- **The manager is consistent, whatever calls overlap**: in every state of a run the active
accounts are those of the active connection's network and a network has one open cached connection
at most, and no step of a call of `connect` that fails changes what is active, or cached and open. -/
theorem consistent (config : Config) (derive : ResolveForNetworkOptions → JsString → JsString)
    (events : List Event) :
    Consistent config derive (exec (Manager.step config derive) .new events) ∧
    ∀ c k event, (exec (Manager.step config derive) .new events).Failed c → events[k]? = some event →
      event.Of (exec (Manager.step config derive) .new (events.take k)) c →
      Unchanged (exec (Manager.step config derive) .new (events.take k))
        (exec (Manager.step config derive) .new (events.take (k + 1))) := by
  refine ⟨(reachable config derive events).sound.isConsistent, fun c k event hfailed hevent hof => ?_⟩
  have hbefore := reachable config derive (events.take k)
  rw [exec_take_succ hevent]
  refine (Unchanged.step hbefore.sound hbefore.owners hof).resolve_right fun hsucceeded => ?_
  -- It would have succeeded in the end.
  have hend := hsucceeded.exec (hbefore.step event) (events.drop (k + 1))
  rw [exec_drop_succ hevent] at hend
  exact hend.not_failed hfailed

/-- A network with an account, and one without. -/
def twoNetworks : Config where
  defaultNetwork := js "a"
  networks := [(js "a", .devnode (js "h") (js "n")), (js "b", .http (js "e") (js "n") none)]
  namedAccounts := [(js "u", ⟨[(js "a", .index 0)], none⟩)]

/-- An address for a private key. -/
def prefixed (_ : ResolveForNetworkOptions) (privateKey : JsString) : JsString :=
  js "aleo1" ++ privateKey

/-- The second of two calls fails. -/
def secondFails : List Event :=
  [.connect 0 none none, .advance 0 none, .connect 1 (some (js "b")) none, .advance 0 none, .advance 1 none,
    .advance 1 none]

/-- The call closes its connection, with the active one as it was. -/
theorem consistent_secondFails :
    (exec (Manager.step twoNetworks prefixed) .new (secondFails.take 4)).activeConnection = some 0 ∧
    Unchanged (exec (Manager.step twoNetworks prefixed) .new (secondFails.take 4))
      (exec (Manager.step twoNetworks prefixed) .new (secondFails.take 5)) :=
  ⟨rfl, (consistent twoNetworks prefixed secondFails).2 1 4 (.advance 1 none)
    ⟨_, .inr ⟨1, _, rfl, .inl rfl⟩⟩ rfl ⟨_, _, rfl, rfl⟩⟩

end Lionden.Network.Connect
