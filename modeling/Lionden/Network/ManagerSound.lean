import Lionden.Lib.Fallible
import Lionden.Network.Manager

/-!
# What holds of the network manager

* `Sound`: which connection and which accounts are whose, and who closes a connection.
* `Sound.step`: every event keeps it.
-/

namespace Lionden.Network.Connect

variable {config : Config} {derive : ResolveForNetworkOptions → JsString → JsString} {s : Manager}

/-! ## Maps -/

section Maps

variable {α : Type} {map : List (JsString × α)} {key key' : JsString} {value : α}

@[simp, grind =]
theorem lookup_delete : (delete map key).lookup key' = if key' = key then none else map.lookup key' := by
  split
  · next heq =>
    subst heq
    exact Fallible.lookup_none.mpr fun value hvalue => by simpa using (List.mem_filter.mp hvalue).2
  · next hne => exact Fallible.lookup_filter_ne hne

@[simp, grind =]
theorem lookup_set :
    (set map key value).lookup key' = if key' = key then some value else map.lookup key' := by
  unfold set
  split
  · next heq => rw [List.lookup_cons, beq_iff_eq.mpr heq]
  · next hne => rw [List.lookup_cons, beq_eq_false_iff_ne.mpr hne, lookup_delete, if_neg hne]

theorem nodup_delete (h : (map.map (·.1)).Nodup) : ((delete map key).map (·.1)).Nodup :=
  h.sublist (List.filter_sublist.map _)

theorem nodup_set (h : (map.map (·.1)).Nodup) : ((set map key value).map (·.1)).Nodup := by
  refine List.nodup_cons.mpr ⟨fun hmem => ?_, nodup_delete h⟩
  obtain ⟨entry, hentry, hkey⟩ := List.mem_map.mp hmem
  simpa [hkey] using (List.mem_filter.mp hentry).2

end Maps

/-! ## What is resolved -/

/-- The account of an entry, for a network. -/
def Resolves (derive : ResolveForNetworkOptions → JsString → JsString) (networkName : JsString)
    (networkConfig : NetworkConfig) (named : JsString × NamedEntry)
    (account : JsString × NamedAccount) : Prop :=
  account.1 = named.1 ∧ ∃ value, named.2.valueFor networkName = some value ∧
    resolveValue (fun privateKey => .ok (derive (resolveOptions networkName networkConfig) privateKey))
      named.1 value (resolveOptions networkName networkConfig) = .ok account.2

/-- The accounts are those of the network. -/
def Resolved (config : Config) (derive : ResolveForNetworkOptions → JsString → JsString)
    (networkName : JsString) (accounts : NamedAccounts) : Prop :=
  ∃ networkConfig, config.networks.lookup networkName = some networkConfig ∧
    List.Forall₂ (Resolves derive networkName networkConfig) config.namedAccounts accounts

theorem resolveValue_ok {accountName : JsString} {value : NamedValue} {account : NamedAccount}
    {opts : ResolveForNetworkOptions} {thrown : Option JsString}
    (h : resolveValue (fun privateKey => match thrown with
      | some error => .error error
      | none => .ok (derive opts privateKey)) accountName value opts = .ok account) :
    resolveValue (fun privateKey => .ok (derive opts privateKey)) accountName value opts =
      .ok account := by
  cases value with
  | index | address => exact h
  | privateKey privateKey =>
    cases thrown with
    | none => exact h
    | some error => exact nomatch h

/-! ## State -/

/-- The connection that is not the manager's yet. -/
@[simp, grind =]
def Phase.holds : Phase → Option Nat
  | resolving connection _ _ | resolved connection _ | threw connection _ => some connection
  | closing _ | settling _ | settled _ => none

/-- What has been resolved is right. -/
def Phase.Right (config : Config) (derive : ResolveForNetworkOptions → JsString → JsString)
    (task : Task) : Phase → Prop
  | resolving _ result entries => ∃ done, config.namedAccounts = done ++ entries ∧
      List.Forall₂ (Resolves derive task.networkName task.networkConfig) done result
  | resolved _ accounts => Resolved config derive task.networkName accounts
  | threw .. | closing _ | settling _ | settled _ => True

@[grind]
def Manager.nameOf (s : Manager) (connection : Nat) : Option JsString :=
  (s.created connection).map (·.name)

structure Sound (config : Config) (derive : ResolveForNetworkOptions → JsString → JsString)
    (s : Manager) : Prop where
  tasks : ∀ t entry, s.tasks t = some entry → t < s.nextTask
  created : ∀ c connection, s.created c = some connection → c < s.nextConnection
  keys : (s.connections.map (·.1)).Nodup
  -- Accounts are resolved for the network under whose name they are.
  configured : ∀ t task phase, s.tasks t = some (task, phase) →
    config.networks.lookup task.networkName = some task.networkConfig ∧
      phase.Right config derive task
  cache : ∀ name accounts, s.cache.lookup name = some accounts →
    Resolved config derive name accounts
  resolvedCache : ∀ name accounts, s.resolvedNamedAccountsCache.lookup name = some accounts →
    Resolved config derive name accounts
  cached : ∀ name c, s.connections.lookup name = some c →
    s.nameOf c = some name ∧ s.resolvedNamedAccountsCache.lookup name ≠ none
  active : ∀ c, s.activeConnection = some c →
    ∃ name, s.nameOf c = some name ∧ Resolved config derive name s.activeNamedAccounts
  inactive : s.activeConnection = none → s.activeNamedAccounts = []
  -- One task for a network makes a connection, and the manager has none for it.
  holds : ∀ t task phase c, s.tasks t = some (task, phase) → phase.holds = some c →
    s.nameOf c = some task.networkName ∧ s.activeConnection ≠ some c ∧
      s.inFlightConnects.lookup task.networkName = some t ∧
      s.connections.lookup task.networkName = none
  -- An open connection is the manager's or a task's.
  owned : ∀ c connection, s.created c = some connection → connection.closed = false →
    s.connections.lookup connection.name = some c ∨
      ∃ t task phase, s.tasks t = some (task, phase) ∧ phase.holds = some c

attribute [local grind =] Function.update_apply

theorem Manager.resolveForNetwork_setPhase (config : Config) (s : Manager) (t : Nat) (task : Task)
    (phase : Phase) (c : Nat) :
    (s.setPhase t task phase).resolveForNetwork config t task c =
      s.resolveForNetwork config t task c := by
  have hset (phase' : Phase) :
      (s.setPhase t task phase).setPhase t task phase' = s.setPhase t task phase' := by
    simp only [setPhase, Function.update_idem]
  unfold resolveForNetwork resolveEntries
  simp only [hset]
  rfl

namespace Sound

theorem new : Sound config derive .new := by
  constructor
  case keys => exact List.nodup_nil
  case inactive => exact fun _ => rfl
  all_goals nofun

theorem setCall (h : Sound config derive s) (c : Nat) (call : Call) :
    Sound config derive (s.setCall c call) := { h with }

/-- Connections are closed that no task holds. -/
theorem closeAll (h : Sound config derive s) (connections : List Nat) :
    Sound config derive (s.closeAll connections) := by
  have hname (c : Nat) : (s.closeAll connections).nameOf c = s.nameOf c := by
    unfold Manager.closeAll Manager.nameOf
    simp [Option.map_map, Function.comp_def]
  obtain ⟨tasks, created, keys, configured, cache, resolvedCache, cached, active, inactive, holds,
    owned⟩ := h
  constructor
  case created =>
    intro c connection hc
    obtain ⟨old, hold, -⟩ := Option.map_eq_some_iff.mp hc
    exact created c old hold
  case cached => exact fun name c hc => hname c ▸ cached name c hc
  case active => exact fun c hc => hname c ▸ active c hc
  case holds => exact fun t task phase c ht hc => hname c ▸ holds t task phase c ht hc
  case owned =>
    intro c connection hc hopen
    obtain ⟨old, hold, rfl⟩ := Option.map_eq_some_iff.mp hc
    exact owned c old hold (Bool.or_eq_false_iff.mp hopen).1
  all_goals assumption

/-! ## Tasks -/

/-- A task goes on, with its connection or without. -/
theorem setPhase {t : Nat} {task : Task} {phase phase' : Phase} (h : Sound config derive s)
    (ht : s.tasks t = some (task, phase)) (hright : phase'.Right config derive task)
    (hholds : ∀ c, phase'.holds = some c → phase.holds = some c)
    (hdrops : ∀ c, phase.holds = some c → phase'.holds = some c ∨ s.isClosed c = true) :
    Sound config derive (s.setPhase t task phase') := by
  obtain ⟨tasks, created, keys, configured, cache, resolvedCache, cached, active, inactive, holds,
    owned⟩ := h
  unfold Manager.setPhase
  constructor
  case owned =>
    intro c connection hc hopen
    rcases owned c connection hc hopen with hcached | ⟨t', task', phase'', ht', hc'⟩
    · exact .inl hcached
    · by_cases heq : t' = t
      · subst heq
        obtain ⟨rfl, rfl⟩ := Prod.mk.inj (Option.some.inj (ht'.symm.trans ht))
        rcases hdrops c hc' with hkept | hclosed
        · exact .inr ⟨t', task', phase', Function.update_self .., hkept⟩
        · rw [Manager.isClosed, hc, Option.any_some, hopen] at hclosed
          exact nomatch hclosed
      · exact .inr ⟨t', task', phase'', (Function.update_of_ne heq ..).trans ht', hc'⟩
  all_goals dsimp only; grind

/-- The accounts of a network are cached. -/
theorem setCache {name : JsString} {accounts : NamedAccounts} (h : Sound config derive s)
    (haccounts : Resolved config derive name accounts) :
    Sound config derive { s with cache := set s.cache name accounts } := by
  refine { h with cache := ?_ }
  have hcache := h.cache
  dsimp only
  grind

theorem resolveEntries {t : Nat} {task : Task} {phase : Phase} {c : Nat} {result : NamedAccounts}
    {entries : List (JsString × NamedEntry)} (h : Sound config derive s)
    (ht : s.tasks t = some (task, phase)) (hholds : phase.holds = some c)
    (hright : (Phase.resolving c result entries).Right config derive task) :
    Sound config derive (s.resolveEntries t task c result entries) := by
  have hsame (phase' : Phase) (hholds' : phase'.holds = some c)
      (hright' : phase'.Right config derive task) :
      Sound config derive (s.setPhase t task phase') :=
    h.setPhase ht hright' (fun _ hc => hholds.trans (hholds'.symm.trans hc))
      fun _ hc => .inl (hholds'.trans (hholds.symm.trans hc))
  cases entries with
  | nil =>
    obtain ⟨done, hdone, hresult⟩ := hright
    rw [List.append_nil] at hdone
    have hresolved : Resolved config derive task.networkName result :=
      ⟨_, (h.configured t task phase ht).1, hdone ▸ hresult⟩
    exact (hsame (.resolved c result) rfl hresolved).setCache hresolved
  | cons named entries =>
    obtain ⟨accountName, entry⟩ := named
    unfold Manager.resolveEntries
    dsimp only
    split
    · exact hsame (.threw c _) rfl trivial
    · exact hsame (.resolving c result _) rfl hright

/-- A new task looks for the accounts in the cache. -/
theorem resolveForNetwork {t : Nat} {task : Task} {c : Nat} (h : Sound config derive s)
    (ht : s.tasks t = some (task, .resolving c [] config.namedAccounts)) :
    Sound config derive (s.resolveForNetwork config t task c) := by
  unfold Manager.resolveForNetwork
  split
  · next accounts haccounts =>
    exact h.setPhase ht (h.cache _ _ haccounts) (fun _ hc => hc) fun _ hc => .inl hc
  · exact h.resolveEntries ht rfl (h.configured t task _ ht).2

/-- The connection and the accounts of a task become the active ones. -/
theorem install {t : Nat} {task : Task} {c : Nat} {accounts : NamedAccounts}
    (h : Sound config derive s) (ht : s.tasks t = some (task, .resolved c accounts)) :
    Sound config derive { s.setPhase t task (.settling (.ok c)) with
      connections := set s.connections task.networkName c
      activeConnection := some c
      resolvedNamedAccountsCache := set s.resolvedNamedAccountsCache task.networkName accounts
      activeNamedAccounts := accounts } := by
  have hresolved : Resolved config derive task.networkName accounts := (h.configured t task _ ht).2
  obtain ⟨hname, hinactive, hinFlight, hnone⟩ := h.holds t task _ c ht rfl
  -- No other task holds it.
  have hother {t' : Nat} {task' : Task} {phase' : Phase} (ht' : s.tasks t' = some (task', phase'))
      (hne : t' ≠ t) {c' : Nat} (hc' : phase'.holds = some c') :
      task'.networkName ≠ task.networkName ∧ c' ≠ c := by
    obtain ⟨hname', -, hinFlight', -⟩ := h.holds t' task' phase' c' ht' hc'
    have hnames : task'.networkName ≠ task.networkName := fun heq =>
      hne (Option.some.inj (hinFlight'.symm.trans (heq ▸ hinFlight)))
    refine ⟨hnames, ?_⟩
    rintro rfl
    exact hnames (Option.some.inj (hname'.symm.trans hname))
  obtain ⟨tasks, created, keys, configured, cache, resolvedCache, cached, active, inactive, holds,
    owned⟩ := h
  unfold Manager.setPhase
  constructor
  case keys => exact nodup_set keys
  case configured =>
    intro t' task' phase' ht'
    by_cases heq : t' = t
    · dsimp only at ht'
      rw [heq, Function.update_self] at ht'
      obtain ⟨rfl, rfl⟩ := Prod.mk.inj (Option.some.inj ht')
      exact ⟨(configured t task _ ht).1, trivial⟩
    · exact configured t' task' phase' ((Function.update_of_ne heq ..).symm.trans ht')
  case holds =>
    intro t' task' phase' c' ht' hc'
    by_cases heq : t' = t
    · dsimp only at ht'
      rw [heq, Function.update_self] at ht'
      obtain ⟨rfl, rfl⟩ := Prod.mk.inj (Option.some.inj ht')
      exact nomatch hc'
    · replace ht' : s.tasks t' = some (task', phase') :=
        (Function.update_of_ne heq ..).symm.trans ht'
      obtain ⟨hname', -, hinFlight', hnone'⟩ := holds t' task' phase' c' ht' hc'
      obtain ⟨hnames, hne⟩ := hother ht' heq hc'
      refine ⟨hname', fun hactive => hne (Option.some.inj hactive).symm, hinFlight', ?_⟩
      rw [lookup_set, if_neg hnames]
      exact hnone'
  case owned =>
    intro c' connection hc' hopen
    rcases owned c' connection hc' hopen with hcached | ⟨t', task', phase', ht', hholds⟩
    · refine .inl ?_
      rw [lookup_set, if_neg fun heq => by simp [heq, hnone] at hcached]
      exact hcached
    · by_cases heq : t' = t
      · subst heq
        obtain ⟨rfl, rfl⟩ := Prod.mk.inj (Option.some.inj (ht'.symm.trans ht))
        obtain rfl := Option.some.inj hholds
        rw [Manager.nameOf, hc', Option.map_some] at hname
        refine .inl ?_
        rw [lookup_set, if_pos (Option.some.inj hname)]
      · exact .inr ⟨t', task', phase', (Function.update_of_ne heq ..).trans ht', hholds⟩
  all_goals dsimp only; grind

theorem advance (h : Sound config derive s) (t : Nat) (thrown : Option JsString) :
    Sound config derive (s.advance derive t thrown) := by
  unfold Manager.advance
  split
  · exact h
  · next task phase ht =>
    obtain ⟨hconfig, hright⟩ := h.configured t task phase ht
    split
    · exact h
    · next c result accountName entry entries =>
      dsimp only
      split
      · exact h
      · next value hvalue =>
        split
        · exact h.setPhase ht trivial (fun _ hc => hc) fun _ hc => .inl hc
        · next account haccount =>
          obtain ⟨done, hdone, hresult⟩ := hright
          refine h.resolveEntries ht rfl ⟨done ++ [(accountName, entry)], by simp [hdone], ?_⟩
          exact List.rel_append hresult
            (.cons ⟨rfl, value, hvalue, resolveValue_ok haccount⟩ .nil)
    · exact h.install ht
    · next c error =>
      refine (h.closeAll [c]).setPhase ht trivial nofun fun c' hc' => .inr ?_
      obtain rfl := Option.some.inj hc'
      obtain ⟨hname, -⟩ := h.holds t task _ c ht rfl
      obtain ⟨connection, hconnection, -⟩ := Option.map_eq_some_iff.mp hname
      simp [Manager.isClosed, Manager.closeAll, hconnection]
    · exact h.setPhase ht trivial nofun nofun
    · next result =>
      have hphase : Sound config derive (s.setPhase t task (.settled result)) :=
        h.setPhase ht trivial nofun nofun
      refine { hphase with holds := fun t' task' phase' c ht' hc => ?_ }
      obtain ⟨hname, hinactive, hinFlight, hnone⟩ := hphase.holds t' task' phase' c ht' hc
      refine ⟨hname, hinactive, ?_, hnone⟩
      dsimp only
      split
      · next hown =>
        have hnames : task'.networkName ≠ task.networkName := by
          intro heq
          have hsame : t' = t := by
            rw [heq] at hinFlight
            exact Option.some.inj (hinFlight.symm.trans hown)
          rw [hsame, Manager.setPhase] at ht'
          dsimp only at ht'
          rw [Function.update_self] at ht'
          obtain ⟨-, rfl⟩ := Prod.mk.inj (Option.some.inj ht')
          exact nomatch hc
        rw [lookup_delete, if_neg hnames]
        exact hinFlight
      · exact hinFlight
    · exact h

/-! ## Calls of `connect` -/

theorem freshTask (h : Sound config derive s) : s.tasks s.nextTask = none := by
  cases htask : s.tasks s.nextTask with
  | none => rfl
  | some entry => exact absurd (h.tasks _ _ htask) (lt_irrefl _)

/-- A task that makes a connection. -/
theorem start {name : JsString} {networkConfig : NetworkConfig} (h : Sound config derive s)
    (owner : Nat) (hconfig : config.networks.lookup name = some networkConfig)
    (hnone : s.connections.lookup name = none) (hinFlight : s.inFlightConnects.lookup name = none) :
    Sound config derive { s with
      nextTask := s.nextTask + 1
      inFlightConnects := set s.inFlightConnects name s.nextTask
      created := Function.update s.created s.nextConnection (some ⟨name, false⟩)
      nextConnection := s.nextConnection + 1
      tasks := Function.update s.tasks s.nextTask
        (some (⟨owner, name, networkConfig⟩, .resolving s.nextConnection [] config.namedAccounts)) } := by
  have hfreshTask := h.freshTask
  have hfresh : s.created s.nextConnection = none := by
    cases hcreated : s.created s.nextConnection with
    | none => rfl
    | some connection => exact absurd (h.created _ _ hcreated) (lt_irrefl _)
  -- The connections that there were keep their names.
  have hname {c : Nat} {own : JsString} (hown : s.nameOf c = some own) :
      c ≠ s.nextConnection ∧
        (Function.update s.created s.nextConnection (some ⟨name, false⟩) c).map (·.name) = some own := by
    have hne : c ≠ s.nextConnection := by
      rintro rfl
      rw [Manager.nameOf, hfresh] at hown
      exact nomatch hown
    exact ⟨hne, by rw [Function.update_of_ne hne]; exact hown⟩
  obtain ⟨tasks, created, keys, configured, cache, resolvedCache, cached, active, inactive, holds,
    owned⟩ := h
  constructor
  case configured =>
    intro t task phase ht
    by_cases hnew : t = s.nextTask
    · dsimp only at ht
      rw [hnew, Function.update_self] at ht
      obtain ⟨rfl, rfl⟩ := Prod.mk.inj (Option.some.inj ht)
      exact ⟨hconfig, [], rfl, .nil⟩
    · exact configured t task phase ((Function.update_of_ne hnew ..).symm.trans ht)
  case active =>
    intro c hc
    obtain ⟨own, hown, hresolved⟩ := active c hc
    exact ⟨own, (hname hown).2, hresolved⟩
  case cached => exact fun own c hc => ⟨(hname (cached own c hc).1).2, (cached own c hc).2⟩
  case holds =>
    intro t task phase c ht hc
    by_cases hnew : t = s.nextTask
    · dsimp only at ht
      rw [hnew, Function.update_self] at ht
      obtain ⟨rfl, rfl⟩ := Prod.mk.inj (Option.some.inj ht)
      obtain rfl := Option.some.inj hc
      refine ⟨by simp [Manager.nameOf], fun hactive => ?_, by simp [hnew], hnone⟩
      obtain ⟨own, hown, -⟩ := active _ hactive
      exact (hname hown).1 rfl
    · obtain ⟨hown, hinactive, hother, hnone'⟩ :=
        holds t task phase c ((Function.update_of_ne hnew ..).symm.trans ht) hc
      refine ⟨(hname hown).2, hinactive, ?_, hnone'⟩
      rw [lookup_set, if_neg fun heq => by simp [heq, hinFlight] at hother]
      exact hother
  case owned =>
    intro c connection hc hopen
    by_cases hnew : c = s.nextConnection
    · exact .inr ⟨s.nextTask, _, _, Function.update_self .., congrArg some hnew.symm⟩
    · rcases owned c connection ((Function.update_of_ne hnew ..).symm.trans hc) hopen with
        hcached | ⟨t, task, phase, ht, hholds⟩
      · exact .inl hcached
      · have hne : t ≠ s.nextTask := by
          rintro rfl
          exact nomatch hfreshTask.symm.trans ht
        exact .inr ⟨t, task, phase, (Function.update_of_ne hne ..).trans ht, hholds⟩
  all_goals dsimp only; grind

/-- A task whose connection cannot be created. -/
theorem startFailed {name : JsString} {networkConfig : NetworkConfig} (h : Sound config derive s)
    (owner : Nat) (error : JsString)
    (hconfig : config.networks.lookup name = some networkConfig)
    (hinFlight : s.inFlightConnects.lookup name = none) :
    Sound config derive { s with
      nextTask := s.nextTask + 1
      inFlightConnects := set s.inFlightConnects name s.nextTask
      tasks := Function.update s.tasks s.nextTask
        (some (⟨owner, name, networkConfig⟩, .settling (.error error))) } := by
  have hfreshTask := h.freshTask
  obtain ⟨tasks, created, keys, configured, cache, resolvedCache, cached, active, inactive, holds,
    owned⟩ := h
  constructor
  case configured =>
    intro t task phase ht
    by_cases hnew : t = s.nextTask
    · dsimp only at ht
      rw [hnew, Function.update_self] at ht
      obtain ⟨rfl, rfl⟩ := Prod.mk.inj (Option.some.inj ht)
      exact ⟨hconfig, trivial⟩
    · exact configured t task phase ((Function.update_of_ne hnew ..).symm.trans ht)
  case holds =>
    intro t task phase c ht hc
    by_cases hnew : t = s.nextTask
    · dsimp only at ht
      rw [hnew, Function.update_self] at ht
      obtain ⟨rfl, rfl⟩ := Prod.mk.inj (Option.some.inj ht)
      exact nomatch hc
    · obtain ⟨hown, hinactive, hother, hnone'⟩ :=
        holds t task phase c ((Function.update_of_ne hnew ..).symm.trans ht) hc
      refine ⟨hown, hinactive, ?_, hnone'⟩
      rw [lookup_set, if_neg fun heq => by simp [heq, hinFlight] at hother]
      exact hother
  case owned =>
    intro c connection hc hopen
    rcases owned c connection hc hopen with hcached | ⟨t, task, phase, ht, hholds⟩
    · exact .inl hcached
    · have hne : t ≠ s.nextTask := by
        rintro rfl
        exact nomatch hfreshTask.symm.trans ht
      exact .inr ⟨t, task, phase, (Function.update_of_ne hne ..).trans ht, hholds⟩
  all_goals dsimp only; grind

theorem connectNew {c : Nat} {name : JsString} {networkConfig : NetworkConfig}
    {thrown : Option JsString} (h : Sound config derive s)
    (hconfig : config.networks.lookup name = some networkConfig)
    (hnone : s.connections.lookup name = none) :
    Sound config derive (s.connectNew config c name networkConfig thrown) := by
  unfold Manager.connectNew
  split
  · exact h.setCall c _
  · next hinFlight =>
    have hcall := h.setCall c (.awaits s.nextTask)
    split
    · next error => exact hcall.startFailed c error hconfig hinFlight
    · have hstart := hcall.start c hconfig hnone hinFlight
      -- The state of the task is set again.
      rw [← Manager.resolveForNetwork_setPhase]
      exact hstart.resolveForNetwork (Function.update_self ..)

/-- A closed connection is not cached any more. -/
theorem deleteClosed {name : JsString} {c : Nat} (h : Sound config derive s)
    (hcached : s.connections.lookup name = some c) (hclosed : s.isClosed c = true) :
    Sound config derive { s with connections := delete s.connections name } := by
  obtain ⟨tasks, created, keys, configured, cache, resolvedCache, cached, active, inactive, holds,
    owned⟩ := h
  constructor
  case keys => exact nodup_delete keys
  case cached =>
    dsimp only
    grind
  case holds =>
    intro t task phase c' ht hc'
    obtain ⟨hname, hinactive, hinFlight, hnone⟩ := holds t task phase c' ht hc'
    exact ⟨hname, hinactive, hinFlight, by simp [hnone]⟩
  case owned =>
    intro c' connection hc' hopen
    refine (owned c' connection hc' hopen).imp_left fun hlookup => ?_
    rw [lookup_delete, if_neg]
    · exact hlookup
    · intro heq
      obtain rfl := Option.some.inj (hcached.symm.trans (heq ▸ hlookup))
      rw [Manager.isClosed, hc', Option.any_some, hopen] at hclosed
      exact nomatch hclosed
  all_goals assumption

theorem connect (h : Sound config derive s) (c : Nat) (name thrown : Option JsString) :
    Sound config derive (s.connect config c name thrown) := by
  unfold Manager.connect
  dsimp only
  split
  · exact h.setCall c _
  · next networkConfig hconfig =>
    split
    · next hnone => exact h.connectNew hconfig hnone
    · next existing hexisting =>
      split
      · next hclosed =>
        exact (h.deleteClosed hexisting hclosed).connectNew hconfig (by simp)
      · obtain ⟨hname, hsome⟩ := h.cached _ _ hexisting
        obtain ⟨accounts, haccounts⟩ := Option.ne_none_iff_exists'.mp hsome
        have hresolved := h.resolvedCache _ _ haccounts
        have hcall := h.setCall c (.returned existing)
        refine { hcall with
          active := fun c' hc' => ?_
          inactive := nofun
          holds := fun t task phase c' ht hc' => ?_ }
        · obtain rfl := Option.some.inj hc'
          exact ⟨_, hname, by rw [haccounts]; exact hresolved⟩
        · obtain ⟨hown, -, hinFlight, hnone⟩ := h.holds t task phase c' ht hc'
          refine ⟨hown, fun hactive => ?_, hinFlight, hnone⟩
          obtain rfl := Option.some.inj hactive
          rw [Option.some.inj (hown.symm.trans hname), hexisting] at hnone
          exact nomatch hnone

/-! ## The other calls -/

theorem deactivate (h : Sound config derive s) :
    Sound config derive { s with activeConnection := none, activeNamedAccounts := [] } :=
  { h with
    active := nofun
    inactive := fun _ => rfl
    holds := fun t task phase c ht hc =>
      ⟨(h.holds t task phase c ht hc).1, nofun, (h.holds t task phase c ht hc).2.2⟩ }

theorem getUsableActiveConnection (h : Sound config derive s) :
    Sound config derive s.getUsableActiveConnection := by
  unfold Manager.getUsableActiveConnection
  split
  · exact h
  · next active hactive =>
    split
    · next hclosed =>
      split
      · exact h.deactivate
      · next connection hconnection =>
        split
        · next hcached => exact (h.deleteClosed hcached hclosed).deactivate
        · exact h.deactivate
    · exact h

theorem disconnectAll (h : Sound config derive s) : Sound config derive s.disconnectAll := by
  have hclosed := (h.closeAll (s.connections.map (·.2))).deactivate
  refine { hclosed with
    keys := List.nodup_nil
    cache := nofun
    resolvedCache := nofun
    cached := nofun
    holds := fun t task phase c ht hc => ?_
    owned := fun c connection hc hopen => .inr ?_ }
  · obtain ⟨hname, hinactive, hinFlight, -⟩ := hclosed.holds t task phase c ht hc
    exact ⟨hname, hinactive, hinFlight, rfl⟩
  · refine (hclosed.owned c connection hc hopen).resolve_left fun hlookup => ?_
    -- It would have been closed.
    have hmem : c ∈ s.connections.map (·.2) := List.mem_map_of_mem (Fallible.mem_of_lookup hlookup)
    obtain ⟨old, -, rfl⟩ := Option.map_eq_some_iff.mp hc
    simp [hmem] at hopen

theorem step (h : Sound config derive s) (event : Event) :
    Sound config derive (s.step config derive event) := by
  cases event with
  | connect c name thrown =>
    unfold Manager.step
    dsimp only
    split
    · exact h
    · exact h.connect c name thrown
  | advance t thrown => exact h.advance t thrown
  | getConnection => exact h.getUsableActiveConnection
  | disconnectAll => exact h.disconnectAll
  | close connection => exact h.closeAll [connection]

end Sound

end Lionden.Network.Connect
