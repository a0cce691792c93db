import Lionden.Core.Dispatches

/-!
# Lazy hook categories resolve once

* `Category.MayHappen`: nothing is dispatched from within the first factory that a resolution calls.
* `Category.Inv.step`: what holds of a category at all times is kept by every such event.
* `lazy_hooks_resolve_once`: the result about a whole run of such events.
* `factory_succeeds_twice`: without the condition, a factory can be called within itself.
-/

namespace Lionden.Core.Hooks

open Trace

variable {H V : Type}

namespace Category

variable {registered : List (Entry H)} {s s' : Category H V} {d r : Nat}

/-- What holds of a category at all times. -/
structure Inv (registered : List (Entry H)) (s : Category H V) : Prop where
  single : s.calling.tail = []
  sound : s.factories.Sound registered
  waiting : s.Waiting
  ran : s.Ran

theorem Inv.start (registered : List (Entry H)) :
    Inv registered ({ entries := registered } : Category H V) where
  single := rfl
  sound :=
    { ordered := by
        refine ⟨fun _ _ => rfl, fun r => ⟨nofun, ?_⟩, ?_, nofun, ?_⟩
        · rintro ⟨_, ⟨⟩, -⟩
        · rintro r i ⟨_, ⟨⟩, -⟩
        · rintro r (⟨⟨⟩⟩ | ⟨i, _, ⟨⟩, -⟩)
      progress := by
        refine ⟨?_, nofun, nofun, nofun, nofun⟩
        rintro r i ⟨_, ⟨⟩, -⟩
      given := by
        refine ⟨nofun, nofun, fun i => Nat.zero_le 1, rfl, fun i entry h => .inl h⟩ }
  waiting := by
    refine ⟨fun _ _ => rfl, nofun, ?_, nofun, nofun, nofun, nofun, nofun, nofun, nofun⟩
    rintro r i ⟨_, ⟨⟩, -⟩
  ran := ⟨fun _ _ => rfl, nofun⟩

/-! ## A dispatch starts -/

/-- The dispatch is there, and has done nothing. -/
def started (s : Category H V) (dispatch : Dispatch H V) : Category H V :=
  { s with
    next := s.next + 1
    dispatches := Function.update s.dispatches s.next (some dispatch) }

theorem stage_of_update {stage : Stage H V} {reactions : List Nat}
    (h : s'.resolutions = Function.update s.resolutions r (some ⟨stage, reactions⟩)) (n : Nat) :
    s'.stage n = if n = r then some stage else s.stage n := by
  rw [Category.stage, h, Function.update_apply]
  split <;> rfl

theorem reactions_of_update {stage : Stage H V} {reactions : List Nat}
    (h : s'.resolutions = Function.update s.resolutions r (some ⟨stage, reactions⟩)) (n : Nat) :
    s'.reactions n = if n = r then reactions else s.reactions n := by
  rw [Category.reactions, h, Function.update_apply]
  by_cases hn : n = r
  · rw [if_pos hn, if_pos hn]
  · rw [if_neg hn, if_neg hn]
    rfl

theorem reactions_of_none (h : s.stage r = none) : s.reactions r = [] := by
  rw [Category.reactions, Option.map_eq_none_iff.mp h]

theorem started_phase (dispatch : Dispatch H V) (n : Nat) :
    (s.started dispatch).phase n = if n = s.next then some dispatch.phase else s.phase n := by
  rw [Category.phase, started]
  simp only [Function.update_apply]
  split <;> rfl

theorem started_setPhase (dispatch : Dispatch H V) (phase : Phase H V) :
    (s.started dispatch).setPhase s.next phase = s.started { dispatch with phase } := by
  simp [started, setPhase]

theorem started_unstarted (h : s.Waiting) {dispatch : Dispatch H V}
    (hdispatch : dispatch.phase.isUnstarted) (n : Nat) :
    (s.started dispatch).dispatches n = s.dispatches n ∨
      (∀ phase, s.phase n = some phase → phase.isUnstarted) ∧
        ∀ phase, (s.started dispatch).phase n = some phase → phase.isUnstarted := by
  by_cases hn : n = s.next
  · right
    rw [started_phase, if_pos hn, hn, h.fresh s.next (Nat.le_refl _)]
    exact ⟨nofun, fun phase heq => Option.some.inj heq ▸ hdispatch⟩
  · exact .inl (Function.update_of_ne hn ..)

theorem await_settled {outcome : Option (Failure V)}
    (h : s.stage r = some (.settled outcome)) :
    s.await d r = s.proceed d (.settled outcome r) := by
  obtain ⟨⟨_, reactions⟩, hr, rfl⟩ := Option.map_eq_some_iff.mp h
  simp [await, hr]

theorem await_pending {stage : Stage H V} (h : s.stage r = some stage)
    (hstage : ∀ outcome, stage ≠ .settled outcome) :
    s.await d r = { s.setPhase d (.awaiting r) with
      resolutions := Function.update s.resolutions r (some ⟨stage, s.reactions r ++ [d]⟩) } := by
  obtain ⟨⟨stage, reactions⟩, hr, rfl⟩ := Option.map_eq_some_iff.mp h
  cases stage with
  | settled outcome => exact absurd rfl (hstage outcome)
  | calling | loading | loaded => simp [await, hr, Category.reactions]

/-- A new dispatch goes on at once. -/
theorem Inv.started (h : Inv registered s) {dispatch : Dispatch H V}
    (hpast : dispatch.phase.isPast) (hunstarted : dispatch.phase.isUnstarted)
    (hsettled : ∀ o r, dispatch.phase = .settled o r → s.stage r = some (.settled o))
    (hreported : dispatch.phase.failure? = none)
    (hresolved : dispatch.phase.isResolved → s.resolved) :
    Inv registered { s.started dispatch with queue := s.queue ++ [.proceed s.next] } := by
  have hnew := h.waiting.fresh s.next (Nat.le_refl _)
  refine ⟨h.single, ⟨?_, ?_, ?_⟩, ?_, ?_⟩
  · exact h.sound.ordered.keep rfl rfl rfl (Nat.le_succ _)
  · exact h.sound.progress.keep rfl rfl rfl rfl
  · exact h.sound.given.keep (fun _ _ _ => Iff.rfl) rfl (.of_eq rfl)
  · have hne : ∀ phase, s.phase s.next ≠ some phase := fun phase hp => nomatch hnew.symm.trans hp
    refine h.waiting.turns (started_phase dispatch) (hne _) (fun _ => hne _) (fun _ => hne _) hpast
      (fun o r hr => ⟨?_, hsettled o r hr, ?_⟩) ?_ hresolved (Nat.le_succ _) (Nat.lt_succ_self _)
      (fun _ => rfl) (fun _ => rfl) rfl rfl rfl ?_
    · rintro rfl
      exact nomatch (h.sound.ordered.fresh _ (Nat.le_refl _)).symm.trans (hsettled o _ hr)
    · intro hmem
      obtain ⟨phase, hphase, -⟩ := h.waiting.queued _ hmem
      exact hne _ hphase
    · rintro f hf
      exact nomatch hreported.symm.trans hf
    · rintro n hn
      cases List.mem_singleton.mp hn
      rfl
  · exact h.ran.keep h.waiting rfl (fun _ => rfl) (started_unstarted h.waiting hunstarted)

theorem At.of_pending {stage : Stage H V} (h : s.stage r = some stage)
    (hstage : ∀ outcome, stage ≠ .settled outcome) : ∃ i, s.factories.At r i := by
  cases stage with
  | calling i | loading i | loaded i => exact ⟨i, _, h, rfl⟩
  | settled outcome => exact absurd rfl (hstage outcome)

/-- A new dispatch awaits a resolution that is not settled. -/
theorem Inv.joins (h : Inv registered s) {dispatch : Dispatch H V} {stage : Stage H V}
    (hr : s.resolving = some r) (hstage : s.stage r = some stage)
    (hpending : ∀ outcome, stage ≠ .settled outcome) :
    Inv registered ((s.started dispatch).await s.next r) := by
  obtain ⟨i, hat⟩ := At.of_pending hstage hpending
  have hcalling : ∀ k, s.stage r ≠ some (.calling k false) := by
    intro k hk
    obtain rfl := Option.some.inj (hstage.symm.trans hk)
    rcases h.sound.ordered.only r k ⟨_, hk, rfl⟩ with ⟨-, hnot⟩ | ⟨hnone, -⟩
    · exact hnot hk
    · exact nomatch hnone.symm.trans hr
  have hsame : (s.started dispatch).stage r = some stage := hstage
  rw [await_pending hsame hpending, started_setPhase]
  set s' : Category H V := { s.started { dispatch with phase := .awaiting r } with
    resolutions := Function.update s.resolutions r (some ⟨stage, s.reactions r ++ [s.next]⟩) }
    with hs'
  change Inv registered s'
  have hstages : ∀ n, s'.stage n = s.stage n := by
    intro n
    rw [stage_of_update rfl]
    split
    · next hn => exact (hn ▸ hstage).symm
    · rfl
  refine ⟨h.single, ⟨?_, ?_, ?_⟩, ?_, ?_⟩
  · exact h.sound.ordered.keep (funext hstages) rfl rfl (Nat.le_succ _)
  · exact h.sound.progress.keep (funext hstages) rfl rfl rfl
  · exact h.sound.given.keep (fun n _ _ => Eq.congr_left (hstages n)) rfl (.of_eq rfl)
  · exact h.waiting.joins hat hr (started_phase _) (reactions_of_update rfl) hcalling hstages rfl rfl
      rfl rfl
  · exact h.ran.keep h.waiting rfl (fun _ => rfl) (started_unstarted h.waiting rfl)

/-- A new dispatch makes a resolution, whose loop calls a factory. -/
theorem Inv.begins (h : Inv registered s) {dispatch : Dispatch H V} {j : Nat}
    (hphase : dispatch.phase = .creating) (hcalling : s.calling = [])
    (hresolved : s.resolved = false) (hresolving : s.resolving = none)
    (hj : firstLazy s.entries 0 = some j) :
    Inv registered { s.started dispatch with
      resolutions := Function.update s.resolutions s.next (some ⟨.calling j false, []⟩)
      calling := s.next :: s.calling
      log := s.log ++ [.called j s.next] } := by
  have hfresh := h.sound.ordered.fresh s.next (Nat.le_refl _)
  have hnone : s.factories.calling = none := congrArg List.head? hcalling
  obtain ⟨-, hlazy, hbefore⟩ := firstLazy_some hj
  set s' : Category H V := { s.started dispatch with
    resolutions := Function.update s.resolutions s.next (some ⟨.calling j false, []⟩)
    calling := s.next :: s.calling
    log := s.log ++ [.called j s.next] }
  have hgoes : ∀ n, s'.stage n = if n = s.next then some (.calling j false) else s.stage n :=
    stage_of_update rfl
  refine ⟨hcalling, ⟨?_, ?_, ?_⟩, ?_, ?_⟩
  · exact h.sound.ordered.begin_ hgoes hresolving hnone hresolving rfl rfl
  · exact h.sound.progress.begin_ h.sound.ordered hgoes hresolving hnone
      ⟨hlazy, fun k hk => hbefore k (Nat.zero_le k) hk⟩ rfl hresolved rfl rfl
  · exact h.sound.given.keep (Factories.Goes.loaded_iff hgoes
      (fun _ _ heq => nomatch hfresh.symm.trans heq) fun _ _ => nofun) rfl (.of_call rfl)
  · exact h.waiting.begins hresolving (hphase ▸ started_phase dispatch) (reactions_of_update rfl)
      hgoes hfresh rfl rfl rfl rfl
  · exact h.ran.keep h.waiting rfl (fun _ => rfl)
      (started_unstarted h.waiting (by rw [hphase]; rfl))

/-- A new dispatch finds that no factory is to be called. -/
theorem Inv.trivial (h : Inv registered s) {dispatch : Dispatch H V}
    (hcalling : s.calling = []) (hresolving : s.resolving = none)
    (hnone : firstLazy s.entries 0 = none) :
    Inv registered (({ s.started dispatch with
      resolved := true
      resolutions := Function.update s.resolutions s.next (some ⟨.settled none, []⟩) } :
        Category H V).created s.next) := by
  have hfresh := h.sound.ordered.fresh s.next (Nat.le_refl _)
  have hidle : s.factories.calling = none := congrArg List.head? hcalling
  have hnew := h.waiting.fresh s.next (Nat.le_refl _)
  have hcomplete : ∀ i, ¬ LazyAt s.entries i := fun i => firstLazy_none hnone i (Nat.zero_le i)
  set made : Category H V := { s.started dispatch with
    resolved := true
    resolving := some s.next
    resolutions := Function.update s.resolutions s.next (some ⟨.settled none, []⟩) }
  have hsettled : made.stage s.next = some (.settled none) := by
    rw [stage_of_update rfl, if_pos rfl]
  change Inv registered (made.await s.next s.next)
  rw [await_settled hsettled]
  have hthere : made.phase s.next ≠ none := by
    rw [show made.phase s.next = _ from started_phase dispatch s.next, if_pos rfl]
    exact nofun
  have hphase : ∀ n, (made.proceed s.next (.settled none s.next)).phase n =
      if n = s.next then some (.settled none s.next) else s.phase n := by
    intro n
    refine (setPhase_phase hthere n).trans ?_
    rw [show made.phase n = _ from started_phase dispatch n]
    split <;> rfl
  have hgoes : ∀ n, made.stage n = if n = s.next then some (.settled none) else s.stage n :=
    stage_of_update rfl
  refine ⟨h.single, ⟨?_, ?_, ?_⟩, ?_, ?_⟩
  · exact h.sound.ordered.trivial hgoes hresolving hidle rfl hidle rfl
  · exact h.sound.progress.trivial h.sound.ordered hgoes hresolving hidle rfl hcomplete rfl rfl
  · exact h.sound.given.keep (Factories.Goes.loaded_iff hgoes
      (fun _ _ heq => nomatch hfresh.symm.trans heq) fun _ _ => nofun) rfl (.of_eq rfl)
  · refine h.waiting.born (.inl hnew) (fun o ho => nomatch hfresh.symm.trans ho) hresolving hphase
      (fun n => ?_) hgoes rfl (fun _ => rfl) (Nat.le_succ _) (Nat.lt_succ_self _) rfl
    rw [show Category.reactions _ n = _ from reactions_of_update rfl n]
    split
    · next hn => rw [hn, reactions_of_none hfresh]
    · rfl
  · refine h.ran.keep h.waiting rfl (fun _ => rfl) fun n => ?_
    by_cases hn : n = s.next
    · right
      rw [hn, hnew]
      refine ⟨nofun, fun phase heq => ?_⟩
      rw [hphase, if_pos rfl] at heq
      exact Option.some.inj heq ▸ rfl
    · exact .inl ((Function.update_of_ne hn ..).trans (Function.update_of_ne hn ..))

/-- Between two factories nothing is called, or one whose resolution is in `resolving`. -/
theorem Inv.calling_nil (h : Inv registered s) (hresolving : s.resolving = none)
    (hmay : ∀ r ∈ s.calling, (s.stage r).any Stage.isFirstCall = false) : s.calling = [] := by
  cases hcalling : s.calling with
  | nil => rfl
  | cons r rest =>
    have hhead : s.factories.calling = some r := congrArg List.head? hcalling
    obtain ⟨stage, hstage, hcall⟩ := (h.sound.ordered.calling r).mp hhead
    obtain ⟨i, hat⟩ := Factories.At.of_calling hstage hcall
    rcases h.sound.ordered.only r i hat with ⟨hr, -⟩ | ⟨-, hfirst⟩
    · cases hresolving.symm.trans hr
    · have hnot := hmay r (hcalling ▸ List.mem_cons_self)
      rw [show s.stage r = some (.calling i false) from hfirst] at hnot
      cases hnot

theorem Inv.dispatch (h : Inv registered s) (mode : Mode) (hookName : JsString) (value : V)
    (hmay : ∀ r ∈ s.calling, (s.stage r).any Stage.isFirstCall = false) :
    Inv registered (s.dispatch mode hookName value) := by
  rw [Category.dispatch]
  set dispatch : Dispatch H V := { mode, hookName, value } with hdispatch
  change Inv registered (if s.resolved = true then _ else _)
  by_cases hresolved : s.resolved = true
  · rw [if_pos hresolved]
    change Inv registered ((s.started dispatch).proceed s.next (.category none))
    rw [proceed, started_setPhase]
    exact h.started rfl rfl (by simp) rfl fun _ => hresolved
  rw [if_neg hresolved]
  split
  · next r hr =>
    change Inv registered ((s.started dispatch).await s.next r)
    cases hstage : s.stage r with
    | none => exact absurd hstage (h.sound.ordered.made r hr)
    | some stage =>
      by_cases hsettled : ∃ outcome, stage = .settled outcome
      · obtain ⟨outcome, rfl⟩ := hsettled
        have hsame : (s.started dispatch).stage r = some (.settled outcome) := hstage
        rw [await_settled hsame, proceed, started_setPhase]
        refine h.started rfl rfl (fun o r' heq => ?_) rfl
          (by simp [Phase.isResolved, Phase.rest?])
        obtain ⟨rfl, rfl⟩ := Phase.settled.inj heq
        exact hstage
      · exact h.joins hr hstage fun outcome heq => hsettled ⟨outcome, heq⟩
  next hidle =>
  have hnone := h.calling_nil hidle hmay
  split
  · next j hj => exact h.begins rfl hnone (by simpa using hresolved) hidle hj
  · next hj => exact h.trivial hnone hidle hj

/-! ## A resolution goes on -/

theorem stage_of_resolution {resolution : Resolution H V} (h : s.resolutions r = some resolution) :
    s.stage r = some resolution.stage := congrArg (Option.map _) h

/-- A resolution in its loop that has been put into `resolving`. -/
theorem Inv.resolving (h : Inv registered s) {i : Nat} {stage : Stage H V}
    (hstage : s.stage r = some stage) (hindex : stage.index? = some i)
    (hcreated : stage ≠ .calling i false) : s.resolving = some r := by
  rcases h.sound.ordered.only r i ⟨stage, hstage, hindex⟩ with ⟨hr, -⟩ | ⟨-, hcalling⟩
  · exact hr
  · exact absurd (Option.some.inj (hstage.symm.trans hcalling)) hcreated

/-- The resolution that is under way goes on, and does not settle. -/
theorem Inv.stays (h : Inv registered s) {i j : Nat} {stage : Stage H V}
    (hat : s.factories.At r i) (hr : s.resolving = some r)
    (hgoes : s.factories.Goes s'.factories r stage) (hindex : stage.index? = some j)
    (hnot : ∀ k, stage ≠ .calling k false)
    (hcalling : s'.calling = if stage.isCalling then [r] else [])
    (hfirst : s'.factories.First j) (hgiven : s'.factories.Given registered)
    (hlog : s.log ⊆ s'.log) (hdispatches : s'.dispatches = s.dispatches)
    (hreactions : ∀ n, s'.reactions n = s.reactions n) (hresolving : s'.resolving = s.resolving)
    (hresolved : s'.resolved = s.resolved) (hnext : s'.next = s.next) (hran : s'.ran = s.ran)
    {added : List Job} (hqueue : s'.queue = s.queue ++ added) (hadded : ∀ n, .proceed n ∉ added) :
    Inv registered s' := by
  have hopen : s.resolved = false := (h.sound.progress.first r i hat).1
  refine ⟨?_, ⟨?_, ?_, hgiven⟩, ?_, ?_⟩
  · rw [hcalling]
    split <;> rfl
  · refine h.sound.ordered.advance hat hgoes hnot (hresolving.trans hr) ?_ hnext
    rw [show s'.factories.calling = s'.calling.head? from rfl, hcalling]
    split <;> rfl
  · refine h.sound.progress.advance h.sound.ordered hat hgoes (fun k hk => ?_) (fun hdone => ?_)
      ?_ ?_ hlog
    · obtain rfl := Option.some.inj (hindex.symm.trans hk)
      exact ⟨hresolved.trans hopen, hfirst⟩
    · exact nomatch (hresolved.trans hopen).symm.trans hdone
    · rintro rfl
      exact nomatch hindex
    · rintro f rfl
      exact nomatch hindex
  · exact h.waiting.stays hat hgoes hindex hnot hr (fun n => by rw [Category.phase, hdispatches]; rfl)
      hreactions hresolving hresolved hnext hqueue hadded
  · refine h.ran.keep h.waiting hran (fun hdone => nomatch hopen.symm.trans hdone) fun n => ?_
    exact .inl (congrFun hdispatches n)

/-- The resolution that is under way settles. -/
theorem Inv.settles (h : Inv registered s) {i : Nat} {outcome : Option (Failure V)}
    (hat : s.factories.At r i) (hr : s.resolving = some r) (hcalling : s'.calling = [])
    (hnone : outcome = none → s'.resolved ∧ ∀ i, ¬ LazyAt s'.entries i)
    (hfail : ∀ f, outcome = some f → f.resolution = r ∧ f.index = i ∧ s'.resolved = s.resolved ∧
      s'.entries = s.entries)
    (hgiven : (s'.settle r outcome).factories.Given registered)
    (hdispatches : s'.dispatches = s.dispatches) (hresolutions : s'.resolutions = s.resolutions)
    (hresolving : s'.resolving = s.resolving) (hqueue : s'.queue = s.queue)
    (hnext : s'.next = s.next) (hlog : s'.log = s.log) (hran : s'.ran = s.ran) :
    Inv registered (s'.settle r outcome) := by
  obtain ⟨hopen, hfirst⟩ := h.sound.progress.first r i hat
  have hstage : ∀ n, s'.stage n = s.stage n := fun n => by rw [Category.stage, hresolutions]; rfl
  have hreactions : ∀ n, s'.reactions n = s.reactions n := fun n => by
    rw [Category.reactions, hresolutions]; rfl
  have hphases : ∀ n, s'.phase n = s.phase n := fun n => by rw [Category.phase, hdispatches]; rfl
  have hgoes : ∀ n, (s'.settle r outcome).stage n =
      if n = r then some (.settled outcome) else s.stage n := fun n => by
    rw [← hstage n]
    exact settle_goes outcome n
  have hphase : ∀ n, (s'.settle r outcome).phase n =
      if n ∈ s.reactions r then some (.settled outcome r) else s.phase n := by
    intro n
    rw [settle_phase, hreactions, hphases]
    intro d hd
    rw [hphases, h.waiting.awaiting r d (hreactions r ▸ hd)]
    simp
  refine ⟨congrArg List.tail hcalling, ⟨?_, ?_, hgiven⟩, ?_, ?_⟩
  · exact h.sound.ordered.advance hat hgoes (fun _ => (by simp)) (hresolving.trans hr)
      (congrArg List.head? hcalling) hnext
  · refine h.sound.progress.advance h.sound.ordered hat hgoes (by simp [Stage.index?])
      (fun hdone => ?_) ?_ ?_ ?_
    · cases outcome with
      | none => exact (hnone rfl).2
      | some f =>
        obtain ⟨-, -, hsame, -⟩ := hfail f rfl
        cases (hsame.trans hopen).symm.trans hdone
    · rintro heq
      exact (hnone (Stage.settled.inj heq)).1
    · rintro f heq
      obtain ⟨hf, hi, -, hentries⟩ := hfail f (Stage.settled.inj heq)
      exact ⟨hf, hi ▸ hfirst.of_entries hentries⟩
    · exact fun item hitem => show item ∈ s'.log from hlog ▸ hitem
  · refine h.waiting.settles hat hr hphase (fun n => ?_) hgoes hresolving (fun hdone => ?_) hnext ?_
    · rw [settle_reactions, hreactions]
    · cases hopen.symm.trans hdone
    · change s'.queue ++ (s'.reactions r).map .proceed = _
      rw [hqueue, hreactions]
  · refine h.ran.keep h.waiting hran (fun hdone => absurd (hopen.symm.trans hdone) (by simp)) fun n => ?_
    by_cases hn : n ∈ s.reactions r
    · right
      rw [h.waiting.awaiting r n hn, hphase, if_pos hn]
      exact ⟨fun phase heq => Option.some.inj heq ▸ rfl, fun phase heq => Option.some.inj heq ▸ rfl⟩
    · left
      rw [← hdispatches]
      exact if_neg (show n ∉ s'.reactions r from hreactions r ▸ hn)

/-- The dispatch that made a resolution awaits it, as its first factory has returned a promise. -/
theorem Inv.created (h : Inv registered s) {i : Nat}
    (hcalling : s.stage r = some (.calling i false)) (hresolving : s.resolving = none) :
    Inv registered (({ s with calling := [] } : Category H V).setStage r (.loading i) |>.created r) := by
  have hat : s.factories.At r i := ⟨_, hcalling, rfl⟩
  obtain ⟨hopen, hfirst⟩ := h.sound.progress.first r i hat
  obtain ⟨hnobody, hcreating⟩ := h.waiting.alone r i hcalling
  have hthere : s.phase r ≠ none := hcreating ▸ nofun
  have hset : ∀ n, (({ s with calling := [] } : Category H V).setStage r (.loading i)).stage n =
      if n = r then some (.loading i) else s.stage n := setStage_goes (hcalling ▸ nofun)
  set made : Category H V :=
    { ({ s with calling := [] } : Category H V).setStage r (.loading i) with resolving := some r }
  have hloading : made.stage r = some (.loading i) := (hset r).trans (if_pos rfl)
  have hempty : made.reactions r = [] := by
    rw [show made.reactions r = s.reactions r from setStage_reactions r, hnobody]
  change Inv registered (made.await r r)
  rw [await_pending hloading (fun _ => nofun), hempty, List.nil_append]
  set after : Category H V := { made.setPhase r (.awaiting r) with
    resolutions := Function.update made.resolutions r (some ⟨.loading i, [r]⟩) }
  have hgoes : ∀ n, after.stage n = if n = r then some (.loading i) else s.stage n := by
    intro n
    rw [stage_of_update rfl n]
    split
    · rfl
    · next hn => exact (hset n).trans (if_neg hn)
  have hreactions : ∀ n, after.reactions n = if n = r then [r] else s.reactions n := by
    intro n
    rw [reactions_of_update rfl n]
    split
    · rfl
    · exact setStage_reactions n
  have hphase : ∀ n, after.phase n = if n = r then some (.awaiting r) else s.phase n :=
    setPhase_phase hthere
  refine ⟨rfl, ⟨?_, ?_, ?_⟩, ?_, ?_⟩
  · exact h.sound.ordered.advance hat hgoes (fun _ => nofun) rfl rfl rfl
  · refine h.sound.progress.advance h.sound.ordered hat hgoes (fun j hj => ?_) h.sound.progress.complete
      nofun nofun (List.Subset.refl _)
    obtain rfl := Option.some.inj hj
    exact ⟨hopen, hfirst⟩
  · exact h.sound.given.keep (Factories.Goes.loaded_iff hgoes
      (fun _ _ heq => nomatch hcalling.symm.trans heq) fun _ _ => nofun) rfl (.of_eq rfl)
  · exact h.waiting.created hcalling hresolving hphase hreactions hgoes rfl rfl rfl rfl
  · refine h.ran.keep h.waiting rfl (fun _ => rfl) fun n => ?_
    by_cases hn : n = r
    · right
      rw [hphase, if_pos hn, hn, hcreating]
      exact ⟨fun phase heq => Option.some.inj heq ▸ rfl, fun phase heq => Option.some.inj heq ▸ rfl⟩
    · exact .inl (Function.update_of_ne hn ..)

/-- The dispatch that made a resolution goes on, as its first factory has thrown. -/
theorem Inv.threw (h : Inv registered s) {i : Nat} (error : V)
    (hcalling : s.stage r = some (.calling i false)) (hresolving : s.resolving = none) :
    Inv registered ((({ s with calling := [] } : Category H V).settle r
      (some ⟨r, i, error⟩)).created r) := by
  have hat : s.factories.At r i := ⟨_, hcalling, rfl⟩
  obtain ⟨hopen, hfirst⟩ := h.sound.progress.first r i hat
  obtain ⟨hnobody, hcreating⟩ := h.waiting.alone r i hcalling
  set made : Category H V := { ({ s with calling := [] } : Category H V).settle r
    (some ⟨r, i, error⟩) with resolving := some r }
  have hgoes : ∀ n, made.stage n =
      if n = r then some (.settled (some ⟨r, i, error⟩)) else s.stage n := settle_goes _
  have hphases : ∀ n, made.phase n = s.phase n := by
    intro n
    have hnot : ∀ d, d ∉ s.reactions r := fun d => hnobody ▸ List.not_mem_nil
    exact (settle_phase (fun d hd => absurd hd (hnot d)) n).trans (if_neg (hnot n))
  have hreactions : ∀ n, made.reactions n = s.reactions n := by
    intro n
    refine (settle_reactions _ n).trans ?_
    split
    · next hn => rw [hn, hnobody]
    · rfl
  change Inv registered (made.await r r)
  rw [await_settled ((hgoes r).trans (if_pos rfl))]
  have hphase : ∀ n, (made.proceed r (.settled (some ⟨r, i, error⟩) r)).phase n =
      if n = r then some (.settled (some ⟨r, i, error⟩) r) else s.phase n := by
    intro n
    rw [← hphases n]
    refine setPhase_phase ?_ n
    rw [hphases, hcreating]
    exact nofun
  have hqueue : made.queue = s.queue := by
    change s.queue ++ (s.reactions r).map .proceed = s.queue
    rw [hnobody, List.map_nil, List.append_nil]
  refine ⟨rfl, ⟨?_, ?_, ?_⟩, ?_, ?_⟩
  · exact h.sound.ordered.advance hat hgoes (fun _ => nofun) rfl rfl rfl
  · refine h.sound.progress.advance h.sound.ordered hat hgoes nofun h.sound.progress.complete nofun ?_
      (List.Subset.refl _)
    rintro f heq
    cases heq
    exact ⟨rfl, hfirst⟩
  · exact h.sound.given.keep (Factories.Goes.loaded_iff hgoes
      (fun _ _ heq => nomatch hcalling.symm.trans heq) fun _ _ => nofun) rfl (.of_eq rfl)
  · refine h.waiting.born (.inr hcreating) (fun o ho => nomatch hcalling.symm.trans ho) hresolving
      hphase hreactions hgoes rfl id (Nat.le_refl _) ?_ ?_
    · exact Nat.lt_of_not_le fun hle => nomatch (h.waiting.fresh r hle).symm.trans hcreating
    · exact congrArg (· ++ [Job.proceed r]) hqueue
  · refine h.ran.keep h.waiting rfl (fun _ => rfl) fun n => ?_
    by_cases hn : n = r
    · right
      rw [hphase, if_pos hn, hn, hcreating]
      exact ⟨fun phase heq => Option.some.inj heq ▸ rfl, fun phase heq => Option.some.inj heq ▸ rfl⟩
    · left
      refine (Function.update_of_ne hn ..).trans ?_
      exact if_neg (show n ∉ s.reactions r from hnobody ▸ List.not_mem_nil)

theorem Inv.factoryReturns (h : Inv registered s) (thrown : Option V) :
    Inv registered (s.factoryReturns thrown) := by
  rw [Category.factoryReturns]
  split
  · exact h
  next r calling hcalling =>
  obtain rfl : calling = [] := by
    have hsingle := h.single
    rwa [hcalling] at hsingle
  split
  · next i isCreated reactions hr =>
    have hstage : s.stage r = some (.calling i isCreated) := stage_of_resolution hr
    have hat : s.factories.At r i := ⟨_, hstage, rfl⟩
    obtain ⟨-, hfirst⟩ := h.sound.progress.first r i hat
    have hold : ∀ i handlers, s.stage r ≠ some (.loaded i (.ok handlers)) :=
      fun _ _ heq => nomatch hstage.symm.trans heq
    cases isCreated with
    | true =>
      have hresolving := h.resolving hstage rfl (by simp)
      cases thrown with
      | none =>
        have hgoes : ∀ n, (({ s with calling := [] } : Category H V).setStage r (.loading i)).stage n =
            if n = r then some (.loading i) else s.stage n := setStage_goes (hstage ▸ nofun)
        refine h.stays hat hresolving hgoes rfl (fun _ => nofun) rfl hfirst ?_ (List.Subset.refl _) rfl
          setStage_reactions rfl rfl rfl rfl (List.append_nil _).symm nofun
        exact h.sound.given.keep (Factories.Goes.loaded_iff hgoes hold fun _ _ => nofun) rfl
          (.of_eq rfl)
      | some error =>
        refine h.settles hat hresolving rfl nofun (fun f hf => ?_) ?_ rfl rfl rfl rfl rfl rfl rfl
        · obtain rfl := Option.some.inj hf
          exact ⟨rfl, rfl, rfl, rfl⟩
        · exact h.sound.given.keep (Factories.Goes.loaded_iff (settle_goes _) hold
            fun _ _ => nofun) rfl (.of_eq rfl)
    | false =>
      have hidle : s.resolving = none := by
        rcases h.sound.ordered.only r i hat with ⟨-, hnot⟩ | ⟨hidle, -⟩
        · exact absurd hstage hnot
        · exact hidle
      cases thrown with
      | none => exact h.created hstage hidle
      | some error => exact h.threw error hstage hidle
  · exact h

theorem Inv.factorySettles (h : Inv registered s) (r : Nat)
    (result : Except V (Option (Handlers H))) : Inv registered (s.factorySettles r result) := by
  rw [Category.factorySettles]
  split
  · next i reactions hr =>
    have hstage : s.stage r = some (.loading i) := stage_of_resolution hr
    have hat : s.factories.At r i := ⟨_, hstage, rfl⟩
    obtain ⟨-, hfirst⟩ := h.sound.progress.first r i hat
    have hgoes : ∀ n, (s.setStage r (.loaded i result)).stage n =
        if n = r then some (.loaded i result) else s.stage n := setStage_goes (hstage ▸ nofun)
    have hcalling : s.calling = [] :=
      List.head?_eq_none_iff.mp (h.sound.ordered.not_calling hstage rfl rfl)
    refine h.stays hat (h.resolving hstage rfl nofun) hgoes rfl (fun _ => nofun) hcalling hfirst ?_
      (List.subset_append_left ..) rfl setStage_reactions rfl rfl rfl rfl rfl ?_
    · cases result with
      | ok handlers =>
        exact h.sound.given.arrive h.sound.progress h.sound.ordered hstage hgoes rfl rfl
      | error error =>
        exact h.sound.given.keep (Factories.Goes.loaded_iff hgoes
          (fun _ _ heq => nomatch hstage.symm.trans heq) fun _ _ => nofun) rfl (.of_eq (List.append_nil _))
    · intro n hn
      exact nomatch List.mem_singleton.mp hn
  · exact h

theorem Inv.resumeLoop (h : Inv registered s) {i : Nat} {handlers : Option (Handlers H)}
    (hstage : s.stage r = some (.loaded i (.ok handlers))) (hcalling : s.calling = []) :
    Inv registered ({ s with entries := setHandlers s.entries i handlers }.resumeLoop r (i + 1)) := by
  have hat : s.factories.At r i := ⟨_, hstage, rfl⟩
  have hresolving := h.resolving hstage rfl nofun
  obtain ⟨-, -, hbefore⟩ := h.sound.progress.first r i hat
  have hleft : ∀ k < i + 1, ¬ LazyAt (setHandlers s.entries i handlers) k := by
    intro k hk hlazy
    obtain ⟨hne, hlazy⟩ := lazyAt_setHandlers.mp hlazy
    exact hbefore k (by omega) hlazy
  rw [Category.resumeLoop]
  split
  · next j hj =>
    obtain ⟨hij, hlazy, hbetween⟩ := firstLazy_some hj
    have hgoes : ∀ n, (({ s with entries := setHandlers s.entries i handlers } :
        Category H V).setStage r (.calling j true)).stage n =
          if n = r then some (.calling j true) else s.stage n := setStage_goes (hstage ▸ nofun)
    refine h.stays hat hresolving hgoes rfl (fun _ => by simp) (congrArg (r :: ·) hcalling)
      ⟨hlazy, fun k hk => ?_⟩ ?_
      (List.subset_append_left ..) rfl setStage_reactions rfl rfl rfl rfl (List.append_nil _).symm nofun
    · by_cases hki : k < i + 1
      · exact hleft k hki
      · exact hbetween k (Nat.not_lt.mp hki) hk
    · exact h.sound.given.set h.sound.progress h.sound.ordered hstage hgoes (fun _ _ => nofun) rfl
        (.of_call rfl)
  · next hnone =>
    refine h.settles hat hresolving hcalling (fun _ => ⟨rfl, fun k => ?_⟩) nofun ?_ rfl rfl rfl rfl rfl
      rfl rfl
    · by_cases hki : k < i + 1
      · exact hleft k hki
      · exact firstLazy_none hnone k (Nat.not_lt.mp hki)
    · exact h.sound.given.set h.sound.progress h.sound.ordered hstage (settle_goes _)
        (fun _ _ => nofun) rfl (.of_eq rfl)

theorem Inv.resume (h : Inv registered s) (hcalling : s.calling = []) (r : Nat) :
    Inv registered (s.resume r) := by
  rw [Category.resume]
  split
  · next i handlers _ hr => exact h.resumeLoop (stage_of_resolution hr) hcalling
  · next i error _ hr =>
    have hstage : s.stage r = some (.loaded i (.error error)) := stage_of_resolution hr
    refine h.settles ⟨_, hstage, rfl⟩ (h.resolving hstage rfl nofun) hcalling nofun (fun f hf => ?_) ?_
      rfl rfl rfl rfl rfl rfl rfl
    · obtain rfl := Option.some.inj hf
      exact ⟨rfl, rfl, rfl, rfl⟩
    · exact h.sound.given.keep (Factories.Goes.loaded_iff (settle_goes _)
        (fun _ _ heq => nomatch hstage.symm.trans heq) fun _ _ => nofun) rfl (.of_eq rfl)
  · exact h

/-! ## A dispatch goes on -/

theorem phase_of_dispatch {dispatch : Dispatch H V} (h : s.dispatches d = some dispatch) :
    s.phase d = some dispatch.phase := congrArg (Option.map _) h

theorem Inv.pop (h : Inv registered s) {job : Job} {queue : List Job} (hqueue : s.queue = job :: queue)
    (hjob : ∀ d o, job = .proceed d → s.phase d ≠ some (.settled o d)) :
    Inv registered { s with queue } := by
  refine ⟨h.single, h.sound, h.waiting.pop hqueue hjob, ?_⟩
  exact h.ran.keep h.waiting rfl (fun _ => rfl) fun _ => .inl rfl

/-- A dispatch goes on that is not waiting for a resolution of its own. -/
theorem Inv.turns (h : Inv registered s) {old new : Dispatch H V} {items : List (Nat × H × V)}
    {added : List Job} (hd : s.dispatches d = some old)
    (hs' : s' = { s with
      dispatches := Function.update s.dispatches d (some new)
      queue := s.queue ++ added
      ran := s.ran ++ items })
    (hcreating : old.phase ≠ .creating)
    (hawaiting : ∀ r, old.phase ≠ .awaiting r) (hown : ∀ o, old.phase ≠ .settled o d)
    (hpast : new.phase.isPast) (hsettled : ∀ o r, new.phase ≠ .settled o r)
    (hreported : ∀ f, new.phase.failure? = some f →
      s.resolving ≠ some f.resolution ∧ s.stage f.resolution = some (.settled (some f)))
    (hresolved : new.phase.isResolved → s.resolved)
    (hunstarted : new.phase.isUnstarted → s.runs d ++ items.map (·.2.1) = [])
    (hrest : ∀ rest, new.phase.rest? = some rest →
      s.runs d ++ items.map (·.2.1) ++ rest = collectHandlers s.entries new.hookName)
    (hitems : ∀ item ∈ items, item.1 = d) (hadded : ∀ n, .proceed n ∈ added → n = d) :
    Inv registered s' := by
  subst hs'
  have hphase := phase_of_dispatch hd
  have hne : ∀ phase, old.phase ≠ phase → s.phase d ≠ some phase := fun phase hne heq =>
    hne (Option.some.inj (hphase.symm.trans heq))
  have hlt : d < s.next := Nat.lt_of_not_le fun hle =>
    nomatch (h.waiting.fresh d hle).symm.trans hphase
  refine ⟨h.single, ⟨h.sound.ordered, h.sound.progress, h.sound.given⟩, ?_, ?_⟩
  · have hturns : ∀ n, Category.phase { s with
        dispatches := Function.update s.dispatches d (some new)
        queue := s.queue ++ added
        ran := s.ran ++ items } n = if n = d then some new.phase else s.phase n := by
      intro n
      rw [Category.phase]
      simp only [Function.update_apply]
      split <;> rfl
    exact h.waiting.turns hturns (hne _ hcreating) (fun r => hne _ (hawaiting r))
      (fun o => hne _ (hown o)) hpast (fun o r heq => absurd heq (hsettled o r)) hreported hresolved
      (Nat.le_refl _) hlt (fun _ => rfl) (fun _ => rfl) rfl rfl rfl hadded
  · exact h.ran.turns rfl rfl hitems rfl hunstarted hrest

theorem setPhase_eq {dispatch : Dispatch H V} {phase : Phase H V}
    (h : s.dispatches d = some dispatch) :
    s.setPhase d phase = { s with
      dispatches := Function.update s.dispatches d (some { dispatch with phase })
      queue := s.queue ++ []
      ran := s.ran ++ [] } := by
  rw [setPhase, h, List.append_nil, List.append_nil]
  rfl

theorem proceed_eq {dispatch : Dispatch H V} {phase : Phase H V}
    (h : s.dispatches d = some dispatch) :
    s.proceed d phase = { s with
      dispatches := Function.update s.dispatches d (some { dispatch with phase })
      queue := s.queue ++ [.proceed d]
      ran := s.ran ++ [] } := by
  rw [proceed, setPhase, h, List.append_nil]
  rfl

theorem of_mem_proceed {n : Nat} (h : Job.proceed n ∈ [Job.proceed d]) : n = d :=
  Job.proceed.inj (List.mem_singleton.mp h)

/-- A dispatch that has handlers goes on to another phase in which it has handlers. -/
theorem Inv.runs_on (h : Inv registered s) {old new : Dispatch H V} {items : List (Nat × H × V)}
    {added : List Job} {rest rest' : List H} (hd : s.dispatches d = some old)
    (hs' : s' = { s with
      dispatches := Function.update s.dispatches d (some new)
      queue := s.queue ++ added
      ran := s.ran ++ items })
    (hold : old.phase.rest? = some rest) (hnew : new.phase.rest? = some rest')
    (hpast : new.phase.isPast) (hhook : new.hookName = old.hookName)
    (hitems : items.map (·.2.1) ++ rest' = rest) (hmine : ∀ item ∈ items, item.1 = d)
    (hadded : ∀ n, .proceed n ∈ added → n = d) : Inv registered s' := by
  have hresolved := h.waiting.resolved d _ (phase_of_dispatch hd) (Phase.isResolved_of_rest hold)
  refine h.turns hd hs' ?_ ?_ ?_ hpast ?_ ?_ (fun _ => hresolved) ?_ ?_ hmine hadded
  · exact fun heq => nomatch (heq ▸ hold : Phase.creating.rest? = some rest)
  · exact fun r heq => nomatch (heq ▸ hold : (Phase.awaiting r).rest? = some rest)
  · exact fun o heq => nomatch (heq ▸ hold : (Phase.settled o d).rest? = some rest)
  · exact fun o r heq => nomatch (heq ▸ hnew : (Phase.settled o r).rest? = some rest')
  · intro f hf
    rcases hphase : new.phase with _ | _ | _ | _ | ⟨_ | _⟩ | _ | _ | _ | ⟨_ | _⟩ <;>
      simp_all [Phase.rest?, Phase.failure?]
  · exact fun hunstarted => absurd hunstarted (Phase.isUnstarted_of_rest hnew)
  · intro rest'' heq
    obtain rfl := Option.some.inj (hnew.symm.trans heq)
    rw [List.append_assoc, hitems, hhook]
    exact h.ran.rest d old rest hd hold

theorem Inv.runNext (h : Inv registered s) {dispatch : Dispatch H V} {rest : List H}
    (hd : s.dispatches d = some dispatch) (hrest : dispatch.phase.rest? = some rest) :
    Inv registered (s.runNext d dispatch rest) := by
  cases rest with
  | nil =>
    exact h.runs_on hd (setPhase_eq hd) hrest rfl rfl rfl rfl nofun nofun
  | cons handler rest =>
    have hcalls : s.runNext d dispatch (handler :: rest) = { s with
        dispatches :=
          Function.update s.dispatches d (some { dispatch with phase := .calling handler rest })
        queue := s.queue ++ []
        ran := s.ran ++ [(d, handler, dispatch.value)] } := by
      rw [Category.runNext, setPhase_eq hd]
    refine h.runs_on hd hcalls hrest rfl rfl rfl rfl ?_ nofun
    exact fun item hitem => List.mem_singleton.mp hitem ▸ rfl

theorem keepResult_phase (isUndefined : V → Bool) (dispatch : Dispatch H V) (result : V) :
    (keepResult isUndefined dispatch result).phase = dispatch.phase ∧
      (keepResult isUndefined dispatch result).hookName = dispatch.hookName := by
  rw [keepResult]
  cases dispatch.mode with
  | serial | collect => exact ⟨rfl, rfl⟩
  | waterfall =>
    simp only
    split <;> exact ⟨rfl, rfl⟩

/-- The dispatch that made a resolution deletes it. -/
theorem Inv.releases (h : Inv registered s) {dispatch : Dispatch H V} {outcome : Option (Failure V)}
    {queue : List Job} (hqueue : s.queue = .proceed d :: queue) (hd : s.dispatches d = some dispatch)
    (hsettled : dispatch.phase = .settled outcome d) :
    Inv registered (({ s with queue, resolving := none } : Category H V).proceed d
      (.category outcome)) := by
  have hphase : s.phase d = some (.settled outcome d) := hsettled ▸ phase_of_dispatch hd
  have hstage := h.waiting.outcome d outcome d hphase
  have hthere : s.phase d ≠ none := hphase ▸ nofun
  have hturns : ∀ n, (({ s with queue, resolving := none } : Category H V).proceed d
      (.category outcome)).phase n = if n = d then some (.category outcome) else s.phase n :=
    setPhase_phase hthere
  refine ⟨h.single, ⟨?_, ?_, ?_⟩, ?_, ?_⟩
  · exact h.sound.ordered.release (h.waiting.own d outcome hphase) hstage rfl rfl rfl rfl
  · exact h.sound.progress.keep rfl rfl rfl rfl
  · exact h.sound.given.keep (fun _ _ _ => Iff.rfl) rfl (.of_eq rfl)
  · refine h.waiting.releases hphase (fun f hf => ?_) (fun hnone => ?_) hturns (fun _ => rfl)
      (fun _ => rfl) rfl rfl rfl hqueue rfl
    · exact h.sound.progress.failure d f (hf ▸ hstage)
    · exact h.sound.progress.resolved d (hnone ▸ hstage)
  · refine h.ran.keep h.waiting rfl (fun _ => rfl) fun n => ?_
    by_cases hn : n = d
    · right
      rw [hturns, if_pos hn, hn, hphase]
      exact ⟨fun phase heq => Option.some.inj heq ▸ rfl, fun phase heq => Option.some.inj heq ▸ rfl⟩
    · exact .inl (Function.update_of_ne hn ..)

/-- By then the dispatch that made the resolution has deleted it. -/
theorem Waiting.released (h : s.Waiting) {outcome : Option (Failure V)} {queue : List Job}
    (hqueue : s.queue = .proceed d :: queue) (hphase : s.phase d = some (.settled outcome r))
    (hne : r ≠ d) : s.resolving ≠ some r := by
  intro hr
  obtain ⟨-, before, after, hsplit, hbefore⟩ := h.turn r outcome hr (h.outcome d outcome r hphase)
  cases before with
  | nil =>
    cases hqueue.symm.trans hsplit
    exact hne rfl
  | cons first before =>
    obtain ⟨rfl, -⟩ := List.cons.inj (hqueue.symm.trans hsplit)
    exact hbefore d (List.mem_cons_self ..) outcome hphase

/-- A dispatch goes on that awaited the resolution of another. -/
theorem Inv.overtaken (h : Inv registered s) {dispatch : Dispatch H V}
    {outcome : Option (Failure V)} (hd : s.dispatches d = some dispatch)
    (hsettled : dispatch.phase = .settled outcome r) (hne : r ≠ d)
    (hreleased : s.resolving ≠ some r) : Inv registered (s.proceed d (.category outcome)) := by
  have hphase := phase_of_dispatch hd
  have hstage := h.waiting.outcome d outcome r (hsettled ▸ hphase)
  have hnone : s.runs d = [] := h.ran.unstarted d fun phase heq =>
    Option.some.inj (hphase.symm.trans heq) ▸ hsettled ▸ rfl
  refine h.turns hd (proceed_eq hd) ?_ ?_ ?_ rfl (by simp) ?_ ?_ ?_ (by simp [Phase.rest?]) (by simp)
    fun n => of_mem_proceed
  · exact fun heq => absurd (hsettled.symm.trans heq) (by simp)
  · exact fun _ heq => absurd (hsettled.symm.trans heq) (by simp)
  · exact fun o heq => hne (Phase.settled.inj (hsettled.symm.trans heq)).2
  · rintro f rfl
    rw [h.sound.progress.failure r f hstage]
    exact ⟨hreleased, hstage⟩
  · intro hresolved
    cases outcome with
    | none => exact h.sound.progress.resolved r hstage
    | some f => cases hresolved
  · exact fun _ => (List.append_nil _).trans hnone

/-- A dispatch goes on that knows that the category is resolved. -/
theorem Inv.collects (h : Inv registered s) {dispatch : Dispatch H V}
    (hd : s.dispatches d = some dispatch) (hcategory : dispatch.phase = .category none) :
    Inv registered
      (s.proceed d (.handlers (.ok (collectHandlers s.entries dispatch.hookName)))) := by
  have hphase := phase_of_dispatch hd
  have hnot : ∀ phase, phase ≠ .category none → dispatch.phase ≠ phase := fun phase hne heq =>
    hne (heq.symm.trans hcategory)
  have hresolved := h.waiting.resolved d _ hphase (hcategory ▸ rfl)
  have hnone : s.runs d = [] := h.ran.unstarted d fun phase heq =>
    Option.some.inj (hphase.symm.trans heq) ▸ hcategory ▸ rfl
  refine h.turns hd (proceed_eq hd) (hnot _ (by simp)) (fun _ => hnot _ (by simp))
    (fun _ => hnot _ (by simp)) rfl (by simp) (by simp [Phase.failure?]) (fun _ => hresolved)
    (by simp [Phase.isUnstarted, Phase.rest?]) (fun rest hrest => ?_) (by simp) fun n => of_mem_proceed
  obtain rfl := Option.some.inj hrest
  exact congrArg (· ++ [] ++ collectHandlers s.entries dispatch.hookName) hnone

/-- A dispatch that reports a failed resolution goes on with the failure. -/
theorem Inv.fails (h : Inv registered s) {old new : Dispatch H V} {added : List Job}
    {failure : Failure V} (hd : s.dispatches d = some old)
    (hs' : s' = { s with
      dispatches := Function.update s.dispatches d (some new)
      queue := s.queue ++ added
      ran := s.ran ++ [] })
    (hold : old.phase.failure? = some failure) (hnew : new.phase.failure? = some failure)
    (hadded : ∀ n, .proceed n ∈ added → n = d) : Inv registered s' := by
  have hphase := phase_of_dispatch hd
  obtain ⟨hgone, hunstarted, -, -, hunsettled⟩ := Phase.of_failure hold
  obtain ⟨hpast, -, hunresolved, hrest, hsettled⟩ := Phase.of_failure hnew
  have hnone : s.runs d = [] := h.ran.unstarted d fun phase heq =>
    Option.some.inj (hphase.symm.trans heq) ▸ hunstarted
  refine h.turns hd hs' ?_ ?_ (fun o => hunsettled o d) hpast hsettled (fun f hf => ?_) ?_
    (fun _ => congrArg (· ++ []) hnone) ?_ (by simp) hadded
  · intro heq
    rw [heq] at hgone
    cases hgone
  · intro r heq
    rw [heq] at hgone
    cases hgone
  · obtain rfl := Option.some.inj (hnew.symm.trans hf)
    exact h.waiting.reported d _ failure hphase hold
  · exact fun hresolved => absurd (hunresolved.symm.trans hresolved) Bool.false_ne_true
  · exact fun rest heq => absurd (hrest.symm.trans heq) (Option.some_ne_none rest).symm

/-- A dispatch keeps what its handler has given, and calls the next one. -/
theorem Inv.keeps (h : Inv registered s) (isUndefined : V → Bool) {dispatch : Dispatch H V} {result : V}
    {rest : List H} (hd : s.dispatches d = some dispatch)
    (hhandled : dispatch.phase = .handled (.ok result) rest) :
    Inv registered ({ s with
      dispatches := Function.update s.dispatches d
        (some (keepResult isUndefined dispatch result)) }.runNext d
          (keepResult isUndefined dispatch result) rest) := by
  have hrest : dispatch.phase.rest? = some rest := hhandled ▸ rfl
  obtain ⟨hkeep, hhook⟩ := keepResult_phase isUndefined dispatch result
  have hkept : (keepResult isUndefined dispatch result).phase.rest? = some rest :=
    (congrArg _ hkeep).trans hrest
  have hkeeps : ({ s with
      dispatches := Function.update s.dispatches d
        (some (keepResult isUndefined dispatch result)) } : Category H V) = { s with
      queue := s.queue ++ []
      dispatches := Function.update s.dispatches d
        (some (keepResult isUndefined dispatch result))
      ran := s.ran ++ [] } := by
    rw [List.append_nil, List.append_nil]
  refine Inv.runNext (h.runs_on hd hkeeps hrest hkept ?_ hhook rfl (by simp) (by simp))
    (Function.update_self ..) hkept
  rw [hkeep, hhandled]
  rfl

theorem Inv.advance (h : Inv registered s) (isUndefined : V → Bool) (d : Nat) {queue : List Job}
    (hqueue : s.queue = .proceed d :: queue) :
    Inv registered (({ s with queue } : Category H V).advance isUndefined d) := by
  have hpop : (∀ o, s.phase d ≠ some (.settled o d)) → Inv registered { s with queue } := by
    intro hown
    refine h.pop hqueue fun n o heq => ?_
    obtain rfl := Job.proceed.inj heq
    exact hown o
  rw [Category.advance]
  cases hd : s.dispatches d with
  | none =>
    refine hpop fun o hphase => ?_
    rw [Category.phase, hd] at hphase
    cases hphase
  | some dispatch =>
    have hphase := phase_of_dispatch hd
    have hother : (∀ o, dispatch.phase ≠ .settled o d) → Inv registered { s with queue } :=
      fun hown => hpop fun o heq => hown o (Option.some.inj (hphase.symm.trans heq))
    simp only
    split
    · next outcome r hsettled =>
      by_cases hr : r = d
      · subst hr
        rw [if_pos rfl]
        exact h.releases hqueue hd hsettled
      · rw [if_neg hr]
        have hin := hother fun o heq => hr (Phase.settled.inj (hsettled.symm.trans heq)).2
        exact hin.overtaken hd hsettled hr (h.waiting.released hqueue (hsettled ▸ hphase) hr)
    · next hcategory =>
      exact (hother fun o heq => by cases hcategory.symm.trans heq).collects hd hcategory
    · next failure hcategory =>
      have hfailure : dispatch.phase.failure? = some failure := hcategory ▸ rfl
      exact (hother fun o heq => by cases hcategory.symm.trans heq).fails hd (proceed_eq hd) hfailure rfl
        fun n => of_mem_proceed
    · next handlers hhandlers =>
      have hrest : dispatch.phase.rest? = some handlers := hhandlers ▸ rfl
      exact (hother fun o heq => by cases hhandlers.symm.trans heq).runNext hd hrest
    · next failure hhandlers =>
      have hfailure : dispatch.phase.failure? = some failure := hhandlers ▸ rfl
      exact (hother fun o heq => by cases hhandlers.symm.trans heq).fails hd (setPhase_eq hd) hfailure rfl
        (by simp)
    · next result rest hhandled =>
      exact (hother fun o heq => by cases hhandled.symm.trans heq).keeps isUndefined hd hhandled
    · next error rest hhandled =>
      have hnot : ∀ phase, phase ≠ .handled (.error error) rest → dispatch.phase ≠ phase :=
        fun phase hne heq => hne (heq.symm.trans hhandled)
      exact (hother fun _ => hnot _ (by simp)).turns hd (setPhase_eq hd) (hnot _ (by simp))
        (fun _ => hnot _ (by simp)) (fun _ => hnot _ (by simp)) rfl (by simp) (by simp [Phase.failure?])
        (by simp [Phase.isResolved, Phase.rest?]) (by simp [Phase.isUnstarted]) (by simp [Phase.rest?])
        (by simp) (by simp)
    · next hsettled _ _ _ _ _ _ =>
      exact hother fun o => hsettled o d

theorem Inv.handlerThrows (h : Inv registered s) (d : Nat) (error : V) :
    Inv registered (s.handlerThrows d error) := by
  rw [Category.handlerThrows]
  split
  · next handler rest hd =>
    exact h.turns hd (setPhase_eq hd) nofun nofun nofun rfl nofun nofun nofun nofun nofun nofun nofun
  · exact h

theorem Inv.handlerSettles (h : Inv registered s) (d : Nat) (result : Except V V) :
    Inv registered (s.handlerSettles d result) := by
  rw [Category.handlerSettles]
  split
  · next handler rest hd =>
    exact h.runs_on hd (proceed_eq hd) rfl rfl rfl rfl rfl nofun fun n => of_mem_proceed
  · exact h

theorem Inv.runJob (h : Inv registered s) (isUndefined : V → Bool) :
    Inv registered (s.runJob isUndefined) := by
  rw [Category.runJob]
  split
  · next r queue hcalling hqueue => exact (h.pop hqueue nofun).resume hcalling r
  · next d queue _ hqueue => exact h.advance isUndefined d hqueue
  · exact h

/-- **The condition of an event**: nothing is dispatched from within the first factory that a
resolution calls, before `resolving` has it. -/
def MayHappen (s : Category H V) : Event H V → Prop
  | .dispatch .. => ∀ r ∈ s.calling, (s.stage r).any Stage.isFirstCall = false
  | _ => True

theorem Inv.step (h : Inv registered s) (isUndefined : V → Bool) (e : Event H V)
    (hmay : s.MayHappen e) : Inv registered (s.step isUndefined e) := by
  cases e with
  | dispatch mode hookName value => exact h.dispatch mode hookName value hmay
  | factoryReturns thrown => exact h.factoryReturns thrown
  | factorySettles r result => exact h.factorySettles r result
  | runJob => exact h.runJob isUndefined
  | handlerThrows d error => exact h.handlerThrows d error
  | handlerSettles d result => exact h.handlerSettles d result

/-! ## Handlers run, and a dispatch starts -/

theorem await_ran : (s.await d r).ran = s.ran := by
  rw [await]
  split <;> rfl

theorem dispatch_ran (mode : Mode) (hookName : JsString) (value : V) :
    (s.dispatch mode hookName value).ran = s.ran := by
  simp only [Category.dispatch]
  split
  · rfl
  split
  · exact await_ran
  split
  · rfl
  · exact await_ran

theorem factoryReturns_ran (thrown : Option V) : (s.factoryReturns thrown).ran = s.ran := by
  rw [Category.factoryReturns]
  split
  · rfl
  split
  · cases thrown <;> simp only <;> split
    all_goals first | rfl | exact await_ran
  · rfl

theorem resume_ran : (s.resume r).ran = s.ran := by
  rw [Category.resume]
  split
  · rw [Category.resumeLoop]
    split <;> rfl
  · rfl
  · rfl

/-- Handlers run only when the category is resolved. -/
theorem Inv.resolved_of_ran (h : Inv registered s) {isUndefined : V → Bool} {e : Event H V}
    (hran : (s.step isUndefined e).ran ≠ s.ran) : s.resolved := by
  cases e with
  | dispatch mode hookName value => exact absurd (dispatch_ran mode hookName value) hran
  | factoryReturns thrown => exact absurd (factoryReturns_ran thrown) hran
  | factorySettles r result =>
    refine absurd ?_ hran
    change (s.factorySettles r result).ran = s.ran
    rw [Category.factorySettles]
    split <;> rfl
  | handlerThrows d error =>
    refine absurd ?_ hran
    change (s.handlerThrows d error).ran = s.ran
    rw [Category.handlerThrows]
    split <;> rfl
  | handlerSettles d result =>
    refine absurd ?_ hran
    change (s.handlerSettles d result).ran = s.ran
    rw [Category.handlerSettles]
    split <;> rfl
  | runJob =>
    change (s.runJob isUndefined).ran ≠ s.ran at hran
    rw [Category.runJob] at hran
    split at hran
    · exact absurd resume_ran hran
    · next d queue _ hqueue =>
      rw [Category.advance] at hran
      split at hran
      · exact absurd rfl hran
      next dispatch hd =>
      have hresolved : ∀ rest, dispatch.phase.rest? = some rest → s.resolved := fun rest hrest =>
        h.waiting.resolved d _ (phase_of_dispatch hd) (Phase.isResolved_of_rest hrest)
      split at hran
      · refine absurd ?_ hran
        split <;> rfl
      · exact absurd rfl hran
      · exact absurd rfl hran
      · next handlers hphase => exact hresolved handlers (hphase ▸ rfl)
      · exact absurd rfl hran
      · next rest hphase => exact hresolved rest (hphase ▸ rfl)
      · exact absurd rfl hran
      · exact absurd rfl hran
    · exact absurd rfl hran

/-- A dispatch that starts after a failure was reported calls the factory again, if no resolution has
done that since. -/
theorem Inv.calls_again (h : Inv registered s) {mode : Mode} {hookName : JsString} {value : V}
    {f : Failure V} (hreported : s.phase d = some (.rejected (.inl f))) :
    (∃ r > f.resolution, .called f.index r ∈ s.log) ∨
      (s.dispatch mode hookName value).log = s.log ++ [.called f.index s.next] := by
  obtain ⟨hnot, hfailed⟩ := h.waiting.reported d _ f hreported rfl
  rcases h.sound.progress.retry _ f hfailed with hagain | ⟨hfirst, hlast⟩
  · exact .inl hagain
  right
  have hopen : s.resolved = false := by
    cases hresolved : s.resolved with
    | false => rfl
    | true => exact absurd hfirst.1 (h.sound.progress.complete hresolved _)
  have hidle : s.resolving = none := by
    cases hresolving : s.resolving with
    | none => rfl
    | some r =>
      -- the resolution under way is the last one, but so is the failed one
      have hmade := h.sound.ordered.made r hresolving
      rcases lt_trichotomy r f.resolution with hlt | rfl | hlt
      · have hnone := h.sound.ordered.newest r (.inl hresolving) _ hlt
        exact nomatch hnone.symm.trans hfailed
      · exact absurd hresolving hnot
      · exact absurd (hlast r hlt) hmade
  rw [Category.dispatch]
  simp only [Bool.false_eq_true, if_false, hopen, hidle]
  cases hj : firstLazy s.entries 0 with
  | none => exact absurd hfirst.1 (firstLazy_none hj _ (Nat.zero_le _))
  | some j =>
    obtain ⟨-, hlazy, hbefore⟩ := firstLazy_some hj
    have heq : f.index = j :=
      hfirst.eq (c := s.factories) ⟨hlazy, fun k hk => hbefore k (Nat.zero_le k) hk⟩
    rw [heq]

end Category

/-! ## The whole dispatcher -/

theorem Category.Inv.complete {registered : List (Entry H)} {s : Category H V}
    (h : s.Inv registered) (hresolved : s.resolved) : ∀ entry ∈ s.entries, entry.isLazy = false := by
  intro entry hentry
  obtain ⟨i, hi⟩ := List.mem_iff_getElem?.mp hentry
  cases hlazy : entry.isLazy with
  | false => rfl
  | true => exact absurd ⟨entry, hi, hlazy⟩ (h.sound.progress.complete hresolved i)

/-- The condition of an event of a category. -/
def Dispatcher.MayHappen (s : Dispatcher H V) (e : HookCategory × Event H V) : Prop :=
  (s e.1).MayHappen e.2

instance (s : Category H V) : (e : Event H V) → Decidable (s.MayHappen e)
  | .dispatch .. => inferInstanceAs (Decidable (∀ r ∈ s.calling, _ = false))
  | .factoryReturns _ | .factorySettles .. | .runJob | .handlerThrows .. | .handlerSettles .. =>
    .isTrue trivial

instance (s : Dispatcher H V) (e : HookCategory × Event H V) : Decidable (s.MayHappen e) :=
  inferInstanceAs (Decidable ((s e.1).MayHappen e.2))

/-- What holds of every category at all times. -/
theorem Dispatcher.inv_exec {isUndefined : V → Bool} {plugins : List (LionDenPlugin H)}
    {events : List (HookCategory × Event H V)}
    (h : AllSteps (Dispatcher.step isUndefined) Dispatcher.MayHappen (Dispatcher.start plugins) events)
    (k : Nat) (category : HookCategory) :
    Category.Inv (registerPlugins plugins category)
      (exec (Dispatcher.step isUndefined) (Dispatcher.start plugins) (events.take k) category) := by
  have hinit : ∀ category, Category.Inv (registerPlugins plugins category)
      (Dispatcher.start (V := V) plugins category) := fun category => .start _
  have hstep : ∀ (s : Dispatcher H V) e,
      (∀ category, Category.Inv (registerPlugins plugins category) (s category)) →
        s.MayHappen e → ∀ category, Category.Inv (registerPlugins plugins category)
          (Dispatcher.step isUndefined s e category) := by
    intro s e hs hmay category
    rw [Dispatcher.step]
    by_cases hcategory : category = e.1
    · subst hcategory
      rw [Function.update_self]
      exact (hs _).step isUndefined e.2 hmay
    · rw [Function.update_of_ne hcategory]
      exact hs category
  exact AllSteps.invariant hstep hinit h k category

/-- The state of a category after the first `k` events of a run. -/
def Dispatcher.after (isUndefined : V → Bool) (plugins : List (LionDenPlugin H))
    (events : List (HookCategory × Event H V)) (category : HookCategory) (k : Nat) : Category H V :=
  exec (Dispatcher.step isUndefined) (Dispatcher.start plugins) (events.take k) category

theorem Dispatcher.after_succ {isUndefined : V → Bool} {plugins : List (LionDenPlugin H)}
    {events : List (HookCategory × Event H V)} {category : HookCategory} {k : Nat}
    {e : HookCategory × Event H V} (h : events[k]? = some e) :
    Dispatcher.after isUndefined plugins events category (k + 1) =
      if e.1 = category then
        (Dispatcher.after isUndefined plugins events category k).step isUndefined e.2
      else Dispatcher.after isUndefined plugins events category k := by
  rw [Dispatcher.after, exec_take_succ h, Dispatcher.step, Function.update_apply]
  by_cases hcategory : e.1 = category
  · rw [if_pos hcategory, if_pos hcategory.symm, hcategory]
    rfl
  · rw [if_neg hcategory, if_neg (Ne.symm hcategory)]
    rfl

/-- **Lazy categories resolve once.** In a run in which nothing is dispatched from within the first
factory that a resolution of its category calls, whatever the plugins, the order of events and the
outcomes of factories and handlers: a factory succeeds at most once, handlers are run only once all
entries are there, a dispatch that completes has run the handlers of its hook, in plugin order, and a
dispatch that starts after a failure was reported calls the factory again, if no resolution has done
that since. -/
theorem lazy_hooks_resolve_once (isUndefined : V → Bool) (plugins : List (LionDenPlugin H))
    (events : List (HookCategory × Event H V))
    (hmay : AllSteps (Dispatcher.step isUndefined) Dispatcher.MayHappen (Dispatcher.start plugins)
      events) (category : HookCategory) (k : Nat) :
    (∀ i, (Dispatcher.after isUndefined plugins events category k).log.countP
      (Entered.isSuccess i) ≤ 1) ∧
    ((Dispatcher.after isUndefined plugins events category (k + 1)).ran ≠
        (Dispatcher.after isUndefined plugins events category k).ran →
      ∀ entry ∈ (Dispatcher.after isUndefined plugins events category k).entries,
        entry.isLazy = false) ∧
    (∀ d dispatch,
      (Dispatcher.after isUndefined plugins events category k).dispatches d = some dispatch →
      dispatch.phase = .completed →
      (Dispatcher.after isUndefined plugins events category k).runs d = collectHandlers
          (Dispatcher.after isUndefined plugins events category k).entries dispatch.hookName ∧
        (∀ entry ∈ (Dispatcher.after isUndefined plugins events category k).entries,
          entry.isLazy = false) ∧
        (Dispatcher.after isUndefined plugins events category k).factories.Provided
          (registerPlugins plugins category)) ∧
    ∀ mode hookName value d f,
      events[k]? = some (category, .dispatch mode hookName value) →
      (Dispatcher.after isUndefined plugins events category k).phase d =
        some (.rejected (.inl f)) →
      (∃ r > f.resolution,
        .called f.index r ∈ (Dispatcher.after isUndefined plugins events category k).log) ∨
      (Dispatcher.after isUndefined plugins events category (k + 1)).log =
        (Dispatcher.after isUndefined plugins events category k).log ++
          [.called f.index (Dispatcher.after isUndefined plugins events category k).next] := by
  have h := Dispatcher.inv_exec hmay k category
  change Category.Inv _ (Dispatcher.after isUndefined plugins events category k) at h
  refine ⟨h.sound.given.once, fun hran => ?_, fun d dispatch hd hcompleted => ?_, ?_⟩
  · cases he : events[k]? with
    | none =>
      refine absurd ?_ hran
      rw [Dispatcher.after, Dispatcher.after, List.take_add_one, he, Option.toList_none,
        List.append_nil]
    | some e =>
      rw [Dispatcher.after_succ he] at hran
      split at hran
      · exact h.complete (h.resolved_of_ran hran)
      · exact absurd rfl hran
  · have hrest : dispatch.phase.rest? = some [] := hcompleted ▸ rfl
    have hphase := Category.phase_of_dispatch hd
    refine ⟨(List.append_nil _).symm.trans (h.ran.rest d dispatch [] hd hrest), ?_,
      h.sound.given.provided⟩
    exact h.complete (h.waiting.resolved d _ hphase (Phase.isResolved_of_rest hrest))
  · intro mode hookName value d f he hreported
    rw [Dispatcher.after_succ he, if_pos rfl]
    exact h.calls_again hreported

/-- A plugin with a factory for handlers of test runs. -/
def lazyPlugin : LionDenPlugin Unit where
  id := js "lazy"
  hookHandlers
    | .testing => some .factory
    | _ => none

/-- The handlers of one hook. -/
def setupHandlers : Handlers Unit := fun hookName => if hookName = js "setup" then some () else none

/-- A factory fails, the failure is reported, and the next dispatch calls the factory again. -/
def retryRun : List (HookCategory × Event Unit Nat) :=
  [.dispatch .serial (js "setup") 0, .factoryReturns none, .factorySettles 0 (.error 7), .runJob, .runJob,
    .runJob, .runJob, .dispatch .serial (js "setup") 1, .factoryReturns none,
    .factorySettles 1 (.ok (some setupHandlers)), .runJob, .runJob, .runJob, .runJob,
    .handlerSettles 1 (.ok 0), .runJob].map fun e => (.testing, e)

/-- The claim about the run of a retry: the second dispatch calls the factory again and runs its
handler. -/
theorem lazy_hooks_resolve_once_retry :
    (Dispatcher.after (fun _ => false) [lazyPlugin] retryRun .testing 8).log =
      (Dispatcher.after (fun _ => false) [lazyPlugin] retryRun .testing 7).log ++ [.called 0 1] ∧
    (Dispatcher.after (fun _ => false) [lazyPlugin] retryRun .testing 16).runs 1 = [()] ∧
    ∀ i, (Dispatcher.after (fun _ => false) [lazyPlugin] retryRun .testing 16).log.countP
      (Entered.isSuccess i) ≤ 1 := by
  have hmay : AllSteps (Dispatcher.step fun _ => false) Dispatcher.MayHappen
      (Dispatcher.start [lazyPlugin]) retryRun := by decide +kernel
  have hreported : (Dispatcher.after (fun _ => false) [lazyPlugin] retryRun .testing 7).phase 0 =
      some (.rejected (.inl ⟨0, 0, 7⟩)) := rfl
  obtain ⟨-, -, -, hretry⟩ := lazy_hooks_resolve_once (fun _ => false) [lazyPlugin] retryRun hmay .testing 7
  obtain ⟨honce, -, hruns, -⟩ :=
    lazy_hooks_resolve_once (fun _ => false) [lazyPlugin] retryRun hmay .testing 16
  refine ⟨?_, (hruns 1 _ rfl rfl).1, honce⟩
  refine (hretry .serial (js "setup") 1 0 ⟨0, 0, 7⟩ rfl hreported).resolve_left ?_
  rintro ⟨r, hr, hmem⟩
  have hlog : (Dispatcher.after (fun _ => false) [lazyPlugin] retryRun .testing 7).log =
      [.called 0 0] := rfl
  rw [hlog, List.mem_singleton] at hmem
  cases hmem
  exact absurd hr (Nat.lt_irrefl 0)

/-! ## A factory that is called within itself -/

/-- The categories whose factories are on the call stack, the innermost first. -/
def Dispatcher.callStack (isUndefined : V → Bool) (plugins : List (LionDenPlugin H))
    (events : List (HookCategory × Event H V)) : Nat → List HookCategory
  | 0 => []
  | k + 1 =>
    let stack := callStack isUndefined plugins events k
    match events[k]? with
    | none => stack
    | some (category, _) =>
      let before := (after isUndefined plugins events category k).calling.length
      let now := (after isUndefined plugins events category (k + 1)).calling.length
      if before < now then category :: stack else if now < before then stack.tail else stack

def Event.isDispatch : Event H V → Bool
  | .dispatch .. => true
  | _ => false

/-- No factory dispatches its own category. -/
def NoOwnDispatch (isUndefined : V → Bool) (plugins : List (LionDenPlugin H))
    (events : List (HookCategory × Event H V)) : Prop :=
  ∀ k < events.length, ∀ e ∈ events[k]?, e.2.isDispatch →
    (Dispatcher.callStack isUndefined plugins events k).head? ≠ some e.1

/-- A plugin with two factories. -/
def twoFactories : LionDenPlugin Unit where
  id := js "two"
  hookHandlers
    | .testing | .deployment => some .factory
    | .config => none

/-- The factory for test runs dispatches a deployment hook, whose factory dispatches a test hook. -/
def nestedRun : List (HookCategory × Event Unit Nat) :=
  [(.testing, .dispatch .serial (js "setup") 0), (.deployment, .dispatch .serial (js "setup") 0),
    (.testing, .dispatch .serial (js "setup") 1), (.testing, .factoryReturns none),
    (.deployment, .factoryReturns none), (.testing, .factoryReturns none),
    (.testing, .factorySettles 1 (.ok none)), (.testing, .factorySettles 0 (.ok none))]

/-- **A factory succeeds twice**, though no factory dispatches its own category. -/
theorem factory_succeeds_twice :
    ¬∀ (isUndefined : Nat → Bool) (plugins : List (LionDenPlugin Unit))
      (events : List (HookCategory × Event Unit Nat)) (category : HookCategory) (k : Nat),
      NoOwnDispatch isUndefined plugins events →
      ∀ i, (Dispatcher.after isUndefined plugins events category k).log.countP
        (Entered.isSuccess i) ≤ 1 := by
  intro h
  have hown : NoOwnDispatch (fun _ => false) [twoFactories] nestedRun := by
    unfold NoOwnDispatch
    decide +kernel
  exact absurd (h _ _ _ .testing 8 hown 0) (by decide +kernel)

end Lionden.Core.Hooks
