import Lionden.Core.Resolutions

/-!
# Dispatches that await a resolution

* `Category.Waiting`: who awaits which resolution, and who is queued. The dispatch that made a
  resolution goes on before the others that awaited it, so the resolution is deleted before any of
  them reports its failure (`Waiting.turn`, `Waiting.reported`).
* `Category.Ran`: a dispatch has run the first of the handlers of its hook.
-/

namespace Lionden.Core.Hooks

variable {H V : Type}

/-! ## Phases -/

namespace Phase

/-- The dispatch has awaited its resolution, if any. -/
def isPast : Phase H V → Bool
  | .creating | .awaiting _ => false
  | _ => true

/-- The failed resolution that the dispatch reports. -/
def failure? : Phase H V → Option (Failure V)
  | .category outcome => outcome
  | .handlers (.error failure) => some failure
  | .rejected (.inl failure) => some failure
  | _ => none

/-- The handlers still to be run. -/
def rest? : Phase H V → Option (List H)
  | .handlers (.ok rest) => some rest
  | .calling _ rest | .handled _ rest => some rest
  | .completed => some []
  | _ => none

/-- The category was resolved. -/
def isResolved : Phase H V → Bool
  | .category none => true
  | phase => phase.rest?.isSome

/-- No handler has run. -/
def isUnstarted : Phase H V → Bool
  | .rejected (.inr _) => false
  | phase => phase.rest?.isNone

theorem isResolved_of_rest {phase : Phase H V} {rest : List H} (h : phase.rest? = some rest) :
    phase.isResolved := by
  rcases phase with _ | _ | _ | _ | ⟨_ | _⟩ | _ | _ | _ | ⟨_ | _⟩ <;>
    simp_all [rest?, isResolved]

theorem isUnstarted_of_rest {phase : Phase H V} {rest : List H} (h : phase.rest? = some rest) :
    ¬ phase.isUnstarted := by
  rcases phase with _ | _ | _ | _ | ⟨_ | _⟩ | _ | _ | _ | ⟨_ | _⟩ <;>
    simp_all [rest?, isUnstarted]

/-- A failure that is reported has no handlers after it. -/
theorem of_failure {phase : Phase H V} {failure : Failure V} (h : phase.failure? = some failure) :
    phase.isPast ∧ phase.isUnstarted ∧ phase.isResolved = false ∧ phase.rest? = none ∧
      ∀ outcome r, phase ≠ .settled outcome r := by
  rcases phase with _ | _ | _ | ⟨_ | _⟩ | ⟨_ | _⟩ | _ | _ | _ | ⟨_ | _⟩ <;>
    simp_all [failure?, isPast, isUnstarted, isResolved, rest?]

end Phase

/-! ## What a dispatch sees -/

namespace Category

def stage (s : Category H V) (r : Nat) : Option (Stage H V) := (s.resolutions r).map (·.stage)

def reactions (s : Category H V) (r : Nat) : List Nat :=
  match s.resolutions r with
  | some resolution => resolution.reactions
  | none => []

def phase (s : Category H V) (d : Nat) : Option (Phase H V) := (s.dispatches d).map (·.phase)

def factories (s : Category H V) : Factories H V :=
  ⟨s.entries, s.resolved, s.resolving, s.stage, s.calling.head?, s.next, s.log⟩

variable {s s' : Category H V} {d r : Nat} {phase : Phase H V} {stage : Stage H V}

theorem setPhase_phase (hd : s.phase d ≠ none) (n : Nat) :
    (s.setPhase d phase).phase n = if n = d then some phase else s.phase n := by
  simp only [Category.phase, setPhase, Function.update_apply]
  split
  · obtain ⟨dispatch, hdispatch⟩ := Option.ne_none_iff_exists'.mp (mt Option.map_eq_none_iff.mpr hd)
    rw [hdispatch]
    rfl
  · rfl

theorem setStage_reactions (n : Nat) : (s.setStage r stage).reactions n = s.reactions n := by
  simp only [reactions, setStage, Function.update_apply]
  by_cases hn : n = r
  · subst hn
    rw [if_pos rfl]
    cases s.resolutions n <;> rfl
  · rw [if_neg hn]

theorem setStage_goes (hr : s.stage r ≠ none) :
    s.factories.Goes (s.setStage r stage).factories r stage := by
  intro n
  simp only [factories, Category.stage, setStage, Function.update_apply]
  split
  · obtain ⟨_, hresolution⟩ := Option.ne_none_iff_exists'.mp (mt Option.map_eq_none_iff.mpr hr)
    rw [hresolution]
    rfl
  · rfl

theorem settle_goes (outcome : Option (Failure V)) :
    s.factories.Goes (s.settle r outcome).factories r (.settled outcome) := by
  intro n
  simp only [factories, Category.stage, settle, Function.update_apply]
  split <;> rfl

theorem settle_reactions (outcome : Option (Failure V)) (n : Nat) :
    (s.settle r outcome).reactions n = if n = r then [] else s.reactions n := by
  simp only [reactions, settle, Function.update_apply]
  by_cases hn : n = r
  · rw [if_pos hn, if_pos hn]
  · rw [if_neg hn, if_neg hn]

theorem settle_phase {outcome : Option (Failure V)}
    (hreactions : ∀ d ∈ s.reactions r, s.phase d ≠ none) (d : Nat) :
    (s.settle r outcome).phase d =
      if d ∈ s.reactions r then some (.settled outcome r) else s.phase d := by
  have hdef : (s.settle r outcome).dispatches d = if d ∈ s.reactions r then
      (s.dispatches d).map fun dispatch => { dispatch with phase := .settled outcome r }
    else s.dispatches d := rfl
  rw [Category.phase, hdef]
  split
  · next hmem =>
    obtain ⟨_, hdispatch⟩ :=
      Option.ne_none_iff_exists'.mp (mt Option.map_eq_none_iff.mpr (hreactions d hmem))
    rw [hdispatch]
    rfl
  · rfl

/-! ## Who awaits what, and who is queued -/

structure Waiting (s : Category H V) : Prop where
  fresh : ∀ d, s.next ≤ d → s.phase d = none
  awaiting : ∀ r, ∀ d ∈ s.reactions r, s.phase d = some (.awaiting r)
  leads : ∀ r i, s.factories.At r i → s.resolving = some r → ∃ rest, s.reactions r = r :: rest
  alone : ∀ r i, s.stage r = some (.calling i false) →
    s.reactions r = [] ∧ s.phase r = some .creating
  queued : ∀ d, .proceed d ∈ s.queue → ∃ phase, s.phase d = some phase ∧ phase.isPast
  outcome : ∀ d o r, s.phase d = some (.settled o r) → s.stage r = some (.settled o)
  own : ∀ r o, s.phase r = some (.settled o r) → s.resolving = some r
  /-- The dispatch that made a settled resolution goes on before the others that awaited it. -/
  turn : ∀ r o, s.resolving = some r → s.stage r = some (.settled o) →
    s.phase r = some (.settled o r) ∧ ∃ before after, s.queue = before ++ .proceed r :: after ∧
      ∀ d, .proceed d ∈ before → ∀ o', s.phase d ≠ some (.settled o' r)
  reported : ∀ d phase f, s.phase d = some phase → phase.failure? = some f →
    s.resolving ≠ some f.resolution ∧ s.stage f.resolution = some (.settled (some f))
  resolved : ∀ d phase, s.phase d = some phase → phase.isResolved → s.resolved

/-- A job is taken from the queue, other than the one that deletes a resolution. -/
theorem Waiting.pop (h : s.Waiting) {job : Job} {queue : List Job} (hqueue : s.queue = job :: queue)
    (hjob : ∀ d o, job = .proceed d → s.phase d ≠ some (.settled o d)) :
    ({ s with queue } : Category H V).Waiting :=
  { h with
    queued := fun d hd => h.queued d (hqueue ▸ List.mem_cons_of_mem _ hd)
    turn := by
      intro r o hr hstage
      obtain ⟨hphase, before, after, hsplit, hbefore⟩ := h.turn r o hr hstage
      refine ⟨hphase, ?_⟩
      cases before with
      | nil =>
        obtain ⟨rfl, -⟩ := List.cons.inj (hqueue.symm.trans hsplit)
        exact absurd hphase (hjob r o rfl)
      | cons first before =>
        obtain ⟨rfl, hrest⟩ := List.cons.inj (hqueue.symm.trans hsplit)
        exact ⟨before, after, hrest, fun d hd => hbefore d (List.mem_cons_of_mem _ hd)⟩ }

/-- A dispatch goes on that is not waiting for a resolution of its own. -/
theorem Waiting.turns (h : s.Waiting)
    (hphase : ∀ n, s'.phase n = if n = d then some phase else s.phase n)
    (hcreating : s.phase d ≠ some .creating) (hawaiting : ∀ r, s.phase d ≠ some (.awaiting r))
    (hown : ∀ o, s.phase d ≠ some (.settled o d)) (hpast : phase.isPast)
    (hsettled : ∀ o r, phase = .settled o r →
      r ≠ d ∧ s.stage r = some (.settled o) ∧ .proceed d ∉ s.queue)
    (hreported : ∀ f, phase.failure? = some f →
      s.resolving ≠ some f.resolution ∧ s.stage f.resolution = some (.settled (some f)))
    (hresolved : phase.isResolved → s.resolved) (hnext : s.next ≤ s'.next) (hd : d < s'.next)
    (hstage : ∀ n, s'.stage n = s.stage n) (hreactions : ∀ n, s'.reactions n = s.reactions n)
    (hresolving : s'.resolving = s.resolving) (hresolved' : s'.resolved = s.resolved)
    {added : List Job} (hqueue : s'.queue = s.queue ++ added)
    (hadded : ∀ n, .proceed n ∈ added → n = d) : s'.Waiting := by
  have hat : ∀ r i, s'.factories.At r i → s.factories.At r i := by
    rintro r i ⟨stage, hr, hi⟩
    exact ⟨stage, (hstage r).symm.trans hr, hi⟩
  constructor
  case fresh => grind [h.fresh]
  case awaiting => grind [h.awaiting]
  case leads => grind [h.leads]
  case alone => grind [h.alone]
  case queued => grind [h.queued]
  case outcome => grind [h.outcome]
  case own => grind [h.own]
  case turn => grind [h.turn]
  case reported => grind [h.reported]
  case resolved => grind [h.resolved]

/-- The resolution that is under way goes on, and does not settle. -/
theorem Waiting.stays (h : s.Waiting) {i j : Nat} (hat : s.factories.At r i)
    (hstage : ∀ n, s'.stage n = if n = r then some stage else s.stage n)
    (hindex : stage.index? = some j) (hnot : ∀ k, stage ≠ .calling k false)
    (hresolving : s.resolving = some r) (hphase : ∀ n, s'.phase n = s.phase n)
    (hreactions : ∀ n, s'.reactions n = s.reactions n) (hresolving' : s'.resolving = s.resolving)
    (hresolved : s'.resolved = s.resolved) (hnext : s'.next = s.next) {added : List Job}
    (hqueue : s'.queue = s.queue ++ added) (hadded : ∀ n, .proceed n ∉ added) : s'.Waiting := by
  have hunsettled : ∀ o, s.stage r ≠ some (.settled o) := by
    obtain ⟨stage', hr, hi⟩ := hat
    rintro o ho
    obtain rfl := Option.some.inj (Eq.trans hr.symm ho)
    exact nomatch hi
  have hleads := h.leads r i hat hresolving
  constructor
  case fresh => grind [h.fresh]
  case awaiting => grind [h.awaiting]
  case leads =>
    rintro n k - hn
    obtain rfl : r = n := Option.some.inj (hresolving.symm.trans (hresolving' ▸ hn))
    rwa [hreactions]
  case alone => grind [h.alone]
  case queued => grind [h.queued]
  case outcome => grind [h.outcome]
  case own => grind [h.own]
  case turn =>
    intro n o hn hsettled
    obtain rfl : r = n := Option.some.inj (hresolving.symm.trans (hresolving' ▸ hn))
    rw [hstage, if_pos rfl] at hsettled
    obtain rfl := Option.some.inj hsettled
    exact nomatch hindex
  case reported => grind [h.reported]
  case resolved => grind [h.resolved]

/-- A new dispatch awaits a resolution. -/
theorem Waiting.joins (h : s.Waiting) {i : Nat} (hat : s.factories.At r i)
    (hresolving : s.resolving = some r)
    (hphase : ∀ n, s'.phase n = if n = s.next then some (.awaiting r) else s.phase n)
    (hreactions : ∀ n, s'.reactions n =
      if n = r then s.reactions r ++ [s.next] else s.reactions n)
    (hcalling : ∀ k, s.stage r ≠ some (.calling k false))
    (hstage : ∀ n, s'.stage n = s.stage n) (hresolving' : s'.resolving = s.resolving)
    (hresolved : s'.resolved = s.resolved) (hnext : s'.next = s.next + 1)
    (hqueue : s'.queue = s.queue) : s'.Waiting := by
  obtain ⟨rest, hrest⟩ := h.leads r i hat hresolving
  have hnew := h.fresh s.next (Nat.le_refl _)
  have hunsettled : ∀ o, s.stage r ≠ some (.settled o) := by
    obtain ⟨stage', hr, hi⟩ := hat
    rintro o ho
    obtain rfl := Option.some.inj (Eq.trans hr.symm ho)
    exact nomatch hi
  constructor
  case fresh => grind [h.fresh]
  case awaiting => grind [h.awaiting]
  case leads =>
    rintro n k - hn
    obtain rfl : r = n := Option.some.inj (hresolving.symm.trans (hresolving' ▸ hn))
    exact ⟨rest ++ [s.next], by rw [hreactions, if_pos rfl, hrest, List.cons_append]⟩
  case alone => grind [h.alone]
  case queued => grind [h.queued]
  case outcome => grind [h.outcome]
  case own => grind [h.own]
  case turn =>
    intro n o hn hsettled
    obtain rfl : r = n := Option.some.inj (hresolving.symm.trans (hresolving' ▸ hn))
    exact absurd ((hstage r).symm.trans hsettled) (hunsettled o)
  case reported => grind [Phase.failure?, h.reported]
  case resolved => grind [Phase.isResolved, Phase.rest?, h.resolved]

/-- A new dispatch makes a resolution. -/
theorem Waiting.begins (h : s.Waiting) {i : Nat} (hresolving : s.resolving = none)
    (hphase : ∀ n, s'.phase n = if n = s.next then some .creating else s.phase n)
    (hreactions : ∀ n, s'.reactions n = if n = s.next then [] else s.reactions n)
    (hstage : ∀ n, s'.stage n = if n = s.next then some (.calling i false) else s.stage n)
    (hfresh : s.stage s.next = none) (hresolving' : s'.resolving = s.resolving)
    (hresolved : s'.resolved = s.resolved) (hnext : s'.next = s.next + 1)
    (hqueue : s'.queue = s.queue) : s'.Waiting := by
  have hnew := h.fresh s.next (Nat.le_refl _)
  constructor
  case fresh => grind [h.fresh]
  case awaiting => grind [h.awaiting]
  case leads => grind
  case alone => grind [h.alone]
  case queued => grind [h.queued]
  case outcome => grind [h.outcome]
  case own => grind [h.own]
  case turn => grind
  case reported => grind [Phase.failure?, h.reported]
  case resolved => grind [Phase.isResolved, Phase.rest?, h.resolved]

/-- The dispatch that made a resolution awaits it, as its first factory has returned a promise. -/
theorem Waiting.created (h : s.Waiting) {i j : Nat} (hcalling : s.stage r = some (.calling i false))
    (hresolving : s.resolving = none)
    (hphase : ∀ n, s'.phase n = if n = r then some (.awaiting r) else s.phase n)
    (hreactions : ∀ n, s'.reactions n = if n = r then [r] else s.reactions n)
    (hstage : ∀ n, s'.stage n = if n = r then some (.loading j) else s.stage n)
    (hresolving' : s'.resolving = some r) (hresolved : s'.resolved = s.resolved)
    (hnext : s'.next = s.next) (hqueue : s'.queue = s.queue) : s'.Waiting := by
  obtain ⟨hnone, hcreating⟩ := h.alone r i hcalling
  constructor
  case fresh => grind [h.fresh]
  case awaiting => grind [h.awaiting]
  case leads => grind
  case alone => grind [h.alone]
  case queued => grind [Phase.isPast, h.queued]
  case outcome => grind [h.outcome]
  case own => grind [h.own]
  case turn => grind
  case reported => grind [Phase.failure?, h.reported]
  case resolved => grind [Phase.isResolved, Phase.rest?, h.resolved]

/-- The dispatch that made a resolution goes on, as nobody else awaits it and it is settled. -/
theorem Waiting.born (h : s.Waiting) {o : Option (Failure V)}
    (hcreating : s.phase r = none ∨ s.phase r = some .creating)
    (hunsettled : ∀ o, s.stage r ≠ some (.settled o)) (hresolving : s.resolving = none)
    (hphase : ∀ n, s'.phase n = if n = r then some (.settled o r) else s.phase n)
    (hreactions' : ∀ n, s'.reactions n = s.reactions n)
    (hstage : ∀ n, s'.stage n = if n = r then some (.settled o) else s.stage n)
    (hresolving' : s'.resolving = some r) (hresolved : s.resolved → s'.resolved)
    (hnext : s.next ≤ s'.next) (hr : r < s'.next) (hqueue : s'.queue = s.queue ++ [.proceed r]) :
    s'.Waiting := by
  constructor
  case fresh => grind [h.fresh]
  case awaiting => grind [h.awaiting]
  case leads =>
    rintro n k ⟨stage, hn, hk⟩ hresolves
    obtain rfl : r = n := Option.some.inj (hresolving'.symm.trans hresolves)
    obtain rfl := Option.some.inj (Eq.trans hn.symm (hstage r ▸ if_pos rfl))
    exact nomatch hk
  case alone => grind [h.alone]
  case queued =>
    intro d hd
    rw [hqueue, List.mem_append, List.mem_singleton] at hd
    rw [hphase]
    rcases hd with hd | heq
    · obtain ⟨phase, hd, hpast⟩ := h.queued d hd
      grind [Phase.isPast]
    · cases heq
      exact ⟨_, if_pos rfl, rfl⟩
  case outcome => grind [h.outcome]
  case own => grind [h.own]
  case turn =>
    intro n o' hn hsettled
    obtain rfl : r = n := Option.some.inj (hresolving'.symm.trans hn)
    refine ⟨by grind, s.queue, [], hqueue, fun d hd o' hphase' => ?_⟩
    obtain ⟨phase, hd, hpast⟩ := h.queued d hd
    have hold := h.outcome d o' r
    grind [Phase.isPast]
  case reported => grind [Phase.failure?, h.reported]
  case resolved => grind [Phase.isResolved, Phase.rest?, h.resolved]

/-- A resolution settles. -/
theorem Waiting.settles (h : s.Waiting) {i : Nat} {o : Option (Failure V)}
    (hat : s.factories.At r i) (hresolving : s.resolving = some r)
    (hphase : ∀ n, s'.phase n = if n ∈ s.reactions r then some (.settled o r) else s.phase n)
    (hreactions : ∀ n, s'.reactions n = if n = r then [] else s.reactions n)
    (hstage : ∀ n, s'.stage n = if n = r then some (.settled o) else s.stage n)
    (hresolving' : s'.resolving = s.resolving) (hresolved : s.resolved → s'.resolved)
    (hnext : s'.next = s.next)
    (hqueue : s'.queue = s.queue ++ (s.reactions r).map .proceed) : s'.Waiting := by
  have hunsettled : ∀ o, s.stage r ≠ some (.settled o) := by
    obtain ⟨stage', hr, hi⟩ := hat
    rintro o ho
    obtain rfl := Option.some.inj (Eq.trans hr.symm ho)
    exact nomatch hi
  have hawaiting := h.awaiting r
  constructor
  case fresh => grind [h.fresh, h.awaiting]
  case awaiting => grind [h.awaiting]
  case leads =>
    rintro n k ⟨stage, hn, hk⟩ hresolves
    obtain rfl : r = n := Option.some.inj (hresolving.symm.trans (hresolving' ▸ hresolves))
    obtain rfl := Option.some.inj (Eq.trans hn.symm (hstage r ▸ if_pos rfl))
    exact nomatch hk
  case alone => grind [h.alone, h.awaiting]
  case queued => grind [Phase.isPast, h.queued]
  case outcome => grind [h.outcome]
  case own => grind [h.own]
  case turn =>
    intro n o' hn hsettled
    obtain rfl : r = n := Option.some.inj (hresolving.symm.trans (hresolving' ▸ hn))
    obtain ⟨rest, hrest⟩ := h.leads r i hat hresolving
    refine ⟨by grind, s.queue, rest.map .proceed, by rw [hqueue, hrest]; rfl, ?_⟩
    intro d hd o' hphase'
    obtain ⟨phase, hd, hpast⟩ := h.queued d hd
    have hold := h.outcome d o' r
    grind [Phase.isPast]
  case reported => grind [Phase.failure?, h.reported]
  case resolved => grind [Phase.isResolved, Phase.rest?, h.resolved]

/-- The dispatch that made a resolution deletes it. -/
theorem Waiting.releases (h : s.Waiting) {o : Option (Failure V)} {queue : List Job}
    (hsettled : s.phase r = some (.settled o r))
    (hfail : ∀ f, o = some f → f.resolution = r) (hok : o = none → s.resolved)
    (hphase : ∀ n, s'.phase n = if n = r then some (.category o) else s.phase n)
    (hstage : ∀ n, s'.stage n = s.stage n) (hreactions : ∀ n, s'.reactions n = s.reactions n)
    (hresolving : s'.resolving = none) (hresolved : s'.resolved = s.resolved)
    (hnext : s'.next = s.next) (hqueue : s.queue = .proceed r :: queue)
    (hqueue' : s'.queue = queue ++ [.proceed r]) : s'.Waiting := by
  have hmine := h.own r o hsettled
  have hstage' := h.outcome r o r hsettled
  constructor
  case fresh => grind [h.fresh]
  case awaiting => grind [h.awaiting]
  case leads => grind
  case alone => grind [h.alone]
  case queued => grind [Phase.isPast, h.queued]
  case outcome => grind [h.outcome]
  case own => grind [h.own]
  case turn => grind
  case reported => grind [Phase.failure?, h.reported]
  case resolved => grind [Phase.isResolved, Phase.rest?, h.resolved]

/-! ## What has been run -/

/-- The handlers that a dispatch has called. -/
def runs (s : Category H V) (d : Nat) : List H := (s.ran.filter (·.1 = d)).map (·.2.1)

structure Ran (s : Category H V) : Prop where
  unstarted : ∀ d, (∀ phase, s.phase d = some phase → phase.isUnstarted) → s.runs d = []
  rest : ∀ d dispatch rest, s.dispatches d = some dispatch → dispatch.phase.rest? = some rest →
    s.runs d ++ rest = collectHandlers s.entries dispatch.hookName

theorem Ran.keep (h : s.Ran) (hw : s.Waiting) (hran : s'.ran = s.ran)
    (hentries : s.resolved → s'.entries = s.entries)
    (hdispatches : ∀ d, s'.dispatches d = s.dispatches d ∨
      (∀ phase, s.phase d = some phase → phase.isUnstarted) ∧
        ∀ phase, s'.phase d = some phase → phase.isUnstarted) : s'.Ran := by
  have hruns : ∀ d, s'.runs d = s.runs d := fun d => by rw [runs, runs, hran]
  refine ⟨fun d hd => ?_, fun d dispatch rest hd hrest => ?_⟩
  · rw [hruns]
    rcases hdispatches d with hsame | ⟨hbefore, -⟩
    · refine h.unstarted d fun phase hphase => hd phase ?_
      rw [Category.phase, hsame]
      exact hphase
    · exact h.unstarted d hbefore
  · rcases hdispatches d with hsame | ⟨-, hafter⟩
    · rw [hsame] at hd
      have hphase : s.phase d = some dispatch.phase := congrArg (Option.map _) hd
      have hresolved := hw.resolved d _ hphase (Phase.isResolved_of_rest hrest)
      rw [hruns, hentries hresolved]
      exact h.rest d dispatch rest hd hrest
    · exact absurd (hafter _ (congrArg (Option.map _) hd)) (Phase.isUnstarted_of_rest hrest)

theorem Ran.turns (h : s.Ran) {dispatch : Dispatch H V} {new : List (Nat × H × V)}
    (hdispatches : s'.dispatches = Function.update s.dispatches d (some dispatch))
    (hran : s'.ran = s.ran ++ new) (hnew : ∀ item ∈ new, item.1 = d)
    (hentries : s'.entries = s.entries)
    (hunstarted : dispatch.phase.isUnstarted → s.runs d ++ new.map (·.2.1) = [])
    (hrest : ∀ rest, dispatch.phase.rest? = some rest →
      s.runs d ++ new.map (·.2.1) ++ rest = collectHandlers s.entries dispatch.hookName) :
    s'.Ran := by
  have hself : s'.runs d = s.runs d ++ new.map (·.2.1) := by
    have hall : new.filter (·.1 = d) = new :=
      List.filter_eq_self.mpr fun item hitem => decide_eq_true (hnew item hitem)
    rw [runs, hran, List.filter_append, List.map_append, hall]
    rfl
  have hother : ∀ n ≠ d, s'.runs n = s.runs n := fun n hn => by
    have hnone : new.filter (·.1 = n) = [] := List.filter_eq_nil_iff.mpr fun item hitem heq =>
      hn ((of_decide_eq_true heq).symm.trans (hnew item hitem))
    rw [runs, hran, List.filter_append, hnone, List.append_nil]
    rfl
  have hphase : ∀ n ≠ d, s'.phase n = s.phase n := fun n hn => by
    rw [Category.phase, hdispatches, Function.update_of_ne hn]
    rfl
  refine ⟨fun n hn => ?_, fun n dispatch' rest hn hrest' => ?_⟩ <;> by_cases hnd : n = d
  · subst hnd
    rw [hself]
    refine hunstarted (hn _ ?_)
    rw [Category.phase, hdispatches, Function.update_self]
    rfl
  · rw [hother n hnd]
    exact h.unstarted n fun phase hp => hn phase ((hphase n hnd).trans hp)
  · subst hnd
    rw [hdispatches, Function.update_self] at hn
    obtain rfl := Option.some.inj hn
    rw [hself, hentries]
    exact hrest rest hrest'
  · rw [hdispatches, Function.update_of_ne hnd] at hn
    rw [hother n hnd, hentries]
    exact h.rest n dispatch' rest hn hrest'

end Category

end Lionden.Core.Hooks
