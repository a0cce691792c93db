import Lionden.Core.HookSystem

/-!
# Resolving a category

The side of a category that its factories see: the entries, the resolutions and what happened to the
factories. `Factories.Sound` is what holds of it at all times, in three parts.

* `Ordered`: at most one resolution is not settled, and it is the last one.
* `Progress`: that one is at the first entry with a factory, and a settled failure is out of date or
  its factory is the next one to be called.
* `Given`: a factory succeeds at most once, and its handlers are kept.
-/

namespace Lionden.Core.Hooks

variable {H V : Type}

/-! ## Entries -/

/-- Entry `i` is there, with a factory to be called. -/
def LazyAt (entries : List (Entry H)) (i : Nat) : Prop :=
  ∃ entry, entries[i]? = some entry ∧ entry.isLazy

namespace Category

theorem firstLazy_some {entries : List (Entry H)} {i j : Nat}
    (h : firstLazy entries i = some j) :
    i ≤ j ∧ LazyAt entries j ∧ ∀ k, i ≤ k → k < j → ¬ LazyAt entries k := by
  obtain ⟨n, hn, rfl⟩ := Option.map_eq_some_iff.mp h
  obtain ⟨hlt, hlazy, hbefore⟩ := List.findIdx?_eq_some_iff_getElem.mp hn
  rw [List.getElem_drop] at hlazy
  refine ⟨Nat.le_add_right i n, ⟨_, List.getElem?_eq_getElem _, hlazy⟩, ?_⟩
  rintro k hik hkn ⟨entry, hentry, hlazy'⟩
  obtain ⟨m, rfl⟩ := Nat.exists_eq_add_of_le hik
  have := hbefore m (by omega)
  rw [List.getElem_drop] at this
  obtain ⟨_, rfl⟩ := List.getElem?_eq_some_iff.mp hentry
  exact this hlazy'

theorem firstLazy_none {entries : List (Entry H)} {i : Nat} (h : firstLazy entries i = none) :
    ∀ k, i ≤ k → ¬ LazyAt entries k := by
  rintro k hik ⟨entry, hentry, hlazy⟩
  obtain ⟨m, rfl⟩ := Nat.exists_eq_add_of_le hik
  have hnone := List.findIdx?_eq_none_iff.mp (Option.map_eq_none_iff.mp h)
  rw [← List.getElem?_drop] at hentry
  exact Bool.false_ne_true ((hnone entry (List.mem_of_getElem? hentry)).symm.trans hlazy)

theorem setHandlers_getElem? (entries : List (Entry H)) (i : Nat)
    (handlers : Option (Handlers H)) (j : Nat) :
    (setHandlers entries i handlers)[j]? =
      (entries[j]?).map fun entry =>
        if i = j then { entry with handlers, factory := false } else entry := by
  rw [setHandlers, List.getElem?_modify]
  cases entries[j]? with
  | none => rfl
  | some entry => by_cases hij : i = j <;> simp [hij]

theorem lazyAt_setHandlers {entries : List (Entry H)} {i j : Nat}
    {handlers : Option (Handlers H)} :
    LazyAt (setHandlers entries i handlers) j ↔ j ≠ i ∧ LazyAt entries j := by
  rw [LazyAt, LazyAt, setHandlers_getElem?]
  cases entries[j]? with
  | none => simp
  | some entry =>
    by_cases hij : i = j
    · simp [hij, Entry.isLazy]
    · simp [hij, Ne.symm hij]

end Category

/-! ## What the factories see -/

structure Factories (H V : Type) where
  entries : List (Entry H)
  resolved : Bool
  resolving : Option Nat
  stage : Nat → Option (Stage H V)
  calling : Option Nat
  next : Nat
  log : List (Entered H)

/-- The entry that the loop is at. -/
def Stage.index? : Stage H V → Option Nat
  | .calling i _ | .loading i | .loaded i _ => some i
  | .settled _ => none

def Stage.isCalling : Stage H V → Bool
  | .calling .. => true
  | _ => false

/-- In the first call of a factory, which `resolving` does not know of yet. -/
def Stage.isFirstCall : Stage H V → Bool
  | .calling _ isCreated => !isCreated
  | _ => false

/-- Not at the handlers of a factory. -/
def Stage.NotLoaded (stage : Stage H V) : Prop := ∀ i handlers, stage ≠ .loaded i (.ok handlers)

def Entered.isSuccess (i : Nat) : Entered H → Bool
  | .succeeded j _ => i = j
  | .called .. => false

namespace Factories

variable {registered : List (Entry H)} {c c' : Factories H V} {r r' i : Nat} {stage : Stage H V}

/-- Resolution `r` is at entry `i`. -/
def At (c : Factories H V) (r i : Nat) : Prop :=
  ∃ stage, c.stage r = some stage ∧ stage.index? = some i

/-- Resolution `r` goes on to a stage. -/
def Goes (c c' : Factories H V) (r : Nat) (stage : Stage H V) : Prop :=
  ∀ n, c'.stage n = if n = r then some stage else c.stage n

theorem Goes.self (h : c.Goes c' r stage) : c'.stage r = some stage := by rw [h r, if_pos rfl]

theorem Goes.other (h : c.Goes c' r stage) (hne : r' ≠ r) : c'.stage r' = c.stage r' := by
  rw [h r', if_neg hne]

/-- Whoever is at an entry afterwards is `r` or was there before. -/
theorem Goes.at_cases (h : c.Goes c' r stage) {j : Nat} (hat : c'.At r' j) :
    r' = r ∧ stage.index? = some j ∨ r' ≠ r ∧ c.At r' j := by
  obtain ⟨stage', hstage', hj⟩ := hat
  by_cases hr : r' = r
  · subst hr
    rw [h.self] at hstage'
    exact .inl ⟨rfl, Option.some.inj hstage' ▸ hj⟩
  · exact .inr ⟨hr, stage', (h.other hr).symm.trans hstage', hj⟩

/-! ## Which resolution is under way -/

/-- At most one resolution is not settled, and it is the last one. In its first call of a factory it
is not in `resolving` yet. -/
structure Ordered (c : Factories H V) : Prop where
  fresh : ∀ r, c.next ≤ r → c.stage r = none
  calling : ∀ r, c.calling = some r ↔ ∃ stage, c.stage r = some stage ∧ stage.isCalling
  only : ∀ r i, c.At r i →
    (c.resolving = some r ∧ c.stage r ≠ some (.calling i false)) ∨
      (c.resolving = none ∧ c.stage r = some (.calling i false))
  made : ∀ r, c.resolving = some r → c.stage r ≠ none
  newest : ∀ r, (c.resolving = some r ∨ ∃ i, c.At r i) → ∀ r' > r, c.stage r' = none

theorem Ordered.unique (h : c.Ordered) {j : Nat} (hr : c.At r i) (hr' : c.At r' j) : r = r' := by
  rcases h.only r i hr with ⟨hres, -⟩ | ⟨hres, hstage⟩ <;>
    rcases h.only r' j hr' with ⟨hres', -⟩ | ⟨hres', hstage'⟩
  · exact Option.some.inj (hres.symm.trans hres')
  · exact nomatch hres.symm.trans hres'
  · exact nomatch hres.symm.trans hres'
  · have hcalling := (h.calling r).mpr ⟨_, hstage, rfl⟩
    exact Option.some.inj (hcalling.symm.trans ((h.calling r').mpr ⟨_, hstage', rfl⟩))

theorem Ordered.idle (h : c.Ordered) (hresolving : c.resolving = none) (hcalling : c.calling = none) :
    ¬ c.At r i := by
  intro hr
  rcases h.only r i hr with ⟨hres, -⟩ | ⟨-, hstage⟩
  · exact nomatch hresolving.symm.trans hres
  · exact nomatch hcalling.symm.trans ((h.calling r).mpr ⟨_, hstage, rfl⟩)

theorem At.of_calling (h : c.stage r = some stage) (hcalling : stage.isCalling) :
    ∃ i, c.At r i := by
  cases stage with
  | calling i isCreated => exact ⟨i, _, h, rfl⟩
  | loading | loaded | settled => exact nomatch hcalling

theorem Ordered.not_calling (h : c.Ordered) (hstage : c.stage r = some stage)
    (hindex : stage.index? = some i) (hnot : stage.isCalling = false) : c.calling = none := by
  cases hcalling : c.calling with
  | none => rfl
  | some n =>
    obtain ⟨stage', hn, hcall⟩ := (h.calling n).mp hcalling
    obtain ⟨j, hat⟩ := At.of_calling hn hcall
    obtain rfl := h.unique hat ⟨stage, hstage, hindex⟩
    obtain rfl := Option.some.inj (hstage.symm.trans hn)
    exact nomatch hnot.symm.trans hcall

theorem Ordered.keep (h : c.Ordered) (hstage : c'.stage = c.stage)
    (hresolving : c'.resolving = c.resolving) (hcalling : c'.calling = c.calling)
    (hnext : c.next ≤ c'.next) : c'.Ordered := by
  obtain ⟨entries, resolved, resolving, stage, calling, next, log⟩ := c'
  obtain rfl := hstage
  obtain rfl := hresolving
  obtain rfl := hcalling
  exact ⟨fun r hr => h.fresh r (hnext.trans hr), h.calling, h.only, h.made, h.newest⟩

/-- A resolution begins, in the call of a factory. -/
theorem Ordered.begin_ (h : c.Ordered) (hgoes : c.Goes c' c.next (.calling i false))
    (hidle : c.resolving = none) (hnone : c.calling = none) (hresolving : c'.resolving = none)
    (hcalling : c'.calling = some c.next) (hnext : c'.next = c.next + 1) : c'.Ordered where
  fresh r hr := by
    rw [hgoes.other (by omega)]
    exact h.fresh r (by omega)
  calling r := by
    rw [hcalling]
    constructor
    · rintro ⟨⟩
      exact ⟨_, hgoes.self, rfl⟩
    · rintro ⟨stage, hstage, hcall⟩
      by_cases hr : r = c.next
      · rw [hr]
      · rw [hgoes.other hr] at hstage
        exact nomatch hnone.symm.trans ((h.calling r).mpr ⟨stage, hstage, hcall⟩)
  only r j hat := by
    rcases hgoes.at_cases hat with ⟨rfl, ⟨⟩⟩ | ⟨-, hold⟩
    · exact .inr ⟨hresolving, hgoes.self⟩
    · exact absurd hold (h.idle hidle hnone)
  made r hr := nomatch hresolving.symm.trans hr
  newest := by
    rintro r (hr | ⟨j, hat⟩) r' hlt
    · exact nomatch hresolving.symm.trans hr
    · rcases hgoes.at_cases hat with ⟨rfl, -⟩ | ⟨-, hold⟩
      · rw [hgoes.other hlt.ne']
        exact h.fresh r' hlt.le
      · exact absurd hold (h.idle hidle hnone)

/-- A resolution is made that has nothing to do. -/
theorem Ordered.trivial (h : c.Ordered) (hgoes : c.Goes c' c.next (.settled none))
    (hidle : c.resolving = none) (hnone : c.calling = none) (hresolving : c'.resolving = some c.next)
    (hcalling : c'.calling = none) (hnext : c'.next = c.next + 1) : c'.Ordered where
  fresh r hr := by
    rw [hgoes.other (by omega)]
    exact h.fresh r (by omega)
  calling r := by
    rw [hcalling, ← hnone, h.calling r]
    by_cases hr : r = c.next
    · rw [hr, hgoes.self, h.fresh _ (Nat.le_refl _)]
      simp [Stage.isCalling]
    · rw [hgoes.other hr]
  only r j hat := by
    rcases hgoes.at_cases hat with ⟨-, ⟨⟩⟩ | ⟨-, hold⟩
    exact absurd hold (h.idle hidle hnone)
  made r hr := by
    obtain rfl := Option.some.inj (hresolving.symm.trans hr)
    rw [hgoes.self]
    exact nofun
  newest := by
    rintro r (hr | ⟨j, hat⟩) r' hlt
    · obtain rfl := Option.some.inj (hresolving.symm.trans hr)
      rw [hgoes.other hlt.ne']
      exact h.fresh r' hlt.le
    · rcases hgoes.at_cases hat with ⟨-, ⟨⟩⟩ | ⟨-, hold⟩
      exact absurd hold (h.idle hidle hnone)

/-- The resolution that is under way goes on. -/
theorem Ordered.advance (h : c.Ordered) (hat : c.At r i) (hgoes : c.Goes c' r stage)
    (hstage : ∀ j, stage ≠ .calling j false) (hresolving : c'.resolving = some r)
    (hcalling : c'.calling = if stage.isCalling then some r else none)
    (hnext : c'.next = c.next) : c'.Ordered where
  fresh n hn := by
    have hnone := h.fresh n (hnext ▸ hn)
    rw [hgoes.other, hnone]
    rintro rfl
    obtain ⟨stage', hstage', -⟩ := hat
    exact nomatch hnone.symm.trans hstage'
  calling n := by
    rw [hcalling]
    by_cases hn : n = r
    · rw [hn, hgoes.self]
      cases hcall : stage.isCalling <;> simp [hcall]
    · have hnot : ¬ ∃ stage, c.stage n = some stage ∧ stage.isCalling := by
        rintro ⟨stage', hstage', hcall⟩
        obtain ⟨j, hat'⟩ := At.of_calling hstage' hcall
        exact hn (h.unique hat' hat)
      rw [hgoes.other hn]
      refine ⟨fun heq => ?_, fun hex => absurd hex hnot⟩
      split at heq
      · exact absurd (Option.some.inj heq).symm hn
      · exact nomatch heq
  only n j hat' := by
    rcases hgoes.at_cases hat' with ⟨rfl, -⟩ | ⟨hne, hold⟩
    · exact .inl ⟨hresolving, fun heq => hstage j (Option.some.inj (hgoes.self.symm.trans heq))⟩
    · exact absurd (h.unique hold hat) hne
  made n hn := by
    obtain rfl := Option.some.inj (hresolving.symm.trans hn)
    rw [hgoes.self]
    exact nofun
  newest := by
    have hnewest := h.newest r (.inr ⟨i, hat⟩)
    have hlast : ∀ r' > r, c'.stage r' = none := fun r' hlt => by
      rw [hgoes.other hlt.ne', hnewest r' hlt]
    rintro n (hn | ⟨j, hat'⟩)
    · obtain rfl := Option.some.inj (hresolving.symm.trans hn)
      exact hlast
    · rcases hgoes.at_cases hat' with ⟨rfl, -⟩ | ⟨hne, hold⟩
      · exact hlast
      · exact absurd (h.unique hold hat) hne

/-- A settled resolution is deleted from `resolving`. -/
theorem Ordered.release (h : c.Ordered) (hr : c.resolving = some r)
    {outcome : Option (Failure V)} (hsettled : c.stage r = some (.settled outcome))
    (hstage : c'.stage = c.stage) (hresolving : c'.resolving = none)
    (hcalling : c'.calling = c.calling) (hnext : c'.next = c.next) : c'.Ordered := by
  have hidle : ∀ n j, c'.At n j → c.resolving = none ∧ c.stage n = some (.calling j false) := by
    rintro n j ⟨stage, hn, hj⟩
    rw [hstage] at hn
    rcases h.only n j ⟨stage, hn, hj⟩ with ⟨hres, -⟩ | hcall
    · obtain rfl := Option.some.inj (hr.symm.trans hres)
      obtain rfl := Option.some.inj (hsettled.symm.trans hn)
      exact nomatch hj
    · exact hcall
  refine ⟨fun n hn => ?_, fun n => ?_, fun n j hat => ?_, fun n hn => ?_, ?_⟩
  · rw [hstage]
    exact h.fresh n (hnext ▸ hn)
  · rw [hcalling, hstage]
    exact h.calling n
  · exact nomatch hr.symm.trans (hidle n j hat).1
  · exact nomatch hresolving.symm.trans hn
  · rintro n (hn | ⟨j, hat⟩)
    · exact nomatch hresolving.symm.trans hn
    · exact nomatch hr.symm.trans (hidle n j hat).1

/-! ## Which factory is called -/

/-- The first of the entries with a factory is `i`. -/
def First (c : Factories H V) (i : Nat) : Prop :=
  LazyAt c.entries i ∧ ∀ j < i, ¬ LazyAt c.entries j

theorem First.eq {j : Nat} (hi : c.First i) (hj : c.First j) : i = j := by
  rcases lt_trichotomy i j with hlt | heq | hlt
  · exact absurd hi.1 (hj.2 i hlt)
  · exact heq
  · exact absurd hj.1 (hi.2 j hlt)

theorem First.of_entries (h : c.First i) (hentries : c'.entries = c.entries) : c'.First i := by
  rw [First, hentries]
  exact h

structure Progress (c : Factories H V) : Prop where
  first : ∀ r i, c.At r i → c.resolved = false ∧ c.First i
  complete : c.resolved → ∀ i, ¬ LazyAt c.entries i
  resolved : ∀ r, c.stage r = some (.settled none) → c.resolved
  failure : ∀ r f, c.stage r = some (.settled (some f)) → f.resolution = r
  /-- A settled failure is out of date, or its factory is the next one to be called. -/
  retry : ∀ r f, c.stage r = some (.settled (some f)) →
    (∃ r' > r, .called f.index r' ∈ c.log) ∨ c.First f.index ∧ ∀ r' > r, c.stage r' = none

theorem Progress.keep (h : c.Progress) (hstage : c'.stage = c.stage)
    (hentries : c'.entries = c.entries) (hresolved : c'.resolved = c.resolved)
    (hlog : c'.log = c.log) : c'.Progress := by
  obtain ⟨entries, resolved, resolving, stage, calling, next, log⟩ := c'
  obtain rfl := hstage
  obtain rfl := hentries
  obtain rfl := hresolved
  obtain rfl := hlog
  exact ⟨h.first, h.complete, h.resolved, h.failure, h.retry⟩

theorem Progress.begin_ (h : c.Progress) (ho : c.Ordered) {j : Nat}
    (hgoes : c.Goes c' c.next (.calling j false)) (hidle : c.resolving = none)
    (hnone : c.calling = none) (hfirst : c.First j) (hentries : c'.entries = c.entries)
    (hopen : c.resolved = false) (hresolved : c'.resolved = c.resolved)
    (hlog : c'.log = c.log ++ [.called j c.next]) : c'.Progress := by
  refine ⟨fun r i hat => ?_, ?_, fun r hr => ?_, fun r f hr => ?_, fun r f hr => ?_⟩
  · rcases hgoes.at_cases hat with ⟨-, ⟨⟩⟩ | ⟨-, hold⟩
    · exact ⟨hresolved.trans hopen, hfirst.of_entries hentries⟩
    · exact absurd hold (ho.idle hidle hnone)
  · rw [hresolved, hentries]
    exact h.complete
  · rw [hresolved]
    by_cases hne : r = c.next
    · subst hne
      exact nomatch hgoes.self.symm.trans hr
    · exact h.resolved r ((hgoes.other hne).symm.trans hr)
  all_goals
    have hne : r ≠ c.next := by
      rintro rfl
      exact nomatch hgoes.self.symm.trans hr
    rw [hgoes.other hne] at hr
  · exact h.failure r f hr
  · left
    rw [hlog]
    rcases h.retry r f hr with ⟨r', hlt, hmem⟩ | ⟨hold, -⟩
    · exact ⟨r', hlt, List.mem_append_left _ hmem⟩
    · refine ⟨c.next, ?_, ?_⟩
      · by_contra hlt
        exact nomatch (ho.fresh r (by omega)).symm.trans hr
      · rw [hold.eq hfirst]
        exact List.mem_append_right _ (List.mem_singleton.mpr rfl)

theorem Progress.trivial (h : c.Progress) (ho : c.Ordered)
    (hgoes : c.Goes c' c.next (.settled none)) (hidle : c.resolving = none)
    (hnone : c.calling = none) (hentries : c'.entries = c.entries)
    (hcomplete : ∀ i, ¬ LazyAt c.entries i) (hresolved : c'.resolved) (hlog : c'.log = c.log) :
    c'.Progress := by
  have hother : ∀ r f, c'.stage r = some (.settled (some f)) →
      c.stage r = some (.settled (some f)) := fun r f hr => by
    rw [← hr, hgoes.other]
    rintro rfl
    exact nomatch hgoes.self.symm.trans hr
  refine ⟨fun r i hat => ?_, fun _ => hentries ▸ hcomplete, fun _ _ => hresolved,
    fun r f hr => h.failure r f (hother r f hr), fun r f hr => ?_⟩
  · rcases hgoes.at_cases hat with ⟨-, ⟨⟩⟩ | ⟨-, hold⟩
    exact absurd hold (ho.idle hidle hnone)
  · rcases h.retry r f (hother r f hr) with hlog' | ⟨hfirst, -⟩
    · rw [hlog]
      exact .inl hlog'
    · exact absurd hfirst.1 (hcomplete _)

/-- The resolution that is under way goes on. -/
theorem Progress.advance (h : c.Progress) (ho : c.Ordered) (hat : c.At r i)
    (hgoes : c.Goes c' r stage)
    (hfirst : ∀ j, stage.index? = some j → c'.resolved = false ∧ c'.First j)
    (hcomplete : c'.resolved → ∀ i, ¬ LazyAt c'.entries i)
    (hnone : stage = .settled none → c'.resolved)
    (hfail : ∀ f, stage = .settled (some f) → f.resolution = r ∧ c'.First f.index)
    (hlog : c.log ⊆ c'.log) : c'.Progress := by
  have hnewest := ho.newest r (.inr ⟨i, hat⟩)
  refine ⟨fun n j hat' => ?_, hcomplete, fun n hn => ?_, fun n f hn => ?_, fun n f hn => ?_⟩
  · rcases hgoes.at_cases hat' with ⟨-, hindex⟩ | ⟨hne, hold⟩
    · exact hfirst j hindex
    · exact absurd (ho.unique hold hat) hne
  all_goals by_cases hne : n = r
  · subst hne
    exact hnone (Option.some.inj (hgoes.self.symm.trans hn))
  · rw [hgoes.other hne] at hn
    exact nomatch (h.first r i hat).1.symm.trans (h.resolved n hn)
  · subst hne
    exact (hfail f (Option.some.inj (hgoes.self.symm.trans hn))).1
  · exact h.failure n f ((hgoes.other hne).symm.trans hn)
  · subst hne
    refine .inr ⟨(hfail f (Option.some.inj (hgoes.self.symm.trans hn))).2, fun r' hlt => ?_⟩
    rw [hgoes.other hlt.ne', hnewest r' hlt]
  · rw [hgoes.other hne] at hn
    rcases h.retry n f hn with ⟨r', hlt, hmem⟩ | ⟨-, hlast⟩
    · exact .inl ⟨r', hlt, hlog hmem⟩
    · obtain ⟨stage', hstage', -⟩ := hat
      rcases lt_or_gt_of_ne hne with hlt | hlt
      · exact nomatch (hlast r hlt).symm.trans hstage'
      · exact nomatch (hnewest n hlt).symm.trans hn

/-! ## What the factories have given -/

/-- The entries are those that were registered, some with the handlers of their factory. -/
def Provided (registered : List (Entry H)) (c : Factories H V) : Prop :=
  c.entries.length = registered.length ∧
    ∀ i entry, c.entries[i]? = some entry →
      registered[i]? = some entry ∨
        ∃ handlers, .succeeded i handlers ∈ c.log ∧ (registered[i]?).map
          (fun entry => { entry with handlers, factory := false }) = some entry

structure Given (registered : List (Entry H)) (c : Factories H V) : Prop where
  loaded : ∀ r i handlers, c.stage r = some (.loaded i (.ok handlers)) →
    .succeeded i handlers ∈ c.log
  done : ∀ i handlers, .succeeded i handlers ∈ c.log →
    ¬ LazyAt c.entries i ∨ ∃ r handlers', c.stage r = some (.loaded i (.ok handlers'))
  once : ∀ i, c.log.countP (Entered.isSuccess i) ≤ 1
  provided : c.Provided registered

theorem Goes.loaded_iff (hgoes : c.Goes c' r stage)
    (hold : ∀ i handlers, c.stage r ≠ some (.loaded i (.ok handlers))) (hnew : stage.NotLoaded)
    (n i : Nat) (handlers : Option (Handlers H)) :
    c'.stage n = some (.loaded i (.ok handlers)) ↔ c.stage n = some (.loaded i (.ok handlers)) := by
  by_cases hn : n = r
  · subst hn
    rw [hgoes.self]
    constructor
    · intro hloaded
      exact absurd (Option.some.inj hloaded) (hnew i handlers)
    · intro hloaded
      exact absurd hloaded (hold i handlers)
  · rw [hgoes.other hn]

/-- Calls of factories, if any, are logged. -/
def Calls (c c' : Factories H V) : Prop :=
  ∃ called : List (Entered H), c'.log = c.log ++ called ∧
    ∀ i, called.countP (Entered.isSuccess i) = 0

theorem Calls.of_eq (h : c'.log = c.log) : c.Calls c' :=
  ⟨[], by rw [h, List.append_nil], fun _ => rfl⟩

theorem Calls.of_call {j n : Nat} (h : c'.log = c.log ++ [.called j n]) : c.Calls c' :=
  ⟨_, h, fun _ => rfl⟩

theorem Calls.countP_eq (h : c.Calls c') (i : Nat) :
    c'.log.countP (Entered.isSuccess i) = c.log.countP (Entered.isSuccess i) := by
  obtain ⟨called, hlog, hcalled⟩ := h
  rw [hlog, List.countP_append, hcalled i, Nat.add_zero]

theorem Calls.mem_iff (h : c.Calls c') {handlers : Option (Handlers H)} :
    .succeeded i handlers ∈ c'.log ↔ .succeeded i handlers ∈ c.log := by
  obtain ⟨called, hlog, hcalled⟩ := h
  rw [hlog, List.mem_append, or_iff_left]
  intro hmem
  exact List.countP_eq_zero.mp (hcalled i) _ hmem (decide_eq_true rfl)

/-- No factory succeeds, and no handlers are kept. -/
theorem Given.keep (h : c.Given registered)
    (hloaded : ∀ r i handlers, c'.stage r = some (.loaded i (.ok handlers)) ↔
      c.stage r = some (.loaded i (.ok handlers)))
    (hentries : c'.entries = c.entries) (hlog : c.Calls c') : c'.Given registered := by
  refine ⟨fun r i handlers hr => ?_, fun i handlers hi => ?_, fun i => ?_, ?_⟩
  · exact hlog.mem_iff.mpr (h.loaded r i handlers ((hloaded r i handlers).mp hr))
  · rw [hentries]
    simp only [hloaded]
    exact h.done i handlers (hlog.mem_iff.mp hi)
  · rw [hlog.countP_eq]
    exact h.once i
  · simp only [Provided, hentries, hlog.mem_iff]
    exact h.provided

/-- The factory that is being called or awaited has not succeeded yet. -/
theorem Given.none_yet (h : c.Given registered) (hp : c.Progress) (ho : c.Ordered) (hat : c.At r i)
    (hstage : c.stage r = some stage) (hnot : stage.NotLoaded) {handlers : Option (Handlers H)} :
    .succeeded i handlers ∉ c.log := by
  intro hmem
  rcases h.done i handlers hmem with hdone | ⟨n, handlers', hn⟩
  · exact hdone (hp.first r i hat).2.1
  · obtain rfl := ho.unique hat ⟨_, hn, rfl⟩
    exact hnot i handlers' (Option.some.inj (hstage.symm.trans hn))

/-- The promise of a factory is fulfilled. -/
theorem Given.arrive (h : c.Given registered) (hp : c.Progress) (ho : c.Ordered)
    {handlers : Option (Handlers H)} (hloading : c.stage r = some (.loading i))
    (hgoes : c.Goes c' r (.loaded i (.ok handlers))) (hentries : c'.entries = c.entries)
    (hlog : c'.log = c.log ++ [.succeeded i handlers]) : c'.Given registered := by
  have hnot : ∀ handlers, .succeeded i handlers ∉ c.log := fun handlers =>
    h.none_yet hp ho ⟨_, hloading, rfl⟩ hloading fun _ _ => nofun
  refine ⟨fun n j handlers' hn => ?_, fun j handlers' hj => ?_, fun j => ?_, ?_⟩
  · rw [hlog]
    by_cases hnr : n = r
    · subst hnr
      cases hgoes.self.symm.trans hn
      exact List.mem_append_right _ (List.mem_singleton.mpr rfl)
    · exact List.mem_append_left _ (h.loaded n j handlers' ((hgoes.other hnr).symm.trans hn))
  · rw [hlog, List.mem_append, List.mem_singleton] at hj
    rcases hj with hj | heq
    · rw [hentries]
      refine (h.done j handlers' hj).imp_right fun ⟨n, handlers'', hn⟩ => ?_
      refine ⟨n, handlers'', (hgoes.other ?_).trans hn⟩
      rintro rfl
      exact nomatch hloading.symm.trans hn
    · cases heq
      exact .inr ⟨r, handlers, hgoes.self⟩
  · rw [hlog, List.countP_append]
    by_cases hj : j = i
    · subst hj
      have hzero : c.log.countP (Entered.isSuccess j) = 0 := by
        refine List.countP_eq_zero.mpr fun item hitem hsuccess => ?_
        cases item with
        | called => exact nomatch hsuccess
        | succeeded k handlers' =>
          obtain rfl : j = k := of_decide_eq_true hsuccess
          exact hnot handlers' hitem
      rw [hzero, Nat.zero_add]
      exact List.countP_le_length
    · simpa [Entered.isSuccess, hj] using h.once j
  · refine ⟨(congrArg _ hentries).trans h.provided.1, fun j entry hj => ?_⟩
    refine (h.provided.2 j entry (hentries ▸ hj)).imp_right fun ⟨handlers', hmem, heq⟩ => ?_
    exact ⟨handlers', hlog ▸ List.mem_append_left _ hmem, heq⟩

/-- The handlers of a factory are kept. -/
theorem Given.set (h : c.Given registered) (hp : c.Progress) (ho : c.Ordered)
    {handlers : Option (Handlers H)} (hloaded : c.stage r = some (.loaded i (.ok handlers)))
    (hgoes : c.Goes c' r stage) (hnot : stage.NotLoaded)
    (hentries : c'.entries = Category.setHandlers c.entries i handlers) (hlog : c.Calls c') :
    c'.Given registered := by
  have hat : c.At r i := ⟨_, hloaded, rfl⟩
  refine ⟨fun n j handlers' hn => ?_, fun j handlers' hj => ?_, fun j => ?_, ?_, fun j entry hj => ?_⟩
  · have hnr : n ≠ r := by
      rintro rfl
      exact hnot j handlers' (Option.some.inj (hgoes.self.symm.trans hn))
    exact hlog.mem_iff.mpr (h.loaded n j handlers' ((hgoes.other hnr).symm.trans hn))
  · left
    rw [hentries, Category.lazyAt_setHandlers]
    rintro ⟨hne, hlazy⟩
    rcases h.done j handlers' (hlog.mem_iff.mp hj) with hdone | ⟨n, handlers'', hn⟩
    · exact hdone hlazy
    · obtain rfl := ho.unique hat ⟨_, hn, rfl⟩
      cases hloaded.symm.trans hn
      exact hne rfl
  · rw [hlog.countP_eq]
    exact h.once j
  · rw [hentries, Category.setHandlers, List.length_modify]
    exact h.provided.1
  · simp only [hlog.mem_iff]
    rw [hentries, Category.setHandlers_getElem?] at hj
    obtain ⟨old, hold, rfl⟩ := Option.map_eq_some_iff.mp hj
    by_cases hij : i = j
    · subst hij
      refine .inr ⟨handlers, h.loaded r i handlers hloaded, ?_⟩
      obtain ⟨lazy, hlazy, hisLazy⟩ := (hp.first r i hat).2.1
      obtain rfl := Option.some.inj (hold.symm.trans hlazy)
      rcases h.provided.2 i old hold with heq | ⟨handlers', -, heq⟩
      · rw [heq, if_pos rfl, Option.map_some]
      · obtain ⟨entry, -, rfl⟩ := Option.map_eq_some_iff.mp heq
        simp [Entry.isLazy] at hisLazy
    · rw [if_neg hij]
      exact h.provided.2 j old hold

/-- What holds of the factories of a category at all times. -/
structure Sound (registered : List (Entry H)) (c : Factories H V) : Prop where
  ordered : c.Ordered
  progress : c.Progress
  given : c.Given registered

end Factories

end Lionden.Core.Hooks
