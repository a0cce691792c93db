import Lionden.Network.ImportClosure

/-!
# Seeds and the order of the references

A reference supplies the source of its program. The walk from an earlier reference may come to the
program of a later one, and then takes what it can fetch.

* `SeedsWin`: in every order of the references there is a result, the same one, with the supplied
  sources.
* `Apart`: where one reference comes to the program of another, that program is fetched as supplied.
* `seedsWin_iff`: the seeds win just when the references are apart.
-/

namespace Lionden.Network.ProgramImports

variable {localeLE : JsString → JsString → Bool} {sources : Sources} {programSource : JsString}
  {refs refs' : List RuntimeImportRef}

/-! ## References with distinct programs -/

/-- Each reference supplies a program, and no two the same. -/
structure Seeds (sources : Sources) (refs : List RuntimeImportRef) : Prop where
  supply : ∀ ref ∈ refs, ∃ id source, Supplies sources ref id source
  distinct : refs.Pairwise fun ref ref' =>
    ∀ id source source', Supplies sources ref id source → ¬Supplies sources ref' id source'

theorem Seeds.unique (h : Seeds sources refs) {ref ref' : RuntimeImportRef} (href : ref ∈ refs)
    (href' : ref' ∈ refs) {id source source' : JsString} (hsupplies : Supplies sources ref id source)
    (hsupplies' : Supplies sources ref' id source') : source' = source := by
  by_cases heq : ref = ref'
  · subst heq
    exact (hsupplies.unique hsupplies').2
  · have : Std.Symm fun ref ref' : RuntimeImportRef =>
        ∀ id source source', Supplies sources ref id source → ¬Supplies sources ref' id source' :=
      ⟨fun _ _ h id source source' hs hs' => h id source' source hs' hs⟩
    exact absurd hsupplies' (h.distinct.forall href href' heq id source source' hsupplies)

theorem Seeds.perm (h : Seeds sources refs) (hperm : refs'.Perm refs) : Seeds sources refs' where
  supply ref href := h.supply ref (hperm.mem_iff.mp href)
  distinct := hperm.symm.pairwise h.distinct
    fun h id source source' hs hs' => h id source' source hs' hs

/-- What a reference supplies is what the references supply. -/
theorem Seeds.supplied_eq (h : Seeds sources refs) {ref : RuntimeImportRef} (href : ref ∈ refs)
    {id source : JsString} (hsupplies : Supplies sources ref id source) :
    supplied sources refs id = some source := by
  cases hsupplied : supplied sources refs id with
  | none => exact absurd hsupplies (not_supplies_of_none hsupplied href source)
  | some first =>
    obtain ⟨ref', href', hfirst⟩ := supplies_of_supplied hsupplied
    rw [h.unique href href' hsupplies hfirst]

theorem Seeds.supplied_perm (h : Seeds sources refs) (hperm : refs'.Perm refs) :
    supplied sources refs' = supplied sources refs := by
  funext id
  cases hsupplied : supplied sources refs' id with
  | some source =>
    obtain ⟨ref, href, hsupplies⟩ := supplies_of_supplied hsupplied
    exact (h.supplied_eq (hperm.mem_iff.mp href) hsupplies).symm
  | none =>
    cases hother : supplied sources refs id with
    | none => rfl
    | some source =>
      obtain ⟨ref, href, hsupplies⟩ := supplies_of_supplied hother
      exact absurd hsupplies (not_supplies_of_none hsupplied (hperm.mem_iff.mpr href) source)

theorem suppliedId_perm (hperm : refs'.Perm refs) :
    SuppliedId sources refs' = SuppliedId sources refs := by
  funext id
  exact propext ⟨fun ⟨ref, href, h⟩ => ⟨ref, hperm.mem_iff.mp href, h⟩,
    fun ⟨ref, href, h⟩ => ⟨ref, hperm.mem_iff.mpr href, h⟩⟩

/-! ## The intended result -/

/-- `id` is reached from the program and the references, where supplied sources come before others. -/
def Reached (localeLE : JsString → JsString → Bool) (sources : Sources) (programSource : JsString)
    (refs : List RuntimeImportRef) : JsString → Prop :=
  Reaches localeLE (sourceOf sources refs) fun id =>
    id ∈ parseImportIds localeLE programSource ∨ SuppliedId sources refs id

/-- In every order of the references `resolveProgramImports` succeeds, with the same sources, and with
the supplied ones for the programs of the references. -/
def SeedsWin (localeLE : JsString → JsString → Bool) (sources : Sources) (programSource : JsString)
    (refs : List RuntimeImportRef) : Prop :=
  ∃ result : JsString → Option JsString, ∀ refs', refs'.Perm refs → ∃ fuel imports,
    resolveProgramImports localeLE sources fuel programSource refs' = .ok imports ∧
      (∀ id, (imports.getD []).lookup id = result id) ∧
      ∀ ref ∈ refs, ∀ id source, Supplies sources ref id source → result id = some source

/-- The source of a program that no reference supplies. -/
def unseeded (sources : Sources) (refs : List RuntimeImportRef) (id : JsString) : Option JsString :=
  if (supplied sources refs id).isSome then none else sources.fetch id

/-- Where the source of one reference leads, through programs that none supplies, to the program of
another reference, that program is fetched with the source that the other supplies. -/
def Apart (localeLE : JsString → JsString → Bool) (sources : Sources) (refs : List RuntimeImportRef) :
    Prop :=
  ∀ ref ∈ refs, ∀ ref' ∈ refs, ∀ id source id' source', Supplies sources ref id source →
    Supplies sources ref' id' source' → id' ≠ id →
    Reaches localeLE (unseeded sources refs) (· ∈ parseImportIds localeLE source) id' →
      sources.fetch id' = some source'

theorem unseeded_eq_some {id source : JsString} :
    unseeded sources refs id = some source ↔
      supplied sources refs id = none ∧ sources.fetch id = some source := by
  unfold unseeded
  cases supplied sources refs id <;> simp

/-! ## Where the seeds win -/

/-- The sources of `imports` are the intended ones. -/
def Agrees (localeLE : JsString → JsString → Bool) (sources : Sources) (programSource : JsString)
    (refs : List RuntimeImportRef) (imports : Imports) : Prop :=
  ∀ id source, imports.source id = some source →
    sourceOf sources refs id = some source ∧ Reached localeLE sources programSource refs id

/-- `ids` are come to when all seeds are in `imports`, or from a seed that is, through programs that are
not seeds. -/
def Entered (localeLE : JsString → JsString → Bool) (sources : Sources) (refs : List RuntimeImportRef)
    (imports : Imports) (ids : List JsString) : Prop :=
  (∀ id, SuppliedId sources refs id → id ∈ imports.keys) ∨
    ∃ ref ∈ refs, ∃ id source, Supplies sources ref id source ∧ id ∈ imports.keys ∧
      ∀ b ∈ ids, Reaches localeLE (unseeded sources refs) (· ∈ parseImportIds localeLE source) b

theorem Entered.mono {imports imports' : Imports} {ids ids' : List JsString}
    (h : Entered localeLE sources refs imports ids) (hwithin : imports.Within imports')
    (hids : ids' ⊆ ids) : Entered localeLE sources refs imports' ids' := by
  obtain hall | ⟨ref, href, id, source, hsupplies, hid, hreaches⟩ := h
  · exact .inl fun id h => hwithin.keys (hall id h)
  · exact .inr ⟨ref, href, id, source, hsupplies, hwithin.keys hid, fun b hb => hreaches b (hids hb)⟩

/-- What is come to and is not there yet is fetched as intended. -/
theorem Entered.fetch (hapart : Apart localeLE sources refs)
    {imports : Imports} {ids : List JsString} (h : Entered localeLE sources refs imports ids)
    {id : JsString} (hid : id ∈ ids) (hnot : id ∉ imports.keys)
    (hfetch : supplied sources refs id = none → ∃ source, sources.fetch id = some source) :
    ∃ source, sources.fetch id = some source ∧ sourceOf sources refs id = some source := by
  unfold sourceOf
  cases hsupplied : supplied sources refs id with
  | none =>
    obtain ⟨source, hsource⟩ := hfetch hsupplied
    exact ⟨source, hsource, hsource⟩
  | some source =>
    obtain ⟨ref', href', hsupplies'⟩ := supplies_of_supplied hsupplied
    obtain hall | ⟨ref, href, id', source', hsupplies, hid', hreaches⟩ := h
    · exact absurd (hall id ⟨ref', href', source, hsupplies'⟩) hnot
    · have hne : id ≠ id' := fun heq => hnot (heq ▸ hid')
      exact ⟨source, hapart ref href ref' href' id' source' id source hsupplies hsupplies' hne
        (hreaches id hid), rfl⟩

theorem Agrees.set {imports : Imports} (h : Agrees localeLE sources programSource refs imports)
    {id source origin : JsString} (hsource : sourceOf sources refs id = some source)
    (hid : Reached localeLE sources programSource refs id) :
    Agrees localeLE sources programSource refs (imports.set id (source, origin)) := by
  intro id' source' h'
  rw [Imports.source_set] at h'
  split at h'
  · next heq =>
    cases h'
    exact heq ▸ ⟨hsource, hid⟩
  · exact h id' source' h'

section

variable (hapart : Apart localeLE sources refs)
  (hfetch : ∀ id, Reached localeLE sources programSource refs id → supplied sources refs id = none →
    ∃ source, sources.fetch id = some source)
  {programs : List JsString}
  (hfinite : ∀ id, Reached localeLE sources programSource refs id → id ∈ programs)

include hapart hfetch hfinite

theorem visit_succeeds {fuel : Nat} {ancestry : List JsString} {imports : Imports} {source : JsString}
    (hagrees : Agrees localeLE sources programSource refs imports)
    (hancestry : ∀ id ∈ ancestry, id ∈ imports.keys)
    (hreached : ∀ b ∈ parseImportIds localeLE source, Reached localeLE sources programSource refs b)
    (hentered : Entered localeLE sources refs imports (parseImportIds localeLE source))
    (hfuel : Dfs.remaining programs imports.keys < fuel) :
    ∃ imports', visit localeLE sources fuel ancestry imports source = .ok imports' ∧
      Agrees localeLE sources programSource refs imports' := by
  induction fuel generalizing ancestry imports source with
  | zero => exact absurd hfuel (Nat.not_lt_zero _)
  | succ fuel ih =>
    -- The ids in turn, as in `visit_not_deep`.
    suffices ∀ ids, (∀ b ∈ ids, Reached localeLE sources programSource refs b) → ∀ imports : Imports,
        Agrees localeLE sources programSource refs imports → (∀ id ∈ ancestry, id ∈ imports.keys) →
        Entered localeLE sources refs imports ids →
        Dfs.remaining programs imports.keys < fuel + 1 →
        ∃ imports', ids.foldlM (visitImport sources (visit localeLE sources fuel) ancestry) imports =
          .ok imports' ∧ Agrees localeLE sources programSource refs imports' from
      this _ hreached imports hagrees hancestry hentered hfuel
    intro ids
    induction ids with
    | nil => exact fun _ imports hagrees _ _ _ => ⟨imports, rfl, hagrees⟩
    | cons importId ids ihids =>
      intro hreached imports hagrees hancestry hentered hfuel
      have hstep : ∃ between, visitImport sources (visit localeLE sources fuel) ancestry imports
          importId = .ok between ∧ Agrees localeLE sources programSource refs between := by
        unfold visitImport
        split
        · exact ⟨imports, rfl, hagrees⟩
        next hhas =>
        rw [not_or] at hhas
        have hself := hreached importId List.mem_cons_self
        obtain ⟨importSource, hfetched, hsource⟩ := hentered.fetch hapart List.mem_cons_self
          hhas.1 (hfetch importId hself)
        have hnone : imports.get? importId = none := by
          by_contra hsome
          obtain ⟨entry, hentry⟩ := Option.ne_none_iff_exists'.mp hsome
          exact hhas.1 (InsertionMap.mem_keys.mpr ⟨entry, hentry⟩)
        rw [hfetched]
        dsimp only
        rw [addImport, hnone]
        refine ih (hagrees.set hsource hself) (fun a ha => ?_)
          (fun b hb => hself.step hsource hb) ?_ ?_
        · rw [InsertionMap.keys_set hhas.1]
          exact List.mem_append.mpr ((List.mem_append.mp ha).imp_left (hancestry a))
        · -- From the id itself where it is a seed, or else from where it was come to.
          cases hsupplied : supplied sources refs importId with
          | some seedSource =>
            obtain ⟨ref, href, hsupplies⟩ := supplies_of_supplied hsupplied
            have heq : importSource = seedSource := by
              rw [sourceOf, hsupplied] at hsource
              exact (Option.some.inj hsource).symm
            refine .inr ⟨ref, href, importId, importSource, heq ▸ hsupplies, ?_, fun b => .root⟩
            rw [InsertionMap.keys_set hhas.1]
            exact List.mem_append_right _ (List.mem_singleton_self _)
          | none =>
            have hkeys : ∀ id ∈ imports.keys, id ∈ (imports.set importId (importSource,
                sources.origin importId (js "static import ← artifacts/" ++ importId)
                  (js "static import ← network"))).keys := fun id hid => by
              rw [InsertionMap.keys_set hhas.1]
              exact List.mem_append_left _ hid
            obtain hall | ⟨ref, href, id, seedSource, hsupplies, hid, hreaches⟩ := hentered
            · exact .inl fun id h => hkeys id (hall id h)
            · exact .inr ⟨ref, href, id, seedSource, hsupplies, hkeys id hid, fun b hb =>
                (hreaches importId List.mem_cons_self).step
                  (unseeded_eq_some.mpr ⟨hsupplied, hfetched⟩) hb⟩
        · rw [InsertionMap.keys_set hhas.1]
          have hless := Dfs.remaining_concat (hfinite importId hself) hhas.1
          omega
      obtain ⟨between, hbetween, hagrees'⟩ := hstep
      obtain ⟨hwalked, -⟩ := visitImport_walked (visit_walked fuel) hancestry hbetween
      have hmono : Dfs.remaining programs between.keys ≤ Dfs.remaining programs imports.keys :=
        Dfs.remaining_mono fun _ ha => hwalked.within.keys ha
      rw [List.foldlM_cons, hbetween]
      exact ihids (fun b hb => hreached b (List.mem_cons_of_mem _ hb)) between hagrees'
        (fun a ha => hwalked.within.keys (hancestry a ha))
        (hentered.mono hwalked.within (List.subset_cons_self _ _)) (by omega)

theorem seed_succeeds (hseeds : Seeds sources refs) {imports : Imports}
    (hagrees : Agrees localeLE sources programSource refs imports) {ref : RuntimeImportRef}
    (href : ref ∈ refs) :
    ∃ imports', seed localeLE sources (programs.length + 1) imports ref = .ok imports' ∧
      Agrees localeLE sources programSource refs imports' := by
  obtain ⟨id, source, hsupplies⟩ := hseeds.supply ref href
  have hsource : sourceOf sources refs id = some source := by
    rw [sourceOf, hseeds.supplied_eq href hsupplies, Option.some_or]
  have hself : Reached localeLE sources programSource refs id := .root (.inr ⟨ref, href, source, hsupplies⟩)
  have ⟨origin, hseed⟩ := hsupplies
  have hadd : ∃ added, addImport imports id source origin = .ok added ∧
      Agrees localeLE sources programSource refs added := by
    unfold addImport
    cases hget : imports.get? id with
    | none => exact ⟨_, rfl, hagrees.set hsource hself⟩
    | some entry =>
      have heq := (hagrees id entry.1 (by rw [Imports.source, hget]; rfl)).1
      rw [hsource] at heq
      exact ⟨imports, if_pos (Option.some.inj heq).symm, hagrees⟩
  obtain ⟨added, hadd, hagrees'⟩ := hadd
  have hid : id ∈ added.keys := Imports.mem_keys.mpr ⟨source, (addImport_within hadd).2⟩
  obtain ⟨imports', hvisit, hfinal⟩ := visit_succeeds hapart hfetch hfinite hagrees'
    (fun a ha => List.mem_singleton.mp ha ▸ hid) (fun b hb => hself.step hsource hb)
    (.inr ⟨ref, href, id, source, hsupplies, hid, fun b => .root⟩)
    (remaining_lt (Nat.lt_succ_self programs.length))
  refine ⟨imports', ?_, hfinal⟩
  unfold seed
  rw [hseed]
  change (addImport imports id source origin >>= _) = _
  rw [hadd]
  exact hvisit

theorem collectImports_succeeds (hseeds : Seeds sources refs) (hperm : refs'.Perm refs) :
    ∃ imports, collectImports localeLE sources (programs.length + 1) programSource refs' =
      .ok imports := by
  have hfold : ∀ more ⊆ refs, ∀ imports, Agrees localeLE sources programSource refs imports →
      ∃ imports', more.foldlM (seed localeLE sources (programs.length + 1)) imports = .ok imports' ∧
        Agrees localeLE sources programSource refs imports' := by
    intro more
    induction more with
    | nil => exact fun _ imports hagrees => ⟨imports, rfl, hagrees⟩
    | cons ref more ih =>
      intro hmore imports hagrees
      obtain ⟨between, hseed, hbetween⟩ :=
        seed_succeeds hapart hfetch hfinite hseeds hagrees (hmore List.mem_cons_self)
      rw [List.foldlM_cons, hseed]
      exact ih (List.subset_of_cons_subset hmore) between hbetween
  obtain ⟨seeded, hseeded, hagrees⟩ := hfold refs' hperm.subset .empty nofun
  have hcollected := Collected.empty.seedAll hseeded
  rw [List.nil_append, suppliedId_perm hperm] at hcollected
  obtain ⟨imports, hvisit, -⟩ := visit_succeeds hapart hfetch hfinite hagrees
    (show ∀ id ∈ ([] : List JsString), id ∈ seeded.keys by simp) (fun b hb => .root (.inl hb)) (.inl hcollected.rooted)
    (remaining_lt (Nat.lt_succ_self programs.length))
  refine ⟨imports, ?_⟩
  unfold collectImports
  rw [hseeded]
  exact hvisit

end

theorem IsClosure.lookup {entries : List (JsString × JsString)}
    (h : IsClosure localeLE sources programSource refs entries) {id : JsString} :
    (entries.lookup id).isSome ↔ Reached localeLE sources programSource refs id := by
  rw [Reached, ← h.keys id, List.lookup_isSome_iff, List.mem_map]
  exact ⟨fun ⟨e, he, heq⟩ => ⟨e, he, (beq_iff_eq.mp heq).symm⟩,
    fun ⟨e, he, heq⟩ => ⟨e, he, beq_iff_eq.mpr heq.symm⟩⟩

theorem IsClosure.lookup_eq {entries entries' : List (JsString × JsString)}
    (h : IsClosure localeLE sources programSource refs entries)
    (h' : IsClosure localeLE sources programSource refs entries') (id : JsString) :
    entries.lookup id = entries'.lookup id := by
  cases hlookup : entries.lookup id with
  | some source =>
    have hreached := h.lookup.mp (Option.isSome_iff_exists.mpr ⟨source, hlookup⟩)
    obtain ⟨source', hlookup'⟩ := Option.isSome_iff_exists.mp (h'.lookup.mpr hreached)
    have heq := h.sourced _ (Fallible.mem_of_lookup hlookup)
    have heq' := h'.sourced _ (Fallible.mem_of_lookup hlookup')
    rw [hlookup', ← heq, ← heq']
  | none =>
    cases hlookup' : entries'.lookup id with
    | none => rfl
    | some source' =>
      have hreached := h'.lookup.mp (Option.isSome_iff_exists.mpr ⟨source', hlookup'⟩)
      rw [← h.lookup, hlookup] at hreached
      cases hreached

/-- A closure for the references in another order. -/
theorem IsClosure.perm {entries : List (JsString × JsString)} (hseeds : Seeds sources refs)
    (hperm : refs'.Perm refs) (h : IsClosure localeLE sources programSource refs' entries) :
    IsClosure localeLE sources programSource refs entries := by
  have hsource : sourceOf sources refs' = sourceOf sources refs := by
    funext id
    rw [sourceOf, sourceOf, hseeds.supplied_perm hperm]
  have hkeys := h.keys
  rw [hsource, suppliedId_perm hperm] at hkeys
  exact ⟨h.distinct, hkeys, fun e he => hsource ▸ h.sourced e he⟩

theorem seedsWin_of_apart (hseeds : Seeds sources refs) (hapart : Apart localeLE sources refs)
    (hfetch : ∀ id, Reached localeLE sources programSource refs id → supplied sources refs id = none →
      ∃ source, sources.fetch id = some source)
    {programs : List JsString}
    (hfinite : ∀ id, Reached localeLE sources programSource refs id → id ∈ programs) :
    SeedsWin localeLE sources programSource refs := by
  have hresult : ∀ refs', refs'.Perm refs → ∃ imports,
      resolveProgramImports localeLE sources (programs.length + 1) programSource refs' =
        .ok imports ∧ IsClosure localeLE sources programSource refs (imports.getD []) := by
    intro refs' hperm
    obtain ⟨collected, hcollected⟩ := collectImports_succeeds hapart hfetch hfinite hseeds hperm
    have hok : ∃ imports, resolveProgramImports localeLE sources (programs.length + 1) programSource
        refs' = .ok imports := by
      unfold resolveProgramImports
      rw [hcollected]
      by_cases hnone : collected.entries = []
      · exact ⟨none, if_pos hnone⟩
      · exact ⟨_, if_neg hnone⟩
    obtain ⟨imports, hok⟩ := hok
    exact ⟨imports, hok, (resolveProgramImports_isClosure hok).perm hseeds hperm⟩
  obtain ⟨imports, -, hclosure⟩ := hresult refs (.refl refs)
  refine ⟨fun id => (imports.getD []).lookup id, fun refs' hperm => ?_⟩
  obtain ⟨imports', hok, hclosure'⟩ := hresult refs' hperm
  refine ⟨_, imports', hok, hclosure'.lookup_eq hclosure, fun ref href id source hsupplies => ?_⟩
  obtain ⟨source', hlookup⟩ := Option.isSome_iff_exists.mp
    (hclosure.lookup.mpr (.root (.inr ⟨ref, href, source, hsupplies⟩)))
  have heq := hclosure.sourced _ (Fallible.mem_of_lookup hlookup)
  rw [sourceOf, hseeds.supplied_eq href hsupplies, Option.some_or] at heq
  exact hlookup.trans heq.symm

/-! ## Where they do not -/

theorem seed_within {fuel : Nat} {imports imports' : Imports} {ref : RuntimeImportRef}
    (h : seed localeLE sources fuel imports ref = .ok imports') : imports.Within imports' := by
  obtain ⟨id, source, origin, added, -, hadd, hvisit⟩ := seed_ok h
  obtain ⟨hwithin, hsource⟩ := addImport_within hadd
  have hwalked := (visit_walked fuel _ _ _ _
    (fun a ha => List.mem_singleton.mp ha ▸ Imports.mem_keys.mpr ⟨_, hsource⟩) hvisit).1
  exact hwithin.trans hwalked.within

theorem foldlM_seed_within {fuel : Nat} {imports imports' : Imports} {more : List RuntimeImportRef}
    (h : more.foldlM (seed localeLE sources fuel) imports = .ok imports') :
    imports.Within imports' := by
  induction more generalizing imports with
  | nil =>
    cases h
    exact .refl _
  | cons ref more ih =>
    rw [List.foldlM_cons] at h
    obtain ⟨between, hseed, h⟩ := Fallible.bind_ok.mp h
    exact (seed_within hseed).trans (ih h)

/-- The first reference has fetched what its source leads to. -/
theorem Collected.fetched {ref : RuntimeImportRef} {roots : JsString → Prop} {imports : Imports}
    (h : Collected localeLE sources [ref] roots imports) (href : ref ∈ refs) {id source id' : JsString}
    (hsupplies : Supplies sources ref id source) (hne : id' ≠ id)
    (hreaches : Reaches localeLE (unseeded sources refs) (· ∈ parseImportIds localeLE source) id') :
    ∃ source', imports.source id' = some source' ∧ sources.fetch id' = some source' := by
  -- What the one reference does not supply is fetched.
  have hfetched : ∀ a s, imports.source a = some s → ¬Supplies sources ref a s →
      sources.fetch a = some s := by
    intro a s hs hnot
    obtain hfetch | ⟨ref', href', hsupplies'⟩ := h.provided a s hs
    · exact hfetch
    · exact absurd (List.mem_singleton.mp href' ▸ hsupplies') hnot
  have hid : id' ∈ imports.keys := by
    refine Reaches.closed (fun b hb => ?_) (fun a s ha hs b hb => ?_) hreaches
    · obtain ⟨id₁, source₁, hsupplies₁, hsource₁⟩ := h.seeds ref (List.mem_singleton_self ref)
      obtain ⟨rfl, rfl⟩ := hsupplies.unique hsupplies₁
      exact h.closed _ _ hsource₁ b hb
    · obtain ⟨s', hs'⟩ := Imports.mem_keys.mp ha
      obtain ⟨hnone, hfetch⟩ := unseeded_eq_some.mp hs
      have heq := hfetched a s' hs' (not_supplies_of_none hnone href s')
      obtain rfl := Option.some.inj (hfetch.symm.trans heq)
      exact h.closed a s hs' b hb
  obtain ⟨source', hsource'⟩ := Imports.mem_keys.mp hid
  exact ⟨source', hsource', hfetched id' source' hsource' fun h => hne (hsupplies.unique h).1⟩

theorem SeedsWin.apart (h : SeedsWin localeLE sources programSource refs) :
    Apart localeLE sources refs := by
  intro ref href ref' href' id source id' source' hsupplies hsupplies' hne hreaches
  obtain ⟨before, after, hsplit⟩ := List.append_of_mem href
  have hperm : (ref :: (before ++ after)).Perm refs := hsplit ▸ List.perm_middle.symm
  obtain ⟨result, hall⟩ := h
  obtain ⟨fuel, imports, hok, -⟩ := hall _ hperm
  obtain ⟨collected, hcollected, -⟩ := Fallible.bind_ok.mp hok
  obtain ⟨id₁, source₁, hsupplies₁, hsource₁⟩ :=
    (collectImports_collected hcollected).seeds ref' (hperm.mem_iff.mpr href')
  obtain ⟨rfl, rfl⟩ := hsupplies'.unique hsupplies₁
  obtain ⟨seeded, hseeded, hvisit⟩ := Fallible.bind_ok.mp hcollected
  rw [List.foldlM_cons] at hseeded
  obtain ⟨first, hfirst, hrest⟩ := Fallible.bind_ok.mp hseeded
  obtain ⟨fetched, hfetched, hfetch⟩ :=
    (Collected.empty.seed hfirst).fetched href hsupplies hne hreaches
  have hwithin := (foldlM_seed_within hrest).trans
    (visit_walked fuel _ _ _ _ (by simp) hvisit).1.within
  rw [hfetch, ← hwithin _ _ hfetched, hsource₁]

theorem SeedsWin.finite (h : SeedsWin localeLE sources programSource refs) :
    ∃ programs : List JsString,
      ∀ id, Reached localeLE sources programSource refs id → id ∈ programs := by
  obtain ⟨result, hall⟩ := h
  obtain ⟨fuel, imports, hok, -⟩ := hall refs (.refl refs)
  exact ⟨_, fun id hid => ((resolveProgramImports_isClosure hok).keys id).mpr hid⟩

/-- Given that what no reference supplies can be fetched, the seeds win just when finitely many programs
are reached and the references are apart. -/
theorem seedsWin_iff (hseeds : Seeds sources refs)
    (hfetch : ∀ id, Reached localeLE sources programSource refs id → supplied sources refs id = none →
      ∃ source, sources.fetch id = some source) :
    SeedsWin localeLE sources programSource refs ↔
      (∃ programs : List JsString,
        ∀ id, Reached localeLE sources programSource refs id → id ∈ programs) ∧
      Apart localeLE sources refs :=
  ⟨fun h => ⟨h.finite, h.apart⟩,
    fun ⟨⟨_, hfinite⟩, hapart⟩ => seedsWin_of_apart hseeds hapart hfetch hfinite⟩

/-! ## Two files -/

theorem seedRuntimeImport_path {absolutePath source id : JsString}
    (hfile : sources.file absolutePath = some source) (hheader : RegExp.firstAtLine matchHeader true source = some id) :
    seedRuntimeImport sources (.path absolutePath) =
      .ok ⟨id, source, js "runtime import ← " ++ absolutePath⟩ := by
  dsimp only [seedRuntimeImport]
  rw [hfile]
  dsimp only
  rw [parseProgramIdFromSource, hheader]
  rfl

/-- `/a.aleo`, which imports `b.aleo`, and `/b.aleo`, where the network has `deployed` for `b.aleo`. -/
def twoFiles (deployed : JsString) : Sources where
  artifact := fun _ => none
  file := fun path =>
    if path = js "/a.aleo" then some (js "import b.aleo;\nprogram a.aleo;")
    else if path = js "/b.aleo" then some (js "program b.aleo;")
    else none
  network := fun id => if id = js "b.aleo" then some deployed else none

def twoRefs : List RuntimeImportRef := [.path (js "/a.aleo"), .path (js "/b.aleo")]

def codeUnitsLE (a b : JsString) : Bool := decide (a ≤ b)

theorem twoFiles_supplies_a (deployed : JsString) : Supplies (twoFiles deployed)
    (.path (js "/a.aleo")) (js "a.aleo") (js "import b.aleo;\nprogram a.aleo;") :=
  ⟨_, seedRuntimeImport_path rfl (by decide +kernel)⟩

theorem twoFiles_supplies_b (deployed : JsString) :
    Supplies (twoFiles deployed) (.path (js "/b.aleo")) (js "b.aleo") (js "program b.aleo;") := by
  refine ⟨_, seedRuntimeImport_path ?_ (by decide +kernel)⟩
  have hne : js "/b.aleo" ≠ js "/a.aleo" := by decide +kernel
  simp only [twoFiles, if_neg hne, if_pos]

theorem twoFiles_seeds (deployed : JsString) : Seeds (twoFiles deployed) twoRefs where
  supply ref href := by
    obtain rfl | href := List.mem_cons.mp href
    · exact ⟨_, _, twoFiles_supplies_a deployed⟩
    · exact List.mem_singleton.mp href ▸ ⟨_, _, twoFiles_supplies_b deployed⟩
  distinct := by
    refine List.pairwise_pair.mpr fun id source source' ha hb => ?_
    obtain ⟨rfl, -⟩ := (twoFiles_supplies_a deployed).unique ha
    exact absurd ((twoFiles_supplies_b deployed).unique hb).1 (by decide +kernel)

theorem twoFiles_supplied (deployed : JsString) {id : JsString} :
    SuppliedId (twoFiles deployed) twoRefs id ↔ id = js "a.aleo" ∨ id = js "b.aleo" := by
  constructor
  · rintro ⟨ref, href, source, hsupplies⟩
    obtain rfl | href := List.mem_cons.mp href
    · exact .inl ((twoFiles_supplies_a deployed).unique hsupplies).1
    · obtain rfl := List.mem_singleton.mp href
      exact .inr ((twoFiles_supplies_b deployed).unique hsupplies).1
  · rintro (rfl | rfl)
    · exact ⟨_, List.mem_cons_self, _, twoFiles_supplies_a deployed⟩
    · exact ⟨_, List.mem_cons_of_mem _ List.mem_cons_self, _, twoFiles_supplies_b deployed⟩

/-- All that is reached is supplied. -/
theorem twoFiles_reached (deployed : JsString) {id : JsString}
    (h : Reached codeUnitsLE (twoFiles deployed) (js "import a.aleo;") twoRefs id) :
    SuppliedId (twoFiles deployed) twoRefs id := by
  have hprogram : parseImportIds codeUnitsLE (js "import a.aleo;") = [js "a.aleo"] := by
    decide +kernel
  have ha : parseImportIds codeUnitsLE (js "import b.aleo;\nprogram a.aleo;") = [js "b.aleo"] := by
    decide +kernel
  have hb : parseImportIds codeUnitsLE (js "program b.aleo;") = [] := by decide +kernel
  induction h with
  | root hroot =>
    refine hroot.elim (fun hid => ?_) fun hid => hid
    rw [hprogram, List.mem_singleton] at hid
    exact (twoFiles_supplied deployed).mpr (.inl hid)
  | step _ hsource hid ih =>
    obtain rfl | rfl := (twoFiles_supplied deployed).mp ih
    · rw [sourceOf, (twoFiles_seeds deployed).supplied_eq List.mem_cons_self
        (twoFiles_supplies_a deployed)] at hsource
      rw [← Option.some.inj hsource, ha, List.mem_singleton] at hid
      exact (twoFiles_supplied deployed).mpr (.inr hid)
    · rw [sourceOf, (twoFiles_seeds deployed).supplied_eq (List.mem_cons_of_mem _ List.mem_cons_self)
        (twoFiles_supplies_b deployed)] at hsource
      rw [← Option.some.inj hsource, hb] at hid
      cases hid

theorem twoFiles_fetch (deployed : JsString) (id : JsString)
    (h : Reached codeUnitsLE (twoFiles deployed) (js "import a.aleo;") twoRefs id)
    (hnone : supplied (twoFiles deployed) twoRefs id = none) :
    ∃ source, (twoFiles deployed).fetch id = some source := by
  obtain ⟨ref, href, source, hsupplies⟩ := twoFiles_reached deployed h
  exact absurd hsupplies (not_supplies_of_none hnone href source)

theorem twoFiles_apart : Apart codeUnitsLE (twoFiles (js "program b.aleo;")) twoRefs := by
  intro ref href ref' href' id source id' source' hsupplies hsupplies' hne hreaches
  have hids := (twoFiles_supplied _).mp ⟨ref, href, source, hsupplies⟩
  obtain rfl | rfl := (twoFiles_supplied _).mp ⟨ref', href', source', hsupplies'⟩
  · -- `b.aleo` leads nowhere.
    obtain rfl := hids.resolve_left fun heq => hne heq.symm
    have hsource := (twoFiles_seeds _).unique (List.mem_cons_of_mem _ List.mem_cons_self) href
      (twoFiles_supplies_b _) hsupplies
    have hb : parseImportIds codeUnitsLE (js "program b.aleo;") = [] := by decide +kernel
    rw [hsource, hb] at hreaches
    exact (Reaches.closed (p := fun _ => False) (fun _ hroot => absurd hroot List.not_mem_nil)
      (fun _ _ h => h.elim) hreaches).elim
  · rw [(twoFiles_seeds _).unique (List.mem_cons_of_mem _ List.mem_cons_self) href'
      (twoFiles_supplies_b _) hsupplies']
    decide +kernel

theorem seedsWin_iff_twoFiles :
    SeedsWin codeUnitsLE (twoFiles (js "program b.aleo;")) (js "import a.aleo;") twoRefs := by
  refine (seedsWin_iff (twoFiles_seeds _) (twoFiles_fetch _)).mpr ⟨⟨[js "a.aleo", js "b.aleo"], ?_⟩,
    twoFiles_apart⟩
  intro id hid
  obtain rfl | rfl := (twoFiles_supplied _).mp (twoFiles_reached _ hid)
  · exact List.mem_cons_self
  · exact List.mem_cons_of_mem _ List.mem_cons_self

/-- The walk from `a.aleo` takes the `b.aleo` of the network before its file is read. -/
theorem seedsWin_conflict :
    Seeds (twoFiles (js "program b.aleo;\nmapping m:")) twoRefs ∧
      (∀ id, Reached codeUnitsLE (twoFiles (js "program b.aleo;\nmapping m:")) (js "import a.aleo;")
        twoRefs id → supplied (twoFiles (js "program b.aleo;\nmapping m:")) twoRefs id = none →
        ∃ source, (twoFiles (js "program b.aleo;\nmapping m:")).fetch id = some source) ∧
      resolveProgramImports codeUnitsLE (twoFiles (js "program b.aleo;\nmapping m:")) 3
        (js "import a.aleo;") twoRefs =
        .error (.conflict (js "b.aleo") (js "program b.aleo;\nmapping m:")
          (js "static import ← network") (js "program b.aleo;") (js "runtime import ← /b.aleo")) ∧
      ¬SeedsWin codeUnitsLE (twoFiles (js "program b.aleo;\nmapping m:")) (js "import a.aleo;")
        twoRefs := by
  refine ⟨twoFiles_seeds _, twoFiles_fetch _, by decide +kernel, fun h => ?_⟩
  have heq := h.apart _ List.mem_cons_self _ (List.mem_cons_of_mem _ List.mem_cons_self) _ _ _ _
    (twoFiles_supplies_a _) (twoFiles_supplies_b _) (by decide +kernel)
    (.root (by decide +kernel))
  exact absurd heq (by decide +kernel)

end Lionden.Network.ProgramImports
