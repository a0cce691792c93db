import Lionden.Lib.Dfs
import Lionden.Lib.Fallible
import Lionden.Network.ProgramImports

/-!
# The imports are a closure

* `Reaches`: the ids that are reached through import statements, given the source of each id.
* `Walked`, `visit_walked`: what a walk adds.
* `visit_not_deep`, `visit_mono`: enough fuel gives the result of the walk.
* `resolve_closure`: `resolveProgramImports` ends, and returns exactly what is reached.
-/

namespace Lionden.Network.ProgramImports

/-! ## Reachability -/

/-- `id` is reached from `roots` through the import statements of the sources `sourceOf`. -/
inductive Reaches (localeLE : JsString → JsString → Bool) (sourceOf : JsString → Option JsString)
    (roots : JsString → Prop) : JsString → Prop
  | root {id} (h : roots id) : Reaches localeLE sourceOf roots id
  | step {a b source} (ha : Reaches localeLE sourceOf roots a) (hsource : sourceOf a = some source)
      (hb : b ∈ parseImportIds localeLE source) : Reaches localeLE sourceOf roots b

variable {localeLE : JsString → JsString → Bool} {sources : Sources}

theorem Reaches.mono {sourceOf sourceOf' : JsString → Option JsString} {roots roots' : JsString → Prop}
    (hsource : ∀ id source, sourceOf id = some source → sourceOf' id = some source)
    (hroots : ∀ id, roots id → Reaches localeLE sourceOf' roots' id) {id : JsString}
    (h : Reaches localeLE sourceOf roots id) : Reaches localeLE sourceOf' roots' id := by
  induction h with
  | root h => exact hroots _ h
  | step _ ha hb ih => exact ih.step (hsource _ _ ha) hb

/-- What is closed under imports holds all that is reached. -/
theorem Reaches.closed {sourceOf : JsString → Option JsString} {roots p : JsString → Prop}
    (hroots : ∀ id, roots id → p id)
    (hstep : ∀ a source, p a → sourceOf a = some source → ∀ b ∈ parseImportIds localeLE source, p b)
    {id : JsString} (h : Reaches localeLE sourceOf roots id) : p id := by
  induction h with
  | root h => exact hroots _ h
  | step _ ha hb ih => exact hstep _ _ ih ha _ hb

/-! ## Maps of imports -/

theorem Imports.mem_keys {imports : Imports} {id : JsString} :
    id ∈ imports.keys ↔ ∃ source, imports.source id = some source := by
  rw [InsertionMap.mem_keys]
  constructor
  · rintro ⟨entry, h⟩
    exact ⟨entry.1, by rw [Imports.source, h]; rfl⟩
  · rintro ⟨source, h⟩
    obtain ⟨entry, hentry, -⟩ := Option.map_eq_some_iff.mp h
    exact ⟨entry, hentry⟩

theorem Imports.source_set (imports : Imports) (id id' source origin : JsString) :
    Imports.source (imports.set id (source, origin)) id' =
      if id' = id then some source else imports.source id' := by
  unfold Imports.source
  rw [InsertionMap.get?_set]
  split <;> rfl

/-- All sources of `imports` are in `imports'`. -/
def Imports.Within (imports imports' : Imports) : Prop :=
  ∀ id source, imports.source id = some source → imports'.source id = some source

theorem Imports.Within.refl (imports : Imports) : imports.Within imports := fun _ _ h => h

theorem Imports.Within.trans {a b c : Imports} (hab : a.Within b) (hbc : b.Within c) : a.Within c :=
  fun id source h => hbc id source (hab id source h)

theorem Imports.Within.keys {imports imports' : Imports} (h : imports.Within imports') {id : JsString}
    (hid : id ∈ imports.keys) : id ∈ imports'.keys := by
  obtain ⟨source, hsource⟩ := Imports.mem_keys.mp hid
  exact Imports.mem_keys.mpr ⟨source, h id source hsource⟩

/-- An id that has its source already, or one that gets it now. -/
theorem addImport_ok {imports imports' : Imports} {id source origin : JsString}
    (h : addImport imports id source origin = .ok imports') :
    imports.source id = some source ∧ imports' = imports ∨
      id ∉ imports.keys ∧ imports' = imports.set id (source, origin) := by
  unfold addImport at h
  split at h
  · next existing existingOrigin hget =>
    split at h
    · next heq =>
      cases h
      exact .inl ⟨by rw [Imports.source, hget, ← heq]; rfl, rfl⟩
    · cases h
  · next hget =>
    cases h
    refine .inr ⟨fun hid => ?_, rfl⟩
    obtain ⟨entry, hentry⟩ := InsertionMap.mem_keys.mp hid
    rw [hget] at hentry
    cases hentry

theorem addImport_within {imports imports' : Imports} {id source origin : JsString}
    (h : addImport imports id source origin = .ok imports') :
    imports.Within imports' ∧ imports'.source id = some source := by
  obtain ⟨hsource, rfl⟩ | ⟨hid, rfl⟩ := addImport_ok h
  · exact ⟨Imports.Within.refl _, hsource⟩
  · refine ⟨fun id' source' h' => ?_, by rw [Imports.source_set, if_pos rfl]⟩
    have hne : id' ≠ id := fun heq => hid (heq ▸ Imports.mem_keys.mpr ⟨source', h'⟩)
    rwa [Imports.source_set, if_neg hne]

/-! ## A walk -/

/-- What a walk from `roots` adds: ids that are fetched, are reached, and whose imports are there. -/
structure Walked (localeLE : JsString → JsString → Bool) (sources : Sources)
    (imports imports' : Imports) (roots : JsString → Prop) : Prop where
  within : imports.Within imports'
  added : ∀ id source, imports'.source id = some source → id ∉ imports.keys →
    sources.fetch id = some source ∧ (∀ b ∈ parseImportIds localeLE source, b ∈ imports'.keys) ∧
      Reaches localeLE imports'.source roots id

theorem Walked.refl (imports : Imports) (roots : JsString → Prop) :
    Walked localeLE sources imports imports roots :=
  ⟨.refl _, fun _ source h hnot => absurd (Imports.mem_keys.mpr ⟨source, h⟩) hnot⟩

theorem Walked.trans {a b c : Imports} {roots roots' : JsString → Prop}
    (h : Walked localeLE sources a b roots) (h' : Walked localeLE sources b c roots')
    (hroots : ∀ id, roots' id → Reaches localeLE c.source roots id) :
    Walked localeLE sources a c roots := by
  refine ⟨h.within.trans h'.within, fun id source hsource hnot => ?_⟩
  by_cases hb : id ∈ b.keys
  · obtain ⟨source', hsource'⟩ := Imports.mem_keys.mp hb
    obtain rfl := Option.some.inj (hsource.symm.trans (h'.within id source' hsource'))
    obtain ⟨hfetch, hclosed, hreaches⟩ := h.added id source hsource' hnot
    exact ⟨hfetch, fun d hd => h'.within.keys (hclosed d hd),
      hreaches.mono h'.within fun _ => .root⟩
  · obtain ⟨hfetch, hclosed, hreaches⟩ := h'.added id source hsource hb
    exact ⟨hfetch, hclosed, hreaches.mono (fun _ _ h => h) hroots⟩

theorem Walked.weaken {imports imports' : Imports} {roots roots' : JsString → Prop}
    (h : Walked localeLE sources imports imports' roots)
    (hroots : ∀ id, roots id → Reaches localeLE imports'.source roots' id) :
    Walked localeLE sources imports imports' roots' :=
  ⟨h.within, fun id source hsource hnot => by
    obtain ⟨hfetch, hclosed, hreaches⟩ := h.added id source hsource hnot
    exact ⟨hfetch, hclosed, hreaches.mono (fun _ _ h => h) hroots⟩⟩

/-- A walk that ends has come to all that `programSource` imports. -/
def WalksTo (localeLE : JsString → JsString → Bool) (sources : Sources)
    (walk : List JsString → Imports → JsString → Except ImportError Imports) : Prop :=
  ∀ ancestry imports programSource imports', (∀ id ∈ ancestry, id ∈ imports.keys) →
    walk ancestry imports programSource = .ok imports' →
      Walked localeLE sources imports imports' (· ∈ parseImportIds localeLE programSource) ∧
        ∀ id ∈ parseImportIds localeLE programSource, id ∈ imports'.keys

theorem visitImport_walked {walk : List JsString → Imports → JsString → Except ImportError Imports}
    (hwalk : WalksTo localeLE sources walk) {ancestry : List JsString} {imports imports' : Imports}
    {importId : JsString} (hancestry : ∀ id ∈ ancestry, id ∈ imports.keys)
    (h : visitImport sources walk ancestry imports importId = .ok imports') :
    Walked localeLE sources imports imports' (· = importId) ∧ importId ∈ imports'.keys := by
  unfold visitImport at h
  split at h
  · next hhas =>
    cases h
    exact ⟨.refl _ _, hhas.elim id (hancestry importId)⟩
  next hhas =>
  rw [not_or] at hhas
  split at h
  · cases h
  next importSource hfetch =>
  obtain ⟨added, hadd, h⟩ := Fallible.bind_ok.mp h
  obtain ⟨hsource, -⟩ | ⟨-, hset⟩ := addImport_ok hadd
  · exact absurd (Imports.mem_keys.mpr ⟨_, hsource⟩) hhas.1
  obtain ⟨hwithin, hsource⟩ := addImport_within hadd
  have hid := Imports.mem_keys.mpr ⟨_, hsource⟩
  obtain ⟨hwalked, hall⟩ := hwalk _ _ _ _ (fun a ha => by
    obtain ha | ha := List.mem_append.mp ha
    · exact hwithin.keys (hancestry a ha)
    · exact List.mem_singleton.mp ha ▸ hid) h
  have hsource' := hwalked.within _ _ hsource
  refine ⟨⟨hwithin.trans hwalked.within, fun id source hs hnot => ?_⟩, hwalked.within.keys hid⟩
  by_cases heq : id = importId
  · subst heq
    obtain rfl := Option.some.inj (hs.symm.trans hsource')
    exact ⟨hfetch, hall, .root rfl⟩
  · have hnot' : id ∉ added.keys := fun hmem => by
      obtain ⟨source', hmem⟩ := Imports.mem_keys.mp hmem
      rw [hset, Imports.source_set, if_neg heq] at hmem
      exact hnot (Imports.mem_keys.mpr ⟨source', hmem⟩)
    obtain ⟨hfetched, hclosed, hreaches⟩ := hwalked.added id source hs hnot'
    refine ⟨hfetched, hclosed, hreaches.mono (fun _ _ => fun h => h) fun b hb => ?_⟩
    exact .step (.root rfl) hsource' hb

theorem foldlM_walked {walk : List JsString → Imports → JsString → Except ImportError Imports}
    (hwalk : WalksTo localeLE sources walk) {ancestry ids : List JsString} {imports imports' : Imports}
    (hancestry : ∀ id ∈ ancestry, id ∈ imports.keys)
    (h : ids.foldlM (visitImport sources walk ancestry) imports = .ok imports') :
    Walked localeLE sources imports imports' (· ∈ ids) ∧ ∀ id ∈ ids, id ∈ imports'.keys := by
  induction ids generalizing imports with
  | nil =>
    cases h
    exact ⟨.refl _ _, nofun⟩
  | cons importId ids ih =>
    rw [List.foldlM_cons] at h
    obtain ⟨between, hstep, h⟩ := Fallible.bind_ok.mp h
    obtain ⟨hwalked, hid⟩ := visitImport_walked hwalk hancestry hstep
    obtain ⟨hrest, hall⟩ := ih (fun a ha => hwalked.within.keys (hancestry a ha)) h
    have hfirst : Walked localeLE sources imports between (· ∈ importId :: ids) :=
      hwalked.weaken fun _ heq => .root (heq ▸ List.mem_cons_self)
    exact ⟨hfirst.trans hrest fun _ hmem => .root (List.mem_cons_of_mem _ hmem),
      List.forall_mem_cons.mpr ⟨hrest.within.keys hid, hall⟩⟩

theorem visit_walked (fuel : Nat) : WalksTo localeLE sources (visit localeLE sources fuel) := by
  induction fuel with
  | zero => exact fun _ _ _ _ _ h => nomatch h
  | succ fuel ih => exact fun _ _ _ _ hancestry h => foldlM_walked ih hancestry h

/-! ## Fuel -/

/-- `programs` holds what its programs import, as they are fetched. -/
def FetchClosed (localeLE : JsString → JsString → Bool) (sources : Sources)
    (programs : List JsString) : Prop :=
  ∀ id ∈ programs, ∀ source, sources.fetch id = some source →
    parseImportIds localeLE source ⊆ programs

theorem visit_not_deep {programs : List JsString} (hclosed : FetchClosed localeLE sources programs)
    {fuel : Nat} {ancestry : List JsString} {imports : Imports} {programSource : JsString}
    (hids : parseImportIds localeLE programSource ⊆ programs)
    (hancestry : ∀ id ∈ ancestry, id ∈ imports.keys)
    (hfuel : Dfs.remaining programs imports.keys < fuel) :
    visit localeLE sources fuel ancestry imports programSource ≠ .error .deep := by
  induction fuel generalizing ancestry imports programSource with
  | zero => exact absurd hfuel (Nat.not_lt_zero _)
  | succ fuel ih =>
    -- The ids in turn: each walk adds ids, so that fewer remain for the next.
    suffices ∀ ids ⊆ programs, ∀ imports : Imports, (∀ id ∈ ancestry, id ∈ imports.keys) →
        Dfs.remaining programs imports.keys < fuel + 1 →
        ids.foldlM (visitImport sources (visit localeLE sources fuel) ancestry) imports ≠
          .error .deep from this _ hids imports hancestry hfuel
    intro ids
    induction ids with
    | nil => exact fun _ _ _ _ h => nomatch h
    | cons importId ids ihids =>
      intro hids imports hancestry hfuel h
      rw [List.foldlM_cons, Fallible.bind_error] at h
      obtain h | ⟨between, hstep, h⟩ := h
      · unfold visitImport at h
        split at h
        · cases h
        next hhas =>
        rw [not_or] at hhas
        split at h
        · cases h
        next importSource hfetch =>
        obtain h | ⟨added, hadd, h⟩ := Fallible.bind_error.mp h
        · unfold addImport at h
          split at h
          · split at h <;> cases h
          · cases h
        · obtain ⟨hsource, -⟩ | ⟨-, hset⟩ := addImport_ok hadd
          · exact hhas.1 (Imports.mem_keys.mpr ⟨_, hsource⟩)
          obtain ⟨hwithin, hsource⟩ := addImport_within hadd
          have hmem : importId ∈ programs := hids List.mem_cons_self
          refine ih (hclosed importId hmem importSource hfetch) (fun a ha => ?_) ?_ h
          · obtain ha | ha := List.mem_append.mp ha
            · exact hwithin.keys (hancestry a ha)
            · exact List.mem_singleton.mp ha ▸ Imports.mem_keys.mpr ⟨_, hsource⟩
          · rw [hset, InsertionMap.keys_set hhas.1]
            have hless := Dfs.remaining_concat hmem hhas.1
            omega
      · obtain ⟨hwalked, -⟩ := visitImport_walked (visit_walked fuel) hancestry hstep
        refine ihids (fun a ha => hids (List.mem_cons_of_mem _ ha)) between
          (fun a ha => hwalked.within.keys (hancestry a ha)) ?_ h
        have hmono : Dfs.remaining programs between.keys ≤ Dfs.remaining programs imports.keys :=
          Dfs.remaining_mono fun _ ha => hwalked.within.keys ha
        omega

/-- A fold whose steps agree until they run out of fuel. -/
theorem foldlM_mono {σ α : Type} {f g : σ → α → Except ImportError σ}
    (hfg : ∀ s x, f s x ≠ .error .deep → g s x = f s x) {xs : List α} {s : σ}
    (h : xs.foldlM f s ≠ .error .deep) : xs.foldlM g s = xs.foldlM f s := by
  induction xs generalizing s with
  | nil => rfl
  | cons x xs ih =>
    rw [List.foldlM_cons] at h ⊢
    rw [List.foldlM_cons]
    cases hf : f s x with
    | error e =>
      rw [hf] at h
      rw [hfg s x (by rw [hf]; exact h), hf]
      rfl
    | ok t =>
      rw [hf] at h
      rw [hfg s x (by rw [hf]; exact nofun), hf]
      exact ih h

theorem visit_mono {fuel : Nat} {ancestry : List JsString} {imports : Imports}
    {programSource : JsString}
    (h : visit localeLE sources fuel ancestry imports programSource ≠ .error .deep) :
    visit localeLE sources (fuel + 1) ancestry imports programSource =
      visit localeLE sources fuel ancestry imports programSource := by
  induction fuel generalizing ancestry imports programSource with
  | zero => exact absurd rfl h
  | succ fuel ih =>
    refine foldlM_mono (fun imports importId hstep => ?_) h
    unfold visitImport at hstep ⊢
    split
    · rfl
    next hhas =>
    rw [if_neg hhas] at hstep
    split
    · rfl
    next importSource hfetch =>
    rw [hfetch] at hstep
    dsimp only at hstep ⊢
    cases hadd : addImport imports importId importSource _ with
    | error e => rfl
    | ok added =>
      rw [hadd] at hstep
      exact ih hstep

/-! ## What the references supply -/

/-- `ref` supplies `source` for `id`. -/
def Supplies (sources : Sources) (ref : RuntimeImportRef) (id source : JsString) : Prop :=
  ∃ origin, seedRuntimeImport sources ref = .ok ⟨id, source, origin⟩

theorem Supplies.unique {ref : RuntimeImportRef} {id id' source source' : JsString}
    (h : Supplies sources ref id source) (h' : Supplies sources ref id' source') :
    id' = id ∧ source' = source := by
  obtain ⟨origin, h⟩ := h
  obtain ⟨origin', h'⟩ := h'
  rw [h] at h'
  cases h'
  exact ⟨rfl, rfl⟩

/-- The source that the references supply for `id`: that of the first of them. -/
def supplied (sources : Sources) (refs : List RuntimeImportRef) (id : JsString) : Option JsString :=
  refs.findSome? fun ref =>
    match seedRuntimeImport sources ref with
    | .ok seeded => if seeded.programId = id then some seeded.source else none
    | .error _ => none

/-- The source of `id`: the one that is supplied, or else the one that is fetched. -/
def sourceOf (sources : Sources) (refs : List RuntimeImportRef) (id : JsString) : Option JsString :=
  (supplied sources refs id).or (sources.fetch id)

theorem supplies_of_supplied {refs : List RuntimeImportRef} {id source : JsString}
    (h : supplied sources refs id = some source) : ∃ ref ∈ refs, Supplies sources ref id source := by
  obtain ⟨ref, hmem, h⟩ := List.exists_of_findSome?_eq_some h
  split at h
  · next seeded hseeded =>
    split at h
    · next hid =>
      cases h
      exact ⟨ref, hmem, seeded.origin, by rw [hseeded, ← hid]⟩
    · cases h
  · cases h

theorem not_supplies_of_none {refs : List RuntimeImportRef} {id : JsString}
    (h : supplied sources refs id = none) {ref : RuntimeImportRef} (href : ref ∈ refs)
    (source : JsString) : ¬Supplies sources ref id source := by
  rintro ⟨origin, hseed⟩
  have hnone := List.findSome?_eq_none_iff.mp h ref href
  rw [hseed] at hnone
  simp at hnone

/-! ## What is collected -/

/-- What `imports` holds, once it has come to `roots`: every source is fetched or supplied, and what is
there is what is reached. -/
structure Collected (localeLE : JsString → JsString → Bool) (sources : Sources)
    (refs : List RuntimeImportRef) (roots : JsString → Prop) (imports : Imports) : Prop where
  provided : ∀ id source, imports.source id = some source →
    sources.fetch id = some source ∨ ∃ ref ∈ refs, Supplies sources ref id source
  closed : ∀ id source, imports.source id = some source →
    ∀ b ∈ parseImportIds localeLE source, b ∈ imports.keys
  reached : ∀ id ∈ imports.keys, Reaches localeLE imports.source roots id
  rooted : ∀ id, roots id → id ∈ imports.keys
  seeds : ∀ ref ∈ refs, ∃ id source, Supplies sources ref id source ∧ imports.source id = some source

/-- The ids that the references supply. -/
def SuppliedId (sources : Sources) (refs : List RuntimeImportRef) (id : JsString) : Prop :=
  ∃ ref ∈ refs, ∃ source, Supplies sources ref id source

theorem Collected.empty : Collected localeLE sources [] (SuppliedId sources []) .empty where
  provided := nofun
  closed := nofun
  reached := nofun
  rooted := by rintro id ⟨ref, hmem, -⟩; cases hmem
  seeds := nofun

/-- A walk from `imports` keeps what has been collected. -/
theorem Collected.visit {refs : List RuntimeImportRef} {roots : JsString → Prop}
    {imports imports' : Imports} (h : Collected localeLE sources refs roots imports) {fuel : Nat}
    {programSource : JsString}
    (hvisit : visit localeLE sources fuel [] imports programSource = .ok imports') :
    Collected localeLE sources refs
      (fun id => id ∈ parseImportIds localeLE programSource ∨ roots id) imports' := by
  obtain ⟨hwalked, hall⟩ := visit_walked fuel [] imports programSource imports' (by simp) hvisit
  have hold : ∀ id source, imports'.source id = some source → id ∈ imports.keys →
      imports.source id = some source := by
    intro id source hsource hid
    obtain ⟨source', hsource'⟩ := Imports.mem_keys.mp hid
    exact hsource'.trans ((hwalked.within _ _ hsource').symm.trans hsource)
  refine ⟨fun id source hsource => ?_, fun id source hsource b hb => ?_, fun id hid => ?_, ?_, ?_⟩
  · by_cases hid : id ∈ imports.keys
    · exact h.provided id source (hold id source hsource hid)
    · exact .inl (hwalked.added id source hsource hid).1
  · by_cases hid : id ∈ imports.keys
    · exact hwalked.within.keys (h.closed id source (hold id source hsource hid) b hb)
    · exact (hwalked.added id source hsource hid).2.1 b hb
  · by_cases hold : id ∈ imports.keys
    · exact (h.reached id hold).mono hwalked.within fun _ => .root ∘ .inr
    · obtain ⟨source, hsource⟩ := Imports.mem_keys.mp hid
      exact (hwalked.added id source hsource hold).2.2.mono (fun _ _ h => h) fun _ => .root ∘ .inl
  · rintro id (hid | hid)
    · exact hall id hid
    · exact hwalked.within.keys (h.rooted id hid)
  · intro ref href
    obtain ⟨id, source, hsupplies, hsource⟩ := h.seeds ref href
    exact ⟨id, source, hsupplies, hwalked.within _ _ hsource⟩

theorem seed_ok {fuel : Nat} {imports imports' : Imports} {ref : RuntimeImportRef}
    (h : seed localeLE sources fuel imports ref = .ok imports') :
    ∃ id source origin added, seedRuntimeImport sources ref = .ok ⟨id, source, origin⟩ ∧
      addImport imports id source origin = .ok added ∧
      visit localeLE sources fuel [id] added source = .ok imports' := by
  obtain ⟨⟨id, source, origin⟩, hseed, h⟩ := Fallible.bind_ok.mp h
  obtain ⟨added, hadd, hvisit⟩ := Fallible.bind_ok.mp h
  exact ⟨id, source, origin, added, hseed, hadd, hvisit⟩

theorem Collected.seed {refs : List RuntimeImportRef} {imports imports' : Imports}
    (h : Collected localeLE sources refs (SuppliedId sources refs) imports) {fuel : Nat}
    {ref : RuntimeImportRef} (hseed : seed localeLE sources fuel imports ref = .ok imports') :
    Collected localeLE sources (refs ++ [ref]) (SuppliedId sources (refs ++ [ref])) imports' := by
  obtain ⟨programId, source, origin, added, hseed, hadd, hvisit⟩ := seed_ok hseed
  have hsupplies : Supplies sources ref programId source := ⟨origin, hseed⟩
  obtain ⟨hwithin, hsource⟩ := addImport_within hadd
  have hid : programId ∈ added.keys := Imports.mem_keys.mpr ⟨_, hsource⟩
  obtain ⟨hwalked, hall⟩ := visit_walked fuel _ _ _ _
    (fun a ha => List.mem_singleton.mp ha ▸ hid) hvisit
  have hsource' := hwalked.within _ _ hsource
  have hwithin' := hwithin.trans hwalked.within
  have href : ref ∈ refs ++ [ref] := List.mem_append_right _ (List.mem_singleton_self ref)
  have hself : Reaches localeLE imports'.source (SuppliedId sources (refs ++ [ref])) programId :=
    .root ⟨ref, href, source, hsupplies⟩
  -- What is there is the reference's own, was there before, or was added by the walk.
  have hcases : ∀ id source', imports'.source id = some source' →
      (id = programId ∧ source' = source) ∨ imports.source id = some source' ∨ id ∉ added.keys := by
    intro id source' h'
    by_cases heq : id = programId
    · subst heq
      exact .inl ⟨rfl, Option.some.inj (h'.symm.trans hsource')⟩
    by_cases hmem : id ∈ imports.keys
    · obtain ⟨source'', h''⟩ := Imports.mem_keys.mp hmem
      exact .inr (.inl (h''.trans ((hwithin' _ _ h'').symm.trans h')))
    · refine .inr (.inr fun hadded => ?_)
      obtain ⟨-, rfl⟩ | ⟨-, rfl⟩ := addImport_ok hadd
      · exact hmem hadded
      · obtain ⟨source'', h''⟩ := Imports.mem_keys.mp hadded
        rw [Imports.source_set, if_neg heq] at h''
        exact hmem (Imports.mem_keys.mpr ⟨_, h''⟩)
  have hmono : ∀ id, SuppliedId sources refs id → SuppliedId sources (refs ++ [ref]) id :=
    fun id ⟨ref', hmem, h⟩ => ⟨ref', List.mem_append_left _ hmem, h⟩
  refine ⟨fun id s hs => ?_, fun id s hs b hb => ?_, fun id hid => ?_, ?_, ?_⟩
  · obtain ⟨rfl, rfl⟩ | hold | hnew := hcases id s hs
    · exact .inr ⟨ref, href, hsupplies⟩
    · exact (h.provided id s hold).imp_right fun ⟨ref', hmem, h⟩ =>
        ⟨ref', List.mem_append_left _ hmem, h⟩
    · exact .inl (hwalked.added id s hs hnew).1
  · obtain ⟨rfl, rfl⟩ | hold | hnew := hcases id s hs
    · exact hall b hb
    · exact hwithin'.keys (h.closed id s hold b hb)
    · exact (hwalked.added id s hs hnew).2.1 b hb
  · obtain ⟨s, hs⟩ := Imports.mem_keys.mp hid
    obtain ⟨rfl, rfl⟩ | hold | hnew := hcases id s hs
    · exact hself
    · exact (h.reached id (Imports.mem_keys.mpr ⟨s, hold⟩)).mono hwithin' fun _ => .root ∘ hmono _
    · exact (hwalked.added id s hs hnew).2.2.mono (fun _ _ h => h) fun _ hb => hself.step hsource' hb
  · rintro id ⟨ref', hmem, s, hs⟩
    obtain hmem | hmem := List.mem_append.mp hmem
    · exact hwithin'.keys (h.rooted id ⟨ref', hmem, s, hs⟩)
    · obtain rfl := List.mem_singleton.mp hmem
      obtain ⟨rfl, -⟩ := hsupplies.unique hs
      exact Imports.mem_keys.mpr ⟨_, hsource'⟩
  · intro ref' hmem
    obtain hmem | hmem := List.mem_append.mp hmem
    · obtain ⟨id, s, hs, hold⟩ := h.seeds ref' hmem
      exact ⟨id, s, hs, hwithin' _ _ hold⟩
    · obtain rfl := List.mem_singleton.mp hmem
      exact ⟨programId, source, hsupplies, hsource'⟩

theorem Collected.seedAll {refs more : List RuntimeImportRef} {imports imports' : Imports}
    (h : Collected localeLE sources refs (SuppliedId sources refs) imports) {fuel : Nat}
    (hseed : more.foldlM (ProgramImports.seed localeLE sources fuel) imports = .ok imports') :
    Collected localeLE sources (refs ++ more) (SuppliedId sources (refs ++ more)) imports' := by
  induction more generalizing refs imports with
  | nil =>
    cases hseed
    rwa [List.append_nil]
  | cons ref more ih =>
    rw [List.foldlM_cons] at hseed
    obtain ⟨between, hfirst, hrest⟩ := Fallible.bind_ok.mp hseed
    rw [List.append_cons]
    exact ih (h.seed hfirst) hrest

theorem collectImports_collected {fuel : Nat} {programSource : JsString}
    {refs : List RuntimeImportRef} {imports : Imports}
    (h : collectImports localeLE sources fuel programSource refs = .ok imports) :
    Collected localeLE sources refs
      (fun id => id ∈ parseImportIds localeLE programSource ∨ SuppliedId sources refs id) imports := by
  obtain ⟨seeded, hseeded, hvisit⟩ := Fallible.bind_ok.mp h
  exact (Collected.empty.seedAll hseeded).visit hvisit

/-- A supplied source is not replaced. -/
theorem Collected.sourceOf {refs : List RuntimeImportRef} {roots : JsString → Prop}
    {imports : Imports} (h : Collected localeLE sources refs roots imports) {id source : JsString}
    (hsource : imports.source id = some source) :
    sourceOf sources refs id = some source := by
  unfold ProgramImports.sourceOf
  cases hsupplied : supplied sources refs id with
  | none =>
    obtain hfetch | ⟨ref, href, hsupplies⟩ := h.provided id source hsource
    · exact hfetch
    · exact absurd hsupplies (not_supplies_of_none hsupplied href source)
  | some first =>
    obtain ⟨ref, href, hfirst⟩ := supplies_of_supplied hsupplied
    obtain ⟨id', source', hsupplies, hsource'⟩ := h.seeds ref href
    obtain ⟨rfl, rfl⟩ := hfirst.unique hsupplies
    exact hsource'.symm.trans hsource

/-! ## Enough fuel -/

/-- All programs that are reached are in the list `programs`. -/
structure Confined (localeLE : JsString → JsString → Bool) (sources : Sources)
    (programSource : JsString) (refs : List RuntimeImportRef) (programs : List JsString) : Prop where
  program : parseImportIds localeLE programSource ⊆ programs
  supplied : ∀ ref ∈ refs, ∀ id source, Supplies sources ref id source →
    parseImportIds localeLE source ⊆ programs
  fetched : FetchClosed localeLE sources programs

theorem addImport_not_deep (imports : Imports) (id source origin : JsString) :
    addImport imports id source origin ≠ .error .deep := by
  intro h
  unfold addImport at h
  split at h
  · split at h <;> cases h
  · cases h

theorem seedRuntimeImport_not_deep (ref : RuntimeImportRef) :
    seedRuntimeImport sources ref ≠ .error .deep := by
  intro h
  cases ref with
  | path absolutePath =>
    dsimp only [seedRuntimeImport] at h
    split at h
    · cases h
    · unfold parseProgramIdFromSource at h
      split at h <;> cases h
  | programId programId =>
    dsimp only [seedRuntimeImport] at h
    split at h <;> cases h

theorem remaining_lt {programs visited : List JsString} {fuel : Nat} (hfuel : programs.length < fuel) :
    Dfs.remaining programs visited < fuel :=
  (List.length_filter_le _ _).trans_lt hfuel

theorem seed_not_deep {programs : List JsString} (hclosed : FetchClosed localeLE sources programs)
    {fuel : Nat} (hfuel : programs.length < fuel) {ref : RuntimeImportRef}
    (hids : ∀ id source, Supplies sources ref id source → parseImportIds localeLE source ⊆ programs)
    (imports : Imports) : seed localeLE sources fuel imports ref ≠ .error .deep := by
  intro h
  obtain h | ⟨⟨id, source, origin⟩, hseed, h⟩ := Fallible.bind_error.mp h
  · exact seedRuntimeImport_not_deep ref h
  obtain h | ⟨added, hadd, h⟩ := Fallible.bind_error.mp h
  · exact addImport_not_deep _ _ _ _ h
  refine visit_not_deep hclosed (hids id source ⟨origin, hseed⟩) (fun a ha => ?_) (remaining_lt hfuel) h
  obtain rfl := List.mem_singleton.mp ha
  exact Imports.mem_keys.mpr ⟨_, (addImport_within hadd).2⟩

theorem seed_mono {fuel : Nat} {imports : Imports} {ref : RuntimeImportRef}
    (h : seed localeLE sources fuel imports ref ≠ .error .deep) :
    seed localeLE sources (fuel + 1) imports ref = seed localeLE sources fuel imports ref := by
  unfold seed at h ⊢
  cases hseed : seedRuntimeImport sources ref with
  | error e => rfl
  | ok seeded =>
    rw [hseed] at h
    change (addImport imports seeded.programId seeded.source seeded.origin >>= _) ≠ _ at h
    change (addImport imports seeded.programId seeded.source seeded.origin >>= _) =
      (addImport imports seeded.programId seeded.source seeded.origin >>= _)
    cases hadd : addImport imports seeded.programId seeded.source seeded.origin with
    | error e => rfl
    | ok added =>
      rw [hadd] at h
      exact visit_mono h

theorem collectImports_not_deep {programSource : JsString} {refs : List RuntimeImportRef}
    {programs : List JsString} (h : Confined localeLE sources programSource refs programs) {fuel : Nat}
    (hfuel : programs.length < fuel) :
    collectImports localeLE sources fuel programSource refs ≠ .error .deep := by
  intro hdeep
  obtain hdeep | ⟨imports, -, hdeep⟩ := Fallible.bind_error.mp hdeep
  · suffices ∀ more ⊆ refs, ∀ imports,
        more.foldlM (seed localeLE sources fuel) imports ≠ .error .deep from
      this refs (List.Subset.refl _) _ hdeep
    intro more
    induction more with
    | nil => exact fun _ _ h => nomatch h
    | cons ref more ih =>
      intro hmore imports hdeep
      rw [List.foldlM_cons, Fallible.bind_error] at hdeep
      obtain hdeep | ⟨between, -, hdeep⟩ := hdeep
      · exact seed_not_deep h.fetched hfuel (h.supplied ref (hmore List.mem_cons_self)) imports hdeep
      · exact ih (List.subset_of_cons_subset hmore) between hdeep
  · exact visit_not_deep h.fetched h.program (by simp) (remaining_lt hfuel) hdeep

theorem collectImports_mono {fuel : Nat} {programSource : JsString} {refs : List RuntimeImportRef}
    (h : collectImports localeLE sources fuel programSource refs ≠ .error .deep) :
    collectImports localeLE sources (fuel + 1) programSource refs =
      collectImports localeLE sources fuel programSource refs := by
  unfold collectImports at h ⊢
  have hseeds : refs.foldlM (seed localeLE sources fuel) .empty ≠ .error .deep := by
    intro hdeep
    rw [hdeep] at h
    exact h rfl
  rw [foldlM_mono (fun _ _ => seed_mono) hseeds]
  cases hfold : refs.foldlM (seed localeLE sources fuel) .empty with
  | error e => rfl
  | ok imports =>
    rw [hfold] at h
    exact visit_mono h

theorem collectImports_enough {programSource : JsString} {refs : List RuntimeImportRef}
    {programs : List JsString} (h : Confined localeLE sources programSource refs programs) {fuel : Nat}
    (hfuel : programs.length < fuel) :
    collectImports localeLE sources fuel programSource refs =
      collectImports localeLE sources (programs.length + 1) programSource refs := by
  induction fuel, hfuel using Nat.le_induction with
  | base => rfl
  | succ fuel hfuel ih => exact (collectImports_mono (collectImports_not_deep h hfuel)).trans ih

/-! ## The result -/

/-- The entries are the programs that are reached from the program and the references, each once and
with its source. -/
structure IsClosure (localeLE : JsString → JsString → Bool) (sources : Sources)
    (programSource : JsString) (refs : List RuntimeImportRef) (entries : List (JsString × JsString)) :
    Prop where
  distinct : (entries.map Prod.fst).Nodup
  keys : ∀ id, id ∈ entries.map Prod.fst ↔ Reaches localeLE (sourceOf sources refs)
    (fun id => id ∈ parseImportIds localeLE programSource ∨ SuppliedId sources refs id) id
  sourced : ∀ e ∈ entries, sourceOf sources refs e.1 = some e.2

theorem Collected.isClosure {refs : List RuntimeImportRef} {programSource : JsString}
    {imports : Imports}
    (h : Collected localeLE sources refs
      (fun id => id ∈ parseImportIds localeLE programSource ∨ SuppliedId sources refs id) imports)
    {entries : List (JsString × JsString)}
    (hperm : entries.Perm (imports.entries.map fun e => (e.1, e.2.1))) :
    IsClosure localeLE sources programSource refs entries := by
  have hkeys : (entries.map Prod.fst).Perm imports.keys := by
    refine (hperm.map Prod.fst).trans (.of_eq ?_)
    rw [List.map_map]
    rfl
  refine ⟨hkeys.nodup_iff.mpr imports.distinct, fun id => hkeys.mem_iff.trans ⟨fun hid => ?_, ?_⟩,
    fun e he => ?_⟩
  · exact (h.reached id hid).mono (fun _ _ => h.sourceOf) fun _ => .root
  · refine Reaches.closed h.rooted fun a source ha hsource => ?_
    obtain ⟨source', hsource'⟩ := Imports.mem_keys.mp ha
    obtain rfl := Option.some.inj ((h.sourceOf hsource').symm.trans hsource)
    exact h.closed a source' hsource'
  · obtain ⟨⟨id, source, origin⟩, hmem, rfl⟩ := List.mem_map.mp (hperm.mem_iff.mp he)
    refine h.sourceOf ?_
    rw [Imports.source, InsertionMap.get?_eq_some_iff.mpr hmem]
    rfl

theorem resolveProgramImports_isClosure {fuel : Nat} {programSource : JsString}
    {refs : List RuntimeImportRef} {imports : Option (List (JsString × JsString))}
    (h : resolveProgramImports localeLE sources fuel programSource refs = .ok imports) :
    IsClosure localeLE sources programSource refs (imports.getD []) := by
  obtain ⟨collected, hcollected, hok⟩ := Fallible.bind_ok.mp h
  refine (collectImports_collected hcollected).isClosure ?_
  split at hok
  · next hnone =>
    cases hok
    rw [hnone]
    exact .refl _
  · cases hok
    exact List.perm_insertionSort _ _

/-- `resolveProgramImports` ends on a finite graph, cyclic or not, and what it returns is the closure. -/
theorem resolve_closure {programSource : JsString} {refs : List RuntimeImportRef}
    {programs : List JsString} (h : Confined localeLE sources programSource refs programs) :
    ∃ result, result ≠ .error .deep ∧
      (∀ fuel > programs.length,
        resolveProgramImports localeLE sources fuel programSource refs = result) ∧
      ∀ imports, result = .ok imports →
        IsClosure localeLE sources programSource refs (imports.getD []) := by
  refine ⟨resolveProgramImports localeLE sources (programs.length + 1) programSource refs, ?_, ?_,
    fun _ => resolveProgramImports_isClosure⟩
  · intro hdeep
    obtain hdeep | ⟨imports, -, hdeep⟩ := Fallible.bind_error.mp hdeep
    · exact collectImports_not_deep h (Nat.lt_succ_self _) hdeep
    · split at hdeep <;> cases hdeep
  · intro fuel hfuel
    unfold resolveProgramImports
    rw [collectImports_enough h hfuel]

/-- Two programs that import each other, one on the network and one in a file. -/
def cyclicSources : Sources where
  artifact := fun _ => none
  file := fun path => if path = js "/b.aleo" then some (js "import a.aleo;\nprogram b.aleo;") else none
  network := fun id => if id = js "a.aleo" then some (js "import b.aleo;\nprogram a.aleo;") else none

theorem resolve_closure_cyclic :
    IsClosure (fun a b => decide (a ≤ b)) cyclicSources (js "import a.aleo;") [.path (js "/b.aleo")]
      [(js "a.aleo", js "import b.aleo;\nprogram a.aleo;"),
        (js "b.aleo", js "import a.aleo;\nprogram b.aleo;")] := by
  have hsupplied : seedRuntimeImport cyclicSources (.path (js "/b.aleo")) =
      .ok ⟨js "b.aleo", js "import a.aleo;\nprogram b.aleo;", js "runtime import ← /b.aleo"⟩ := by decide +kernel
  have hconfined : Confined (fun a b => decide (a ≤ b)) cyclicSources (js "import a.aleo;")
      [.path (js "/b.aleo")] [js "a.aleo", js "b.aleo"] := by
    refine ⟨by decide +kernel, fun ref href id source hsupplies => ?_, ?_⟩
    · obtain rfl := List.mem_singleton.mp href
      obtain ⟨rfl, rfl⟩ := Supplies.unique ⟨_, hsupplied⟩ hsupplies
      decide +kernel
    · change ∀ id ∈ _, ∀ source ∈ cyclicSources.fetch id, _
      decide +kernel
  obtain ⟨result, -, hall, hclosure⟩ := resolve_closure hconfined
  refine hclosure (some _) ((hall 3 (by decide)).symm.trans ?_)
  decide +kernel

end Lionden.Network.ProgramImports
