import Mathlib.Data.Fintype.Card
import Lionden.Js.Text
import Lionden.Lib.Dfs

/-!
# The order of plugins (`plugin-loader.ts`)

Plugins are objects, which are compared by identity; `α` is the type of the objects of a heap, of
which there are finitely many. Each has an id and the list of the plugins that it depends on.

* `collect`: the plugins that are reached from a list, one for each id.
* `visit`, `resolvePluginOrder`: the depth-first search over what was collected.
* `resolvePluginOrder_correct`: when it throws, and the order that it returns.
-/

namespace Lionden.Plugins

inductive PluginLoadError where
  | duplicate (id : JsString)
  | circular (id : JsString)
  | unavailable (id dep : JsString)
  /-- The recursion is deeper than there are plugins. -/
  | deep

def PluginLoadError.message : PluginLoadError → JsString
  | duplicate id => js "Duplicate plugin ID \"" ++ id ++ js "\" with different instances"
  | circular id => js "Circular plugin dependency detected involving \"" ++ id ++ js "\""
  | unavailable id dep =>
    js "Plugin \"" ++ id ++ js "\" depends on \"" ++ dep ++ js "\" which is not available"
  | deep => js "Maximum call stack size exceeded"

variable {α : Type} [Fintype α] [DecidableEq α] (id : α → JsString) (dependencies : α → List α)

/-! ## The loader -/

/-- `allPlugins.get(i)`, of the plugins in the order in which they were set. -/
def getPlugin (allPlugins : List α) (i : JsString) : Option α := allPlugins.find? (id · = i)

/-- The plugins of the heap that are not registered. -/
def unregistered (allPlugins : List α) : Nat := (Finset.univ.filter (· ∉ allPlugins)).card

theorem unregistered_concat {allPlugins : List α} {plugin : α} (h : plugin ∉ allPlugins) :
    unregistered (allPlugins ++ [plugin]) < unregistered allPlugins := by
  refine Finset.card_lt_card (Finset.ssubset_iff_of_subset ?_ |>.mpr ⟨plugin, by simpa using h, by simp⟩)
  intro p hp
  simp only [Finset.mem_filter, Finset.mem_univ, true_and, List.mem_append, not_or] at hp ⊢
  exact hp.1

omit [Fintype α] [DecidableEq α] in
theorem notMem_of_getPlugin {allPlugins : List α} {plugin : α}
    (h : getPlugin id allPlugins (id plugin) = none) : plugin ∉ allPlugins := fun hmem => by
  simpa using List.find?_eq_none.mp h plugin hmem

/-- The loop over `toVisit`, whose last element comes first here: the plugins that it registers. -/
def collect (toVisit allPlugins : List α) : Except PluginLoadError (List α) :=
  match toVisit with
  | [] => .ok allPlugins
  | plugin :: toVisit =>
    match h : getPlugin id allPlugins (id plugin) with
    | some existing =>
      if existing ≠ plugin then .error (.duplicate (id plugin)) else collect toVisit allPlugins
    | none =>
      have := unregistered_concat (notMem_of_getPlugin id h)
      collect ((dependencies plugin).reverse ++ toVisit) (allPlugins ++ [plugin])
  termination_by (unregistered allPlugins, toVisit.length)

/-- The variables of the depth-first search. -/
structure Search (α : Type) where
  visited : List JsString
  visiting : List JsString
  sorted : List α

/-- `visit(plugin)`. -/
def visit (allPlugins : List α) : Nat → Search α → α → Except PluginLoadError (Search α)
  | 0, _, _ => .error .deep
  | fuel + 1, s, plugin =>
    if id plugin ∈ s.visited then .ok s
    else if id plugin ∈ s.visiting then .error (.circular (id plugin))
    else do
      let s' ← (dependencies plugin).foldlM (fun s dep =>
        match getPlugin id allPlugins (id dep) with
        | none => .error (.unavailable (id plugin) (id dep))
        | some resolved => visit allPlugins fuel s resolved)
        { s with visiting := s.visiting ++ [id plugin] }
      .ok { visited := s'.visited ++ [id plugin], visiting := s'.visiting.erase (id plugin),
            sorted := s'.sorted ++ [plugin] }

/-- `resolvePluginOrder(plugins)`. -/
def resolvePluginOrder (plugins : List α) : Except PluginLoadError (List α) := do
  let allPlugins ← collect id dependencies plugins []
  let s ← allPlugins.foldlM (visit id dependencies allPlugins (allPlugins.length + 1)) ⟨[], [], []⟩
  .ok s.sorted

/-! ## What is collected -/

/-- `p` is reached from one of the plugins along dependencies. -/
def Reachable (plugins : List α) (p : α) : Prop :=
  ∃ q ∈ plugins, Relation.ReflTransGen (Dfs.Edge dependencies) q p

omit [Fintype α] [DecidableEq α] in
theorem Reachable.dependency {plugins : List α} {p d : α} (h : Reachable dependencies plugins p)
    (hd : d ∈ dependencies p) : Reachable dependencies plugins d := by
  obtain ⟨q, hq, hqp⟩ := h
  exact ⟨q, hq, hqp.tail hd⟩

/-- The invariant of the loop over `toVisit`. -/
structure Collecting (plugins toVisit allPlugins : List α) : Prop where
  ids : (allPlugins.map id).Nodup
  reachable : ∀ p ∈ allPlugins ++ toVisit, Reachable dependencies plugins p
  plugins : ∀ p ∈ plugins, p ∈ allPlugins ++ toVisit
  dependencies : ∀ p ∈ allPlugins, ∀ d ∈ dependencies p, d ∈ allPlugins ++ toVisit

omit [Fintype α] [DecidableEq α] in
theorem getPlugin_some {allPlugins : List α} {i : JsString} {p : α}
    (h : getPlugin id allPlugins i = some p) : p ∈ allPlugins ∧ id p = i :=
  ⟨List.mem_of_find?_eq_some h, by simpa using List.find?_some h⟩

omit [Fintype α] [DecidableEq α] in
theorem id_notMem_of_getPlugin {allPlugins : List α} {i : JsString}
    (h : getPlugin id allPlugins i = none) : i ∉ allPlugins.map id := by
  intro hmem
  obtain ⟨p, hp, rfl⟩ := List.mem_map.mp hmem
  exact notMem_of_getPlugin id h hp

variable {id dependencies} {plugins : List α}

omit [Fintype α] [DecidableEq α] in
theorem Collecting.start : Collecting id dependencies plugins plugins [] where
  ids := List.nodup_nil
  reachable p hp := ⟨p, hp, .refl⟩
  plugins _ hp := hp
  dependencies := nofun

omit [Fintype α] [DecidableEq α] in
theorem Collecting.skip {p : α} {toVisit allPlugins : List α}
    (h : Collecting id dependencies plugins (p :: toVisit) allPlugins) (hp : p ∈ allPlugins) :
    Collecting id dependencies plugins toVisit allPlugins := by
  have hmem : ∀ q ∈ allPlugins ++ p :: toVisit, q ∈ allPlugins ++ toVisit := by
    intro q hq
    obtain hq | hq := List.mem_append.mp hq
    · exact List.mem_append_left _ hq
    · obtain rfl | hq := List.mem_cons.mp hq
      · exact List.mem_append_left _ hp
      · exact List.mem_append_right _ hq
  refine ⟨h.ids, fun q hq => h.reachable q ?_, fun q hq => hmem q (h.plugins q hq),
    fun q hq d hd => hmem d (h.dependencies q hq d hd)⟩
  obtain hq | hq := List.mem_append.mp hq
  · exact List.mem_append_left _ hq
  · exact List.mem_append_right _ (List.mem_cons_of_mem _ hq)

omit [Fintype α] [DecidableEq α] in
theorem Collecting.register {p : α} {toVisit allPlugins : List α}
    (h : Collecting id dependencies plugins (p :: toVisit) allPlugins)
    (hp : getPlugin id allPlugins (id p) = none) :
    Collecting id dependencies plugins ((dependencies p).reverse ++ toVisit)
      (allPlugins ++ [p]) := by
  have hmem : ∀ q ∈ allPlugins ++ p :: toVisit,
      q ∈ allPlugins ++ [p] ++ ((dependencies p).reverse ++ toVisit) := by
    simp only [List.mem_append, List.mem_cons]
    tauto
  refine ⟨?_, fun q hq => ?_, fun q hq => hmem q (h.plugins q hq), fun q hq d hd => ?_⟩
  · rw [List.map_append, List.map_singleton]
    refine List.nodup_append.mpr ⟨h.ids, List.nodup_singleton _, fun i hi j hj heq => ?_⟩
    rw [List.mem_singleton.mp hj] at heq
    exact id_notMem_of_getPlugin id hp (heq ▸ hi)
  · have hreachable := h.reachable p (by simp)
    obtain hq | hq := List.mem_append.mp hq
    · refine h.reachable q ?_
      simp only [List.mem_append, List.mem_cons, List.not_mem_nil, or_false] at hq ⊢
      tauto
    · obtain hq | hq := List.mem_append.mp hq
      · exact hreachable.dependency dependencies (List.mem_reverse.mp hq)
      · exact h.reachable q (List.mem_append_right _ (List.mem_cons_of_mem _ hq))
  · obtain hq | hq := List.mem_append.mp hq
    · exact hmem d (h.dependencies q hq d hd)
    · rw [List.mem_singleton.mp hq] at hd
      simp [hd]

/-- What the loop ends with: every plugin that is reached, or two of them with one id. -/
theorem collect_spec {toVisit allPlugins : List α}
    (h : Collecting id dependencies plugins toVisit allPlugins) :
    match collect id dependencies toVisit allPlugins with
    | .ok registered => Collecting id dependencies plugins [] registered
    | .error e => ∃ p q, Reachable dependencies plugins p ∧ Reachable dependencies plugins q ∧
        p ≠ q ∧ id p = id q ∧ e = .duplicate (id p) := by
  fun_induction collect id dependencies toVisit allPlugins with
  | case1 allPlugins => exact h
  | case2 allPlugins p toVisit existing hget hne =>
    obtain ⟨hmem, hid⟩ := getPlugin_some id hget
    exact ⟨p, existing, h.reachable p (by simp), h.reachable existing (by simp [hmem]),
      Ne.symm hne, hid.symm, rfl⟩
  | case3 allPlugins p toVisit existing hget heq ih =>
    obtain ⟨hmem, -⟩ := getPlugin_some id hget
    exact ih (h.skip (not_not.mp heq ▸ hmem))
  | case4 allPlugins p toVisit hget _ ih => exact ih (h.register hget)

/-- The order of a search from what is collected is that of a search from the declared list. -/
theorem collect_sort {β : Type} {emit : α → List β} {fuel : Nat} {toVisit allPlugins registered : List α}
    (h : collect id dependencies toVisit allPlugins = .ok registered) :
    Dfs.sort dependencies emit (fuel + 1) registered =
      Dfs.sort dependencies emit (fuel + 1) (allPlugins ++ toVisit) := by
  have hvisited : ∀ {xs : List α} {s}, Dfs.sort dependencies emit (fuel + 1) xs = .ok s →
      Dfs.Closed dependencies s.visited ∧ ∀ x ∈ xs, x ∈ s.visited := by
    intro xs s hs
    obtain ⟨hsorted, -, hall⟩ := Dfs.foldlM_ok (P := fun _ => True)
      (fun s x s' h hx hs => Dfs.visit_ok (fun _ _ _ _ => trivial) h hx hs)
      (fun _ _ => trivial) hs Dfs.sorted_nil
    exact ⟨hsorted.closed, hall⟩
  fun_induction collect id dependencies toVisit allPlugins with
  | case1 allPlugins =>
    cases h
    rw [List.append_nil]
  | case2 => cases h
  | case3 allPlugins p toVisit existing hget heq ih =>
    have hmem := (getPlugin_some id hget).1
    rw [not_not.mp heq] at hmem
    rw [ih h]
    have hskip := @Dfs.sort_append_visited _ _ _ _ _ _ _ [p] toVisit
      fun s hs y hy => (hvisited hs).2 y (List.mem_singleton.mp hy ▸ hmem)
    rw [← hskip, List.append_assoc, List.singleton_append]
  | case4 allPlugins p toVisit hget _ ih =>
    rw [ih h, ← List.append_assoc]
    refine (Dfs.sort_append_visited fun s hs d hd => ?_).trans ?_
    · obtain ⟨hclosed, hall⟩ := hvisited hs
      have hp : p ∈ s.visited := hall p (by simp)
      obtain ⟨before, after, heq⟩ := List.append_of_mem hp
      rw [heq]
      exact List.mem_append_left _ (hclosed before p after heq d (List.mem_reverse.mp hd))
    · rw [List.append_assoc, List.singleton_append]

/-! ## The search -/

section Search

variable {registered : List α}

omit [Fintype α] [DecidableEq α] in
theorem id_mem_map {xs : List α} {p : α} (hids : (registered.map id).Nodup)
    (hxs : ∀ x ∈ xs, x ∈ registered) (hp : p ∈ registered) : id p ∈ xs.map id ↔ p ∈ xs := by
  refine ⟨fun h => ?_, List.mem_map_of_mem⟩
  obtain ⟨x, hx, heq⟩ := List.mem_map.mp h
  rwa [← List.inj_on_of_nodup_map hids (hxs x hx) hp heq]

omit [Fintype α] in
theorem map_erase {xs : List α} {p : α} (hids : (registered.map id).Nodup)
    (hxs : ∀ x ∈ xs, x ∈ registered) (hp : p ∈ registered) :
    (xs.map id).erase (id p) = (xs.erase p).map id := by
  induction xs with
  | nil => rfl
  | cons x xs ih =>
    rw [List.map_cons, List.erase_cons, List.erase_cons,
      ih fun y hy => hxs y (List.mem_cons_of_mem x hy)]
    by_cases heq : x = p
    · simp [heq]
    · have hne : id x ≠ id p := fun hid =>
        heq (List.inj_on_of_nodup_map hids (hxs x List.mem_cons_self) hp hid)
      simp [heq, hne]

omit [Fintype α] [DecidableEq α] in
theorem getPlugin_registered {p : α} (hids : (registered.map id).Nodup) (hp : p ∈ registered) :
    getPlugin id registered (id p) = some p := by
  cases h : getPlugin id registered (id p) with
  | none => exact absurd hp (notMem_of_getPlugin id h)
  | some q =>
    obtain ⟨hq, heq⟩ := getPlugin_some id h
    rw [List.inj_on_of_nodup_map hids hq hp heq]

variable (id) in
/-- The variables of a search over the plugins themselves, by id. -/
def view (s : Dfs.State α α) : Search α := ⟨s.visited.map id, s.visiting.map id, s.out⟩

variable (id) in
/-- A search by id ends as the search over the plugins themselves. -/
def Agrees : Except (Dfs.Failure α) (Dfs.State α α) → Except PluginLoadError (Search α) → Prop
  | .ok s, r => r = .ok (view id s)
  | .error (.cycle _), r => ∃ i, r = .error (.circular i)
  | .error .deep, r => r = .error .deep

variable (dependencies registered) in
/-- A search among the registered plugins. -/
structure Within (s : Dfs.State α α) : Prop where
  sorted : Dfs.Sorted dependencies (fun p => [p]) s
  visited : ∀ x ∈ s.visited, x ∈ registered
  visiting : ∀ x ∈ s.visiting, x ∈ registered

omit [Fintype α] [DecidableEq α] in
theorem Within.extends {s s' : Dfs.State α α} (h : Within dependencies registered s)
    (hsorted : Dfs.Sorted dependencies (fun p => [p]) s')
    (hext : Dfs.Extends (· ∈ registered) s s') : Within dependencies registered s' := by
  obtain ⟨hvisiting, new, hnew, hmem⟩ := hext
  refine ⟨hsorted, fun x hx => ?_, fun x hx => h.visiting x (hvisiting ▸ hx)⟩
  rw [hnew] at hx
  exact (List.mem_append.mp hx).elim (h.visited x) (hmem x)

omit [Fintype α] [DecidableEq α] in
theorem foldlM_agrees {f : Dfs.State α α → α → Except (Dfs.Failure α) (Dfs.State α α)}
    {g : Search α → α → Except PluginLoadError (Search α)}
    (hagrees : ∀ s p, Within dependencies registered s → p ∈ registered →
      Agrees id (f s p) (g (view id s) p))
    (hwithin : ∀ s p s', Within dependencies registered s → p ∈ registered → f s p = .ok s' →
      Within dependencies registered s') {ps : List α} (hps : ∀ p ∈ ps, p ∈ registered)
    {s : Dfs.State α α} (hs : Within dependencies registered s) :
    Agrees id (ps.foldlM f s) (ps.foldlM g (view id s)) := by
  induction ps generalizing s with
  | nil => rfl
  | cons p ps ih =>
    have hp := hps p List.mem_cons_self
    have hstep := hagrees s p hs hp
    rw [List.foldlM_cons, List.foldlM_cons]
    cases hf : f s p with
    | ok t =>
      rw [hf] at hstep
      rw [hstep]
      exact ih (fun q hq => hps q (List.mem_cons_of_mem p hq)) (hwithin s p t hs hp hf)
    | error e =>
      rw [hf] at hstep
      cases e with
      | cycle path =>
        obtain ⟨i, hi⟩ := hstep
        rw [hi]
        exact ⟨i, rfl⟩
      | deep =>
        rw [hstep]
        rfl

omit [Fintype α] in
theorem visit_agrees (hids : (registered.map id).Nodup)
    (hclosed : ∀ p ∈ registered, ∀ d ∈ dependencies p, d ∈ registered) {fuel : Nat}
    {stack : List α} {s : Dfs.State α α} {p : α} (hs : Within dependencies registered s)
    (hp : p ∈ registered) :
    Agrees id (Dfs.visit dependencies (fun p => [p]) fuel stack s p)
      (visit id dependencies registered fuel (view id s) p) := by
  induction fuel generalizing stack s p with
  | zero => rfl
  | succ fuel ih =>
    have hvisitedId : id p ∈ (view id s).visited ↔ p ∈ s.visited :=
      id_mem_map hids hs.visited hp
    have hvisitingId : id p ∈ (view id s).visiting ↔ p ∈ s.visiting :=
      id_mem_map hids hs.visiting hp
    unfold Dfs.visit visit
    by_cases hvisited : p ∈ s.visited
    · rw [if_pos hvisited, if_pos (hvisitedId.mpr hvisited)]
      rfl
    rw [if_neg hvisited, if_neg (mt hvisitedId.mp hvisited)]
    by_cases hvisiting : p ∈ s.visiting
    · rw [if_pos hvisiting, if_pos (hvisitingId.mpr hvisiting)]
      exact ⟨_, rfl⟩
    rw [if_neg hvisiting, if_neg (mt hvisitingId.mp hvisiting)]
    have hvisit : ∀ s p s', Within dependencies registered s → p ∈ registered →
        ∀ stack, Dfs.visit dependencies (fun p => [p]) fuel stack s p = .ok s' →
          Within dependencies registered s' := fun s p s' hs hp stack h => by
      obtain ⟨hsorted, hext, -⟩ := Dfs.visit_ok hclosed h hp hs.sorted
      exact hs.extends hsorted hext
    have henter : Within dependencies registered { s with visiting := s.visiting ++ [p] } := by
      refine ⟨hs.sorted.enter hvisited hvisiting, hs.visited, fun x hx => ?_⟩
      obtain hx | hx := List.mem_append.mp hx
      · exact hs.visiting x hx
      · exact List.mem_singleton.mp hx ▸ hp
    -- The dependencies, each of which is found by its id.
    have hfold := @foldlM_agrees α id dependencies registered
      (Dfs.visit dependencies (fun p => [p]) fuel (stack ++ [p]))
      (fun s dep => match getPlugin id registered (id dep) with
        | none => .error (.unavailable (id p) (id dep))
        | some resolved => visit id dependencies registered fuel s resolved)
      (fun s d hs hd => by
        rw [getPlugin_registered hids hd]
        exact ih hs hd)
      (fun s d s' hs hd => hvisit s d s' hs hd _) _ (hclosed p hp) _ henter
    have hview : view id { s with visiting := s.visiting ++ [p] } =
        { view id s with visiting := (view id s).visiting ++ [id p] } := by
      rw [view, view, List.map_append, List.map_singleton]
    rw [hview] at hfold
    cases hf : (dependencies p).foldlM (Dfs.visit dependencies (fun p => [p]) fuel (stack ++ [p]))
        { s with visiting := s.visiting ++ [p] } with
    | ok t =>
      rw [hf] at hfold
      have ht : Within dependencies registered t := by
        obtain ⟨hsorted, hext, -⟩ := Dfs.foldlM_ok
          (fun s x s' h hx hs => Dfs.visit_ok hclosed h hx hs) (hclosed p hp) hf henter.sorted
        exact henter.extends hsorted hext
      change (_ >>= _) = _
      rw [hfold]
      change Except.ok _ = Except.ok _
      rw [view, view, List.map_append, List.map_singleton, ← map_erase hids ht.visiting hp]
    | error e =>
      rw [hf] at hfold
      cases e with
      | cycle path =>
        obtain ⟨i, hi⟩ := hfold
        exact ⟨i, by rw [hi]; rfl⟩
      | deep =>
        change (_ >>= _) = _
        rw [hfold]
        rfl

end Search

/-! ## The order -/

/-- Two plugins that are reached have one id. -/
def Conflict (id : α → JsString) (dependencies : α → List α) (plugins : List α) : Prop :=
  ∃ p q, Reachable dependencies plugins p ∧ Reachable dependencies plugins q ∧ p ≠ q ∧ id p = id q

/-- A plugin that is reached depends on itself. -/
def Cyclic (dependencies : α → List α) (plugins : List α) : Prop :=
  ∃ p, Reachable dependencies plugins p ∧ Relation.TransGen (Dfs.Edge dependencies) p p

omit [Fintype α] [DecidableEq α] in
/-- All that is reached is registered. -/
theorem Collecting.mem_iff {registered : List α}
    (h : Collecting id dependencies plugins [] registered) (p : α) :
    p ∈ registered ↔ Reachable dependencies plugins p := by
  have hnil := List.append_nil registered
  refine ⟨fun hp => h.reachable p (by rwa [hnil]), ?_⟩
  rintro ⟨q, hq, hqp⟩
  induction hqp with
  | refl =>
    have hmem := h.plugins q hq
    rwa [hnil] at hmem
  | tail _ hd ih =>
    have hmem := h.dependencies _ ih _ hd
    rwa [hnil] at hmem

omit [Fintype α] [DecidableEq α] in
theorem Collecting.not_conflict {registered : List α}
    (h : Collecting id dependencies plugins [] registered) : ¬Conflict id dependencies plugins := by
  rintro ⟨p, q, hp, hq, hne, hid⟩
  exact hne (List.inj_on_of_nodup_map h.ids ((h.mem_iff p).mpr hp) ((h.mem_iff q).mpr hq) hid)

/-- The plugins in an order in which they may be loaded: each that is reached, once, after its
dependencies, as a depth-first search from the declared list finishes them. -/
structure LoadOrder (dependencies : α → List α) (plugins order : List α) : Prop where
  nodup : order.Nodup
  mem : ∀ p, p ∈ order ↔ Reachable dependencies plugins p
  before : ∀ earlier p later, order = earlier ++ p :: later → ∀ d ∈ dependencies p, d ∈ earlier
  postorder : Dfs.Postorder dependencies [] plugins order

/-- What a search over the registered plugins ends with. -/
theorem sort_registered {registered : List α}
    (h : Collecting id dependencies plugins [] registered)
    (hcollect : collect id dependencies plugins [] = .ok registered) :
    match Dfs.sort dependencies (fun p => [p]) (registered.length + 1) registered with
    | .ok s => ¬Cyclic dependencies plugins ∧ LoadOrder dependencies plugins s.out
    | .error (.cycle _) => Cyclic dependencies plugins
    | .error .deep => False := by
  have hclosed : ∀ p ∈ registered, ∀ d ∈ dependencies p, d ∈ registered := fun p hp d hd => by
    have hmem := h.dependencies p hp d hd
    rwa [List.append_nil] at hmem
  cases hsort : Dfs.sort dependencies (fun p => [p]) (registered.length + 1) registered with
  | ok s =>
    obtain ⟨hsorted, hmem⟩ := Dfs.sort_ok hclosed hsort
    have hout : s.out = s.visited := by rw [hsorted.out, List.flatMap_singleton']
    refine ⟨fun ⟨p, hp, hcycle⟩ => ?_, hout ▸ ⟨hsorted.nodup, fun p => ?_, hsorted.closed, ?_⟩⟩
    · exact hsorted.closed.acyclic hsorted.nodup ((hmem p).mpr ((h.mem_iff p).mpr hp)) hcycle
    · exact (hmem p).trans (h.mem_iff p)
    · rw [collect_sort hcollect, List.nil_append] at hsort
      exact Dfs.sort_postorder hsort
  | error e =>
    cases e with
    | cycle path =>
      obtain ⟨p, hp, hcycle⟩ := (Dfs.sort_cycle hsort).transGen
      exact ⟨p, (h.mem_iff p).mp (Dfs.sort_cycle_mem hclosed hsort p hp), hcycle⟩
    | deep => exact Dfs.sort_not_deep hclosed (Nat.lt_succ_self _) hsort

theorem resolvePluginOrder_registered {registered : List α}
    (h : collect id dependencies plugins [] = .ok registered) :
    resolvePluginOrder id dependencies plugins =
      registered.foldlM (visit id dependencies registered (registered.length + 1))
        (view id ⟨[], [], []⟩) >>= fun s => .ok s.sorted := by
  unfold resolvePluginOrder
  rw [h]
  rfl

variable (id dependencies plugins)

/-- Which error, or which order, `resolvePluginOrder` ends with. -/
theorem resolvePluginOrder_spec :
    match resolvePluginOrder id dependencies plugins with
    | .ok order => ¬Conflict id dependencies plugins ∧ ¬Cyclic dependencies plugins ∧
        LoadOrder dependencies plugins order
    | .error (.duplicate _) => Conflict id dependencies plugins
    | .error (.circular _) => Cyclic dependencies plugins
    | .error _ => False := by
  have hspec := collect_spec (@Collecting.start α id dependencies plugins)
  cases hcollect : collect id dependencies plugins [] with
  | error e =>
    rw [hcollect] at hspec
    obtain ⟨p, q, hp, hq, hne, hid, rfl⟩ := hspec
    unfold resolvePluginOrder
    rw [hcollect]
    exact ⟨p, q, hp, hq, hne, hid⟩
  | ok registered =>
    rw [hcollect] at hspec
    have hclosed : ∀ p ∈ registered, ∀ d ∈ dependencies p, d ∈ registered := fun p hp d hd => by
      have hmem := hspec.dependencies p hp d hd
      rwa [List.append_nil] at hmem
    have hwithin : Within dependencies registered (⟨[], [], []⟩ : Dfs.State α α) :=
      ⟨Dfs.sorted_nil, nofun, nofun⟩
    have hagrees : Agrees id
        (Dfs.sort dependencies (fun p => [p]) (registered.length + 1) registered)
        (registered.foldlM (visit id dependencies registered (registered.length + 1))
          (view id ⟨[], [], []⟩)) :=
      foldlM_agrees (fun s p hs hp => visit_agrees hspec.ids hclosed hs hp)
        (fun s p s' hs hp h => by
          obtain ⟨hsorted, hext, -⟩ := Dfs.visit_ok hclosed h hp hs.sorted
          exact hs.extends hsorted hext)
        (fun _ hp => hp) hwithin
    have hsort := sort_registered hspec hcollect
    rw [resolvePluginOrder_registered hcollect]
    cases hresult : Dfs.sort dependencies (fun p => [p]) (registered.length + 1) registered with
    | ok s =>
      rw [hresult] at hagrees hsort
      rw [hagrees]
      exact ⟨hspec.not_conflict, hsort⟩
    | error e =>
      rw [hresult] at hagrees hsort
      cases e with
      | cycle path =>
        obtain ⟨i, hi⟩ := hagrees
        rw [hi]
        exact hsort
      | deep => exact hsort.elim

/-- `resolvePluginOrder` throws where two plugins have one id or a plugin depends on itself, and
else returns the plugins that are reached in the order of a depth-first search. -/
theorem resolvePluginOrder_correct :
    ((∃ e, resolvePluginOrder id dependencies plugins = .error e) ↔
      Conflict id dependencies plugins ∨ Cyclic dependencies plugins) ∧
    ∀ order, resolvePluginOrder id dependencies plugins = .ok order →
      LoadOrder dependencies plugins order := by
  have hspec := resolvePluginOrder_spec id dependencies plugins
  cases hresult : resolvePluginOrder id dependencies plugins with
  | ok order =>
    rw [hresult] at hspec
    obtain ⟨hconflict, hcyclic, horder⟩ := hspec
    refine ⟨⟨fun ⟨_, h⟩ => (nomatch h), fun h => absurd h (not_or.mpr ⟨hconflict, hcyclic⟩)⟩, ?_⟩
    rintro _ ⟨⟩
    exact horder
  | error e =>
    rw [hresult] at hspec
    refine ⟨⟨fun _ => ?_, fun _ => ⟨e, rfl⟩⟩, nofun⟩
    cases e with
    | duplicate => exact .inl hspec
    | circular => exact .inr hspec
    | unavailable | deep => exact hspec.elim

end Lionden.Plugins
