import Lionden.Cli.Positions

/-!
# Tokens that are mistaken (`task-dispatch.ts`)

What the two passes do where the first has taken another token for the task id.

* `findTask_of_same`: the task id of a parse is the one that the first pass found.
* `parseLoop_valueless`, `parseLoop_bares`: an option whose value is taken for the task id, and bare
  tokens before it.
* `Command.plain`: the arrangement with all segments after the task, to which others are compared.
-/

namespace Lionden.Cli

open Lionden.Core

variable {R : Registry} {L : Lookups} {c : Command R}

/-! ## What every parse keeps -/

theorem store_taskId (p : ParsedArgs) (slot : Slot) (value : JsValue) :
    (p.store slot value).taskId = p.taskId := by
  rw [ParsedArgs.store]
  split <;> rfl

theorem parseOption_taskId (route : Route) (inlineValue next : Option JsString) (p : ParsedArgs) :
    (parseOption route inlineValue next p).1.taskId = p.taskId := by
  unfold parseOption
  split
  · exact store_taskId _ _ _
  · split
    · exact store_taskId _ _ _
    · exact store_taskId _ _ _
    · split
      · exact store_taskId _ _ _
      · rfl

theorem pushPositional_inv {p p' : ParsedArgs} {arg : JsString} (h : pushPositional p arg = .ok p') :
    ∃ values, positionalsOf p = some values ∧
      p' = p.store positionalSlot (.array (values ++ [some (.string arg)])) := by
  cases hvalues : positionalsOf p with
  | some values =>
    rw [pushPositional_ok hvalues] at h
    cases h
    exact ⟨values, rfl, rfl⟩
  | none =>
    unfold positionalsOf at hvalues
    unfold pushPositional at h
    split at hvalues
    · cases hvalues
    · cases hvalues
    · next v hne hget =>
      rw [hget] at h
      cases v with
      | array values => exact absurd rfl (hne values)
      | _ => cases h

theorem parseBare_taskId {taskIndex : Option Nat} {i : Nat} {arg : JsString} {p p' : ParsedArgs}
    (h : parseBare taskIndex i arg p = .ok p') : p'.taskId = p.taskId := by
  unfold parseBare at h
  split at h
  · cases h
    rfl
  · split at h
    · obtain ⟨values, -, rfl⟩ := pushPositional_inv h
      exact store_taskId _ _ _
    · cases h
      rfl

theorem parseLoop_taskId {taskIndex : Option Nat} {i : Nat} {tokens : List JsString}
    {p p' : ParsedArgs} (h : parseLoop L taskIndex i tokens p = .ok p') : p'.taskId = p.taskId :=
  parseLoop_invariant (I := fun q => q.taskId = p.taskId)
    (fun route inlineValue next q hq => (parseOption_taskId route inlineValue next q).trans hq)
    (fun _ _ _ _ hq hbare => (parseBare_taskId hbare).trans hq) rfl h

/-- If the parse is the same as one of the task, the first pass found that task. -/
theorem findTask_of_same {argv : List JsString} {id : JsString} {t : Nat} {p : ParsedArgs}
    (hfound : R.findTask argv = some (id, t)) (hp : p.taskId = some c.taskId)
    (hsame : SameParse (R.parseArgs argv) (.ok p)) :
    id = c.taskId ∧ ∃ p', parseLoop c.lookups (some t) 0 argv { taskId := some c.taskId } = .ok p' ∧
      ∀ slot, p'.get? slot = p.get? slot := by
  have hparse : R.parseArgs argv =
      parseLoop (R.lookups (some id)) (some t) 0 argv { taskId := some id } := by
    rw [Registry.parseArgs, hfound]
    rfl
  rw [hparse] at hsame
  cases hloop : parseLoop (R.lookups (some id)) (some t) 0 argv { taskId := some id } with
  | error e =>
    rw [hloop] at hsame
    exact hsame.elim
  | ok p' =>
    rw [hloop] at hsame
    have htask := (parseLoop_taskId hloop).symm.trans (hsame.1.trans hp)
    cases htask
    exact ⟨rfl, p', hloop, hsame.get?⟩

theorem get?_foldlM {items : List Item}
    (hproto : ∀ s ∈ segmentsOf items, (s.slot L).name ≠ proto) {p p' : ParsedArgs}
    (h : items.foldlM (Item.apply L) p = .ok p') {slot : Slot} (hslot : slot ≠ positionalSlot) :
    p'.get? slot = (written L (segmentsOf items) slot).or (p.get? slot) := by
  induction items generalizing p with
  | nil =>
    cases h
    rfl
  | cons item items ih =>
    rw [List.foldlM_cons] at h
    obtain ⟨p₁, hp₁, h⟩ := Fallible.bind_ok.mp h
    cases item with
    | segment s =>
      obtain ⟨hs, hsegments⟩ := List.forall_mem_cons.mp hproto
      cases hp₁
      have hsegmentsOf : segmentsOf (.segment s :: items) = s :: segmentsOf items := rfl
      rw [ih hsegments h, Segment.apply, ParsedArgs.get?_store hs, hsegmentsOf, written_cons,
        Option.or_assoc]
      by_cases heq : slot = s.slot L <;> simp [heq]
    | bare arg =>
      obtain ⟨values, -, rfl⟩ := pushPositional_inv hp₁
      rw [ih hproto h, ParsedArgs.get?_store_positional, if_neg hslot]
      rfl

/-- An option whose value is taken for the task id is left without it. -/
theorem parseLoop_valueless {name : JsString} (hname : 61 ∉ name)
    (hboolean : (L.route name).isBoolean = false) (hproto : (L.route name).slot.name ≠ proto)
    (i : Nat) (value : JsString) (rest : List JsString) (p : ParsedArgs) :
    ∃ p', parseLoop L (some (i + 1)) i ((js "--" ++ name) :: value :: rest) p =
        parseLoop L (some (i + 1)) (i + 2) rest p' ∧
      (p'.get? (L.route name).slot = p.get? (L.route name).slot ∨
        p'.get? (L.route name).slot = some (.boolean true)) ∧
      ∀ slot, slot ≠ (L.route name).slot → p'.get? slot = p.get? slot := by
  have hne : some (i + 1) ≠ some i := fun heq => by cases heq
  have hnext : nextValue (some (i + 1)) i (value :: rest) = none := by
    rw [nextValue, if_pos (.inl rfl)]
  refine ⟨(parseOption (L.route name) none none p).1, ?_, ?_⟩
  · have hconsumes : (parseOption (L.route name) none none p).2 = false := by
      unfold parseOption
      rw [hboolean]
      cases L.route name <;> rfl
    rw [parseLoop_cons, if_neg hne, isOptionToken_dashes, if_pos rfl, splitOptionToken_name hname,
      hnext, hconsumes, if_neg Bool.false_ne_true, parseLoop_cons, if_pos rfl]
  · unfold parseOption
    rw [hboolean]
    generalize L.route name = route at hproto
    cases route with
    | unknown rawName =>
      refine ⟨.inr ?_, fun slot hslot => ?_⟩
      · exact (ParsedArgs.get?_store hproto _ _).trans (if_pos rfl)
      · exact (ParsedArgs.get?_store hproto _ _).trans (if_neg hslot)
    | _ => exact ⟨.inl rfl, fun slot _ => rfl⟩

theorem findFrom_bares {args : List JsString} (hbare : ∀ arg ∈ args, isOptionToken arg = false)
    (htask : ∀ arg ∈ args, R.isTask arg = false) (i : Nat) (more : List JsString)
    (first : Option (JsString × Nat)) :
    ∃ first', R.findFrom i (args ++ more) first = R.findFrom (i + args.length) more first' := by
  induction args generalizing i first with
  | nil => exact ⟨first, rfl⟩
  | cons arg args ih =>
    obtain ⟨harg, hbare⟩ := List.forall_mem_cons.mp hbare
    obtain ⟨harg', htask⟩ := List.forall_mem_cons.mp htask
    obtain ⟨first', hfirst⟩ := ih hbare htask (i + 1) (first.or (some (arg, i)))
    refine ⟨first', ?_⟩
    rw [List.cons_append, findFrom_bare harg harg', hfirst, List.length_cons]
    congr 1
    omega

/-- Bare tokens before what the first pass found are no arguments of the task. -/
theorem parseLoop_bares {args : List JsString} (hbare : ∀ arg ∈ args, isOptionToken arg = false)
    {t i : Nat} (h : i + args.length ≤ t) (more : List JsString) (p : ParsedArgs) :
    ∃ preTaskArgs, parseLoop L (some t) i (args ++ more) p =
      parseLoop L (some t) (i + args.length) more { p with preTaskArgs } := by
  induction args generalizing i p with
  | nil => exact ⟨p.preTaskArgs, rfl⟩
  | cons arg args ih =>
    obtain ⟨harg, hbare⟩ := List.forall_mem_cons.mp hbare
    rw [List.length_cons] at h
    have hne : some t ≠ some i := fun heq => by cases heq; omega
    obtain ⟨preTaskArgs, hpre⟩ := @ih hbare (i + 1) (by omega)
      { p with preTaskArgs := p.preTaskArgs ++ [arg] }
    refine ⟨preTaskArgs, ?_⟩
    rw [List.cons_append, parseLoop_cons, if_neg hne, harg, if_neg Bool.false_ne_true, parseBare,
      if_neg (by omega), List.length_cons]
    refine Eq.trans hpre ?_
    congr 1
    omega

/-! ## Arrangements -/

@[simp] theorem segmentsOf_append (items items' : List Item) :
    segmentsOf (items ++ items') = segmentsOf items ++ segmentsOf items' := List.filterMap_append

@[simp] theorem baresOf_append (items items' : List Item) :
    baresOf (items ++ items') = baresOf items ++ baresOf items' := List.filterMap_append

@[simp] theorem segmentsOf_segments (segments : List Segment) :
    segmentsOf (segments.map .segment) = segments := by
  rw [segmentsOf, List.filterMap_map]
  exact List.filterMap_some

@[simp] theorem baresOf_segments (segments : List Segment) : baresOf (segments.map .segment) = [] := by
  rw [baresOf, List.filterMap_map]
  exact List.filterMap_none segments

@[simp] theorem segmentsOf_bares (args : List JsString) : segmentsOf (args.map .bare) = [] := by
  rw [segmentsOf, List.filterMap_map]
  exact List.filterMap_none args

@[simp] theorem baresOf_bares (args : List JsString) : baresOf (args.map .bare) = args := by
  rw [baresOf, List.filterMap_map]
  exact List.filterMap_some

theorem tokens_segments (segments : List Segment) :
    (segments.map Item.segment).flatMap Item.tokens = segments.flatMap Segment.tokens := by
  rw [List.flatMap_map]
  rfl

theorem tokens_bares (args : List JsString) : (args.map Item.bare).flatMap Item.tokens = args := by
  rw [List.flatMap_map]
  exact List.flatMap_singleton' args

/-- Some segments before the task, then the positionals, then the other segments. -/
def Command.arrange (c : Command R) (before rest : List Segment)
    (h : (before ++ rest).Perm c.segments) : Arrangement c where
  before
  after := c.positionals.map .bare ++ rest.map .segment
  perm := by simpa using h
  positionals := by simp

/-- All segments after the task. -/
def Command.plain (c : Command R) : Arrangement c := c.arrange [] c.segments (List.Perm.refl _)

theorem arrange_argv {before rest : List Segment} (h : (before ++ rest).Perm c.segments) :
    (c.arrange before rest h).argv =
      before.flatMap Segment.tokens ++
        c.taskId :: (c.positionals ++ rest.flatMap Segment.tokens) := by
  rw [Arrangement.argv, Command.arrange, List.flatMap_append, tokens_bares, tokens_segments]

theorem findTask_first (a : Arrangement c) (h : a.before = []) :
    R.findTask a.argv = some (c.taskId, a.taskIndex) := by
  rw [Registry.findTask, Arrangement.argv, Arrangement.taskIndex, h]
  exact findFrom_task c.taskId_bare c.registered 0 _ none

theorem parseArgs_first (a : Arrangement c) (h : a.before = []) :
    R.parseArgs a.argv =
      a.after.foldlM (Item.apply c.lookups) { taskId := some c.taskId } := by
  have hfound := findTask_first a h
  rw [Arrangement.taskIndex, h] at hfound
  rw [Registry.parseArgs, hfound, Arrangement.argv, h]
  change parseLoop c.lookups (some 0) 0 (c.taskId :: _) _ = _
  rw [parseLoop_cons, if_pos rfl]
  exact parseLoop_items a.after_wellFormed Nat.one_pos _

/-- What the arrangement with all segments after the task is parsed to. -/
theorem parseArgs_plain (hapart : c.Apart) :
    ∃ p, R.parseArgs c.plain.argv = .ok p ∧ p.taskId = some c.taskId ∧
      ∀ slot, p.get? slot = c.stored slot := by
  obtain ⟨p, hp, htask, -, hget⟩ := parseArgs_found hapart c.plain (findTask_first c.plain rfl)
  exact ⟨p, hp, htask, hget⟩

theorem stored_of_mem (hapart : c.Apart) {s : Segment} (hs : s ∈ c.segments) :
    c.stored (s.slot c.lookups) = some (s.value c.lookups) := by
  rw [Command.stored, if_neg fun h => hapart h.2 s hs h.1]
  exact written_of_mem c.once hs

end Lionden.Cli
