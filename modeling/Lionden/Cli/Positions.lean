import Lionden.Cli.Arrangement

/-!
# The positions of options (`task-dispatch.ts`)

* `Command`: a registered task, named segments that are stored each under a name of its own, and
  positionals; `Arrangement`: an argument vector of it, with some of the segments before the task.
* `parseArgs_found`: if the first pass finds the task where it stands, what is parsed depends on
  the command only.
* `Unmistakable`: no token of the command can be mistaken for another; `findTask_arrangement`: then
  the first pass finds the task in every arrangement.
-/

namespace Lionden.Cli

open Lionden.Core

variable {R : Registry} {L : Lookups}

/-- What the user wants to be parsed: a task with options and positionals. -/
structure Command (R : Registry) where
  taskId : JsString
  registered : R.isTask taskId = true
  taskId_bare : isOptionToken taskId = false
  segments : List Segment
  wellFormed : ∀ s ∈ segments, s.WellFormed (R.lookups (some taskId))
  /-- A plain object has no property of its own under `__proto__`. -/
  ordinary : ∀ s ∈ segments, (s.slot (R.lookups (some taskId))).name ≠ proto
  once : (segments.map (Segment.slot (R.lookups (some taskId)))).Nodup
  positionals : List JsString
  positionals_bare : ∀ arg ∈ positionals, isOptionToken arg = false

namespace Command

/-- The schema of the task. -/
abbrev lookups (c : Command R) : Lookups := R.lookups (some c.taskId)

/-- What is stored in a slot. -/
def stored (c : Command R) (slot : Slot) : Option JsValue :=
  if slot = positionalSlot ∧ c.positionals ≠ [] then some (.array (bareValues c.positionals))
  else written c.lookups c.segments slot

end Command

/-- An argument vector of the command: some segments before the task, the rest after it, among the
positionals. -/
structure Arrangement (c : Command R) where
  before : List Segment
  after : List Item
  perm : (before ++ segmentsOf after).Perm c.segments
  positionals : baresOf after = c.positionals

namespace Arrangement

variable {c : Command R}

def argv (a : Arrangement c) : List JsString :=
  a.before.flatMap Segment.tokens ++ c.taskId :: a.after.flatMap Item.tokens

/-- Where the task stands. -/
def taskIndex (a : Arrangement c) : Nat := (a.before.flatMap Segment.tokens).length

theorem mem_of_before (a : Arrangement c) {s : Segment} (hs : s ∈ a.before) : s ∈ c.segments :=
  a.perm.subset (List.mem_append_left _ hs)

theorem mem_of_after (a : Arrangement c) {s : Segment} (hs : s ∈ segmentsOf a.after) :
    s ∈ c.segments := a.perm.subset (List.mem_append_right _ hs)

end Arrangement

/-- The same task id, task arguments (with the positionals in their order) and global arguments. -/
def SameParse : Except JsString ParsedArgs → Except JsString ParsedArgs → Prop
  | .ok p, .ok p' =>
    p.taskId = p'.taskId ∧ (∀ k, p.taskArgs.get? k = p'.taskArgs.get? k) ∧
      ∀ k, p.globalArgs.get? k = p'.globalArgs.get? k
  | .error e, .error e' => e = e'
  | _, _ => False

theorem sameParse_of_slots {p p' : ParsedArgs} (htask : p.taskId = p'.taskId)
    (h : ∀ slot, p.get? slot = p'.get? slot) : SameParse (.ok p) (.ok p') :=
  ⟨htask, fun k => h ⟨false, k⟩, fun k => h ⟨true, k⟩⟩

theorem SameParse.get? {p p' : ParsedArgs} (h : SameParse (.ok p) (.ok p')) (slot : Slot) :
    p.get? slot = p'.get? slot := by
  obtain ⟨isGlobal, name⟩ := slot
  cases isGlobal with
  | false => exact h.2.1 name
  | true => exact h.2.2 name

/-! ## The second pass, once the task is found -/

theorem mem_segmentsOf {items : List Item} {s : Segment} :
    s ∈ segmentsOf items ↔ .segment s ∈ items := by
  simp only [segmentsOf, List.mem_filterMap]
  constructor
  · rintro ⟨item, hitem, heq⟩
    cases item with
    | segment s' =>
      cases heq
      exact hitem
    | bare arg => cases heq
  · exact fun h => ⟨_, h, rfl⟩

theorem mem_baresOf {items : List Item} {arg : JsString} :
    arg ∈ baresOf items ↔ .bare arg ∈ items := by
  simp only [baresOf, List.mem_filterMap]
  constructor
  · rintro ⟨item, hitem, heq⟩
    cases item with
    | segment s => cases heq
    | bare arg' =>
      cases heq
      exact hitem
  · exact fun h => ⟨_, h, rfl⟩

variable {c : Command R}

theorem Arrangement.after_wellFormed (a : Arrangement c) :
    ∀ item ∈ a.after, item.WellFormed c.lookups := by
  intro item hitem
  cases item with
  | segment s => exact c.wellFormed s (a.mem_of_after (mem_segmentsOf.mpr hitem))
  | bare arg =>
    have harg := mem_baresOf.mpr hitem
    rw [a.positionals] at harg
    exact c.positionals_bare arg harg

/-- No option is stored where the positionals are. -/
def Command.Apart (c : Command R) : Prop :=
  c.positionals ≠ [] → ∀ s ∈ c.segments, s.slot c.lookups ≠ positionalSlot

theorem get?_fresh (taskId : Option JsString) (slot : Slot) :
    ({ taskId } : ParsedArgs).get? slot = none := by
  rw [ParsedArgs.get?]
  split <;> rfl

theorem parseArgs_found (hapart : c.Apart) (a : Arrangement c)
    (hfound : R.findTask a.argv = some (c.taskId, a.taskIndex)) :
    ∃ p, R.parseArgs a.argv = .ok p ∧ p.taskId = some c.taskId ∧ p.preTaskArgs = [] ∧
      ∀ slot, p.get? slot = c.stored slot := by
  have hbefore := fun s hs => c.ordinary s (a.mem_of_before (s := s) hs)
  obtain ⟨htask, hpre, hget⟩ :=
    @foldl_apply c.lookups a.before hbefore { taskId := some c.taskId }
  have hpositional (hne : baresOf a.after ≠ []) :
      positionalsOf (a.before.foldl (Segment.apply c.lookups) { taskId := some c.taskId }) =
          some [] ∧ ∀ s ∈ segmentsOf a.after, s.slot c.lookups ≠ positionalSlot := by
    rw [a.positionals] at hne
    have hslot := hget positionalSlot
    rw [written_eq_none fun s hs => hapart hne s (a.mem_of_before hs), get?_fresh] at hslot
    refine ⟨?_, fun s hs => hapart hne s (a.mem_of_after hs)⟩
    change InsertionMap.get? _ (js "_positional") = none at hslot
    rw [positionalsOf, hslot]
  obtain ⟨p, hp, htask', hpre', hget'⟩ := foldlM_items
    (fun s hs => c.ordinary s (a.mem_of_after hs)) hpositional
  refine ⟨p, ?_, htask'.trans htask, hpre'.trans hpre, fun slot => ?_⟩
  · rw [Registry.parseArgs, hfound]
    change parseLoop c.lookups (some (a.before.flatMap Segment.tokens).length) 0 a.argv _ = _
    have hwf := fun s hs => c.wellFormed s (a.mem_of_before (s := s) hs)
    rw [Arrangement.argv, parseLoop_segments hwf (Nat.zero_add _).le, Nat.zero_add, parseLoop_cons,
      if_pos rfl]
    rw [parseLoop_items a.after_wellFormed (Nat.lt_succ_self _)]
    exact hp
  · rw [hget', hget, get?_fresh, Option.or_none, ← written_append, a.positionals, Command.stored,
      written_perm a.perm c.once]
    rfl

/-! ## The first pass -/

/-- The token of a segment that is no option token. -/
def Segment.bareToken : Segment → Option JsString
  | .valued _ value => some value
  | _ => none

/-- The bare tokens besides the task id. -/
def Command.bareTokens (c : Command R) : List JsString :=
  c.segments.filterMap Segment.bareToken ++ c.positionals

/-- No token of the command is mistaken for another, wherever the segments stand. -/
structure Unmistakable (c : Command R) : Prop where
  /-- A flag that the first pass does not know takes no task id before another token that names a
  task. -/
  flags : ∀ s ∈ c.segments, s.isGreedy R = true → ∀ arg ∈ c.bareTokens, R.isTask arg = false
  /-- The value of an option that shares its name with a boolean global names no task. -/
  values : ∀ s ∈ c.segments, s.Safe R
  /-- No option is called `_positional` where there are positionals. -/
  apart : c.Apart

theorem hasTaskToken_items {items : List Item} (h : R.hasTaskToken (items.flatMap Item.tokens) = true) :
    ∃ arg, R.isTask arg = true ∧
      (arg ∈ baresOf items ∨ arg ∈ (segmentsOf items).filterMap Segment.bareToken) := by
  obtain ⟨token, htoken, htask⟩ := List.any_eq_true.mp h
  rw [Bool.and_eq_true, Bool.not_eq_true'] at htask
  obtain ⟨item, hitem, htoken⟩ := List.mem_flatMap.mp htoken
  refine ⟨token, htask.2, ?_⟩
  cases item with
  | bare arg =>
    rw [Item.tokens, List.mem_singleton] at htoken
    exact .inl (htoken ▸ mem_baresOf.mpr hitem)
  | segment s =>
    refine .inr (List.mem_filterMap.mpr ⟨s, mem_segmentsOf.mpr hitem, ?_⟩)
    obtain ⟨rest, htokens, hhead⟩ := s.tokens_head
    rw [Item.tokens] at htoken
    cases s with
    | flag name =>
      rw [List.mem_singleton.mp htoken, isOptionToken_dashes] at htask
      cases htask.1
    | inline name value =>
      rw [List.mem_singleton.mp htoken] at htask
      cases htask.1
    | valued name value =>
      obtain rfl | htoken := List.mem_cons.mp htoken
      · rw [isOptionToken_dashes] at htask
        cases htask.1
      · rw [List.mem_singleton.mp htoken]
        rfl

theorem findTask_arrangement (h : Unmistakable c) (a : Arrangement c) :
    R.findTask a.argv = some (c.taskId, a.taskIndex) := by
  have htask : R.hasTaskToken (c.taskId :: a.after.flatMap Item.tokens) = true := by
    rw [Registry.hasTaskToken, List.any_cons, c.taskId_bare, c.registered]
    rfl
  have hgreedy (s : Segment) (hs : s ∈ a.before) (hgreedy : s.isGreedy R = true) :
      R.canConsume (c.taskId :: a.after.flatMap Item.tokens) = false := by
    have hnone : R.hasTaskToken (a.after.flatMap Item.tokens) = false := by
      refine Bool.eq_false_iff.mpr fun hhas => ?_
      obtain ⟨arg, harg, hmem⟩ := hasTaskToken_items hhas
      have hbare : arg ∈ c.bareTokens := by
        rw [Command.bareTokens, List.mem_append, ← a.positionals]
        refine hmem.symm.imp_left fun hmem => ?_
        obtain ⟨s', hs', hvalue⟩ := List.mem_filterMap.mp hmem
        exact List.mem_filterMap.mpr ⟨s', a.mem_of_after hs', hvalue⟩
      rw [h.flags s (a.mem_of_before hs) hgreedy arg hbare] at harg
      cases harg
    rw [Registry.canConsume, hnone, c.registered, Bool.not_true, Bool.or_false, Bool.and_false]
  obtain ⟨first, hfirst⟩ := findFrom_segments
    (fun s hs => c.wellFormed s (a.mem_of_before hs))
    (fun s hs => h.values s (a.mem_of_before hs)) htask hgreedy 0 none
  rw [Registry.findTask, Arrangement.argv, hfirst, Nat.zero_add,
    findFrom_task c.taskId_bare c.registered]
  rfl

/-- Every arrangement of an unmistakable command is parsed to what the command says. -/
theorem parseArgs_arrangement (h : Unmistakable c) (a : Arrangement c) :
    ∃ p, R.parseArgs a.argv = .ok p ∧ p.taskId = some c.taskId ∧ p.preTaskArgs = [] ∧
      ∀ slot, p.get? slot = c.stored slot :=
  parseArgs_found h.apart a (findTask_arrangement h a)

end Lionden.Cli
