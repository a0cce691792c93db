import Lionden.Cli.Segments

/-!
# What the second pass stores (`task-dispatch.ts`)

* `written`: the value that named segments store in a slot; with a slot for each segment their order
  does not matter (`written_perm`).
* `foldlM_items`: segments and bare tokens after the task, in any order.
-/

namespace Lionden.Cli

open Lionden.Core

variable {R : Registry} {L : Lookups}

/-! ## Slots -/

def ParsedArgs.get? (p : ParsedArgs) (slot : Slot) : Option JsValue :=
  if slot.isGlobal then p.globalArgs.get? slot.name else p.taskArgs.get? slot.name

/-- Where the positionals are kept. -/
def positionalSlot : Slot := ⟨false, js "_positional"⟩

theorem ParsedArgs.get?_store {p : ParsedArgs} {slot : Slot} (hproto : slot.name ≠ proto)
    (value : JsValue) (slot' : Slot) :
    (p.store slot value).get? slot' = if slot' = slot then some value else p.get? slot' := by
  obtain ⟨isGlobal, name⟩ := slot
  obtain ⟨isGlobal', name'⟩ := slot'
  change name ≠ proto at hproto
  cases isGlobal <;> cases isGlobal' <;> simp [ParsedArgs.get?, ParsedArgs.store, hproto]

theorem ParsedArgs.get?_store_positional (p : ParsedArgs) (value : JsValue) (slot : Slot) :
    (p.store positionalSlot value).get? slot =
      if slot = positionalSlot then some value else p.get? slot :=
  ParsedArgs.get?_store (by decide +kernel : js "_positional" ≠ proto) value slot

/-- The value that the segments store in a slot. -/
def written (L : Lookups) (segments : List Segment) (slot : Slot) : Option JsValue :=
  (segments.reverse.find? fun s => decide (s.slot L = slot)).map (Segment.value L)

theorem written_append (segments segments' : List Segment) (slot : Slot) :
    written L (segments ++ segments') slot =
      (written L segments' slot).or (written L segments slot) := by
  rw [written, List.reverse_append, List.find?_append, Option.map_or]
  rfl

theorem written_cons (s : Segment) (segments : List Segment) (slot : Slot) :
    written L (s :: segments) slot =
      (written L segments slot).or (if slot = s.slot L then some (s.value L) else none) := by
  rw [← List.singleton_append, written_append]
  congr 1
  by_cases h : s.slot L = slot
  · simp [written, h]
  · simp [written, h, Ne.symm h]

theorem written_eq_none {segments : List Segment} {slot : Slot}
    (h : ∀ s ∈ segments, s.slot L ≠ slot) : written L segments slot = none := by
  rw [written, Option.map_eq_none_iff, List.find?_eq_none]
  exact fun s hs => by simpa using h s (List.mem_reverse.mp hs)

theorem written_of_mem {segments : List Segment} (hnodup : (segments.map (Segment.slot L)).Nodup)
    {s : Segment} (hs : s ∈ segments) : written L segments (s.slot L) = some (s.value L) := by
  rw [written, Option.map_eq_some_iff]
  cases hfind : segments.reverse.find? fun s' => decide (s'.slot L = s.slot L) with
  | none => exact absurd (decide_eq_true rfl) (List.find?_eq_none.mp hfind s (List.mem_reverse.mpr hs))
  | some s' =>
    have hslot : s'.slot L = s.slot L := by simpa using List.find?_some hfind
    have hs' := List.mem_reverse.mp (List.mem_of_find?_eq_some hfind)
    exact ⟨s', rfl, by rw [List.inj_on_of_nodup_map hnodup hs' hs hslot]⟩

/-- With a slot for each segment, their order does not matter. -/
theorem written_perm {segments segments' : List Segment} (hperm : segments.Perm segments')
    (hnodup : (segments'.map (Segment.slot L)).Nodup) (slot : Slot) :
    written L segments slot = written L segments' slot := by
  have hnodup' : (segments.map (Segment.slot L)).Nodup := (hperm.map _).nodup_iff.mpr hnodup
  by_cases h : ∃ s ∈ segments, s.slot L = slot
  · obtain ⟨s, hs, rfl⟩ := h
    rw [written_of_mem hnodup' hs, written_of_mem hnodup (hperm.subset hs)]
  · push Not at h
    rw [written_eq_none h, written_eq_none fun s hs => h s (hperm.symm.subset hs)]

theorem foldl_apply {segments : List Segment} (hproto : ∀ s ∈ segments, (s.slot L).name ≠ proto)
    (p : ParsedArgs) :
    (segments.foldl (Segment.apply L) p).taskId = p.taskId ∧
      (segments.foldl (Segment.apply L) p).preTaskArgs = p.preTaskArgs ∧
      ∀ slot, (segments.foldl (Segment.apply L) p).get? slot =
        (written L segments slot).or (p.get? slot) := by
  induction segments generalizing p with
  | nil => exact ⟨rfl, rfl, fun slot => rfl⟩
  | cons s segments ih =>
    obtain ⟨hs, hsegments⟩ := List.forall_mem_cons.mp hproto
    obtain ⟨htask, hpre, hget⟩ := ih hsegments (s.apply L p)
    refine ⟨htask.trans ?_, hpre.trans ?_, fun slot => ?_⟩
    · rw [Segment.apply, ParsedArgs.store]
      split <;> rfl
    · rw [Segment.apply, ParsedArgs.store]
      split <;> rfl
    · rw [List.foldl_cons, hget, Segment.apply, ParsedArgs.get?_store hs, written_cons,
        Option.or_assoc]
      by_cases h : slot = s.slot L <;> simp [h]

/-! ## Items after the task -/

def segmentsOf (items : List Item) : List Segment :=
  items.filterMap fun
    | .segment s => some s
    | .bare _ => none

def baresOf (items : List Item) : List JsString :=
  items.filterMap fun
    | .segment _ => none
    | .bare arg => some arg

/-- `_positional`, as far as it is an array. -/
def positionalsOf (p : ParsedArgs) : Option (List (Option JsValue)) :=
  match p.taskArgs.get? (js "_positional") with
  | none => some []
  | some (.array values) => some values
  | some _ => none

def bareValues (args : List JsString) : List (Option JsValue) := args.map fun arg => some (.string arg)

theorem pushPositional_ok {p : ParsedArgs} {values : List (Option JsValue)}
    (h : positionalsOf p = some values) (arg : JsString) :
    pushPositional p arg = .ok (p.store positionalSlot (.array (values ++ [some (.string arg)]))) := by
  have hproto : js "_positional" ≠ proto := by decide +kernel
  have hstore (value : JsValue) : p.store positionalSlot value =
      { p with taskArgs := p.taskArgs.set (js "_positional") value } := by
    rw [ParsedArgs.store, positionalSlot, if_neg Bool.false_ne_true, assign, if_neg hproto]
  rw [hstore]
  unfold positionalsOf at h
  unfold pushPositional
  cases hget : p.taskArgs.get? (js "_positional") with
  | none =>
    rw [hget] at h
    cases h
    rfl
  | some stored =>
    rw [hget] at h
    cases stored <;> cases h
    rfl

theorem positionalsOf_store {p : ParsedArgs} {slot : Slot} (hproto : slot.name ≠ proto)
    (hslot : slot ≠ positionalSlot) (value : JsValue) :
    positionalsOf (p.store slot value) = positionalsOf p := by
  have hget := ParsedArgs.get?_store (p := p) hproto value positionalSlot
  rw [if_neg (Ne.symm hslot)] at hget
  change (p.store slot value).taskArgs.get? (js "_positional") = p.taskArgs.get? _ at hget
  rw [positionalsOf, hget]
  rfl

theorem positionalsOf_store_self (p : ParsedArgs) (values : List (Option JsValue)) :
    positionalsOf (p.store positionalSlot (.array values)) = some values := by
  have hget := p.get?_store_positional (.array values) positionalSlot
  rw [if_pos rfl] at hget
  change (p.store positionalSlot (.array values)).taskArgs.get? (js "_positional") = _ at hget
  rw [positionalsOf, hget]

/-- The items after the task store their segments and collect their bare tokens. -/
theorem foldlM_items {items : List Item}
    (hproto : ∀ s ∈ segmentsOf items, (s.slot L).name ≠ proto) {p : ParsedArgs}
    {values : List (Option JsValue)}
    (hclear : baresOf items ≠ [] →
      positionalsOf p = some values ∧ ∀ s ∈ segmentsOf items, s.slot L ≠ positionalSlot) :
    ∃ p', items.foldlM (Item.apply L) p = .ok p' ∧ p'.taskId = p.taskId ∧
      p'.preTaskArgs = p.preTaskArgs ∧
      ∀ slot, p'.get? slot =
        if slot = positionalSlot ∧ baresOf items ≠ [] then
          some (.array (values ++ bareValues (baresOf items)))
        else (written L (segmentsOf items) slot).or (p.get? slot) := by
  induction items generalizing p values with
  | nil => exact ⟨p, rfl, rfl, rfl, fun slot => by simp [baresOf, segmentsOf, written]⟩
  | cons item items ih =>
    cases item with
    | segment s =>
      obtain ⟨hs, hsegments⟩ := List.forall_mem_cons.mp hproto
      have hpositional (hne : baresOf items ≠ []) : positionalsOf (s.apply L p) = some values := by
        rw [Segment.apply, positionalsOf_store hs ((hclear hne).2 s List.mem_cons_self)]
        exact (hclear hne).1
      obtain ⟨p', hp', htask, hpre, hget⟩ := ih hsegments fun hne =>
        ⟨hpositional hne, fun s' hs' => (hclear hne).2 s' (List.mem_cons_of_mem s hs')⟩
      obtain ⟨htask', hpre', hget'⟩ := @foldl_apply L [s] (by simpa using hs) p
      refine ⟨p', hp', htask.trans htask', hpre.trans hpre', fun slot => ?_⟩
      have hget' : (s.apply L p).get? slot = (written L [s] slot).or (p.get? slot) := hget' slot
      have hsegmentsOf : segmentsOf (.segment s :: items) = [s] ++ segmentsOf items := rfl
      have hbaresOf : baresOf (.segment s :: items) = baresOf items := rfl
      rw [hget, hget', hsegmentsOf, hbaresOf, written_append, Option.or_assoc]
    | bare arg =>
      have hne : baresOf (.bare arg :: items) ≠ [] := List.cons_ne_nil _ _
      obtain ⟨hvalues, hslots⟩ := hclear hne
      obtain ⟨p', hp', htask, hpre, hget⟩ := @ih hproto
        (p.store positionalSlot (.array (values ++ [some (.string arg)])))
        (values ++ [some (.string arg)]) fun _ => ⟨positionalsOf_store_self p _, hslots⟩
      refine ⟨p', ?_, htask, hpre, fun slot => ?_⟩
      · rw [List.foldlM_cons, Item.apply, pushPositional_ok hvalues]
        exact hp'
      · have hbaresOf : baresOf (.bare arg :: items) = arg :: baresOf items := rfl
        have hsegmentsOf : segmentsOf (.bare arg :: items) = segmentsOf items := rfl
        rw [hget, hsegmentsOf, hbaresOf, ParsedArgs.get?_store_positional]
        by_cases hslot : slot = positionalSlot
        · subst hslot
          by_cases hnil : baresOf items = []
          · have hnone : written L (segmentsOf items) positionalSlot = none := written_eq_none hslots
            rw [hnone]
            simp [hnil, bareValues]
          · simp [hnil, bareValues]
        · simp [hslot]

end Lionden.Cli
