import Lionden.Cli.Mistaken

/-!
# Independence of the positions of options (`task-dispatch.ts`)

* `apart_of_same`, `safe_of_same`, `flags_of_same`: what follows if all arrangements of a command
  are parsed alike.
* `parseArgs_positions_iff`: they are if and only if the command is unmistakable.
-/

namespace Lionden.Cli

open Lionden.Core

variable {R : Registry} {c : Command R}

/-- Whatever the positions of the options, the same is parsed. -/
def PositionIndependent (c : Command R) : Prop :=
  ∀ a b : Arrangement c, SameParse (R.parseArgs a.argv) (R.parseArgs b.argv)

/-! ## `_positional` -/

theorem positionalsOf_fresh (taskId : Option JsString) :
    positionalsOf { taskId } = some [] := rfl

theorem value_ne_array (L : Lookups) (s : Segment) (values : List (Option JsValue)) :
    s.value L ≠ .array values := by
  cases s with
  | inline name value =>
    rw [Segment.value]
    split <;> rintro ⟨⟩
  | _ => rintro ⟨⟩

/-- An option that is stored as `_positional` before the positionals leaves no array to add to. -/
theorem apart_of_same (h : PositionIndependent c) : c.Apart := by
  intro hne s hs hslot
  have hordinary (s' : Segment) (hs' : s' ∈ segmentsOf (c.segments.map Item.segment)) :
      (s'.slot c.lookups).name ≠ proto := c.ordinary s' (by simpa using hs')
  -- with the positionals first, the option takes their place
  obtain ⟨p₁, hp₁, -⟩ := @foldlM_items c.lookups (c.positionals.map .bare) (by simp)
    { taskId := some c.taskId } [] fun _ => ⟨positionalsOf_fresh _, by simp⟩
  obtain ⟨p₂, hp₂, -⟩ := @foldlM_items c.lookups (c.segments.map .segment) hordinary p₁ []
    (by simp)
  have hplain : R.parseArgs c.plain.argv = .ok p₂ := by
    rw [parseArgs_first _ rfl, Command.plain, Command.arrange, List.foldlM_append, hp₁]
    exact hp₂
  -- with the option first, they find no array
  let b : Arrangement c :=
    { before := []
      after := c.segments.map .segment ++ c.positionals.map .bare
      perm := by simp
      positionals := by simp }
  have hsame := h c.plain b
  rw [hplain] at hsame
  cases hb : R.parseArgs b.argv with
  | error e =>
    rw [hb] at hsame
    exact hsame
  | ok p =>
    rw [parseArgs_first b rfl, List.foldlM_append] at hb
    obtain ⟨p₃, hp₃, hb⟩ := Fallible.bind_ok.mp hb
    obtain ⟨p₄, hp₄, -, -, hget⟩ := @foldlM_items c.lookups (c.segments.map .segment) hordinary
      { taskId := some c.taskId } [] (by simp)
    rw [hp₄] at hp₃
    cases hp₃
    have hvalue := hget positionalSlot
    rw [if_neg fun h => h.2 (by simp), segmentsOf_segments, ← hslot,
      written_of_mem c.once hs, Option.some_or, hslot] at hvalue
    obtain ⟨arg, args, hargs⟩ := List.exists_cons_of_ne_nil hne
    rw [hargs, List.map_cons, List.foldlM_cons] at hb
    obtain ⟨p₅, hpush, -⟩ := Fallible.bind_ok.mp hb
    obtain ⟨values, hvalues, -⟩ := pushPositional_inv hpush
    change p₃.taskArgs.get? (js "_positional") = some _ at hvalue
    rw [positionalsOf, hvalue] at hvalues
    split at hvalues
    · next heq => cases heq
    · next heq => exact value_ne_array c.lookups s _ (Option.some.inj heq)
    · cases hvalues

/-! ## Values -/

theorem slot_ne_of_erase {s s' : Segment} (hs : s ∈ c.segments) (hs' : s' ∈ c.segments.erase s) :
    s'.slot c.lookups ≠ s.slot c.lookups := by
  have hnodup := ((List.perm_cons_erase hs).map (Segment.slot c.lookups)).nodup_iff.mp c.once
  intro heq
  exact (List.nodup_cons.mp hnodup).1 (heq ▸ List.mem_map_of_mem hs')

/-- A value that the first pass does not skip must not name a task. -/
theorem safe_of_same (h : PositionIndependent c) : ∀ s ∈ c.segments, s.Safe R := by
  have hapart := apart_of_same h
  intro s hs
  cases s with
  | flag name => trivial
  | inline name value => trivial
  | valued name value =>
    by_contra hnot
    obtain ⟨hvalued, htask⟩ := not_or.mp hnot
    rw [Bool.not_eq_true] at hvalued
    have htask : R.isTask value = true := by simpa using htask
    obtain ⟨hname, hboolean, hbare⟩ := c.wellFormed _ hs
    have hproto := c.ordinary _ hs
    obtain ⟨p, hp, hid, hget⟩ := parseArgs_plain hapart
    let a := c.arrange [.valued name value] (c.segments.erase (.valued name value))
      (List.perm_cons_erase hs).symm
    have hargv : a.argv = (js "--" ++ name) :: value ::
        (.bare c.taskId :: a.after).flatMap Item.tokens := rfl
    have hfound : R.findTask a.argv = some (value, 1) := by
      rw [Registry.findTask, hargv, findFrom_name hname, hvalued, Bool.false_and,
        if_neg Bool.false_ne_true, findFrom_task hbare htask]
    have hsame := h a c.plain
    rw [hp] at hsame
    obtain ⟨rfl, p', hloop, hget'⟩ := findTask_of_same hfound hid hsame
    obtain ⟨p₁, hskip, hslot, -⟩ := parseLoop_valueless hname hboolean hproto 0 c.taskId
      ((.bare c.taskId :: a.after).flatMap Item.tokens) { taskId := some c.taskId }
    have hwf : ∀ item ∈ Item.bare c.taskId :: a.after, item.WellFormed c.lookups :=
      List.forall_mem_cons.mpr ⟨c.taskId_bare, a.after_wellFormed⟩
    rw [hargv, hskip, parseLoop_items hwf (Nat.lt_succ_self 1)] at hloop
    have hstored := (hget' _).trans ((hget _).trans (stored_of_mem hapart hs))
    have hrest : segmentsOf (Item.bare c.taskId :: a.after) = c.segments.erase (.valued name c.taskId) := by
      change segmentsOf a.after = _
      simp [a, Command.arrange]
    have hslots (s' : Segment) (hs' : s' ∈ segmentsOf (Item.bare c.taskId :: a.after)) :=
      slot_ne_of_erase hs (hrest ▸ hs')
    have hordinary (s' : Segment) (hs' : s' ∈ segmentsOf (Item.bare c.taskId :: a.after)) :
        (s'.slot c.lookups).name ≠ proto := c.ordinary s' (List.mem_of_mem_erase (hrest ▸ hs'))
    by_cases hpos : (Segment.valued name c.taskId).slot c.lookups = positionalSlot
    · -- the task id becomes a positional
      obtain ⟨p₂, hpush, -⟩ := Fallible.bind_ok.mp hloop
      obtain ⟨values, hvalues, -⟩ := pushPositional_inv hpush
      obtain ⟨p₃, hp₃, -, -, hget₃⟩ := foldlM_items hordinary fun _ =>
        ⟨hvalues, fun s' hs' => hpos ▸ hslots s' hs'⟩
      rw [hp₃] at hloop
      cases hloop
      have hne : baresOf (Item.bare c.taskId :: a.after) ≠ [] := List.cons_ne_nil _ _
      rw [hpos, hget₃, if_pos ⟨rfl, hne⟩] at hstored
      cases hstored
    · rw [get?_foldlM hordinary hloop hpos, written_eq_none hslots, Option.none_or] at hstored
      obtain hnone | htrue := hslot
      · rw [get?_fresh] at hnone
        exact absurd (hnone.symm.trans hstored) (Option.some_ne_none _).symm
      · exact absurd (htrue.symm.trans hstored) (by simp [Segment.value])

/-! ## Flags -/

theorem hasTaskToken_of_mem {tokens : List JsString} {arg : JsString} (harg : arg ∈ tokens)
    (hbare : isOptionToken arg = false) (htask : R.isTask arg = true) :
    R.hasTaskToken tokens = true :=
  List.any_eq_true.mpr ⟨arg, harg, by rw [hbare, htask]; rfl⟩

/-- A flag that the first pass does not know, with the task id behind it, takes the task id if
another token names a task. -/
theorem findTask_greedy {name : JsString} (hname : 61 ∉ name) (hvalued : R.isValuedOption name = true)
    {rest : List JsString} (htask : R.hasTaskToken rest = true) :
    R.findTask ((js "--" ++ name) :: c.taskId :: rest) = R.findFrom 2 rest none := by
  have hconsume : R.canConsume (c.taskId :: rest) = true := by
    rw [Registry.canConsume, c.taskId_bare, htask]
    rfl
  rw [Registry.findTask, findFrom_name hname, hvalued, hconsume]
  rfl

/-- The second pass over a flag and bare tokens before what the first pass found. -/
theorem parseLoop_flag_bares {L : Lookups} {name : JsString} (hname : 61 ∉ name)
    (hboolean : (L.route name).isBoolean = true) {args : List JsString}
    (hbare : ∀ arg ∈ args, isOptionToken arg = false) {t : Nat} (h : 1 + args.length ≤ t)
    (more : List JsString) (p : ParsedArgs) :
    ∃ preTaskArgs, parseLoop L (some t) 0 ((js "--" ++ name) :: (args ++ more)) p =
      parseLoop L (some t) (1 + args.length) more
        { (Segment.flag name).apply L p with preTaskArgs } := by
  have hflag := @parseLoop_segment L (.flag name) ⟨hname, hboolean⟩ t 0
    (.inr (by simp only [Segment.tokens, List.length_singleton]; omega)) (args ++ more) p
  obtain ⟨preTaskArgs, hpre⟩ := parseLoop_bares hbare h more ((Segment.flag name).apply L p)
  exact ⟨preTaskArgs, hflag.trans hpre⟩

/-- No positional names a task beside such a flag: it would be taken for the task. -/
theorem positionals_of_same (h : PositionIndependent c) {name : JsString}
    (hf : Segment.flag name ∈ c.segments) (hvalued : R.isValuedOption name = true) :
    ∀ arg ∈ c.positionals, R.isTask arg = false := by
  have hapart := apart_of_same h
  by_contra hnot
  push Not at hnot
  obtain ⟨arg, harg, htask⟩ := hnot
  obtain ⟨arg, hfind⟩ := Option.isSome_iff_exists.mp (List.find?_isSome.mpr
    ⟨arg, harg, Bool.eq_true_of_not_eq_false htask⟩)
  obtain ⟨htask, before, after, hpositionals, hbefore⟩ := List.find?_eq_some_iff_append.mp hfind
  have hne : c.positionals ≠ [] := by rw [hpositionals]; simp
  have hbares := c.positionals_bare
  rw [hpositionals, List.forall_mem_append, List.forall_mem_cons] at hbares
  obtain ⟨hbare, hbare_arg, hbare_after⟩ := hbares
  obtain ⟨hname, hboolean⟩ := c.wellFormed _ hf
  obtain ⟨p, hp, hid, hget⟩ := parseArgs_plain hapart
  let rest := c.segments.erase (.flag name)
  let a := c.arrange [.flag name] rest (List.perm_cons_erase hf).symm
  let items : List Item := after.map .bare ++ rest.map .segment
  have hargv : a.argv = (js "--" ++ name) :: c.taskId ::
      (before ++ arg :: items.flatMap Item.tokens) := by
    rw [arrange_argv, hpositionals, List.flatMap_append, tokens_bares, tokens_segments]
    simp [Segment.tokens]
  -- the flag takes the task id, and `arg` is the next token that names a task
  have hfound : R.findTask a.argv = some (arg, 2 + before.length) := by
    have htoken : R.hasTaskToken (before ++ arg :: items.flatMap Item.tokens) = true :=
      hasTaskToken_of_mem (by simp) hbare_arg htask
    obtain ⟨first, hfirst⟩ := @findFrom_bares R before hbare
      (fun x hx => by simpa using hbefore x hx) 2 (arg :: items.flatMap Item.tokens) none
    rw [hargv, findTask_greedy hname hvalued htoken, hfirst, findFrom_task hbare_arg htask]
  have hsame := h a c.plain
  rw [hp] at hsame
  obtain ⟨rfl, p', hloop, hget'⟩ := findTask_of_same hfound hid hsame
  -- so the positionals up to it are lost
  obtain ⟨preTaskArgs, hpre⟩ := parseLoop_flag_bares hname hboolean
    (List.forall_mem_cons.mpr ⟨c.taskId_bare, hbare⟩)
    (by rw [List.length_cons]; omega : 1 + (c.taskId :: before).length ≤ 2 + before.length)
    (c.taskId :: items.flatMap Item.tokens) { taskId := some c.taskId }
  have hwf : ∀ item ∈ items, item.WellFormed c.lookups := by
    intro item hitem
    obtain hitem | hitem := List.mem_append.mp hitem
    · obtain ⟨x, hx, rfl⟩ := List.mem_map.mp hitem
      exact hbare_after x hx
    · obtain ⟨s, hs, rfl⟩ := List.mem_map.mp hitem
      exact c.wellFormed s (List.mem_of_mem_erase hs)
  have hindex : 1 + (c.taskId :: before).length = 2 + before.length := by
    rw [List.length_cons]
    omega
  rw [hargv] at hloop
  have hloop := hpre.symm.trans hloop
  rw [hindex, parseLoop_cons, if_pos rfl, parseLoop_items hwf (Nat.lt_succ_self _)] at hloop
  have hslots : ∀ s ∈ segmentsOf items, s.slot c.lookups ≠ positionalSlot := fun s hs =>
    hapart hne s (List.mem_of_mem_erase (by simpa [items] using hs))
  have hordinary : ∀ s ∈ segmentsOf items, (s.slot c.lookups).name ≠ proto := fun s hs =>
    c.ordinary s (List.mem_of_mem_erase (by simpa [items] using hs))
  have hfresh : ({ (Segment.flag name).apply c.lookups { taskId := some c.taskId } with
      preTaskArgs } : ParsedArgs).get? positionalSlot = none := by
    have hget := ParsedArgs.get?_store (c.ordinary _ hf) (.boolean true) positionalSlot
      (p := { taskId := some c.taskId })
    rw [if_neg (Ne.symm (hapart hne _ hf)), get?_fresh] at hget
    exact hget
  have hpositional : positionalsOf { (Segment.flag name).apply c.lookups
      { taskId := some c.taskId } with preTaskArgs } = some [] := by
    change InsertionMap.get? _ (js "_positional") = none at hfresh
    rw [positionalsOf, hfresh]
  obtain ⟨p₁, hp₁, -, -, hget₁⟩ := foldlM_items hordinary fun _ => ⟨hpositional, hslots⟩
  rw [hp₁] at hloop
  cases hloop
  have hbares : baresOf items = after := by simp [items]
  have hstored := (hget' positionalSlot).trans (hget positionalSlot)
  have hright : c.stored positionalSlot = some (.array (bareValues c.positionals)) :=
    if_pos ⟨rfl, hne⟩
  rw [hget₁, hright, hbares] at hstored
  by_cases hnil : after = []
  · rw [if_neg fun h => h.2 hnil, written_eq_none hslots, Option.none_or] at hstored
    exact absurd (hfresh.symm.trans hstored) (Option.some_ne_none _).symm
  · rw [if_pos ⟨rfl, hnil⟩, hpositionals] at hstored
    have hlength := congrArg List.length (JsValue.array.inj (Option.some.inj hstored))
    simp only [List.nil_append, bareValues, List.map_append, List.map_cons, List.length_append,
      List.length_map, List.length_cons] at hlength
    omega

/-- No value of an option names a task beside such a flag. -/
theorem values_of_same (h : PositionIndependent c) {name : JsString}
    (hf : Segment.flag name ∈ c.segments) (hvalued : R.isValuedOption name = true)
    {option value : JsString} (hs : Segment.valued option value ∈ c.segments) :
    R.isTask value = false := by
  have hapart := apart_of_same h
  have hpositionals := positionals_of_same h hf hvalued
  by_contra htask
  have htask := Bool.eq_true_of_not_eq_false htask
  have hsafe := (safe_of_same h _ hs).resolve_right (by rw [htask]; exact Bool.noConfusion)
  obtain ⟨hname, hboolean⟩ := c.wellFormed _ hf
  obtain ⟨hoption, hvaluable, hbare⟩ := c.wellFormed _ hs
  obtain ⟨p, hp, hid, hget⟩ := parseArgs_plain hapart
  let rest := (c.segments.erase (.flag name)).erase (.valued option value)
  have hs' : Segment.valued option value ∈ c.segments.erase (.flag name) :=
    (List.mem_erase_of_ne (fun heq => by cases heq)).mpr hs
  have hmem (s : Segment) (hs : s ∈ rest) : s ∈ c.segments :=
    List.mem_of_mem_erase (List.mem_of_mem_erase hs)
  have hperm : ([Segment.flag name] ++ (rest ++ [Segment.valued option value])).Perm c.segments := by
    refine List.Perm.symm ((List.perm_cons_erase hf).trans (List.Perm.cons _ ?_))
    exact (List.perm_cons_erase hs').trans (List.perm_append_singleton _ _).symm
  let a := c.arrange [.flag name] (rest ++ [.valued option value]) hperm
  let middle := rest.flatMap Segment.tokens
  have hargv : a.argv = (js "--" ++ name) :: c.taskId ::
      (c.positionals ++ (middle ++ [js "--" ++ option, value])) := by
    rw [arrange_argv, List.flatMap_append]
    simp [Segment.tokens, middle]
  -- the flag takes the task id, and the last value is the next token that may name the task
  have hfound : R.findTask a.argv = some (value, 2 + c.positionals.length + middle.length + 1) := by
    have htoken (tokens : List JsString) :
        R.hasTaskToken (tokens ++ [js "--" ++ option, value]) = true :=
      hasTaskToken_of_mem (by simp) hbare htask
    obtain ⟨first, hfirst⟩ := findFrom_bares c.positionals_bare hpositionals 2
      (middle ++ [js "--" ++ option, value]) none
    have hgreedy : R.canConsume [js "--" ++ option, value] = false := by
      rw [Registry.canConsume, isOptionToken_dashes]
      rfl
    obtain ⟨first', hfirst'⟩ := findFrom_segments (fun s hs => c.wellFormed s (hmem s hs))
      (fun s hs => safe_of_same h s (hmem s hs)) (htoken []) (fun _ _ _ => hgreedy)
      (2 + c.positionals.length) first
    have hlast : R.canConsume [value] = false := by
      rw [Registry.canConsume, htask, hbare]
      rfl
    have htokens := htoken (c.positionals ++ middle)
    rw [List.append_assoc] at htokens
    rw [hargv, findTask_greedy hname hvalued htokens, hfirst]
    refine hfirst'.trans ?_
    rw [List.nil_append, findFrom_name hoption, hlast, Bool.and_false, if_neg Bool.false_ne_true,
      findFrom_task hbare htask]
  have hsame := h a c.plain
  rw [hp] at hsame
  obtain ⟨rfl, p', hloop, hget'⟩ := findTask_of_same hfound hid hsame
  -- so the option is left without its value
  obtain ⟨preTaskArgs, hpre⟩ := parseLoop_flag_bares hname hboolean
    (List.forall_mem_cons.mpr ⟨c.taskId_bare, c.positionals_bare⟩)
    (by rw [List.length_cons]; omega : 1 + (c.taskId :: c.positionals).length ≤
      2 + c.positionals.length + middle.length + 1)
    (middle ++ [js "--" ++ option, c.taskId]) { taskId := some c.taskId }
  have hindex : 1 + (c.taskId :: c.positionals).length = 2 + c.positionals.length := by
    rw [List.length_cons]
    omega
  have hmiddle := @parseLoop_segments c.lookups rest (fun s hs => c.wellFormed s (hmem s hs))
    (2 + c.positionals.length + middle.length + 1) (2 + c.positionals.length) (Nat.le_succ _)
    [js "--" ++ option, c.taskId]
    { (Segment.flag name).apply c.lookups { taskId := some c.taskId } with preTaskArgs }
  obtain ⟨p₁, hlast, hslot, -⟩ := parseLoop_valueless hoption hvaluable (c.ordinary _ hs)
    (2 + c.positionals.length + middle.length) c.taskId []
    (rest.foldl (Segment.apply c.lookups)
      { (Segment.flag name).apply c.lookups { taskId := some c.taskId } with preTaskArgs })
  rw [hargv] at hloop
  have hloop := hpre.symm.trans hloop
  rw [hindex] at hloop
  have hloop := hlast.symm.trans (hmiddle.symm.trans hloop)
  cases hloop
  have hstored := (hget' _).trans ((hget _).trans (stored_of_mem hapart hs))
  have hne : (Segment.flag name).slot c.lookups ≠ (Segment.valued option c.taskId).slot c.lookups :=
    fun heq => slot_ne_of_erase hf hs' heq.symm
  have hfresh : (rest.foldl (Segment.apply c.lookups)
      { (Segment.flag name).apply c.lookups { taskId := some c.taskId } with
        preTaskArgs }).get? ((Segment.valued option c.taskId).slot c.lookups) = none := by
    obtain ⟨-, -, hfold⟩ := @foldl_apply c.lookups rest (fun s hs => c.ordinary s (hmem s hs))
      { (Segment.flag name).apply c.lookups { taskId := some c.taskId } with preTaskArgs }
    have hget := ParsedArgs.get?_store (c.ordinary _ hf) (.boolean true)
      ((Segment.valued option c.taskId).slot c.lookups) (p := { taskId := some c.taskId })
    rw [if_neg (Ne.symm hne), get?_fresh] at hget
    rw [hfold, written_eq_none, Option.none_or]
    · exact hget
    · intro s hsrest
      have hnodup := ((List.perm_cons_erase hs').map (Segment.slot c.lookups)).nodup_iff.mp
        (c.once.sublist ((List.erase_sublist).map _))
      exact fun heq => (List.nodup_cons.mp hnodup).1 (heq ▸ List.mem_map_of_mem hsrest)
  obtain hnone | htrue := hslot
  · exact absurd ((hnone.trans hfresh).symm.trans hstored) (Option.some_ne_none _).symm
  · exact absurd (htrue.symm.trans hstored) (by simp [Segment.value])

/-- All arrangements of a command are parsed alike if and only if none of its tokens can be
mistaken for another. -/
theorem parseArgs_positions_iff (c : Command R) : PositionIndependent c ↔ Unmistakable c := by
  constructor
  · intro h
    refine ⟨fun s hs hgreedy arg harg => ?_, safe_of_same h, apart_of_same h⟩
    cases s with
    | flag name =>
      obtain hvalue | hpositional := List.mem_append.mp harg
      · obtain ⟨s, hvalued, hbare⟩ := List.mem_filterMap.mp hvalue
        cases s with
        | valued option value =>
          cases hbare
          exact values_of_same h hs hgreedy hvalued
        | _ => cases hbare
      · exact positionals_of_same h hs hgreedy arg hpositional
    | _ => cases hgreedy
  · intro h a b
    obtain ⟨p, hp, htask, -, hget⟩ := parseArgs_arrangement h a
    obtain ⟨p', hp', htask', -, hget'⟩ := parseArgs_arrangement h b
    rw [hp, hp']
    exact sameParse_of_slots (htask.trans htask'.symm) fun slot => (hget slot).trans (hget' slot).symm

/-- The tasks `deploy`, with one of its flags, and `test`. -/
def twoTasks : Registry where
  globals := buildGlobalArgumentLookup []
  getTaskDefinition id := List.lookup id
    [(js "deploy", { id := js "deploy", flags := [⟨js "skipConfirm"⟩] }),
      (js "test", { id := js "test" })]

/-- `deploy --skip-confirm --network test`. -/
def deployToTest : Command twoTasks where
  taskId := js "deploy"
  registered := by decide +kernel
  taskId_bare := by decide +kernel
  segments := [.flag (js "skip-confirm"), .valued (js "network") (js "test")]
  wellFormed := by
    intro s hs
    obtain rfl | hs := List.mem_cons.mp hs
    · exact ⟨by decide +kernel, by decide +kernel⟩
    · obtain rfl := List.mem_singleton.mp hs
      exact ⟨by decide +kernel, by decide +kernel, by decide +kernel⟩
  ordinary := by decide +kernel
  once := by decide +kernel
  positionals := []
  positionals_bare := fun arg harg => (nomatch harg)

/-- `--skip-confirm deploy --network test` runs `test`, `deploy --skip-confirm --network test` runs
`deploy`. -/
theorem parseArgs_position_dependent : ¬∀ (R : Registry) (c : Command R), PositionIndependent c := by
  intro h
  let a : Arrangement deployToTest :=
    { before := [.flag (js "skip-confirm")]
      after := [.segment (.valued (js "network") (js "test"))]
      perm := List.Perm.refl _
      positionals := rfl }
  have ha : (twoTasks.parseArgs a.argv).toOption.bind ParsedArgs.taskId = some (js "test") := by
    decide +kernel
  have hb : (twoTasks.parseArgs deployToTest.plain.argv).toOption.bind ParsedArgs.taskId =
      some (js "deploy") := by decide +kernel
  have hne : js "test" ≠ js "deploy" := by decide +kernel
  have hsame := h twoTasks deployToTest a deployToTest.plain
  cases hpa : twoTasks.parseArgs a.argv with
  | error e =>
    rw [hpa] at ha
    cases ha
  | ok p =>
    cases hpb : twoTasks.parseArgs deployToTest.plain.argv with
    | error e =>
      rw [hpb] at hb
      cases hb
    | ok p' =>
      rw [hpa] at ha hsame
      rw [hpb] at hb hsame
      exact hne (Option.some.inj (ha.symm.trans (hsame.1.trans hb)))

end Lionden.Cli
