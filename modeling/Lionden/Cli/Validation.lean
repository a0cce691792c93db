import Lionden.Cli.Segments
import Lionden.Core.Bindings
import Lionden.Core.RunSuper

/-!
# What the validator and the runner do with bare arguments (`task-dispatch.ts`, `task-runner.ts`)

* `validateParsedArgs`: the checks of a parsed command before the task runs.
* `runnerBindings`: what the task runner binds of the same command.
* `validateParsedArgs_agrees_iff`: when the two agree on the bare values.
-/

namespace Lionden.Cli

open Lionden.Core

/-! ## The validator -/

inductive Rejection where
  | unknownTask (taskId : JsString)
  | unexpectedBefore (arg taskId : JsString)
  | unexpected (arg taskId : JsString)
  | unknownArgument (key : JsString) (taskId : Option JsString)

def Rejection.message : Rejection → JsString
  | unknownTask taskId =>
    js "Unknown task: \"" ++ taskId ++ js "\". Run 'lionden --help' to see available tasks."
  | unexpectedBefore arg taskId =>
    js "Unexpected argument \"" ++ arg ++ js "\" before task \"" ++ taskId ++ js "\""
  | unexpected arg taskId =>
    js "Unexpected argument \"" ++ arg ++ js "\" for task \"" ++ taskId ++ js "\""
  | unknownArgument key none => js "Unknown argument \"" ++ argumentFlagName key ++ js "\""
  | unknownArgument key (some taskId) =>
    js "Unknown argument \"" ++ argumentFlagName key ++ js "\" for task \"" ++ taskId ++ js "\""

/-- One of the two errors about an unexpected argument. -/
def Rejection.IsUnexpected : Rejection → Prop
  | unexpectedBefore .. | unexpected .. => True
  | _ => False

/-- The bare values after the task. -/
def bareOf (parsed : ParsedArgs) : List (Option JsValue) :=
  elements (read parsed.taskArgs (js "_positional"))

/-- A bare value in a message; all of them are strings. -/
def bareText : Option JsValue → JsString
  | some (.string s) => s
  | _ => []

def validateNoTaskArgs (parsed : ParsedArgs) : Except Rejection Unit :=
  match parsed.taskArgs.keys.find? (· ≠ js "_positional") with
  | some key => .error (.unknownArgument key none)
  | none => .ok ()

/-- The positional parameters that no spelling supplies. -/
def unsupplied (taskDefinition : TaskDefinition) (parsed : ParsedArgs) :
    List TaskPositionalArgument :=
  taskDefinition.positionalArguments.filter fun definition =>
    !(getPublicArgumentNames definition.name).any fun publicName => has parsed.taskArgs publicName

def lastVariadic (taskDefinition : TaskDefinition) : Bool :=
  taskDefinition.positionalArguments.getLast?.any TaskPositionalArgument.variadic

/-- `namedPositionalCount` is what the unsupplied parameters leave. -/
def bareSlots (taskDefinition : TaskDefinition) (parsed : ParsedArgs) : Nat :=
  (unsupplied taskDefinition parsed).length

def validateParsedArgs (getTaskDefinition : JsString → Option TaskDefinition)
    (parsed : ParsedArgs) : Except Rejection Unit :=
  match parsed.taskId with
  | none | some [] => validateNoTaskArgs parsed
  | some taskId =>
    match getTaskDefinition taskId, parsed.preTaskArgs with
    | none, _ => .error (.unknownTask taskId)
    | some _, arg :: _ => .error (.unexpectedBefore arg taskId)
    | some taskDefinition, [] =>
      let positionalValues := (bareOf parsed).map bareText
      let bareSlots := bareSlots taskDefinition parsed
      if 0 < positionalValues.length ∧ ¬ lastVariadic taskDefinition ∧
          bareSlots < positionalValues.length then
        .error (.unexpected
          ((positionalValues[bareSlots]?.or positionalValues.head?).getD (js "undefined")) taskId)
      else
        match parsed.taskArgs.keys.find? fun key => decide (key ≠ js "_positional") &&
            ((buildTaskArgumentLookup taskDefinition).get? key).isNone with
        | some key => .error (.unknownArgument key (some taskId))
        | none => .ok ()

/-! ## The runner -/

/-- What `applyPositionalArguments` works on. -/
def mergedArgs (taskDefinition : TaskDefinition) (parsed : ParsedArgs) : Args :=
  mergeDefaults taskDefinition (normalizeArgs taskDefinition parsed.taskArgs)

/-- What the runner binds of the bare values. -/
def runnerBindings (taskDefinition : TaskDefinition) (parsed : ParsedArgs) : List Binding :=
  let merged := mergedArgs taskDefinition parsed
  bindings (elements (read merged (js "_positional"))) taskDefinition.positionalArguments 0 merged

/-- The parameters for which the runner finds no value by name. -/
def runnerFree (taskDefinition : TaskDefinition) (parsed : ParsedArgs) :
    List TaskPositionalArgument :=
  free (has (mergedArgs taskDefinition parsed)) taskDefinition.positionalArguments

/-- Some bare token is bound to nothing: one before the task, or one that no parameter takes. -/
def SomeUnbound (taskDefinition : TaskDefinition) (parsed : ParsedArgs) : Prop :=
  parsed.preTaskArgs ≠ [] ∨
    ∃ i < (bareOf parsed).length, i ∉ (runnerBindings taskDefinition parsed).flatMap Prod.snd

/-- Every bare value is bound, once, and the parameters take them in order. -/
structure BoundInOrder (taskDefinition : TaskDefinition) (parsed : ParsedArgs) : Prop where
  pre : parsed.preTaskArgs = []
  parameters : ((runnerBindings taskDefinition parsed).map Prod.fst).Sublist
    taskDefinition.positionalArguments
  names : ((runnerBindings taskDefinition parsed).map (·.1.name)).Nodup
  once : ((runnerBindings taskDefinition parsed).flatMap Prod.snd).Nodup
  all : List.range (bareOf parsed).length <+:
    (runnerBindings taskDefinition parsed).flatMap Prod.snd

/-! ## What a parsed command holds -/

/-- A value that is there, like its elements. -/
def Plain (v : JsValue) : Prop := isUndefined v = false ∧ AllDefined (elements v)

def PlainArgs (args : Args) : Prop := ∀ k v, args.get? k = some v → Plain v

theorem plain_string (s : JsString) : Plain (.string s) := ⟨rfl, fun _ h => nomatch h⟩

theorem plain_boolean (b : Bool) : Plain (.boolean b) := ⟨rfl, fun _ h => nomatch h⟩

theorem PlainArgs.set {args : Args} (h : PlainArgs args) (k : JsString) {v : JsValue}
    (hv : Plain v) : PlainArgs (args.set k v) := by
  intro k' v' hget
  rw [InsertionMap.get?_set] at hget
  split at hget
  · cases hget
    exact hv
  · exact h k' v' hget

theorem PlainArgs.store {p : ParsedArgs} (h : PlainArgs p.taskArgs) (slot : Slot) {v : JsValue}
    (hv : Plain v) : PlainArgs (p.store slot v).taskArgs := by
  unfold ParsedArgs.store
  split
  · exact h
  · unfold assign
    split
    · exact h
    · exact h.set slot.name hv

theorem PlainArgs.parseOption {p : ParsedArgs} (h : PlainArgs p.taskArgs) (route : Route)
    (inlineValue next : Option JsString) :
    PlainArgs (parseOption route inlineValue next p).1.taskArgs := by
  unfold Cli.parseOption
  split
  · exact h.store _ (plain_boolean _)
  · split
    · exact h.store _ (plain_string _)
    · exact h.store _ (plain_string _)
    · split
      · exact h.store _ (plain_boolean _)
      · exact h

theorem PlainArgs.pushPositional {p p' : ParsedArgs} (h : PlainArgs p.taskArgs) {arg : JsString}
    (hpush : pushPositional p arg = .ok p') : PlainArgs p'.taskArgs := by
  have hnew : AllDefined [some (.string arg)] := by
    intro v hv
    obtain rfl := List.mem_singleton.mp hv
    rfl
  unfold Cli.pushPositional at hpush
  split at hpush
  · cases hpush
    exact h.set _ ⟨rfl, hnew⟩
  · next values hvalues =>
    cases hpush
    refine h.set _ ⟨rfl, fun v hv => ?_⟩
    rcases List.mem_append.mp hv with hv | hv
    · exact (h _ _ hvalues).2 v hv
    · exact hnew v hv
  · cases hpush

theorem PlainArgs.parseBare {taskIndex : Option Nat} {i : Nat} {arg : JsString}
    {p p' : ParsedArgs} (h : PlainArgs p.taskArgs) (hbare : parseBare taskIndex i arg p = .ok p') :
    PlainArgs p'.taskArgs := by
  unfold Cli.parseBare at hbare
  split at hbare
  · cases hbare
    exact h
  · split at hbare
    · exact h.pushPositional hbare
    · cases hbare
      exact h

theorem plainArgs_parseArgs {R : Registry} {argv : List JsString} {parsed : ParsedArgs}
    (h : R.parseArgs argv = .ok parsed) : PlainArgs parsed.taskArgs :=
  parseLoop_invariant (I := fun p => PlainArgs p.taskArgs)
    (fun route inlineValue next _ hp => hp.parseOption route inlineValue next)
    (fun _ _ _ _ hp hbare => hp.parseBare hbare) (fun _ _ hget => by simp at hget) h

/-! ## What the runner binds of it -/

variable {taskDefinition : TaskDefinition} {parsed : ParsedArgs}

theorem coerce_defined {type : Option CanonicalType} {v : JsValue} (h : isUndefined v = false) :
    isUndefined (coerce type v) = false := by
  unfold coerce
  split
  · split
    · exact h
    · rfl
  · exact h

theorem defined_mergedArgs (h : PlainArgs parsed.taskArgs) :
    Defined (mergedArgs taskDefinition parsed) := by
  have hassign (es : List (JsString × JsValue)) (hes : ∀ e ∈ es, isUndefined e.2 = false)
      (m : Args) (hm : Defined m) : Defined (es.foldl (fun m e => assign m e.1 e.2) m) := by
    induction es generalizing m with
    | nil => exact hm
    | cons e es ih =>
      exact ih (fun e' he' => hes e' (List.mem_cons_of_mem e he')) _
        (hm.assign e.1 (hes e List.mem_cons_self))
  have hoptions (opts : List TaskOption) (m : Args) (hm : Defined m) :
      Defined (opts.foldl mergeOption m) := by
    induction opts generalizing m with
    | nil => exact hm
    | cons opt opts ih =>
      refine ih _ ?_
      unfold mergeOption
      split
      · next hmerge => exact hm.assign opt.name (by simpa using (Bool.and_eq_true_iff.mp hmerge).2)
      · exact hm
  have hflags (flags : List TaskFlag) (m : Args) (hm : Defined m) :
      Defined (flags.foldl mergeFlag m) := by
    induction flags generalizing m with
    | nil => exact hm
    | cons flag flags ih =>
      refine ih _ ?_
      unfold mergeFlag
      split
      · exact hm.assign flag.name rfl
      · exact hm
  refine hflags _ _ (hoptions _ _ (hassign _ (fun e he => ?_) _ fun _ _ hget => by simp at hget))
  obtain ⟨⟨k, v⟩, hmem, rfl⟩ := List.mem_map.mp he
  rw [normalizeEntry_eq]
  exact coerce_defined (h k v (InsertionMap.get?_eq_some_iff.mpr hmem)).1

/-- The validator and the runner look at the same bare values, if there are any. -/
theorem elements_mergedArgs (h : bareOf parsed ≠ []) :
    elements (read (mergedArgs taskDefinition parsed) (js "_positional")) = bareOf parsed := by
  rw [mergedArgs, elements_positional, Core.bareValues]
  unfold bareOf Core.read at h ⊢
  cases hget : parsed.taskArgs.get? (js "_positional") with
  | some v => rfl
  | none =>
    rw [hget] at h
    exact absurd (by decide +kernel) h

theorem allDefined_bareOf (h : PlainArgs parsed.taskArgs) : AllDefined (bareOf parsed) := by
  unfold bareOf Core.read
  cases hget : parsed.taskArgs.get? (js "_positional") with
  | some v => exact (h _ v hget).2
  | none =>
    have hnone : elements (if js "_positional" = proto then .object [] none
        else inherited (js "_positional")) = [] := by decide +kernel
    simp only
    rw [hnone]
    exact fun _ hv => nomatch hv

/-- The runner takes as many bare values as there are parameters for. -/
theorem runnerBindings_indices (h : PlainArgs parsed.taskArgs) (hbare : bareOf parsed ≠ []) :
    (runnerBindings taskDefinition parsed).flatMap Prod.snd =
      List.range (absorbed (runnerFree taskDefinition parsed) (bareOf parsed).length) := by
  have hvalues := allDefined_bareOf h
  rw [runnerBindings, elements_mergedArgs hbare,
    bindings_indices hvalues (defined_mergedArgs h), Nat.sub_zero, List.range_eq_range', runnerFree]

/-! ## Agreement -/

variable {R : Registry} {argv : List JsString} {taskId : JsString}

/-- The validator rejects a bare token. -/
def Rejects (R : Registry) (parsed : ParsedArgs) : Prop :=
  ∃ e, validateParsedArgs R.getTaskDefinition parsed = .error e ∧ e.IsUnexpected

/-- The validator rejects a bare token exactly if the runner would leave one unbound, and what it
accepts is bound in order. -/
def Agrees (R : Registry) (taskDefinition : TaskDefinition) (parsed : ParsedArgs) : Prop :=
  (Rejects R parsed ↔ SomeUnbound taskDefinition parsed) ∧
    (validateParsedArgs R.getTaskDefinition parsed = .ok () → BoundInOrder taskDefinition parsed)

/-- Both have parameters enough for the bare values after the task, or a parameter for all of them,
or neither has. -/
def Accord (taskDefinition : TaskDefinition) (parsed : ParsedArgs) : Prop :=
  parsed.preTaskArgs ≠ [] ∨ bareOf parsed = [] ∨
    ((bareOf parsed).length ≤ bareSlots taskDefinition parsed ∨ lastVariadic taskDefinition = true ↔
      (bareOf parsed).length ≤ (runnerFree taskDefinition parsed).length ∨
        ∃ p ∈ runnerFree taskDefinition parsed, p.variadic = true)

theorem validateParsedArgs_task (htask : parsed.taskId = some taskId) (hne : taskId ≠ [])
    (hdef : R.getTaskDefinition taskId = some taskDefinition) :
    (Rejects R parsed ↔ parsed.preTaskArgs ≠ [] ∨
        ¬ ((bareOf parsed).length ≤ bareSlots taskDefinition parsed ∨
          lastVariadic taskDefinition = true)) ∧
      (validateParsedArgs R.getTaskDefinition parsed = .ok () → ¬ Rejects R parsed) := by
  refine ⟨?_, fun hok hrejects => ?_⟩
  swap
  · obtain ⟨e, herror, -⟩ := hrejects
    rw [hok] at herror
    cases herror
  unfold Rejects validateParsedArgs
  obtain ⟨ch, taskId, rfl⟩ := List.exists_cons_of_ne_nil hne
  simp only [htask, hdef]
  cases hpre : parsed.preTaskArgs with
  | cons arg args => simp [Rejection.IsUnexpected]
  | nil =>
    simp only [List.length_map, ne_eq, not_true_eq_false, false_or]
    split
    · next h =>
      exact iff_of_true ⟨_, rfl, trivial⟩ (not_or.mpr ⟨Nat.not_le.mpr h.2.2, h.2.1⟩)
    · next h =>
      refine iff_of_false ?_ ?_
      · rintro ⟨e, herror, hunexpected⟩
        split at herror
        · cases herror
          exact hunexpected
        · cases herror
      · intro hmany
        obtain ⟨hlt, hlast⟩ := not_or.mp hmany
        exact h ⟨by omega, hlast, Nat.not_le.mp hlt⟩

theorem someUnbound_iff (hplain : PlainArgs parsed.taskArgs) :
    SomeUnbound taskDefinition parsed ↔ parsed.preTaskArgs ≠ [] ∨ bareOf parsed ≠ [] ∧
      ¬ ((bareOf parsed).length ≤ (runnerFree taskDefinition parsed).length ∨
        ∃ p ∈ runnerFree taskDefinition parsed, p.variadic = true) := by
  refine or_congr_right ?_
  by_cases hbare : bareOf parsed = []
  · simp [hbare]
  · have hle := absorbed_le (runnerFree taskDefinition parsed) (bareOf parsed).length
    rw [runnerBindings_indices hplain hbare, ← absorbed_eq_iff]
    simp only [List.mem_range, ne_eq, hbare, not_false_eq_true, true_and]
    constructor
    · rintro ⟨i, hi, hnot⟩ heq
      exact hnot (heq.symm ▸ hi)
    · intro hne
      exact ⟨_, lt_of_le_of_ne hle hne, lt_irrefl _⟩

theorem boundInOrder_of_not_someUnbound (hplain : PlainArgs parsed.taskArgs)
    (h : ¬ SomeUnbound taskDefinition parsed) : BoundInOrder taskDefinition parsed := by
  rw [someUnbound_iff hplain] at h
  obtain ⟨hpre, henough⟩ := not_or.mp h
  have hsublist := bindings_sublist (elements (read (mergedArgs taskDefinition parsed)
    (js "_positional"))) taskDefinition.positionalArguments 0 (mergedArgs taskDefinition parsed)
  obtain ⟨k, hk⟩ := bindings_indices_prefix (elements (read (mergedArgs taskDefinition parsed)
    (js "_positional"))) taskDefinition.positionalArguments 0 (mergedArgs taskDefinition parsed)
  refine ⟨not_not.mp hpre, hsublist.trans (free_sublist _ _), ?_, ?_, ?_⟩
  · have hnames := hsublist.map TaskPositionalArgument.name
    rw [List.map_map] at hnames
    exact hnames.nodup (free_nodup _ _)
  · rw [runnerBindings, hk]
    exact List.nodup_range'
  · by_cases hbare : bareOf parsed = []
    · rw [hbare]
      exact List.nil_prefix
    · have hall := absorbed_eq_iff.mpr (not_not.mp fun hnot => henough ⟨hbare, hnot⟩)
      rw [runnerBindings_indices hplain hbare, hall]

theorem agrees_iff (hplain : PlainArgs parsed.taskArgs) (htask : parsed.taskId = some taskId)
    (hne : taskId ≠ []) (hdef : R.getTaskDefinition taskId = some taskDefinition) :
    Agrees R taskDefinition parsed ↔ Accord taskDefinition parsed := by
  obtain ⟨hrejects, hok⟩ := validateParsedArgs_task htask hne hdef
  have hfirst : Agrees R taskDefinition parsed ↔
      (Rejects R parsed ↔ SomeUnbound taskDefinition parsed) := by
    refine ⟨And.left, fun h => ⟨h, fun haccepts => ?_⟩⟩
    exact boundInOrder_of_not_someUnbound hplain fun hsome => hok haccepts (h.mpr hsome)
  rw [hfirst, hrejects, someUnbound_iff hplain, Accord]
  by_cases hpre : parsed.preTaskArgs = []
  · by_cases hbare : bareOf parsed = []
    · simp [hpre, hbare]
    · simp only [hpre, hbare, ne_eq, not_true_eq_false, false_or, not_false_eq_true, true_and]
      exact not_iff_not
  · simp [hpre]

/-! ## Definitions of the builder -/

theorem isInherited_of_kebab {name : JsString} (h : isInherited (camelToKebab name) = true) :
    camelToKebab name = name := by
  refine eq_of_camelToKebab ?_
  have hnames : ∀ n ∈ proto :: objectPrototype, 45 ∉ n := by decide +kernel
  refine hnames _ ?_
  simpa [isInherited, or_comm] using h

/-- Where no spelling is shared, the validator and the runner see the same parameters as given. -/
theorem runnerFree_of_built (h : Built taskDefinition) (parsed : ParsedArgs) :
    runnerFree taskDefinition parsed = unsupplied taskDefinition parsed := by
  have hnodup : (taskDefinition.positionalArguments.map TaskPositionalArgument.name).Nodup :=
    (List.nodup_append.mp h.declared_nodup).2.1
  rw [runnerFree, free_eq_filter hnodup, mergedArgs, has_mergeDefaults, unsupplied]
  refine List.filter_congr fun p hp => congrArg not (Bool.eq_iff_iff.mpr ?_)
  rw [supplied, h.fallback_positional hp, Option.isSome_none, Bool.or_false]
  have hmem : p.canonical ∈ arguments taskDefinition :=
    List.mem_append_right _ (List.mem_map_of_mem hp)
  simp only [given, has, Bool.or_eq_true, List.any_eq_true, decide_eq_true_eq]
  constructor
  · rintro (hinherited | ⟨k, hk, hname⟩)
    · exact ⟨p.name, self_mem_publicNames p.name, .inr hinherited⟩
    · obtain ⟨v, hv⟩ := InsertionMap.mem_keys.mp hk
      refine ⟨k, ?_, .inl (by rw [hv]; rfl)⟩
      unfold canonicalName at hname
      split at hname
      · next c hc => exact hname ▸ mem_publicNames_of_canonicalMap hc
      · exact hname ▸ self_mem_publicNames k
  · rintro ⟨k, hk, hsome | hinherited⟩
    · obtain ⟨v, hv⟩ := Option.isSome_iff_exists.mp hsome
      refine .inr ⟨k, InsertionMap.mem_keys.mpr ⟨v, hv⟩, ?_⟩
      rw [canonicalName, h.canonicalMap_of_spelling hmem hk]
      rfl
    · rcases mem_publicNames.mp hk with rfl | rfl
      · exact .inl hinherited
      · exact .inl (isInherited_of_kebab hinherited ▸ hinherited)

theorem accord_iff_of_built (h : Built taskDefinition) (parsed : ParsedArgs) :
    Accord taskDefinition parsed ↔ parsed.preTaskArgs ≠ [] ∨
      (bareOf parsed).length ≤ (unsupplied taskDefinition parsed).length ∨
        (lastVariadic taskDefinition = true ↔
          ∃ p ∈ unsupplied taskDefinition parsed, p.variadic = true) := by
  rw [Accord, runnerFree_of_built h, bareSlots]
  by_cases hle : (bareOf parsed).length ≤ (unsupplied taskDefinition parsed).length
  · simp [hle]
  · have hbare : bareOf parsed ≠ [] := by
      intro hnil
      rw [hnil] at hle
      exact hle (Nat.zero_le _)
    simp [hle, hbare]

/-- For every task definition and every parse that selects it: the validator and the runner agree on
the bare values exactly if they are in accord, for a definition of the builder if there are as many
parameters without a value by name, or the last parameter is variadic exactly if one of these is. -/
theorem validateParsedArgs_agrees_iff (R : Registry) (taskDefinition : TaskDefinition)
    (argv : List JsString) (parsed : ParsedArgs) (taskId : JsString)
    (hparse : R.parseArgs argv = .ok parsed) (htask : parsed.taskId = some taskId)
    (hne : taskId ≠ []) (hdef : R.getTaskDefinition taskId = some taskDefinition) :
    (Agrees R taskDefinition parsed ↔ Accord taskDefinition parsed) ∧
      (Built taskDefinition → (Accord taskDefinition parsed ↔ parsed.preTaskArgs ≠ [] ∨
        (bareOf parsed).length ≤ (unsupplied taskDefinition parsed).length ∨
          (lastVariadic taskDefinition = true ↔
            ∃ p ∈ unsupplied taskDefinition parsed, p.variadic = true))) :=
  ⟨agrees_iff (plainArgs_parseArgs hparse) htask hne hdef, fun hbuilt => accord_iff_of_built hbuilt parsed⟩

/-- The task `test` with the files to test. -/
def testTask : TaskDefinition where
  id := js "test"
  positionalArguments := [{ name := js "files", variadic := true }]

def testRegistry : Registry where
  globals := buildGlobalArgumentLookup []
  getTaskDefinition id := List.lookup id [(js "test", testTask)]

/-- `test a b`. -/
def bareFiles : ParsedArgs where
  taskId := some (js "test")
  taskArgs := bareArgs [js "a", js "b"]

/-- `test --files a b`. -/
def namedFiles : ParsedArgs where
  taskId := some (js "test")
  taskArgs := (InsertionMap.empty.set (js "files") (.string (js "a"))).set (js "_positional")
    (.array [some (.string (js "b"))])

theorem validateParsedArgs_agrees_bare : Agrees testRegistry testTask bareFiles := by
  have hparse : testRegistry.parseArgs [js "test", js "a", js "b"] = .ok bareFiles := by rfl
  refine (validateParsedArgs_agrees_iff testRegistry testTask _ bareFiles (js "test") hparse rfl
    (by decide +kernel) rfl).1.mpr (.inr (.inr ?_))
  decide +kernel

/-- Where the files are given by name, the validator accepts a bare value that nothing takes. -/
theorem validateParsedArgs_drops : ¬ ∀ (R : Registry) (taskDefinition : TaskDefinition)
    (argv : List JsString) (parsed : ParsedArgs) (taskId : JsString),
    R.parseArgs argv = .ok parsed → parsed.taskId = some taskId →
      R.getTaskDefinition taskId = some taskDefinition → Agrees R taskDefinition parsed := by
  intro h
  have hparse : testRegistry.parseArgs [js "test", js "--files", js "a", js "b"] =
      .ok namedFiles := by rfl
  have hagrees := h testRegistry testTask _ namedFiles (js "test") hparse rfl rfl
  rcases (agrees_iff (plainArgs_parseArgs hparse) rfl (by decide +kernel) rfl).mp hagrees with
    hpre | hbare | haccord
  · exact hpre rfl
  · exact absurd hbare (by decide +kernel)
  · exact absurd haccord (by decide +kernel)

end Lionden.Cli
