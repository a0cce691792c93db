import Lionden.Core.TaskBuilder

/-!
# Preparing the arguments of a task (`task-runner.ts`)

* `normalizeArgs`, `mergeDefaults`, `enforceRequiredOptions`, `applyPositionalArguments`,
  `prepareArgs`: the steps of the preparation.
* `run`, `buildRunSuper`: a task with the actions that it overrides, each of which gets arguments
  that are prepared again.
* `get?_canonicalMap`: the argument that a spelling names.
* `normalizeEntry_normalizeEntry`: a name that was normalized once stays as it is.
-/

namespace Lionden.Core

/-! ## Argument objects -/

/-- A plain object; its entries as `Object.entries` lists them. -/
abbrev Args := InsertionMap JsString JsValue

def proto : JsString := js "__proto__"

/-- A name that every plain object has. -/
def isInherited (name : JsString) : Bool := decide (name ∈ objectPrototype) || decide (name = proto)

/-- `name in args`. -/
def has (args : Args) (name : JsString) : Bool := (args.get? name).isSome || isInherited name

/-- `args[name]`. -/
def read (args : Args) (name : JsString) : JsValue :=
  match args.get? name with
  | some value => value
  | none => if name = proto then .object [] none else inherited name

/-- `args[name] = value`: under `__proto__` it is no property of its own. -/
def assign (args : Args) (name : JsString) (value : JsValue) : Args :=
  if name = proto then args else args.set name value

@[simp] theorem get?_assign (args : Args) (name k : JsString) (value : JsValue) :
    (assign args name value).get? k =
      if k = name ∧ name ≠ proto then some value else args.get? k := by
  unfold assign
  by_cases h : name = proto
  · simp [h]
  · simp [h]

def isUndefined : JsValue → Bool
  | .undefined => true
  | _ => false

/-- The elements of an array; of another value, none. -/
def elements : JsValue → List (Option JsValue)
  | .array es => es
  | _ => []

/-! ## Spellings -/

inductive CanonicalType where
  | string
  | number
  | boolean
  deriving DecidableEq

def OptionType.canonical : OptionType → CanonicalType
  | string => .string
  | number => .number

/-- An entry of the canonical name lookup. -/
structure Canonical where
  name : JsString
  type : Option CanonicalType
  deriving DecidableEq

def TaskOption.canonical (opt : TaskOption) : Canonical := ⟨opt.name, some opt.type.canonical⟩

def TaskFlag.canonical (flag : TaskFlag) : Canonical := ⟨flag.name, some .boolean⟩

def TaskPositionalArgument.canonical (positional : TaskPositionalArgument) : Canonical :=
  ⟨positional.name, none⟩

def setNames (m : InsertionMap JsString Canonical) (c : Canonical) : InsertionMap JsString Canonical :=
  (getPublicArgumentNames c.name).foldl (fun m publicName => m.set publicName c) m

/-- Only the names that are not claimed. -/
def fillNames (m : InsertionMap JsString Canonical) (c : Canonical) :
    InsertionMap JsString Canonical :=
  (getPublicArgumentNames c.name).foldl
    (fun m publicName => if (m.get? publicName).isSome then m else m.set publicName c) m

def canonicalMap (definition : TaskDefinition) : InsertionMap JsString Canonical :=
  let m := (definition.options.map TaskOption.canonical).foldl setNames .empty
  let m := (definition.flags.map TaskFlag.canonical).foldl setNames m
  (definition.positionalArguments.map TaskPositionalArgument.canonical).foldl fillNames m

/-- A string for a number is converted, unless it is no number. -/
def coerce (type : Option CanonicalType) (value : JsValue) : JsValue :=
  match value, type with
  | .string s, some .number =>
    match Number s with
    | .nan => value
    | num => .number num
  | _, _ => value

/-- An entry of the raw arguments under its canonical name. -/
def normalizeEntry (definition : TaskDefinition) (e : JsString × JsValue) : JsString × JsValue :=
  match (canonicalMap definition).get? e.1 with
  | some canonical => (canonical.name, coerce canonical.type e.2)
  | none => e

def normalizeArgs (definition : TaskDefinition) (args : Args) : Args :=
  (args.entries.map (normalizeEntry definition)).foldl (fun m e => assign m e.1 e.2) .empty

/-! ## Defaults and required arguments -/

def mergeOption (merged : Args) (opt : TaskOption) : Args :=
  if !has merged opt.name && !isUndefined opt.defaultValue then
    assign merged opt.name opt.defaultValue
  else merged

def mergeFlag (merged : Args) (flag : TaskFlag) : Args :=
  if !has merged flag.name then assign merged flag.name (.boolean false) else merged

def mergeDefaults (definition : TaskDefinition) (args : Args) : Args :=
  definition.flags.foldl mergeFlag (definition.options.foldl mergeOption args)

def enforceRequiredOptions (definition : TaskDefinition) (args : Args) : Except JsString Unit :=
  definition.options.forM fun opt =>
    if opt.required && isUndefined (read args opt.name) then
      .error (js "Task \"" ++ definition.id ++ js "\" is missing required option \"" ++
        argumentFlagName opt.name ++ js "\".")
    else .ok ()

/-! ## Positional arguments -/

/-- The value that `def` takes of the bare values from `cursor` on. -/
def bareValue (values : List (Option JsValue)) (cursor : Nat) (p : TaskPositionalArgument) : JsValue :=
  if p.variadic then .array (values.drop cursor) else (values[cursor]?.join).getD .undefined

/-- The loop over the positional definitions. -/
def bindPositionals (id : JsString) (values : List (Option JsValue)) :
    List TaskPositionalArgument → Nat → Args → Except JsString Args
  | [], _, result => .ok result
  | p :: defs, cursor, result =>
    let binds := !has result p.name && decide (cursor < values.length)
    let result := if binds then assign result p.name (bareValue values cursor p) else result
    let cursor := if binds then (if p.variadic then values.length else cursor + 1) else cursor
    if p.required && isUndefined (read result p.name) then
      .error (js "Task \"" ++ id ++ js "\" is missing required positional argument \"" ++ p.name ++
        js "\".")
    else bindPositionals id values defs cursor result

def applyPositionalArguments (definition : TaskDefinition) (args : Args) : Except JsString Args :=
  if definition.positionalArguments.isEmpty then .ok args
  else bindPositionals definition.id (elements (read args (js "_positional")))
    definition.positionalArguments 0 args

def prepareArgs (definition : TaskDefinition) (args : Args) : Except JsString Args := do
  let merged := mergeDefaults definition (normalizeArgs definition args)
  enforceRequiredOptions definition merged
  applyPositionalArguments definition merged

/-! ## Actions -/

variable {α : Type}

/-- An action, with `runSuper` where it overrides another. -/
abbrev TaskAction (α : Type) := Args → Option (Args → Except JsString α) → Except JsString α

/-- `buildRunSuper`, for what is left of the chain: the last action has none. -/
def buildRunSuper (definition : TaskDefinition) :
    List (TaskAction α) → Option (Args → Except JsString α)
  | [] => none
  | action :: chain => some fun args => do
    let preparedArgs ← prepareArgs definition args
    action preparedArgs (buildRunSuper definition chain)

/-- `run` of a registered task: its action and its override chain, most recent first. -/
def run (definition : TaskDefinition) (action : TaskAction α) (overrideChain : List (TaskAction α))
    (args : Args) : Except JsString α := do
  let finalArgs ← prepareArgs definition args
  action finalArgs (buildRunSuper definition overrideChain)

/-! ## What a spelling names -/

theorem get?_setNames (m : InsertionMap JsString Canonical) (c : Canonical) (k : JsString) :
    (setNames m c).get? k = if k ∈ getPublicArgumentNames c.name then some c else m.get? k := by
  unfold setNames
  induction getPublicArgumentNames c.name generalizing m with
  | nil => simp
  | cons name names ih =>
    rw [List.foldl_cons, ih, InsertionMap.get?_set]
    by_cases hk : k = name <;> simp [hk]

theorem get?_fillNames (m : InsertionMap JsString Canonical) (c : Canonical) (k : JsString) :
    (fillNames m c).get? k =
      (m.get? k).or (if k ∈ getPublicArgumentNames c.name then some c else none) := by
  unfold fillNames
  induction getPublicArgumentNames c.name generalizing m with
  | nil => simp
  | cons name names ih =>
    rw [List.foldl_cons, ih]
    by_cases hk : k = name
    · subst hk
      cases h : m.get? k <;> simp [h]
    · split <;> simp [hk]

theorem get?_foldl_setNames (cs : List Canonical) (m : InsertionMap JsString Canonical)
    (k : JsString) :
    (cs.foldl setNames m).get? k =
      (cs.reverse.find? (k ∈ getPublicArgumentNames ·.name)).or (m.get? k) := by
  induction cs generalizing m with
  | nil => rfl
  | cons c cs ih =>
    rw [List.foldl_cons, ih, List.reverse_cons, List.find?_append, Option.or_assoc, get?_setNames]
    congr 1
    by_cases hk : k ∈ getPublicArgumentNames c.name <;> simp [hk]

theorem get?_foldl_fillNames (cs : List Canonical) (m : InsertionMap JsString Canonical)
    (k : JsString) :
    (cs.foldl fillNames m).get? k =
      (m.get? k).or (cs.find? (k ∈ getPublicArgumentNames ·.name)) := by
  induction cs generalizing m with
  | nil => simp
  | cons c cs ih =>
    rw [List.foldl_cons, ih, get?_fillNames, Option.or_assoc, List.find?_cons]
    congr 1
    by_cases hk : k ∈ getPublicArgumentNames c.name <;> simp [hk]

/-- The entries of the options and the flags, the one that counts most first. -/
def claims (definition : TaskDefinition) : List Canonical :=
  (definition.options.map TaskOption.canonical ++ definition.flags.map TaskFlag.canonical).reverse

theorem get?_canonicalMap (definition : TaskDefinition) (k : JsString) :
    (canonicalMap definition).get? k =
      ((claims definition).find? (k ∈ getPublicArgumentNames ·.name)).or
        ((definition.positionalArguments.map TaskPositionalArgument.canonical).find?
          (k ∈ getPublicArgumentNames ·.name)) := by
  rw [canonicalMap, get?_foldl_fillNames, get?_foldl_setNames, get?_foldl_setNames, claims,
    List.reverse_append, List.find?_append, InsertionMap.get?_empty, Option.or_none]

theorem mem_publicNames_of_canonicalMap {definition : TaskDefinition} {k : JsString} {c : Canonical}
    (h : (canonicalMap definition).get? k = some c) : k ∈ getPublicArgumentNames c.name := by
  rw [get?_canonicalMap, Option.or_eq_some_iff] at h
  obtain h | ⟨-, h⟩ := h <;> simpa using List.find?_some h

theorem find?_of_imp {β : Type} {p q : β → Bool} {cs : List β} {c : β} (h : cs.find? p = some c)
    (hq : q c = true) (himp : ∀ c, q c = true → p c = true) : cs.find? q = some c := by
  obtain ⟨-, before, after, rfl, hbefore⟩ := List.find?_eq_some_iff_append.mp h
  refine List.find?_eq_some_iff_append.mpr ⟨hq, before, after, rfl, fun x hx => ?_⟩
  have hx := hbefore x hx
  simp only [Bool.not_eq_true'] at hx ⊢
  exact Bool.eq_false_iff.mpr fun hqx => by simp [himp x hqx] at hx

/-- The canonical name of a spelling names the same argument. -/
theorem canonicalMap_name {definition : TaskDefinition} {k : JsString} {c : Canonical}
    (h : (canonicalMap definition).get? k = some c) :
    (canonicalMap definition).get? c.name = some c := by
  have hk := mem_publicNames_of_canonicalMap h
  obtain rfl | hkebab := mem_publicNames.mp hk
  · exact h
  by_cases hfixed : camelToKebab c.name = c.name
  · rw [← hfixed, ← hkebab]
    exact h
  -- a name with capital letters is a spelling of the arguments of that very name only
  have himp (c' : Canonical) (hc' : decide (c.name ∈ getPublicArgumentNames c'.name) = true) :
      decide (k ∈ getPublicArgumentNames c'.name) = true := by
    rw [eq_of_mem_publicNames (of_decide_eq_true hc') hfixed] at hk
    exact decide_eq_true hk
  have hself : decide (c.name ∈ getPublicArgumentNames c.name) = true :=
    decide_eq_true (self_mem_publicNames c.name)
  rw [get?_canonicalMap, Option.or_eq_some_iff] at h ⊢
  obtain h | ⟨hnone, h⟩ := h
  · exact .inl (find?_of_imp h hself himp)
  · refine .inr ⟨List.find?_eq_none.mpr fun c' hc' hq => ?_, find?_of_imp h hself himp⟩
    exact List.find?_eq_none.mp hnone c' hc' (himp c' hq)

@[simp] theorem elements_coerce (type : Option CanonicalType) (value : JsValue) :
    elements (coerce type value) = elements value := by
  unfold coerce
  split
  · split <;> rfl
  · rfl

theorem coerce_coerce (type : Option CanonicalType) (value : JsValue) :
    coerce type (coerce type value) = coerce type value := by
  by_cases h : ∃ s, value = .string s ∧ type = some .number
  · obtain ⟨s, rfl, rfl⟩ := h
    cases hs : Number s <;> simp [coerce, hs]
  · have hvalue : coerce type value = value := by
      unfold coerce
      split
      · exact absurd ⟨_, rfl, rfl⟩ h
      · rfl
    rw [hvalue, hvalue]

theorem normalizeEntry_normalizeEntry (definition : TaskDefinition) (e : JsString × JsValue) :
    normalizeEntry definition (normalizeEntry definition e) = normalizeEntry definition e := by
  cases h : (canonicalMap definition).get? e.1 with
  | none =>
    have he : normalizeEntry definition e = e := by rw [normalizeEntry, h]
    rw [he, he]
  | some c =>
    have he : normalizeEntry definition e = (c.name, coerce c.type e.2) := by rw [normalizeEntry, h]
    rw [he, normalizeEntry, canonicalMap_name h]
    exact Prod.ext rfl (coerce_coerce c.type e.2)

end Lionden.Core
