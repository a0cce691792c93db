import Lionden.Core.ArgNames
import Lionden.Js.Value
import Lionden.Lib.Fallible
import Lionden.Lib.InsertionMap

/-!
# Task definitions (`types.ts`, `task-builder.ts`)

What a task declares: options, flags and positional arguments (the action and the descriptions
apart).

* `TaskBuilder.addOption`, `addFlag`, `addPositionalArgument`: the builder, which refuses a name
  that shares a spelling with one that was added before.
* `Built`: the definitions that the builder builds.
* `Built.spellings_nodup`: no spelling in them names two arguments.
-/

namespace Lionden.Core

inductive OptionType where
  | string
  | number
  deriving DecidableEq

structure TaskOption where
  name : JsString
  type : OptionType
  defaultValue : JsValue := .undefined
  required : Bool := false

structure TaskFlag where
  name : JsString

structure TaskPositionalArgument where
  name : JsString
  required : Bool := false
  variadic : Bool := false

structure TaskDefinition where
  id : JsString
  options : List TaskOption := []
  flags : List TaskFlag := []
  positionalArguments : List TaskPositionalArgument := []

namespace TaskDefinition

/-- The names of all the arguments. -/
def declared (definition : TaskDefinition) : List JsString :=
  definition.options.map TaskOption.name ++ definition.flags.map TaskFlag.name ++
    definition.positionalArguments.map TaskPositionalArgument.name

/-- The spellings of all the arguments. -/
def spellings (definition : TaskDefinition) : List JsString :=
  definition.declared.flatMap getPublicArgumentNames

end TaskDefinition

inductive ArgumentKind where
  | option
  | flag
  | positional

def ArgumentKind.text : ArgumentKind → JsString
  | option => js "option"
  | flag => js "flag"
  | positional => js "positional argument"

/-- A builder: the definition so far, and `_argumentNames`. -/
structure TaskBuilder where
  definition : TaskDefinition
  argumentNames : InsertionMap JsString (ArgumentKind × JsString)

namespace TaskBuilder

def registerArgumentName (b : TaskBuilder) (kind : ArgumentKind) (name : JsString) :
    Except JsString (InsertionMap JsString (ArgumentKind × JsString)) :=
  match (getPublicArgumentNames name).findSome? b.argumentNames.get? with
  | some (existingKind, existingName) =>
    .error (js "Task \"" ++ b.definition.id ++ js "\" " ++ kind.text ++ js " \"" ++ name ++
      js "\" conflicts with existing " ++ existingKind.text ++ js " \"" ++ existingName ++ js "\"")
  | none =>
    .ok ((getPublicArgumentNames name).foldl (fun names k => names.set k (kind, name)) b.argumentNames)

def validateReservedBuiltInGlobalName (b : TaskBuilder) (kind : ArgumentKind) (name : JsString) :
    Except JsString Unit :=
  match (getPublicArgumentNames name).find? (· ∈ getReservedBuiltInGlobalArgumentNames) with
  | some publicName =>
    .error (js "Task \"" ++ b.definition.id ++ js "\" " ++ kind.text ++ js " \"" ++ name ++
      js "\" conflicts with built-in global option \"" ++ argumentFlagName publicName ++ js "\"")
  | none => .ok ()

def addOption (b : TaskBuilder) (option : TaskOption) : Except JsString TaskBuilder := do
  b.validateReservedBuiltInGlobalName .option option.name
  let names ← b.registerArgumentName .option option.name
  return ⟨{ b.definition with options := b.definition.options ++ [option] }, names⟩

def addFlag (b : TaskBuilder) (flag : TaskFlag) : Except JsString TaskBuilder := do
  b.validateReservedBuiltInGlobalName .flag flag.name
  let names ← b.registerArgumentName .flag flag.name
  return ⟨{ b.definition with flags := b.definition.flags ++ [flag] }, names⟩

def addPositionalArgument (b : TaskBuilder) (arg : TaskPositionalArgument) :
    Except JsString TaskBuilder := do
  let names ← b.registerArgumentName .positional arg.name
  return ⟨{ b.definition with
    positionalArguments := b.definition.positionalArguments ++ [arg] }, names⟩

end TaskBuilder

/-- `task(id, description)`. -/
def task (id : JsString) : TaskBuilder := ⟨{ id }, .empty⟩

/-- The builders that calls of the builder make. -/
inductive Reached : TaskBuilder → Prop
  | task (id : JsString) : Reached (task id)
  | option {b b' : TaskBuilder} {option : TaskOption} :
    Reached b → b.addOption option = .ok b' → Reached b'
  | flag {b b' : TaskBuilder} {flag : TaskFlag} :
    Reached b → b.addFlag flag = .ok b' → Reached b'
  | positional {b b' : TaskBuilder} {arg : TaskPositionalArgument} :
    Reached b → b.addPositionalArgument arg = .ok b' → Reached b'

/-- The definitions that the builder builds. -/
def Built (definition : TaskDefinition) : Prop := ∃ b, Reached b ∧ b.definition = definition

/-! ## No spelling is shared -/

theorem keys_foldl_set {κ ν : Type} [DecidableEq κ] {ks : List κ} (v : ν) {m : InsertionMap κ ν}
    (hnodup : ks.Nodup) (hnew : ∀ k ∈ ks, k ∉ m.keys) :
    (ks.foldl (fun m k => m.set k v) m).keys = m.keys ++ ks := by
  induction ks generalizing m with
  | nil => exact (List.append_nil _).symm
  | cons k ks ih =>
    obtain ⟨hk, hks⟩ := List.nodup_cons.mp hnodup
    have hset := InsertionMap.keys_set (hnew k List.mem_cons_self) v
    rw [List.foldl_cons, ih hks, hset, List.append_assoc, List.singleton_append]
    intro k' hk' hmem
    rw [hset, List.mem_append, List.mem_singleton] at hmem
    obtain hmem | rfl := hmem
    · exact hnew k' (List.mem_cons_of_mem k hk') hmem
    · exact hk hk'

theorem nodup_publicNames (name : JsString) : (getPublicArgumentNames name).Nodup := by
  unfold getPublicArgumentNames
  split
  · exact List.nodup_singleton name
  · next h => simp [Ne.symm h]

theorem registerArgumentName_ok {b : TaskBuilder} {kind : ArgumentKind} {name : JsString}
    {names : InsertionMap JsString (ArgumentKind × JsString)}
    (h : b.registerArgumentName kind name = .ok names) :
    names.keys = b.argumentNames.keys ++ getPublicArgumentNames name := by
  unfold TaskBuilder.registerArgumentName at h
  split at h
  · cases h
  · next hnone =>
    cases h
    refine keys_foldl_set _ (nodup_publicNames name) fun k hk hmem => ?_
    obtain ⟨v, hv⟩ := InsertionMap.mem_keys.mp hmem
    exact absurd (List.findSome?_eq_none_iff.mp hnone k hk) (hv ▸ Option.some_ne_none v)

/-- The names that are registered are the spellings of the arguments. -/
theorem Reached.keys_perm {b : TaskBuilder} (h : Reached b) :
    b.argumentNames.keys.Perm b.definition.spellings := by
  have hmiddle {xs ys zs : List JsString} (n : JsString) (hperm : xs.Perm ((ys ++ zs).flatMap getPublicArgumentNames)) :
      (xs ++ getPublicArgumentNames n).Perm ((ys ++ [n] ++ zs).flatMap getPublicArgumentNames) := by
    simp only [List.flatMap_append, List.flatMap_singleton, List.append_assoc] at hperm ⊢
    exact (hperm.append_right _).trans
      (by rw [List.append_assoc]; exact List.perm_append_comm.append_left _)
  induction h with
  | task id => exact List.Perm.refl _
  | @option b b' option _ hadd ih =>
    obtain ⟨_, -, hadd⟩ := Fallible.bind_ok.mp hadd
    obtain ⟨names, hnames, hadd⟩ := Fallible.bind_ok.mp hadd
    cases hadd
    rw [registerArgumentName_ok hnames]
    simp only [TaskDefinition.spellings, TaskDefinition.declared, List.map_append, List.map_cons,
      List.map_nil, List.append_assoc] at ih ⊢
    simpa using hmiddle option.name ih
  | @flag b b' flag _ hadd ih =>
    obtain ⟨_, -, hadd⟩ := Fallible.bind_ok.mp hadd
    obtain ⟨names, hnames, hadd⟩ := Fallible.bind_ok.mp hadd
    cases hadd
    rw [registerArgumentName_ok hnames]
    simp only [TaskDefinition.spellings, TaskDefinition.declared, List.map_append, List.map_cons,
      List.map_nil] at ih ⊢
    simpa using hmiddle flag.name ih
  | @positional b b' arg _ hadd ih =>
    obtain ⟨names, hnames, hadd⟩ := Fallible.bind_ok.mp hadd
    cases hadd
    rw [registerArgumentName_ok hnames]
    simp only [TaskDefinition.spellings, TaskDefinition.declared, List.map_append, List.map_cons,
      List.map_nil] at ih ⊢
    rw [← List.append_nil (List.map TaskPositionalArgument.name _), ← List.append_assoc] at ih
    simpa using hmiddle arg.name ih

theorem Built.spellings_nodup {definition : TaskDefinition} (h : Built definition) :
    definition.spellings.Nodup := by
  obtain ⟨b, hb, rfl⟩ := h
  exact hb.keys_perm.nodup_iff.mp b.argumentNames.distinct

end Lionden.Core
