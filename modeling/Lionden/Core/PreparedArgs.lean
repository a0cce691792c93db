import Lionden.Core.TaskRunner

/-!
# What preparing arguments does (`task-runner.ts`)

* `Keeps`: a step only adds names that are not there; all but `normalizeArgs` do.
* `Holds`: what is true of every property, if it is of those that a step adds.
* `Steady`: every name is canonical and every value coerced, which `normalizeArgs` reaches and
  leaves as it is.
* `given`: what the raw arguments supply by name; `fallback`, `Defaulted`: what is there by default.
-/

namespace Lionden.Core

/-! ## Steps that only add names -/

theorem isInherited_proto : isInherited proto = true := by simp [isInherited]

theorem ne_proto_of_has {args : Args} {name : JsString} (h : has args name = false) :
    name ≠ proto := by
  rintro rfl
  rw [has, isInherited_proto, Bool.or_true] at h
  cases h

theorem get?_of_has {args : Args} {name : JsString} (h : has args name = false) :
    args.get? name = none := by
  rw [has, Bool.or_eq_false_iff] at h
  simpa using h.1

theorem has_assign_self (args : Args) (name : JsString) (value : JsValue) :
    has (assign args name value) name = true := by
  by_cases h : name = proto
  · rw [h, has, isInherited_proto, Bool.or_true]
  · simp [has, h]

/-- `b` has what `a` has; the names that it adds are names that `a` does not have. -/
def Keeps (a b : Args) : Prop := ∀ k, has a k = true → b.get? k = a.get? k

namespace Keeps

variable {a b c : Args}

theorem refl (a : Args) : Keeps a a := fun _ _ => rfl

theorem has (h : Keeps a b) {k : JsString} (hk : has a k = true) : Core.has b k = true := by
  rw [Core.has, h k hk]
  exact hk

theorem trans (h : Keeps a b) (h' : Keeps b c) : Keeps a c := fun k hk =>
  (h' k (h.has hk)).trans (h k hk)

theorem read (h : Keeps a b) {k : JsString} (hk : Core.has a k = true) :
    read b k = Core.read a k := by
  rw [Core.read, h k hk]
  rfl

theorem assign {name : JsString} (h : Core.has a name = false) (value : JsValue) :
    Keeps a (assign a name value) := by
  intro k hk
  have hne : k ≠ name := fun heq => by rw [heq, h] at hk; cases hk
  simp [hne]

theorem foldl {β : Type} {f : Args → β → Args} (hf : ∀ m x, Keeps m (f m x)) (l : List β)
    (m : Args) : Keeps m (l.foldl f m) := by
  induction l generalizing m with
  | nil => exact refl m
  | cons x l ih => exact (hf m x).trans (ih (f m x))

end Keeps

theorem has_of_read {args : Args} {k : JsString} (h : isUndefined (read args k) = false) :
    has args k = true := by
  cases hget : args.get? k with
  | some v => simp [has, hget]
  | none =>
    simp only [read, hget] at h
    by_cases hproto : k = proto
    · rw [hproto, has, isInherited_proto, Bool.or_true]
    · by_cases hmem : k ∈ objectPrototype
      · simp [has, isInherited, hmem]
      · simp [hproto, inherited, hmem, isUndefined] at h

theorem keeps_mergeOption (m : Args) (opt : TaskOption) : Keeps m (mergeOption m opt) := by
  unfold mergeOption
  split
  · next h =>
    simp only [Bool.and_eq_true, Bool.not_eq_true'] at h
    exact Keeps.assign h.1 opt.defaultValue
  · exact Keeps.refl m

theorem keeps_mergeFlag (m : Args) (flag : TaskFlag) : Keeps m (mergeFlag m flag) := by
  unfold mergeFlag
  split
  · next h => exact Keeps.assign (by simpa using h) _
  · exact Keeps.refl m

theorem keeps_mergeDefaults (definition : TaskDefinition) (args : Args) :
    Keeps args (mergeDefaults definition args) :=
  (Keeps.foldl keeps_mergeOption definition.options args).trans
    (Keeps.foldl keeps_mergeFlag definition.flags _)

/-- One positional argument: what it is bound to, if it is, and whether it is missing. -/
theorem bindPositionals_cons {id : JsString} {values : List (Option JsValue)}
    {p : TaskPositionalArgument} {defs : List TaskPositionalArgument} {cursor : Nat}
    {result bound : Args} (h : bindPositionals id values (p :: defs) cursor result = .ok bound) :
    ∃ result' cursor', bindPositionals id values defs cursor' result' = .ok bound ∧
      (p.required = true → isUndefined (read result' p.name) = false) ∧
      ((has result p.name = false ∧ cursor < values.length ∧
          result' = assign result p.name (bareValue values cursor p) ∧
          cursor' = if p.variadic then values.length else cursor + 1) ∨
        ((has result p.name = true ∨ values.length ≤ cursor) ∧
          result' = result ∧ cursor' = cursor)) := by
  have hstep {result' : Args} {cursor' : Nat}
      (h : (if p.required && isUndefined (read result' p.name) then
          .error (js "Task \"" ++ id ++ js "\" is missing required positional argument \"" ++ p.name ++
            js "\".")
        else bindPositionals id values defs cursor' result') = .ok bound) :
      bindPositionals id values defs cursor' result' = .ok bound ∧
        (p.required = true → isUndefined (read result' p.name) = false) := by
    by_cases hmissing : (p.required && isUndefined (read result' p.name)) = true
    · rw [if_pos hmissing] at h
      cases h
    · rw [if_neg hmissing] at h
      exact ⟨h, fun hp => by simpa [hp] using hmissing⟩
  by_cases hbinds : (!has result p.name && decide (cursor < values.length)) = true
  · obtain ⟨hrest, hreq⟩ := hstep (by simpa only [bindPositionals, hbinds, if_true] using h)
    simp only [Bool.and_eq_true, Bool.not_eq_true', decide_eq_true_eq] at hbinds
    exact ⟨_, _, hrest, hreq, .inl ⟨hbinds.1, hbinds.2, rfl, rfl⟩⟩
  · obtain ⟨hrest, hreq⟩ := hstep (by simpa only [bindPositionals, hbinds, if_false] using h)
    refine ⟨_, _, hrest, hreq, .inr ⟨?_, rfl, rfl⟩⟩
    by_cases hhas : has result p.name = true
    · exact .inl hhas
    · exact .inr (by simpa [hhas] using hbinds)

theorem keeps_bindPositionals {id : JsString} {values : List (Option JsValue)}
    {defs : List TaskPositionalArgument} {cursor : Nat} {result bound : Args}
    (h : bindPositionals id values defs cursor result = .ok bound) : Keeps result bound := by
  induction defs generalizing cursor result with
  | nil =>
    cases h
    exact Keeps.refl _
  | cons p defs ih =>
    obtain ⟨result', cursor', hrest, -, ⟨hnot, -, rfl, -⟩ | ⟨-, rfl, -⟩⟩ := bindPositionals_cons h
    · exact (Keeps.assign hnot _).trans (ih hrest)
    · exact ih hrest

/-! ## Normalized arguments -/

variable {definition : TaskDefinition}

/-- The name that a key of the raw arguments is stored under. -/
def canonicalName (definition : TaskDefinition) (k : JsString) : JsString :=
  match (canonicalMap definition).get? k with
  | some canonical => canonical.name
  | none => k

def canonicalType (definition : TaskDefinition) (k : JsString) : Option CanonicalType :=
  ((canonicalMap definition).get? k).bind Canonical.type

theorem normalizeEntry_eq (definition : TaskDefinition) (k : JsString) (v : JsValue) :
    normalizeEntry definition (k, v) =
      (canonicalName definition k, coerce (canonicalType definition k) v) := by
  unfold normalizeEntry canonicalName canonicalType
  cases (canonicalMap definition).get? k with
  | some c => rfl
  | none => cases v <;> rfl

/-- Every property has `Q`. -/
def Holds (Q : JsString → JsValue → Prop) (args : Args) : Prop :=
  ∀ k v, args.get? k = some v → k ≠ proto ∧ Q k v

theorem Holds.assign {Q : JsString → JsValue → Prop} {args : Args} (h : Holds Q args)
    {name : JsString} {value : JsValue} (hentry : Q name value) :
    Holds Q (assign args name value) := by
  intro k v hget
  rw [get?_assign] at hget
  split at hget
  · next hk =>
    cases hget
    exact ⟨hk.1 ▸ hk.2, hk.1 ▸ hentry⟩
  · exact h k v hget

/-- Every name is canonical and every value coerced. -/
def Steady (definition : TaskDefinition) : Args → Prop :=
  Holds fun k v => normalizeEntry definition (k, v) = (k, v)

theorem steady_normalizeArgs (definition : TaskDefinition) (args : Args) :
    Steady definition (normalizeArgs definition args) := by
  have hfold (es : List (JsString × JsValue)) (m : Args) (hm : Steady definition m) :
      Steady definition
        ((es.map (normalizeEntry definition)).foldl (fun m e => Core.assign m e.1 e.2) m) := by
    induction es generalizing m with
    | nil => exact hm
    | cons e es ih => exact ih _ (Holds.assign hm (normalizeEntry_normalizeEntry definition e))
  exact hfold args.entries .empty fun k v h => by simp at h

theorem normalizeArgs_eq_ofList (definition : TaskDefinition) (args : Args) :
    normalizeArgs definition args =
      .ofList ((args.entries.map (normalizeEntry definition)).filter (·.1 ≠ proto)) := by
  rw [normalizeArgs, InsertionMap.ofList, List.foldl_filter]
  refine List.foldl_ext _ _ _ fun m e _ => ?_
  by_cases h : e.1 = proto <;> simp [assign, h]

theorem normalizeArgs_of_steady {args : Args} (h : Steady definition args) :
    normalizeArgs definition args = args := by
  have hmem (e : JsString × JsValue) (he : e ∈ args.entries) :=
    h e.1 e.2 (InsertionMap.get?_eq_some_iff.mpr he)
  have hmap : args.entries.map (normalizeEntry definition) = args.entries :=
    (List.map_congr_left fun e he => (hmem e he).2).trans (List.map_id' _)
  have hfilter : args.entries.filter (·.1 ≠ proto) = args.entries :=
    List.filter_eq_self.mpr fun e he => decide_eq_true (hmem e he).1
  rw [normalizeArgs_eq_ofList, hmap, hfilter, InsertionMap.ofList_entries]

/-- What a name that only it is read as holds afterwards. -/
theorem get?_normalizeArgs {args : Args} {k : JsString} (hproto : k ≠ proto)
    (h : ∀ k' ∈ args.keys, canonicalName definition k' = k ↔ k' = k) :
    (normalizeArgs definition args).get? k =
      (args.get? k).map (coerce (canonicalType definition k)) := by
  have hmem (v' : JsValue) (hv' : (normalizeArgs definition args).get? k = some v') :
      ∃ v, args.get? k = some v ∧ coerce (canonicalType definition k) v = v' := by
    rw [normalizeArgs_eq_ofList] at hv'
    obtain ⟨hmem, -⟩ := List.mem_filter.mp (InsertionMap.mem_of_get?_ofList hv')
    obtain ⟨e, he, heq⟩ := List.mem_map.mp hmem
    rw [show e = (e.1, e.2) from rfl, normalizeEntry_eq] at heq
    have hk := (h e.1 (List.mem_map_of_mem he)).mp (congrArg Prod.fst heq)
    refine ⟨e.2, InsertionMap.get?_eq_some_iff.mpr (hk ▸ he), ?_⟩
    rw [← hk]
    exact congrArg Prod.snd heq
  cases hk : args.get? k with
  | some v =>
    have hentry : (k, v) ∈ args.entries := InsertionMap.get?_eq_some_iff.mp hk
    have hself : normalizeEntry definition (k, v) = (k, coerce (canonicalType definition k) v) := by
      rw [normalizeEntry_eq, (h k (InsertionMap.mem_keys.mpr ⟨v, hk⟩)).mpr rfl]
    have hfiltered : (k, coerce (canonicalType definition k) v) ∈
        (args.entries.map (normalizeEntry definition)).filter (·.1 ≠ proto) :=
      List.mem_filter.mpr ⟨List.mem_map.mpr ⟨(k, v), hentry, hself⟩, decide_eq_true hproto⟩
    obtain ⟨v', hv'⟩ := InsertionMap.exists_get?_ofList hfiltered
    rw [← normalizeArgs_eq_ofList] at hv'
    obtain ⟨w, hw, rfl⟩ := hmem v' hv'
    rw [hk] at hw
    cases hw
    exact hv'
  | none =>
    refine Option.eq_none_iff_forall_ne_some.mpr fun v' hv' => ?_
    obtain ⟨v, hv, -⟩ := hmem v' hv'
    rw [hk] at hv
    cases hv

/-! ## What the raw arguments supply -/

/-- The raw arguments supply `name`, or every object has it. -/
def given (definition : TaskDefinition) (args : Args) (name : JsString) : Bool :=
  isInherited name || args.keys.any fun k => decide (canonicalName definition k = name)

theorem has_normalizeArgs (definition : TaskDefinition) (args : Args) (name : JsString) :
    has (normalizeArgs definition args) name = given definition args name := by
  rw [has, given, Bool.or_comm]
  cases hinherited : isInherited name with
  | true => rfl
  | false =>
    have hproto : name ≠ proto := fun h => by rw [h, isInherited_proto] at hinherited; cases hinherited
    rw [Bool.false_or, Bool.false_or, Bool.eq_iff_iff, normalizeArgs_eq_ofList, List.any_eq_true]
    constructor
    · intro h
      obtain ⟨v, hv⟩ := Option.isSome_iff_exists.mp h
      obtain ⟨hmem, -⟩ := List.mem_filter.mp (InsertionMap.mem_of_get?_ofList hv)
      obtain ⟨e, he, heq⟩ := List.mem_map.mp hmem
      rw [show e = (e.1, e.2) from rfl, normalizeEntry_eq] at heq
      exact ⟨e.1, List.mem_map_of_mem he, decide_eq_true (congrArg Prod.fst heq)⟩
    · rintro ⟨k, hk, hname⟩
      obtain ⟨e, he, rfl⟩ := List.mem_map.mp hk
      have hname := of_decide_eq_true hname
      have hentry := normalizeEntry_eq definition e.1 e.2
      rw [hname] at hentry
      have hmem : (name, coerce (canonicalType definition e.1) e.2) ∈
          (args.entries.map (normalizeEntry definition)).filter (·.1 ≠ proto) :=
        List.mem_filter.mpr ⟨List.mem_map.mpr ⟨e, he, hentry⟩, decide_eq_true hproto⟩
      exact Option.isSome_iff_exists.mpr (InsertionMap.exists_get?_ofList hmem)

/-- The value that the options give a name by default. -/
def defaultValue (options : List TaskOption) (name : JsString) : Option JsValue :=
  (options.find? fun opt => decide (opt.name = name) && !isUndefined opt.defaultValue).map
    TaskOption.defaultValue

/-- What a name has by default. -/
def fallback (definition : TaskDefinition) (name : JsString) : Option JsValue :=
  (defaultValue definition.options name).or
    (if name ∈ definition.flags.map TaskFlag.name then some (.boolean false) else none)

/-- Only options and flags have defaults. -/
theorem name_of_fallback {name : JsString} {value : JsValue}
    (h : fallback definition name = some value) :
    (∃ opt ∈ definition.options, opt.name = name) ∨ ∃ flag ∈ definition.flags, flag.name = name := by
  obtain h | ⟨-, h⟩ := Option.or_eq_some_iff.mp h
  · obtain ⟨opt, hfind, -⟩ := Option.map_eq_some_iff.mp h
    have hname := List.find?_some hfind
    simp only [Bool.and_eq_true, decide_eq_true_eq] at hname
    exact .inl ⟨opt, List.mem_of_find?_eq_some hfind, hname.1⟩
  · split at h
    · next hmem => exact .inr (List.mem_map.mp hmem)
    · cases h

/-! ## Defaults -/

theorem get?_mergeOption {m : Args} {name : JsString} (hname : isInherited name = false)
    (opt : TaskOption) :
    (mergeOption m opt).get? name = (m.get? name).or (defaultValue [opt] name) := by
  have hproto : name ≠ proto := fun h => by rw [h, isInherited_proto] at hname; cases hname
  unfold mergeOption defaultValue
  by_cases heq : opt.name = name
  · subst heq
    cases hget : m.get? opt.name <;> cases hdef : isUndefined opt.defaultValue <;>
      simp [has, hget, hname, hdef, hproto]
  · have hne : name ≠ opt.name := Ne.symm heq
    split <;> simp [heq, hne]

theorem get?_foldl_mergeOption {name : JsString} (hname : isInherited name = false)
    (options : List TaskOption) (m : Args) :
    (options.foldl mergeOption m).get? name = (m.get? name).or (defaultValue options name) := by
  induction options generalizing m with
  | nil => simp [defaultValue]
  | cons opt options ih =>
    have hcons : defaultValue (opt :: options) name =
        (defaultValue [opt] name).or (defaultValue options name) := by
      simp only [defaultValue, List.find?_cons, List.find?_nil]
      split <;> rfl
    rw [List.foldl_cons, ih, get?_mergeOption hname, hcons, Option.or_assoc]

theorem get?_foldl_mergeFlag {name : JsString} (hname : isInherited name = false)
    (flags : List TaskFlag) (m : Args) :
    (flags.foldl mergeFlag m).get? name =
      (m.get? name).or (if name ∈ flags.map TaskFlag.name then some (.boolean false) else none) := by
  have hproto : name ≠ proto := fun h => by rw [h, isInherited_proto] at hname; cases hname
  induction flags generalizing m with
  | nil => simp
  | cons flag flags ih =>
    rw [List.foldl_cons, ih]
    unfold mergeFlag
    by_cases heq : flag.name = name
    · subst heq
      cases hget : m.get? flag.name <;> simp [has, hget, hname, hproto]
    · have hne : name ≠ flag.name := Ne.symm heq
      split <;> simp [hne]

/-- The value of a name once the defaults are merged. -/
theorem get?_mergeDefaults {name : JsString} (hname : isInherited name = false) (args : Args) :
    (mergeDefaults definition args).get? name =
      (args.get? name).or (fallback definition name) := by
  rw [mergeDefaults, get?_foldl_mergeFlag hname, get?_foldl_mergeOption hname, fallback,
    Option.or_assoc]

/-- Every default is there once it is merged. -/
def Defaulted (definition : TaskDefinition) (args : Args) : Prop :=
  (∀ opt ∈ definition.options, isUndefined opt.defaultValue = false → has args opt.name = true) ∧
    ∀ flag ∈ definition.flags, has args flag.name = true

theorem defaulted_mergeDefaults (definition : TaskDefinition) (args : Args) :
    Defaulted definition (mergeDefaults definition args) := by
  refine ⟨fun opt hopt hdef => ?_, fun flag hflag => ?_⟩
  · cases hname : isInherited opt.name with
    | true => rw [has, hname, Bool.or_true]
    | false =>
      have hfind : (defaultValue definition.options opt.name).isSome = true := by
        rw [defaultValue, Option.isSome_map, List.find?_isSome]
        exact ⟨opt, hopt, by simp [hdef]⟩
      rw [has, get?_mergeDefaults hname, fallback]
      simp [hfind]
  · cases hname : isInherited flag.name with
    | true => rw [has, hname, Bool.or_true]
    | false =>
      rw [has, get?_mergeDefaults hname, fallback, if_pos (List.mem_map_of_mem hflag)]
      simp

theorem Defaulted.mono {a b : Args} (h : Defaulted definition a) (hkeeps : Keeps a b) :
    Defaulted definition b :=
  ⟨fun opt hopt hdef => hkeeps.has (h.1 opt hopt hdef), fun flag hflag => hkeeps.has (h.2 flag hflag)⟩

theorem foldl_eq_self {β γ : Type} {f : γ → β → γ} {m : γ} {l : List β} (h : ∀ x ∈ l, f m x = m) :
    l.foldl f m = m := by
  induction l with
  | nil => rfl
  | cons x l ih =>
    rw [List.foldl_cons, h x List.mem_cons_self]
    exact ih fun y hy => h y (List.mem_cons_of_mem x hy)

theorem mergeDefaults_of_defaulted {args : Args} (h : Defaulted definition args) :
    mergeDefaults definition args = args := by
  have hoptions : definition.options.foldl mergeOption args = args := foldl_eq_self fun opt hopt => by
    unfold mergeOption
    cases hdef : isUndefined opt.defaultValue with
    | true => simp
    | false => simp [h.1 opt hopt hdef]
  rw [mergeDefaults, hoptions]
  exact foldl_eq_self fun flag hflag => by simp [mergeFlag, h.2 flag hflag]

theorem Holds.mergeDefaults {Q : JsString → JsValue → Prop} {args : Args} (h : Holds Q args)
    (hdefault : ∀ name value, has args name = false → fallback definition name = some value →
      Q name value) :
    Holds Q (mergeDefaults definition args) := by
  intro k v hk
  cases hhas : has args k with
  | true =>
    rw [keeps_mergeDefaults definition args k hhas] at hk
    exact h k v hk
  | false =>
    rw [get?_mergeDefaults (Bool.or_eq_false_iff.mp hhas).2, get?_of_has hhas, Option.none_or] at hk
    exact ⟨ne_proto_of_has hhas, hdefault k v hhas hk⟩

end Lionden.Core
