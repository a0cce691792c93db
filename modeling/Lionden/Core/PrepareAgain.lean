import Lionden.Core.PreparedArgs

/-!
# Arguments that are prepared again (`task-runner.ts`)

An action that overrides another passes its arguments on through `runSuper`, which prepares them
again.

* `bareValues`, `unbound`, `Covers`: the bare values and the positional arguments that they fill.
* `Settled`: the bare values fill the positional arguments that nothing else supplies, or there are
  none; and no default is one that a second preparation would change.
* `Settled.prepareArgs`: preparing prepared arguments again changes nothing if they are settled.
-/

namespace Lionden.Core

variable {definition : TaskDefinition} {id : JsString} {values : List (Option JsValue)}
  {defs : List TaskPositionalArgument} {p : TaskPositionalArgument} {cursor : Nat}
  {args result bound prepared : Args}

/-- The bare values: those of `_positional`, which an option of that name may give by default. -/
def bareValues (definition : TaskDefinition) (args : Args) : List (Option JsValue) :=
  match args.get? (js "_positional") with
  | some value => elements value
  | none => ((defaultValue definition.options (js "_positional")).map elements).getD []

/-- `name` is there before the bare values are bound. -/
def supplied (definition : TaskDefinition) (args : Args) (name : JsString) : Bool :=
  given definition args name || (fallback definition name).isSome

/-- The parameters without a value by name, given which names have one. -/
def free (named : JsString → Bool) : List TaskPositionalArgument → List TaskPositionalArgument
  | [] => []
  | p :: defs =>
    if named p.name then free named defs else p :: free (fun k => named k || k == p.name) defs

/-- The positional arguments that are not supplied. -/
def unbound (definition : TaskDefinition) (args : Args) : List TaskPositionalArgument :=
  free (supplied definition args) definition.positionalArguments

/-- `n` bare values are enough for `ps`, and none before the last takes them all. -/
def Covers (ps : List TaskPositionalArgument) (n : Nat) : Prop :=
  ps.length ≤ n ∧ ∀ p ∈ ps.dropLast, p.variadic = false

/-- Every argument is the one that its own name stands for. -/
structure Unclashing (definition : TaskDefinition) : Prop where
  options : ∀ opt ∈ definition.options,
    (canonicalMap definition).get? opt.name = some opt.canonical
  flags : ∀ flag ∈ definition.flags,
    (canonicalMap definition).get? flag.name = some flag.canonical
  positionals : ∀ p ∈ definition.positionalArguments,
    (canonicalMap definition).get? p.name = some p.canonical

/-- There is nothing left to do in `args` once they are prepared: a default that they need has its
own name and is left as it is by its type, and the bare values are bound, under their own names, to
all that is not supplied. -/
structure Settled (definition : TaskDefinition) (args : Args) : Prop where
  defaults : ∀ name value, given definition args name = false →
    fallback definition name = some value → normalizeEntry definition (name, value) = (name, value)
  bare : bareValues definition args = [] ∨
    (∀ p ∈ unbound definition args, (canonicalMap definition).get? p.name = some p.canonical) ∧
      Covers (unbound definition args) (bareValues definition args).length

/-! ## Positional arguments -/

theorem free_cons_of_named {named : JsString → Bool} (h : named p.name = true) :
    free named (p :: defs) = free named defs := by
  simp [free, h]

theorem free_cons_of_not {named : JsString → Bool} (h : named p.name = false) :
    free named (p :: defs) = p :: free (fun k => named k || k == p.name) defs := by
  simp [free, h]

theorem has_assign (hhas : has result p.name = false) (value : JsValue) :
    has (assign result p.name value) = fun k => has result k || k == p.name := by
  funext k
  have hproto := ne_proto_of_has hhas
  by_cases hk : k = p.name <;> simp [has, hk, hproto]

theorem free_sublist (named : JsString → Bool) (defs : List TaskPositionalArgument) :
    (free named defs).Sublist defs := by
  induction defs generalizing named with
  | nil => exact List.Sublist.refl _
  | cons p defs ih =>
    rw [free]
    split
    · exact (ih named).cons p
    · exact (ih _).cons_cons p

theorem covers_cons {p : TaskPositionalArgument} {ps : List TaskPositionalArgument} {n : Nat} :
    Covers (p :: ps) n ↔ 0 < n ∧ (ps ≠ [] → p.variadic = false) ∧ Covers ps (n - 1) := by
  cases ps with
  | nil => simp [Covers]; omega
  | cons q ps =>
    simp only [Covers, List.dropLast_cons_cons, List.forall_mem_cons, List.length_cons]
    constructor
    · rintro ⟨hlen, hp, hps⟩
      exact ⟨by omega, fun _ => hp, by omega, hps⟩
    · rintro ⟨hpos, hp, hlen, hps⟩
      exact ⟨by omega, hp (List.cons_ne_nil q ps), hps⟩

theorem has_bindPositionals (h : bindPositionals id values defs cursor result = .ok bound)
    (hcovers : Covers (free (has result) defs) (values.length - cursor)) :
    ∀ p ∈ defs, has bound p.name = true := by
  induction defs generalizing cursor result with
  | nil => exact fun p hp => (nomatch hp)
  | cons p defs ih =>
    obtain ⟨result', cursor', hrest, -, ⟨hnot, hlt, rfl, rfl⟩ | ⟨hor, hresult, hcursor⟩⟩ :=
      bindPositionals_cons h
    · rw [free_cons_of_not hnot, ← has_assign hnot (bareValue values cursor p), covers_cons] at hcovers
      obtain ⟨-, hlast, hcovers⟩ := hcovers
      have hself := has_assign_self result p.name (bareValue values cursor p)
      refine List.forall_mem_cons.mpr ⟨(keeps_bindPositionals hrest).has hself, ih hrest ?_⟩
      by_cases hnil : free (has (assign result p.name (bareValue values cursor p))) defs = []
      · rw [hnil]
        exact ⟨Nat.zero_le _, fun q hq => (nomatch hq)⟩
      · rw [hlast hnil]
        exact Nat.sub_sub _ _ 1 ▸ hcovers
    · subst hresult hcursor
      have hhas : has result' p.name = true := by
        by_contra hnot
        have hle := hor.resolve_left hnot
        rw [free_cons_of_not (Bool.eq_false_iff.mpr hnot), covers_cons] at hcovers
        omega
      rw [free_cons_of_named hhas] at hcovers
      exact List.forall_mem_cons.mpr ⟨(keeps_bindPositionals hrest).has hhas, ih hrest hcovers⟩

theorem bindPositionals_eq_self
    (hhas : values = [] ∨ ∀ p ∈ defs, has args p.name = true)
    (hreq : ∀ p ∈ defs, p.required = true → isUndefined (read args p.name) = false) (cursor : Nat) :
    bindPositionals id values defs cursor args = .ok args := by
  induction defs with
  | nil => rfl
  | cons p defs ih =>
    have hbinds : (!has args p.name && decide (cursor < values.length)) = false := by
      obtain rfl | hhas := hhas
      · simp
      · simp [hhas p List.mem_cons_self]
    have hmissing : ¬(p.required && isUndefined (read args p.name)) = true := by
      intro h
      rw [Bool.and_eq_true] at h
      rw [hreq p List.mem_cons_self h.1] at h
      cases h.2
    rw [bindPositionals, hbinds]
    simp only [Bool.false_eq_true, if_false, if_neg hmissing]
    exact ih (hhas.imp_right fun h q hq => h q (List.mem_cons_of_mem p hq))
      fun q hq => hreq q (List.mem_cons_of_mem p hq)

theorem required_bindPositionals (h : bindPositionals id values defs cursor result = .ok bound) :
    ∀ p ∈ defs, p.required = true → isUndefined (read bound p.name) = false := by
  induction defs generalizing cursor result with
  | nil => exact fun p hp => (nomatch hp)
  | cons p defs ih =>
    obtain ⟨result', cursor', hrest, hreq, -⟩ := bindPositionals_cons h
    refine List.forall_mem_cons.mpr ⟨fun hp => ?_, ih hrest⟩
    rw [(keeps_bindPositionals hrest).read (has_of_read (hreq hp))]
    exact hreq hp

/-- Where there are no bare values left, nothing is bound. -/
theorem bindPositionals_exhausted (hnone : values.length ≤ cursor)
    (h : bindPositionals id values defs cursor result = .ok bound) : bound = result := by
  induction defs with
  | nil =>
    cases h
    rfl
  | cons p defs ih =>
    obtain ⟨result', cursor', hrest, -, ⟨-, hlt, -⟩ | ⟨-, rfl, rfl⟩⟩ := bindPositionals_cons h
    · omega
    · exact ih hrest

theorem Holds.bindPositionals {Q : JsString → JsValue → Prop}
    (h : bindPositionals id values defs cursor result = .ok bound) (hresult : Holds Q result)
    (hname : values.length ≤ cursor ∨ ∀ p ∈ free (has result) defs, ∀ v, Q p.name v) :
    Holds Q bound := by
  obtain hnone | hname := hname
  · rw [bindPositionals_exhausted hnone h]
    exact hresult
  induction defs generalizing cursor result with
  | nil =>
    cases h
    exact hresult
  | cons p defs ih =>
    obtain ⟨result', cursor', hrest, -, ⟨hnot, -, rfl, -⟩ | ⟨hor, rfl, rfl⟩⟩ := bindPositionals_cons h
    · rw [free_cons_of_not hnot, List.forall_mem_cons,
        ← has_assign hnot (bareValue values cursor p)] at hname
      exact ih hrest (hresult.assign (hname.1 _)) hname.2
    · obtain hhas | hnone := hor
      · rw [free_cons_of_named hhas] at hname
        exact ih hrest hresult hname
      · rw [bindPositionals_exhausted hnone hrest]
        exact hresult

/-! ## Prepared arguments -/

theorem isUndefined_iff {value : JsValue} : isUndefined value = false ↔ value ≠ .undefined := by
  cases value <;> simp [isUndefined]

theorem applyPositionalArguments_eq (definition : TaskDefinition) (args : Args) :
    applyPositionalArguments definition args =
      bindPositionals definition.id (elements (read args (js "_positional")))
        definition.positionalArguments 0 args := by
  unfold applyPositionalArguments
  cases definition.positionalArguments <;> rfl

theorem enforceRequiredOptions_ok :
    enforceRequiredOptions definition args = .ok () ↔
      ∀ opt ∈ definition.options, opt.required = true → isUndefined (read args opt.name) = false := by
  rw [enforceRequiredOptions, Fallible.forM_ok]
  refine forall₂_congr fun opt _ => ?_
  cases opt.required <;> cases isUndefined (read args opt.name) <;> simp

theorem prepareArgs_ok :
    prepareArgs definition args = .ok prepared ↔
      (∀ opt ∈ definition.options, opt.required = true →
        isUndefined (read (mergeDefaults definition (normalizeArgs definition args)) opt.name) =
          false) ∧
      bindPositionals definition.id
        (elements (read (mergeDefaults definition (normalizeArgs definition args)) (js "_positional")))
        definition.positionalArguments 0 (mergeDefaults definition (normalizeArgs definition args)) =
        .ok prepared := by
  rw [prepareArgs, Fallible.bind_ok, ← applyPositionalArguments_eq, ← enforceRequiredOptions_ok]
  exact ⟨fun ⟨_, h, h'⟩ => ⟨h, h'⟩, fun ⟨h, h'⟩ => ⟨(), h, h'⟩⟩

theorem keeps_prepareArgs (h : prepareArgs definition args = .ok prepared) :
    Keeps (mergeDefaults definition (normalizeArgs definition args)) prepared :=
  keeps_bindPositionals (prepareArgs_ok.mp h).2

/-- The name `_positional` is a spelling of itself only. -/
theorem canonicalName_positional {k : JsString} :
    canonicalName definition k = js "_positional" ↔ k = js "_positional" := by
  have hself : getPublicArgumentNames (js "_positional") = [js "_positional"] := by decide +kernel
  constructor
  · intro h
    unfold canonicalName at h
    split at h
    · next c hc =>
      have hk := mem_publicNames_of_canonicalMap hc
      rw [h, hself] at hk
      exact List.mem_singleton.mp hk
    · exact h
  · rintro rfl
    unfold canonicalName
    split
    · next c hc =>
      obtain heq | heq := mem_publicNames.mp (mem_publicNames_of_canonicalMap hc)
      · exact heq.symm
      · exact (eq_of_camelToKebab (heq ▸ by decide +kernel)).symm.trans heq.symm
    · rfl

/-- The bare values that the first preparation binds. -/
theorem elements_positional (definition : TaskDefinition) (args : Args) :
    elements (read (mergeDefaults definition (normalizeArgs definition args)) (js "_positional")) =
      bareValues definition args := by
  have hinherited : isInherited (js "_positional") = false := by decide +kernel
  have hproto : js "_positional" ≠ proto := by decide +kernel
  have hnone : elements (inherited (js "_positional")) = [] := by decide +kernel
  have hnormalized := @get?_normalizeArgs definition args (js "_positional") hproto
    fun k _ => canonicalName_positional
  have hmerged := @get?_mergeDefaults definition (js "_positional") hinherited
    (normalizeArgs definition args)
  rw [hnormalized, fallback] at hmerged
  rw [read, hmerged, bareValues]
  cases args.get? (js "_positional") with
  | some v => exact elements_coerce _ v
  | none =>
    cases defaultValue definition.options (js "_positional") with
    | some v => rfl
    | none =>
      by_cases hflag : js "_positional" ∈ definition.flags.map TaskFlag.name
      · simp [hflag, elements]
      · simp [hflag, hproto, hnone]

/-- What is there before the bare values are bound. -/
theorem has_mergeDefaults (definition : TaskDefinition) (args : Args) :
    has (mergeDefaults definition (normalizeArgs definition args)) = supplied definition args := by
  funext name
  rw [supplied, ← has_normalizeArgs]
  cases hinherited : isInherited name with
  | true => rw [has, has, hinherited, Bool.or_true, Bool.or_true, Bool.true_or]
  | false => rw [has, has, hinherited, get?_mergeDefaults hinherited, Option.isSome_or, Bool.or_false,
      Bool.or_false]

/-- What the preparation leaves for the second time, if nothing is to be bound. -/
theorem prepareArgs_of_steady (h : prepareArgs definition args = .ok prepared)
    (hsteady : Steady definition prepared)
    (hbound : bareValues definition args = [] ∨
      ∀ p ∈ definition.positionalArguments, has prepared p.name = true) :
    prepareArgs definition prepared = .ok prepared := by
  obtain ⟨hrequired, hbind⟩ := prepareArgs_ok.mp h
  have hkeeps := keeps_prepareArgs h
  have hdefaulted := (defaulted_mergeDefaults definition (normalizeArgs definition args)).mono hkeeps
  have hmerged : mergeDefaults definition (normalizeArgs definition prepared) = prepared := by
    rw [normalizeArgs_of_steady hsteady, mergeDefaults_of_defaulted hdefaulted]
  rw [prepareArgs_ok, hmerged]
  refine ⟨fun opt hopt hreq => ?_, bindPositionals_eq_self ?_ (required_bindPositionals hbind) 0⟩
  · have hread := hrequired opt hopt hreq
    rw [hkeeps.read (has_of_read hread)]
    exact hread
  · refine hbound.imp_left fun hnil => ?_
    rw [elements_positional, hnil] at hbind
    rw [bindPositionals_exhausted (Nat.zero_le _) hbind, elements_positional, hnil]

theorem has_of_covers (h : prepareArgs definition args = .ok prepared)
    (hcovers : Covers (unbound definition args) (bareValues definition args).length) :
    ∀ p ∈ definition.positionalArguments, has prepared p.name = true := by
  have hbind := (prepareArgs_ok.mp h).2
  rw [elements_positional] at hbind
  refine has_bindPositionals hbind ?_
  rw [has_mergeDefaults]
  exact hcovers

theorem Settled.steady (h : prepareArgs definition args = .ok prepared)
    (hsettled : Settled definition args) : Steady definition prepared := by
  have hbind := (prepareArgs_ok.mp h).2
  rw [elements_positional] at hbind
  refine Holds.bindPositionals hbind (Holds.mergeDefaults (steady_normalizeArgs definition args)
    fun name value hnot => hsettled.defaults name value (has_normalizeArgs definition args name ▸ hnot)) ?_
  refine hsettled.bare.imp (fun hnil => by rw [hnil, List.length_nil]) fun hbare p hp v => ?_
  rw [has_mergeDefaults] at hp
  rw [normalizeEntry, hbare.1 p hp]
  cases v <;> rfl

/-- Whoever wrote the definition: arguments that are settled are prepared once and for all. -/
theorem Settled.prepareArgs (h : prepareArgs definition args = .ok prepared)
    (hsettled : Settled definition args) : Core.prepareArgs definition prepared = .ok prepared :=
  prepareArgs_of_steady h (hsettled.steady h) (hsettled.bare.imp_right fun hbare =>
    has_of_covers h hbare.2)

end Lionden.Core
