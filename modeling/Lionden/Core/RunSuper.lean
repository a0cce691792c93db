import Lionden.Core.PrepareAgain

/-!
# Forwarding through `runSuper` (`task-runner.ts`)

* `Built.unclashing`: in a definition of the builder every argument is the one that its name stands
  for.
* `covers_free`, `exists_bound`: positional arguments that stay unbound next to bare values are
  bound the next time.
* `prepareArgs_idempotent`: preparing prepared arguments again changes nothing if they are settled,
  and where no arguments clash only then.
-/

namespace Lionden.Core

variable {definition : TaskDefinition} {id : JsString} {values : List (Option JsValue)}
  {defs : List TaskPositionalArgument} {cursor : Nat} {args result bound prepared : Args}

/-! ## Definitions of the builder -/

/-- The entries of all the arguments. -/
def arguments (definition : TaskDefinition) : List Canonical :=
  definition.options.map TaskOption.canonical ++ definition.flags.map TaskFlag.canonical ++
    definition.positionalArguments.map TaskPositionalArgument.canonical

theorem map_name_arguments (definition : TaskDefinition) :
    (arguments definition).map Canonical.name = definition.declared := by
  simp only [arguments, List.map_append, List.map_map]
  rfl

theorem Built.declared_nodup (h : Built definition) : definition.declared.Nodup := by
  refine (List.nodup_flatMap.mp h.spellings_nodup).2.imp ?_
  rintro a _ hdisjoint rfl
  exact hdisjoint (self_mem_publicNames a) (self_mem_publicNames a)

/-- A spelling names one argument. -/
theorem Built.argument_unique (h : Built definition) {c c' : Canonical}
    (hc : c ∈ arguments definition) (hc' : c' ∈ arguments definition) {k : JsString}
    (hk : k ∈ getPublicArgumentNames c.name) (hk' : k ∈ getPublicArgumentNames c'.name) : c = c' := by
  have hnodup := h.spellings_nodup
  rw [TaskDefinition.spellings, ← map_name_arguments, List.flatMap_map] at hnodup
  by_contra hne
  have hsymm : Std.Symm (Function.onFun List.Disjoint fun c : Canonical =>
    getPublicArgumentNames c.name) := ⟨fun _ _ hdisjoint => hdisjoint.symm⟩
  exact (List.nodup_flatMap.mp hnodup).2.forall hc hc' hne hk hk'

theorem mem_arguments_of_canonicalMap {k : JsString} {c : Canonical}
    (h : (canonicalMap definition).get? k = some c) : c ∈ arguments definition := by
  rw [get?_canonicalMap, Option.or_eq_some_iff] at h
  obtain h | ⟨-, h⟩ := h
  · exact List.mem_append_left _ (List.mem_reverse.mp (List.mem_of_find?_eq_some h))
  · exact List.mem_append_right _ (List.mem_of_find?_eq_some h)

theorem Built.canonicalMap_of_spelling (h : Built definition) {c : Canonical}
    (hc : c ∈ arguments definition) {k : JsString} (hk : k ∈ getPublicArgumentNames c.name) :
    (canonicalMap definition).get? k = some c := by
  have hself : decide (k ∈ getPublicArgumentNames c.name) = true := decide_eq_true hk
  cases hget : (canonicalMap definition).get? k with
  | some c' =>
    rw [h.argument_unique hc (mem_arguments_of_canonicalMap hget) hk
      (mem_publicNames_of_canonicalMap hget)]
  | none =>
    rw [get?_canonicalMap, Option.or_eq_none_iff, List.find?_eq_none, List.find?_eq_none] at hget
    obtain hmem | hmem := List.mem_append.mp hc
    · exact absurd hself (hget.1 c (List.mem_reverse.mpr hmem))
    · exact absurd hself (hget.2 c hmem)

theorem Built.canonicalMap_of_mem (h : Built definition) {c : Canonical}
    (hc : c ∈ arguments definition) : (canonicalMap definition).get? c.name = some c :=
  h.canonicalMap_of_spelling hc (self_mem_publicNames c.name)

theorem Built.unclashing (h : Built definition) : Unclashing definition where
  options opt hopt := h.canonicalMap_of_mem (c := opt.canonical)
    (List.mem_append_left _ (List.mem_append_left _ (List.mem_map_of_mem hopt)))
  flags flag hflag := h.canonicalMap_of_mem (c := flag.canonical)
    (List.mem_append_left _ (List.mem_append_right _ (List.mem_map_of_mem hflag)))
  positionals p hp := h.canonicalMap_of_mem (c := p.canonical)
    (List.mem_append_right _ (List.mem_map_of_mem hp))

/-- No default takes the place of a positional argument. -/
theorem Built.fallback_positional (h : Built definition) {p : TaskPositionalArgument}
    (hp : p ∈ definition.positionalArguments) : fallback definition p.name = none := by
  have hpos := List.mem_map_of_mem (f := TaskPositionalArgument.name) hp
  have hnot (n : JsString) (hn : n ∈ definition.options.map TaskOption.name ++
      definition.flags.map TaskFlag.name) : n ≠ p.name :=
    (List.nodup_append.mp h.declared_nodup).2.2 n hn p.name hpos
  refine Option.eq_none_iff_forall_ne_some.mpr fun value hvalue => ?_
  obtain ⟨opt, hopt, hname⟩ | ⟨flag, hflag, hname⟩ := name_of_fallback hvalue
  · exact hnot opt.name (List.mem_append_left _ (List.mem_map_of_mem hopt)) hname
  · exact hnot flag.name (List.mem_append_right _ (List.mem_map_of_mem hflag)) hname

/-! ## Positional arguments that stay unbound -/

/-- Where all are bound in the end, the bare values were enough. -/
theorem covers_free (h : bindPositionals id values defs cursor result = .ok bound)
    (hall : ∀ p ∈ defs, has bound p.name = true) :
    Covers (free (has result) defs) (values.length - cursor) := by
  induction defs generalizing cursor result with
  | nil => exact ⟨Nat.zero_le _, fun q hq => (nomatch hq)⟩
  | cons p defs ih =>
    obtain ⟨hp, hdefs⟩ := List.forall_mem_cons.mp hall
    obtain ⟨result', cursor', hrest, -, ⟨hmiss, hlt, hresult, hcursor⟩ | ⟨hor, rfl, rfl⟩⟩ :=
      bindPositionals_cons h
    · have hcovers := ih hrest hdefs
      rw [free_cons_of_not hmiss, ← has_assign hmiss (bareValue values cursor p), ← hresult, covers_cons]
      cases hvariadic : p.variadic with
      | true =>
        rw [hcursor, if_pos hvariadic, Nat.sub_self] at hcovers
        have hnil : free (has result') defs = [] :=
          List.length_eq_zero_iff.mp (Nat.le_zero.mp hcovers.1)
        rw [hnil]
        exact ⟨by omega, fun h => absurd rfl h, Nat.zero_le _, fun q hq => (nomatch hq)⟩
      | false =>
        rw [hcursor, if_neg (by simp [hvariadic])] at hcovers
        exact ⟨by omega, fun _ => rfl, Nat.sub_sub _ _ 1 ▸ hcovers⟩
    · have hhas : has result' p.name = true := by
        obtain hhas | hnone := hor
        · exact hhas
        · rwa [bindPositionals_exhausted hnone h] at hp
      rw [free_cons_of_named hhas]
      exact ih hrest hdefs

/-- The first positional argument that is not there takes the first bare value. -/
theorem exists_bound (hvalues : 0 < values.length) (hnot : ∃ p ∈ defs, has result p.name = false)
    (h : bindPositionals id values defs 0 result = .ok bound) :
    ∃ k v, has result k = false ∧ bound.get? k = some v := by
  induction defs with
  | nil =>
    obtain ⟨p, hp, -⟩ := hnot
    cases hp
  | cons p defs ih =>
    obtain ⟨result', cursor', hrest, -, ⟨hmiss, -, rfl, -⟩ | ⟨hor, rfl, rfl⟩⟩ :=
      bindPositionals_cons h
    · refine ⟨p.name, bareValue values 0 p, hmiss, ?_⟩
      rw [keeps_bindPositionals hrest p.name (has_assign_self _ _ _), get?_assign,
        if_pos ⟨rfl, ne_proto_of_has hmiss⟩]
    · have hhas : has result' p.name = true := hor.resolve_right (by omega)
      obtain ⟨q, hq, hmiss⟩ := hnot
      obtain rfl | hq := List.mem_cons.mp hq
      · rw [hhas] at hmiss
        cases hmiss
      · exact ih ⟨q, hq, hmiss⟩ hrest

/-! ## Preparing again -/

theorem canonicalName_of_self {c : Canonical} (h : (canonicalMap definition).get? c.name = some c) :
    canonicalName definition c.name = c.name := by rw [canonicalName, h]

theorem Unclashing.canonicalName_fallback (hclash : Unclashing definition) {name : JsString}
    {value : JsValue} (h : fallback definition name = some value) :
    canonicalName definition name = name := by
  obtain ⟨opt, hopt, rfl⟩ | ⟨flag, hflag, rfl⟩ := name_of_fallback h
  · exact canonicalName_of_self (c := opt.canonical) (hclash.options opt hopt)
  · exact canonicalName_of_self (c := flag.canonical) (hclash.flags flag hflag)

/-- The same names with the same values. -/
def SameArgs (a b : Args) : Prop := ∀ k, a.get? k = b.get? k

/-- Prepared arguments go by canonical names. -/
theorem Unclashing.canonicalName_prepared (hclash : Unclashing definition)
    (hprepared : prepareArgs definition args = .ok prepared) :
    Holds (fun k _ => canonicalName definition k = k) prepared := by
  refine Holds.bindPositionals (prepareArgs_ok.mp hprepared).2 (Holds.mergeDefaults (fun k v hk => ?_)
    fun name value _ hdefault => hclash.canonicalName_fallback hdefault)
    (.inr fun p hp _ => canonicalName_of_self (c := p.canonical)
      (hclash.positionals p ((free_sublist _ _).subset hp)))
  obtain ⟨hproto, hentry⟩ := steady_normalizeArgs definition args k v hk
  rw [normalizeEntry_eq] at hentry
  exact ⟨hproto, congrArg Prod.fst hentry⟩

/-- What normalizing prepared arguments makes of a name. -/
theorem Unclashing.get?_normalize_prepared (hclash : Unclashing definition)
    (hprepared : prepareArgs definition args = .ok prepared) {k : JsString} (hproto : k ≠ proto) :
    (normalizeArgs definition prepared).get? k =
      (prepared.get? k).map (coerce (canonicalType definition k)) := by
  refine get?_normalizeArgs hproto fun k' hk' => ?_
  obtain ⟨v, hv⟩ := InsertionMap.mem_keys.mp hk'
  rw [(hclash.canonicalName_prepared hprepared k' v hv).2]

theorem Unclashing.has_normalize_prepared (hclash : Unclashing definition)
    (hprepared : prepareArgs definition args = .ok prepared) (k : JsString) :
    has (normalizeArgs definition prepared) k = has prepared k := by
  by_cases hproto : k = proto
  · rw [hproto, has, has, isInherited_proto, Bool.or_true, Bool.or_true]
  · rw [has, has, hclash.get?_normalize_prepared hprepared hproto, Option.isSome_map]

/-- The defaults are there already. -/
theorem Unclashing.merge_prepared (hclash : Unclashing definition)
    (hprepared : prepareArgs definition args = .ok prepared) :
    mergeDefaults definition (normalizeArgs definition prepared) =
      normalizeArgs definition prepared := by
  have hdefaulted := (defaulted_mergeDefaults definition (normalizeArgs definition args)).mono
    (keeps_prepareArgs hprepared)
  refine mergeDefaults_of_defaulted ⟨fun opt hopt hdef => ?_, fun flag hflag => ?_⟩
  · rw [hclash.has_normalize_prepared hprepared]
    exact hdefaulted.1 opt hopt hdef
  · rw [hclash.has_normalize_prepared hprepared]
    exact hdefaulted.2 flag hflag

/-- A default that is coerced only the second time changes then. -/
theorem Unclashing.default_settled (hclash : Unclashing definition)
    (hprepared : prepareArgs definition args = .ok prepared) {again : Args}
    (hagain : prepareArgs definition prepared = .ok again) (hsame : SameArgs again prepared)
    {name : JsString} {value : JsValue} (hnot : given definition args name = false)
    (hdefault : fallback definition name = some value) :
    normalizeEntry definition (name, value) = (name, value) := by
  rw [← has_normalizeArgs] at hnot
  have hinherited : isInherited name = false := (Bool.or_eq_false_iff.mp hnot).2
  have hmerged := @get?_mergeDefaults definition name hinherited (normalizeArgs definition args)
  rw [get?_of_has hnot, Option.none_or, hdefault] at hmerged
  have hvalue := keeps_prepareArgs hprepared name (by rw [has, hmerged]; rfl)
  have hnormalized := hclash.get?_normalize_prepared hprepared (ne_proto_of_has hnot)
  rw [hvalue, hmerged, Option.map_some] at hnormalized
  have hkeeps := keeps_prepareArgs hagain
  rw [hclash.merge_prepared hprepared] at hkeeps
  have hvalue' := hkeeps name (by rw [has, hnormalized]; rfl)
  rw [hsame, hvalue, hmerged, hnormalized] at hvalue'
  rw [normalizeEntry_eq, hclash.canonicalName_fallback hdefault, ← Option.some.inj hvalue']

/-- A positional argument that is left out next to bare values takes one of them the second time. -/
theorem Unclashing.bare_settled (hclash : Unclashing definition)
    (hprepared : prepareArgs definition args = .ok prepared) {again : Args}
    (hagain : prepareArgs definition prepared = .ok again) (hsame : SameArgs again prepared) :
    bareValues definition args = [] ∨
      Covers (unbound definition args) (bareValues definition args).length := by
  by_contra hunsettled
  obtain ⟨hbare, huncovered⟩ := not_or.mp hunsettled
  have hbind := (prepareArgs_ok.mp hprepared).2
  have hbind' := (prepareArgs_ok.mp hagain).2
  rw [elements_positional] at hbind
  rw [hclash.merge_prepared hprepared] at hbind'
  have hleft : ∃ p ∈ definition.positionalArguments,
      has (normalizeArgs definition prepared) p.name = false := by
    by_contra hall
    push Not at hall
    refine huncovered ?_
    rw [unbound, ← has_mergeDefaults]
    refine covers_free hbind fun p hp => ?_
    rw [← hclash.has_normalize_prepared hprepared]
    exact Bool.eq_true_of_not_eq_false (hall p hp)
  -- the bare values are still there
  have hpositional : js "_positional" ≠ proto := by decide +kernel
  have hvalues : elements (read (normalizeArgs definition prepared) (js "_positional")) =
      bareValues definition args := by
    have hread : isUndefined (read (mergeDefaults definition (normalizeArgs definition args))
        (js "_positional")) = false := by
      rw [isUndefined_iff]
      intro hundefined
      rw [← elements_positional, hundefined] at hbare
      exact hbare rfl
    have hmem := has_of_read hread
    have hprep := (keeps_prepareArgs hprepared).read hmem
    have hnormalized := hclash.get?_normalize_prepared hprepared hpositional
    rw [← elements_positional, ← hprep, read, read, hnormalized]
    cases prepared.get? (js "_positional") with
    | none => rfl
    | some v => exact elements_coerce _ v
  rw [hvalues] at hbind'
  obtain ⟨k, v, hk, hv⟩ := exists_bound (List.length_pos_iff.mpr hbare) hleft hbind'
  rw [hclash.has_normalize_prepared hprepared] at hk
  rw [hsame, get?_of_has hk] at hv
  cases hv

variable {α : Type}

/-- Preparing prepared arguments again changes nothing if they are settled, and an action that
forwards them hands them on; where no arguments clash, as in every task of the builder, only if they
are settled. -/
theorem prepareArgs_idempotent (h : prepareArgs definition args = .ok prepared) :
    (Settled definition args →
      prepareArgs definition prepared = .ok prepared ∧
        ∀ (next : TaskAction α) (chain : List (TaskAction α)),
          ∃ runSuper, buildRunSuper definition (next :: chain) = some runSuper ∧
            runSuper prepared = next prepared (buildRunSuper definition chain)) ∧
      (Unclashing definition →
        ∀ again, prepareArgs definition prepared = .ok again → SameArgs again prepared →
          Settled definition args) := by
  constructor
  · intro hsettled
    refine ⟨hsettled.prepareArgs h, fun next chain => ⟨_, rfl, ?_⟩⟩
    rw [hsettled.prepareArgs h]
    rfl
  · intro hclash again hagain hsame
    refine ⟨fun name value => hclash.default_settled h hagain hsame,
      (hclash.bare_settled h hagain hsame).imp_right fun hcovers => ⟨fun p hp => ?_, hcovers⟩⟩
    exact hclash.positionals p ((free_sublist _ _).subset hp)

/-- A task with two optional positional arguments. -/
def twoNames : TaskDefinition where
  id := js "greet"
  positionalArguments := [{ name := js "from" }, { name := js "to" }]

theorem built_twoNames : Built twoNames := by
  have hfrom : (task (js "greet")).addPositionalArgument { name := js "from" } =
      .ok ⟨{ id := js "greet", positionalArguments := [{ name := js "from" }] },
        .ofList [(js "from", .positional, js "from")]⟩ := rfl
  have hto : TaskBuilder.addPositionalArgument
      ⟨{ id := js "greet", positionalArguments := [{ name := js "from" }] },
        .ofList [(js "from", .positional, js "from")]⟩ { name := js "to" } =
      .ok ⟨twoNames, .ofList [(js "from", .positional, js "from"), (js "to", .positional, js "to")]⟩ :=
    rfl
  exact ⟨_, .positional (.positional (.task (js "greet")) hfrom) hto, rfl⟩

def bareArgs (values : List JsString) : Args :=
  InsertionMap.empty.set (js "_positional") (.array (values.map fun v => some (.string v)))

/-- With both names given, nothing is left to bind. -/
theorem prepareArgs_idempotent_two :
    ∃ prepared, prepareArgs twoNames (bareArgs [js "a", js "b"]) = .ok prepared ∧
      prepareArgs twoNames prepared = .ok prepared := by
  have hprepare : prepareArgs twoNames (bareArgs [js "a", js "b"]) =
      .ok (((bareArgs [js "a", js "b"]).set (js "from") (.string (js "a"))).set (js "to")
        (.string (js "b"))) := rfl
  refine ⟨_, hprepare, (@prepareArgs_idempotent twoNames _ _ Unit hprepare).1 ?_ |>.1⟩
  refine ⟨fun name value _ hdefault => (nomatch hdefault), .inr ⟨fun p hp => ?_,
    by decide +kernel, by decide +kernel⟩⟩
  exact built_twoNames.unclashing.positionals p ((free_sublist _ _).subset hp)

/-- One bare value is bound to the first name, and to the second name as well when the arguments
are passed on. -/
theorem prepareArgs_rebinds :
    ¬∀ definition args prepared, Built definition → prepareArgs definition args = .ok prepared →
      ∃ again, prepareArgs definition prepared = .ok again ∧ SameArgs again prepared := by
  intro hall
  have hprepare : prepareArgs twoNames (bareArgs [js "a"]) =
      .ok ((bareArgs [js "a"]).set (js "from") (.string (js "a"))) := rfl
  have hagain : prepareArgs twoNames ((bareArgs [js "a"]).set (js "from") (.string (js "a"))) =
      .ok (((bareArgs [js "a"]).set (js "from") (.string (js "a"))).set (js "to")
        (.string (js "a"))) := rfl
  obtain ⟨again, h, hsame⟩ := hall _ _ _ built_twoNames hprepare
  rw [hagain] at h
  cases h
  have hto := hsame (js "to")
  have hnone : ((bareArgs [js "a"]).set (js "from") (.string (js "a"))).get? (js "to") = none := rfl
  rw [hnone, InsertionMap.get?_set, if_pos rfl] at hto
  cases hto

end Lionden.Core
