import Lionden.Codegen.Bindings

/-!
# The names made for references

`createGenerationContext` makes a name for each type of another program, and an input name for each
type.

* `mem_externalStructRefs`, `mem_externalRecordRefs`: the references that names are made for.
* `nodup_typeNames`, `typeName_spec`: the names of the types of other programs.
* `nodup_inputNames`, `inputNames_notMem`: the input names.
-/

namespace Lionden.Codegen.Bindings

/-! ## References -/

section References

variable {refs : List StructRef}

theorem keys_externalRefs :
    (externalRefs refs).values.map externalRefKey = (externalRefs refs).keys := by
  unfold InsertionMap.values InsertionMap.keys
  rw [List.map_map]
  refine List.map_congr_left fun e he => ?_
  obtain ⟨ref, -, heq⟩ :=
    List.mem_map.mp (InsertionMap.mem_of_get?_ofList (InsertionMap.get?_eq_some_iff.mpr he))
  obtain ⟨hkey, href⟩ := Prod.mk.inj heq
  rw [Function.comp_apply, ← href, hkey]

/-- No two references have one key. -/
theorem nodup_keys_externalRefs : ((externalRefs refs).values.map externalRefKey).Nodup := by
  rw [keys_externalRefs]
  exact (externalRefs refs).distinct

theorem mem_values_externalRefs (hrefs : ∀ ref ∈ refs, isExternalRef ref = true) {ref : StructRef} :
    ref ∈ (externalRefs refs).values ↔ ref ∈ refs := by
  rw [InsertionMap.mem_values]
  constructor
  · rintro ⟨key, hget⟩
    obtain ⟨ref', href', heq⟩ := List.mem_map.mp (InsertionMap.mem_of_get?_ofList hget)
    exact (Prod.mk.inj heq).2 ▸ href'
  · intro href
    have hmem : (externalRefKey ref, ref) ∈ refs.map fun ref => (externalRefKey ref, ref) :=
      List.mem_map_of_mem href
    obtain ⟨ref', hget⟩ := InsertionMap.exists_get?_ofList hmem
    obtain ⟨ref'', href'', heq⟩ := List.mem_map.mp (InsertionMap.mem_of_get?_ofList hget)
    obtain ⟨hkey, rfl⟩ := Prod.mk.inj heq
    refine ⟨externalRefKey ref, hget.trans (congrArg some ?_)⟩
    exact externalRefKey_inj (hrefs _ href'') (hrefs _ href) hkey

end References

/-- A reference that names are made for is one to another program. -/
structure IsForeign (abi : ProgramABI) (ref : StructRef) : Prop where
  external : isExternalRef ref = true
  notEmpty : ref.program ≠ some []
  notOwn : ref.program ≠ some abi.program

theorem isForeign {abi : ProgramABI} {allAbis : List ProgramABI}
    {types : ProgramABI → List (List JsString)} {ref : StructRef} (href : isRef ref = true)
    (hnames : namesExternal abi allAbis types ref = true) : IsForeign abi ref := by
  unfold namesExternal at hnames
  cases hprogram : ref.program with
  | none =>
    rw [hprogram] at hnames
    cases hnames
  | some program =>
    rw [hprogram] at hnames
    obtain ⟨hnames, -⟩ := Bool.and_eq_true_iff.mp hnames
    obtain ⟨hne, hown⟩ := Bool.and_eq_true_iff.mp hnames
    refine ⟨?_, ?_, ?_⟩
    · rw [isExternalRef, href, hprogram]
      rfl
    · exact hprogram ▸ fun h => of_decide_eq_true hne (Option.some.inj h)
    · exact hprogram ▸ fun h => of_decide_eq_true hown (Option.some.inj h)

section Context

variable {localeLE : JsString → JsString → Bool} {abi : ProgramABI} (named : abi.Named)
  {allAbis : List ProgramABI} {helperNames : List JsString} {includeLeo : Bool} {ref : StructRef}

include named

theorem mem_externalStructRefs :
    ref ∈ (createGenerationContext localeLE abi allAbis helperNames
        includeLeo).externalStructRefs.values ↔
      ref ∈ abi.structRefs ∧ namesExternal abi allAbis ProgramABI.structPaths ref = true := by
  refine (mem_values_externalRefs fun ref href => ?_).trans List.mem_filter
  obtain ⟨hmem, hnames⟩ := List.mem_filter.mp href
  exact (isForeign (named.structRefs ref hmem) hnames).external

theorem mem_externalRecordRefs :
    ref ∈ (createGenerationContext localeLE abi allAbis helperNames
        includeLeo).externalRecordRefs.values ↔
      ref ∈ abi.recordRefs ∧ namesExternal abi allAbis ProgramABI.recordPaths ref = true := by
  refine (mem_values_externalRefs fun ref href => ?_).trans List.mem_filter
  obtain ⟨hmem, hnames⟩ := List.mem_filter.mp href
  exact (isForeign (named.recordRefs ref hmem) hnames).external

end Context

/-! ## Types of other programs -/

section Aliases

variable (localeLE : JsString → JsString → Bool) (structRefs recordRefs : InsertionMap JsString StructRef)
  (declared helperNames : List JsString)

/-- What `resolveExternalInfos` makes a name for, in its order: a reference, and whether it is to a
record. -/
def aliasItems : List (StructRef × Bool) :=
  (sortRefsByKey localeLE structRefs.values).map (·, false) ++
    (sortRefsByKey localeLE recordRefs.values).map (·, true)

def aliasClaims : List ((StructRef × Bool) × JsString) :=
  claims (fun ref => underscored (preferredAlias ref.1))
    (fun ref => if ref.2 then [] else helperNames) declared
    (aliasItems localeLE structRefs recordRefs)

variable {localeLE structRefs recordRefs declared helperNames}

theorem perm_aliasItems : ((aliasItems localeLE structRefs recordRefs).map Prod.fst).Perm
    (structRefs.values ++ recordRefs.values) := by
  have hfst (refs : List StructRef) (b : Bool) : (refs.map (·, b)).map Prod.fst = refs := by
    rw [List.map_map]
    exact List.map_id refs
  unfold aliasItems
  rw [List.map_append, hfst, hfst]
  exact (List.perm_insertionSort _ _).append (List.perm_insertionSort _ _)

theorem mem_aliasItems {item : StructRef × Bool} : item ∈ aliasItems localeLE structRefs recordRefs ↔
    item.1 ∈ (if item.2 then recordRefs else structRefs).values := by
  obtain ⟨ref, isRecord⟩ := item
  have hsort (refs : List StructRef) : ref ∈ sortRefsByKey localeLE refs ↔ ref ∈ refs :=
    (List.perm_insertionSort _ refs).mem_iff
  unfold aliasItems
  cases isRecord <;> simp [hsort]

/-- Something is known of every reference, also if two have one key. -/
theorem exists_info {ref : StructRef} (href : ref ∈ structRefs.values ++ recordRefs.values) :
    ∃ info, (resolveExternalInfos localeLE structRefs recordRefs declared helperNames).get?
      (externalRefKey ref) = some info := by
  obtain ⟨item, hitem, rfl⟩ := List.mem_map.mp (perm_aliasItems.mem_iff.mpr href)
  obtain ⟨claim, hclaim, rfl⟩ : ∃ claim ∈ aliasClaims localeLE structRefs recordRefs declared
      helperNames, claim.1 = item := by
    rw [← List.mem_map, aliasClaims, map_fst_claims]
    exact hitem
  exact InsertionMap.exists_get?_ofList (List.mem_map.mpr ⟨claim, hclaim, rfl⟩)

variable (hkeys : ((structRefs.values ++ recordRefs.values).map externalRefKey).Nodup)

include hkeys

/-- Each reference has the name that was made for it. -/
theorem get?_resolveExternalInfos {claim : (StructRef × Bool) × JsString}
    (hclaim : claim ∈ aliasClaims localeLE structRefs recordRefs declared helperNames) :
    (resolveExternalInfos localeLE structRefs recordRefs declared helperNames).get?
        (externalRefKey claim.1.1) =
      some { programId := claim.1.1.program.getD [], baseName := pathToTsName claim.1.1.path,
             typeName := claim.2, emitsValueBinding := claim.1.2 } := by
  have hfst : (aliasClaims localeLE structRefs recordRefs declared helperNames).map
      (fun c => externalRefKey c.1.1) =
      ((aliasItems localeLE structRefs recordRefs).map Prod.fst).map externalRefKey := by
    unfold aliasClaims
    rw [← map_fst_claims declared (aliasItems localeLE structRefs recordRefs), List.map_map,
      List.map_map, map_fst_claims]
    rfl
  have hclaims : ((aliasClaims localeLE structRefs recordRefs declared helperNames).map
      fun c => externalRefKey c.1.1).Nodup := by
    rw [hfst]
    exact (perm_aliasItems.map externalRefKey).nodup_iff.mpr hkeys
  exact InsertionMap.get?_ofList_map hclaims hclaim

theorem exists_claim {item : StructRef × Bool}
    (hitem : item ∈ aliasItems localeLE structRefs recordRefs) :
    ∃ name, (item, name) ∈ aliasClaims localeLE structRefs recordRefs declared helperNames ∧
      externalTypeName (resolveExternalInfos localeLE structRefs recordRefs declared helperNames)
        item.1 = name := by
  obtain ⟨⟨item', name⟩, hclaim, rfl⟩ : ∃ claim ∈ aliasClaims localeLE structRefs recordRefs declared
      helperNames, claim.1 = item := by
    rw [← List.mem_map, aliasClaims, map_fst_claims]
    exact hitem
  refine ⟨name, hclaim, ?_⟩
  rw [externalTypeName, get?_resolveExternalInfos hkeys hclaim]
  rfl

/-- The types of other programs have different names. -/
theorem nodup_typeNames : ((structRefs.values ++ recordRefs.values).map (externalTypeName
    (resolveExternalInfos localeLE structRefs recordRefs declared helperNames))).Nodup := by
  refine (perm_aliasItems.map _).nodup_iff.mp (?_ : (((aliasItems localeLE structRefs
    recordRefs).map Prod.fst).map _).Nodup)
  have hnames : ((aliasItems localeLE structRefs recordRefs).map Prod.fst).map (externalTypeName
      (resolveExternalInfos localeLE structRefs recordRefs declared helperNames)) =
      (aliasClaims localeLE structRefs recordRefs declared helperNames).map Prod.snd := by
    rw [← map_fst_claims declared (aliasItems localeLE structRefs recordRefs), List.map_map,
      List.map_map]
    refine List.map_congr_left fun claim hclaim => ?_
    rw [Function.comp_apply, Function.comp_apply, externalTypeName,
      get?_resolveExternalInfos hkeys hclaim]
    rfl
  rw [hnames]
  exact claims_nodup (fun item => underscored_injective _) declared _

/-- A type's name is its preferred alias with underscores, and none that is declared. -/
theorem typeName_spec {ref : StructRef} (href : ref ∈ structRefs.values ++ recordRefs.values) :
    ∃ k, externalTypeName (resolveExternalInfos localeLE structRefs recordRefs declared helperNames)
        ref = underscored (preferredAlias ref) k ∧ underscored (preferredAlias ref) k ∉ declared := by
  obtain ⟨item, hitem, rfl⟩ := List.mem_map.mp (perm_aliasItems.mem_iff.mpr href)
  obtain ⟨name, hclaim, heq⟩ := exists_claim hkeys hitem
  obtain ⟨k, hk⟩ := claims_candidate hclaim
  rw [heq]
  refine ⟨k, hk, hk ▸ ?_⟩
  exact (claims_notMem (fun item => underscored_injective _) hclaim).1

/-- What is known of a type of another program: a record has a value of its name. -/
theorem get?_info {ref : StructRef} (href : ref ∈ structRefs.values ++ recordRefs.values) :
    ∃ info, (resolveExternalInfos localeLE structRefs recordRefs declared helperNames).get?
        (externalRefKey ref) = some info ∧ info.typeName = externalTypeName
          (resolveExternalInfos localeLE structRefs recordRefs declared helperNames) ref ∧
      (ref ∈ recordRefs.values → info.emitsValueBinding = true) := by
  have hget (item : StructRef × Bool) (hitem : item ∈ aliasItems localeLE structRefs recordRefs) :
      ∃ info, (resolveExternalInfos localeLE structRefs recordRefs declared helperNames).get?
          (externalRefKey item.1) = some info ∧ info.typeName = externalTypeName
            (resolveExternalInfos localeLE structRefs recordRefs declared helperNames) item.1 ∧
        info.emitsValueBinding = item.2 := by
    obtain ⟨name, hclaim, heq⟩ := exists_claim hkeys hitem
    exact ⟨_, get?_resolveExternalInfos hkeys hclaim, heq.symm, rfl⟩
  by_cases hrecord : ref ∈ recordRefs.values
  · obtain ⟨info, hinfo, hname, hvalue⟩ := hget (ref, true) (mem_aliasItems.mpr hrecord)
    exact ⟨info, hinfo, hname, fun _ => hvalue⟩
  · have hstruct := (List.mem_append.mp href).resolve_right hrecord
    obtain ⟨info, hinfo, hname, -⟩ := hget (ref, false) (mem_aliasItems.mpr hstruct)
    exact ⟨info, hinfo, hname, fun h => absurd h hrecord⟩

end Aliases

/-! ## Input names -/

section Inputs

variable {reserved : List JsString} {bases : List (JsString × JsString)}

/-- The input names for some keys, with the names that they are made of. -/
def inputClaims (reserved : List JsString) (bases : List (JsString × JsString)) :
    List ((JsString × JsString) × JsString) :=
  claims (fun base => inputCandidate base.2) (fun _ => []) reserved bases

/-- `inputNameByKey`. -/
def inputNames (reserved : List JsString) (bases : List (JsString × JsString)) :
    InsertionMap JsString JsString :=
  .ofList ((inputClaims reserved bases).map fun claim => (claim.1.1, claim.2))

theorem map_key_inputClaims :
    (inputClaims reserved bases).map (fun claim => claim.1.1) = bases.map Prod.fst := by
  have hfst : (inputClaims reserved bases).map Prod.fst = bases := map_fst_claims reserved bases
  conv_rhs => rw [← hfst, List.map_map]
  rfl

variable (hkeys : (bases.map Prod.fst).Nodup)

include hkeys

theorem get?_inputNames {claim : (JsString × JsString) × JsString}
    (hclaim : claim ∈ inputClaims reserved bases) :
    (inputNames reserved bases).get? claim.1.1 = some claim.2 := by
  rw [← map_key_inputClaims] at hkeys
  exact InsertionMap.get?_ofList_map hkeys hclaim

theorem exists_inputName {key : JsString} (hkey : key ∈ bases.map Prod.fst) :
    ∃ name, (inputNames reserved bases).get? key = some name ∧ name ∉ reserved ∧
      ∃ base ∈ bases.map Prod.snd, ∃ k, name = inputCandidate base k := by
  obtain ⟨base, hbase, rfl⟩ := List.mem_map.mp hkey
  obtain ⟨claim, hclaim, rfl⟩ : ∃ claim ∈ inputClaims reserved bases, claim.1 = base := by
    rw [← List.mem_map, inputClaims, map_fst_claims]
    exact hbase
  refine ⟨claim.2, get?_inputNames hkeys hclaim, ?_, claim.1.2, List.mem_map_of_mem hbase,
    claims_candidate hclaim⟩
  exact (claims_notMem (fun _ => inputCandidate_injective _) hclaim).1

/-- Each key has another name. -/
theorem map_inputNames : (bases.map Prod.fst).map (fun key =>
    ((inputNames reserved bases).get? key).getD []) = (inputClaims reserved bases).map Prod.snd := by
  rw [← map_key_inputClaims, List.map_map]
  refine List.map_congr_left fun claim hclaim => ?_
  exact congrArg (Option.getD · []) (get?_inputNames hkeys hclaim)

theorem nodup_inputNames : ((bases.map Prod.fst).map fun key =>
    ((inputNames reserved bases).get? key).getD []).Nodup := by
  rw [map_inputNames hkeys]
  exact claims_nodup (fun _ => inputCandidate_injective _) _ _

end Inputs

/-! ## Contexts -/

/-- The paths of the program's own types. -/
def ProgramABI.paths (abi : ProgramABI) : List (List JsString) := abi.structPaths ++ abi.recordPaths

theorem ProgramABI.map_paths (abi : ProgramABI) : abi.paths.map pathToTsName = abi.localTypeNames := by
  unfold paths structPaths recordPaths localTypeNames
  rw [List.map_append, List.map_map, List.map_map]
  rfl

theorem ProgramABI.Named.isPath {abi : ProgramABI} (named : abi.Named) {path : List JsString}
    (hpath : path ∈ abi.paths) : isPath path = true := by
  rcases List.mem_append.mp hpath with h | h
  · obtain ⟨s, hs, rfl⟩ := List.mem_map.mp h
    exact named.structs s hs
  · obtain ⟨r, hr, rfl⟩ := List.mem_map.mp h
    exact named.records r hr

/-- The program's own types have different names, and no reference is both to a struct and to a
record of another program. -/
structure Distinct (abi : ProgramABI) (allAbis : List ProgramABI) : Prop where
  types : abi.localTypeNames.Nodup
  kinds : ∀ ref ∈ abi.structRefs, ref ∈ abi.recordRefs →
    namesExternal abi allAbis ProgramABI.structPaths ref = true →
      namesExternal abi allAbis ProgramABI.recordPaths ref = false

namespace GenerationContext

/-- The references to types of other programs. -/
def externals (ctx : GenerationContext) : List StructRef :=
  ctx.externalStructRefs.values ++ ctx.externalRecordRefs.values

def typeName (ctx : GenerationContext) (ref : StructRef) : JsString :=
  externalTypeName ctx.externalInfoByKey ref

/-- The keys of `inputNameByKey`, the references unsorted. -/
def inputKeys (ctx : GenerationContext) : List JsString :=
  ctx.abi.paths.map pathKey ++ ctx.externals.map externalRefKey

def inputNameOf (ctx : GenerationContext) (key : JsString) : JsString :=
  (ctx.inputNameByKey.get? key).getD []

section

variable {localeLE : JsString → JsString → Bool} {abi : ProgramABI} {allAbis : List ProgramABI}
  {helperNames : List JsString} {includeLeo : Bool} {ctx : GenerationContext}
  (hctx : ctx = createGenerationContext localeLE abi allAbis helperNames includeLeo)
  (named : abi.Named)

include hctx

theorem abi_eq : ctx.abi = abi := by
  rw [hctx]
  rfl

theorem externalInfoByKey_eq : ctx.externalInfoByKey =
    resolveExternalInfos localeLE ctx.externalStructRefs ctx.externalRecordRefs
      (localDeclaredNames abi includeLeo) helperNames := by
  rw [hctx]
  rfl

/-- The names that the input names avoid besides those of `BaseContract`. -/
def declared (ctx : GenerationContext) (abi : ProgramABI) (helperNames : List JsString)
    (includeLeo : Bool) : List JsString :=
  localDeclaredNames abi includeLeo ++ helperNames ++ ctx.externals.map ctx.typeName

theorem inputNameByKey_eq : ctx.inputNameByKey =
    inputNames (reservedInputImports ++ ctx.declared abi helperNames includeLeo)
      (inputBases localeLE abi ctx.externalStructRefs ctx.externalRecordRefs
        ctx.externalInfoByKey) := by
  rw [hctx]
  rfl

theorem widenInputAlias_eq : ctx.widenInputAlias = fresh (underscored (js "WidenInput"))
    ((inputClaims (reservedInputImports ++ ctx.declared abi helperNames includeLeo)
      (inputBases localeLE abi ctx.externalStructRefs ctx.externalRecordRefs
        ctx.externalInfoByKey)).map Prod.snd ++ ctx.declared abi helperNames includeLeo) := by
  rw [hctx]
  rfl

omit hctx in
theorem perm_sorted (ctx : GenerationContext) :
    (sortRefsByKey localeLE ctx.externalStructRefs.values ++
      sortRefsByKey localeLE ctx.externalRecordRefs.values).Perm ctx.externals :=
  (List.perm_insertionSort _ _).append (List.perm_insertionSort _ _)

theorem perm_inputBases :
    ((inputBases localeLE abi ctx.externalStructRefs ctx.externalRecordRefs
      ctx.externalInfoByKey).map Prod.fst).Perm ctx.inputKeys := by
  unfold inputBases inputKeys
  rw [List.map_append, List.map_map, List.map_map, abi_eq hctx]
  exact ((perm_sorted ctx).map externalRefKey).append_left _

omit hctx in
/-- The input names are made of the names of the types. -/
theorem perm_map_snd_inputBases :
    ((inputBases localeLE abi ctx.externalStructRefs ctx.externalRecordRefs
      ctx.externalInfoByKey).map Prod.snd).Perm
      (abi.localTypeNames ++ ctx.externals.map ctx.typeName) := by
  unfold inputBases
  rw [List.map_append, List.map_map, List.map_map, ← abi.map_paths]
  exact ((perm_sorted ctx).map ctx.typeName).append_left _

include named

theorem isForeign {ref : StructRef} (href : ref ∈ ctx.externals) : IsForeign abi ref := by
  subst hctx
  rcases List.mem_append.mp href with h | h
  · obtain ⟨hmem, hnames⟩ := (mem_externalStructRefs named).mp h
    exact Bindings.isForeign (named.structRefs ref hmem) hnames
  · obtain ⟨hmem, hnames⟩ := (mem_externalRecordRefs named).mp h
    exact Bindings.isForeign (named.recordRefs ref hmem) hnames

theorem externalInfo_eq {ref : StructRef} (href : ref ∈ ctx.externals) :
    ctx.externalInfo ref = ctx.externalInfoByKey.get? (externalRefKey ref) := by
  have hforeign := isForeign hctx named href
  obtain ⟨program, hprogram, -⟩ := isExternalRef_iff.mp hforeign.external
  unfold externalInfo
  rw [if_neg]
  rw [abi_eq hctx]
  rintro (h | h | h)
  · exact nomatch hprogram.symm.trans h
  · exact hforeign.notEmpty h
  · exact hforeign.notOwn h

variable (hdistinct : Distinct abi allAbis)

include hdistinct

theorem nodup_externals : (ctx.externals.map externalRefKey).Nodup := by
  have hforeign {ref : StructRef} (href : ref ∈ ctx.externals) : IsForeign abi ref :=
    isForeign hctx named href
  unfold externals
  rw [List.map_append, List.nodup_append']
  refine ⟨hctx ▸ nodup_keys_externalRefs, hctx ▸ nodup_keys_externalRefs, fun key hkey hkey' => ?_⟩
  obtain ⟨ref, href, rfl⟩ := List.mem_map.mp hkey
  obtain ⟨ref', href', heq⟩ := List.mem_map.mp hkey'
  obtain rfl := externalRefKey_inj (hforeign (List.mem_append_right _ href')).external
    (hforeign (List.mem_append_left _ href)).external heq
  subst hctx
  obtain ⟨hmem, hnames⟩ := (mem_externalStructRefs named).mp href
  obtain ⟨hmem', hnames'⟩ := (mem_externalRecordRefs named).mp href'
  exact Bool.false_ne_true ((hdistinct.kinds ref' hmem hmem' hnames).symm.trans hnames')

theorem nodup_typeName : (ctx.externals.map ctx.typeName).Nodup := by
  have hkeys := nodup_externals hctx named hdistinct
  unfold typeName
  rw [externalInfoByKey_eq hctx]
  exact nodup_typeNames hkeys

theorem typeName_spec {ref : StructRef} (href : ref ∈ ctx.externals) :
    ∃ k, ctx.typeName ref = underscored (preferredAlias ref) k ∧
      ctx.typeName ref ∉ localDeclaredNames abi includeLeo := by
  have hkeys := nodup_externals hctx named hdistinct
  unfold typeName
  rw [externalInfoByKey_eq hctx]
  obtain ⟨k, hk, hfree⟩ := Bindings.typeName_spec hkeys href
  exact ⟨k, hk, hk ▸ hfree⟩

theorem externalInfo_spec {ref : StructRef} (href : ref ∈ ctx.externals) :
    ∃ info, ctx.externalInfo ref = some info ∧ info ∈ ctx.externalInfoByKey.values ∧
      info.typeName = ctx.typeName ref ∧
      (ref ∈ ctx.externalRecordRefs.values → info.emitsValueBinding = true) := by
  have hkeys := nodup_externals hctx named hdistinct
  unfold typeName
  rw [externalInfo_eq hctx named href, externalInfoByKey_eq hctx]
  obtain ⟨info, hinfo, hname, hvalue⟩ := get?_info hkeys href
  exact ⟨info, hinfo, InsertionMap.mem_values.mpr ⟨_, hinfo⟩, hname, hvalue⟩

theorem nodup_inputKeys : ctx.inputKeys.Nodup := by
  have hkeys := nodup_externals hctx named hdistinct
  have htypes := hdistinct.types
  rw [← abi.map_paths] at htypes
  unfold inputKeys
  rw [List.nodup_append', abi_eq hctx]
  refine ⟨?_, hkeys, fun key hkey hkey' => ?_⟩
  · exact (htypes.of_map).map_on fun p hp q hq heq =>
      pathKey_inj (named.isPath hp) (named.isPath hq) heq
  · obtain ⟨path, hpath, rfl⟩ := List.mem_map.mp hkey
    obtain ⟨ref, href, heq⟩ := List.mem_map.mp hkey'
    exact externalRefKey_ne_pathKey (isForeign hctx named href).external (named.isPath hpath) heq

theorem nodup_inputBases : ((inputBases localeLE abi ctx.externalStructRefs ctx.externalRecordRefs
    ctx.externalInfoByKey).map Prod.fst).Nodup :=
  (perm_inputBases hctx).nodup_iff.mpr (nodup_inputKeys hctx named hdistinct)

/-- Each key has an input name, which is not taken. -/
theorem inputName_spec {key : JsString} (hkey : key ∈ ctx.inputKeys) :
    ∃ name, ctx.inputNameByKey.get? key = some name ∧
      name ∉ reservedInputImports ++ ctx.declared abi helperNames includeLeo ∧
      ∃ base ∈ abi.localTypeNames ++ ctx.externals.map ctx.typeName, ∃ k,
        name = inputCandidate base k := by
  rw [inputNameByKey_eq hctx]
  obtain ⟨name, hget, hfree, base, hbase, hk⟩ := exists_inputName
    (nodup_inputBases hctx named hdistinct) ((perm_inputBases hctx).mem_iff.mpr hkey)
  exact ⟨name, hget, hfree, base, perm_map_snd_inputBases.mem_iff.mp hbase, hk⟩

theorem nodup_inputNameOf : (ctx.inputKeys.map ctx.inputNameOf).Nodup := by
  refine ((perm_inputBases hctx).map _).nodup_iff.mp ?_
  unfold inputNameOf
  rw [inputNameByKey_eq hctx]
  exact nodup_inputNames (nodup_inputBases hctx named hdistinct)

theorem widenInputAlias_spec : (∃ k, ctx.widenInputAlias = underscored (js "WidenInput") k) ∧
    ctx.widenInputAlias ∉ ctx.declared abi helperNames includeLeo ∧
    ctx.widenInputAlias ∉ ctx.inputKeys.map ctx.inputNameOf := by
  have hfree := fresh_notMem (underscored_injective (js "WidenInput"))
    ((inputClaims (reservedInputImports ++ ctx.declared abi helperNames includeLeo)
      (inputBases localeLE abi ctx.externalStructRefs ctx.externalRecordRefs
        ctx.externalInfoByKey)).map Prod.snd ++ ctx.declared abi helperNames includeLeo)
  rw [← widenInputAlias_eq hctx, List.mem_append, not_or] at hfree
  refine ⟨?_, hfree.2, fun hmem => hfree.1 ?_⟩
  · rw [widenInputAlias_eq hctx]
    exact fresh_candidate _ _
  · rw [← map_inputNames (nodup_inputBases hctx named hdistinct), ← inputNameByKey_eq hctx]
    exact ((perm_inputBases hctx).map _).mem_iff.mpr hmem

end

end GenerationContext

end Lionden.Codegen.Bindings
