import Lionden.Codegen.Aliases
import Lionden.Lib.Fallible
import Mathlib.Data.List.Perm.Basic

/-!
# A module declares a name once

* `Generates`, `generates`: what is known of a module that is generated.
* `nodup_typeNames_iff`, `nodup_valueNames_iff`: when its types and its values have different names.
* `declares_once_iff`: when a module declares no name twice.
-/

namespace Lionden.Codegen.Bindings

/-! ## What is generated -/

/-- A module that is generated, with the names that it is made of: its checks have been passed. -/
structure Generates (abi : ProgramABI) (helpers : List DynamicRecordHelper) (includeLeo : Bool)
    (className : JsString) (ctx : GenerationContext) (ds : List Declaration) : Prop where
  className_eq : className = resolveContractClassName abi includeLeo
  localNames : ∀ path ∈ abi.paths,
    pathToTsName path ∉ reservedBaseContractTypeImportNames ∧
      (abi.storageVariables ≠ [] → pathToTsName path ≠ className ++ js "Storage")
  helperNames : ∀ helper ∈ helpers, helper.helperName ∉
    (reservedHelperNames abi className includeLeo helpers ctx.externalInfoByKey.values).map Prod.fst
  declarations : ds = baseContractImport includeLeo
      (if ctx.externalStructRefs.values ≠ [] ∨ ctx.externalRecordRefs.values ≠ [] then
        some ctx.widenInputAlias else none) ++
    ctx.generateExternalImports ++
    abi.paths.flatMap ctx.generateInterfaces ++
    (if abi.storageVariables ≠ [] then [.interface (className ++ js "Storage")] else []) ++
    abi.structPaths.flatMap generateStructCodec ++
    abi.recordPaths.flatMap generateRecordCodec ++
    helpers.flatMap (fun helper =>
      [.function (implName helper.helperName), .const helper.helperName]) ++
    generateContractClass className

theorem checkLocalTypeName_ok {abi : ProgramABI} {className : JsString} {kind : TypeKind}
    {path : List JsString} (h : checkLocalTypeName abi className kind path = .ok ()) :
    pathToTsName path ∉ reservedBaseContractTypeImportNames ∧
      (abi.storageVariables ≠ [] → pathToTsName path ≠ className ++ js "Storage") := by
  unfold checkLocalTypeName at h
  dsimp only at h
  split at h
  · cases h
  next hreserved =>
  split at h
  · cases h
  next hstorage => exact ⟨hreserved, fun hne heq => hstorage ⟨hne, heq⟩⟩

theorem assertNoReservedLocalTypeNames_ok {abi : ProgramABI} {className : JsString}
    (h : assertNoReservedLocalTypeNames abi className = .ok ()) {path : List JsString}
    (hpath : path ∈ abi.paths) : pathToTsName path ∉ reservedBaseContractTypeImportNames ∧
      (abi.storageVariables ≠ [] → pathToTsName path ≠ className ++ js "Storage") := by
  obtain ⟨_, hstructs, hrecords⟩ := Fallible.bind_ok.mp h
  rcases List.mem_append.mp hpath with hmem | hmem
  · exact checkLocalTypeName_ok (Fallible.forM_ok.mp hstructs path hmem)
  · exact checkLocalTypeName_ok (Fallible.forM_ok.mp hrecords path hmem)

theorem assertNoReservedHelperNames_ok {abi : ProgramABI} {className : JsString} {includeLeo : Bool}
    {helpers : List DynamicRecordHelper} {externalInfos : List ExternalRefInfo}
    (h : assertNoReservedHelperNames abi className includeLeo helpers externalInfos = .ok ())
    {helper : DynamicRecordHelper} (hhelper : helper ∈ helpers) : helper.helperName ∉
      (reservedHelperNames abi className includeLeo helpers externalInfos).map Prod.fst := by
  have hcheck := Fallible.forM_ok.mp h helper hhelper
  intro hmem
  obtain ⟨entry, hentry, heq⟩ := List.mem_map.mp hmem
  obtain ⟨clashesWith, hget⟩ := InsertionMap.exists_get?_ofList hentry
  rw [heq] at hget
  simp only [hget] at hcheck
  cases hcheck

/-- A helper is a function and a constant. -/
theorem generateDynamicRecordHelper_ok {abi : ProgramABI} {helper : DynamicRecordHelper}
    {ds : List Declaration} (h : generateDynamicRecordHelper abi helper = .ok ds) :
    ds = [.function (implName helper.helperName), .const helper.helperName] := by
  unfold generateDynamicRecordHelper at h
  split at h
  · cases h
  obtain ⟨expectedFields, -, h⟩ := Fallible.bind_ok.mp h
  dsimp only at h
  split at h
  · cases h
  obtain ⟨_, -, h⟩ := Fallible.bind_ok.mp h
  cases h
  rfl

theorem flatten_helpers {abi : ProgramABI} {helpers : List DynamicRecordHelper}
    {declarations : List (List Declaration)}
    (h : helpers.mapM (generateDynamicRecordHelper abi) = .ok declarations) :
    declarations.flatten = helpers.flatMap fun helper =>
      [.function (implName helper.helperName), .const helper.helperName] := by
  have hall := Fallible.mapM_ok.mp h
  clear h
  induction hall with
  | nil => rfl
  | cons hhelper _ ih =>
    rw [List.flatten_cons, List.flatMap_cons, ih, generateDynamicRecordHelper_ok hhelper]

theorem generates {localeLE : JsString → JsString → Bool} {abi : ProgramABI}
    {allAbis : List ProgramABI} {dynamicRecords : List DynamicRecordHelper} {ds : List Declaration}
    (h : generateBindings localeLE abi allAbis dynamicRecords = .ok ds) :
    ∃ includeLeo className ctx, ctx = createGenerationContext localeLE abi allAbis
        ((ownHelpers abi dynamicRecords).map (·.helperName)) includeLeo ∧
      Generates abi (ownHelpers abi dynamicRecords) includeLeo className ctx ds := by
  unfold generateBindings at h
  dsimp only at h
  obtain ⟨_, -, h⟩ := Fallible.bind_ok.mp h
  obtain ⟨_, -, h⟩ := Fallible.bind_ok.mp h
  obtain ⟨_, hlocal, h⟩ := Fallible.bind_ok.mp h
  obtain ⟨_, -, h⟩ := Fallible.bind_ok.mp h
  obtain ⟨_, hhelpers, h⟩ := Fallible.bind_ok.mp h
  obtain ⟨declarations, hdeclarations, h⟩ := Fallible.bind_ok.mp h
  cases h
  refine ⟨_, _, _, rfl, rfl, fun path => assertNoReservedLocalTypeNames_ok hlocal,
    fun helper => assertNoReservedHelperNames_ok hhelpers, ?_⟩
  rw [flatten_helpers hdeclarations]
  rfl

/-! ## The names of a module -/

section Names

theorem typeNames_append (ds ds' : List Declaration) :
    typeNames (ds ++ ds') = typeNames ds ++ typeNames ds' := List.filterMap_append

theorem valueNames_append (ds ds' : List Declaration) :
    valueNames (ds ++ ds') = valueNames ds ++ valueNames ds' := List.filterMap_append

theorem typeNames_baseContractImport (includeLeo : Bool) (widenImport : Option JsString) :
    typeNames (baseContractImport includeLeo widenImport) =
      reservedBaseContractTypeImportNames ++ widenImport.toList := by
  have himport (names : List JsString) : typeNames (names.map .importType) = names := by
    unfold typeNames
    rw [List.filterMap_map]
    exact List.filterMap_some
  have hvalues (names : List JsString) : typeNames (names.map .importValue) = [] := by
    unfold typeNames
    rw [List.filterMap_map]
    exact List.filterMap_none _
  show typeNames ([.importClass (js "BaseContract")] ++ (_ ++ _ ++ _)) = _
  rw [typeNames_append, typeNames_append, typeNames_append, hvalues, himport, himport]
  rfl

theorem valueNames_baseContractImport (includeLeo : Bool) (widenImport : Option JsString) :
    valueNames (baseContractImport includeLeo widenImport) =
      baseContractValueImportNames includeLeo := by
  have himport (names : List JsString) : valueNames (names.map .importType) = [] := by
    unfold valueNames
    rw [List.filterMap_map]
    exact List.filterMap_none _
  have hvalues (names : List JsString) : valueNames (names.map .importValue) = names := by
    unfold valueNames
    rw [List.filterMap_map]
    exact List.filterMap_some
  show valueNames ([.importClass (js "BaseContract")] ++ (_ ++ _ ++ _)) = _
  rw [valueNames_append, valueNames_append, valueNames_append, hvalues, himport, himport,
    List.append_nil, List.append_nil]
  rfl

theorem typeNames_flatMap {α : Type} (f : α → List Declaration) (l : List α) :
    typeNames (l.flatMap f) = l.flatMap fun a => typeNames (f a) := by
  induction l with
  | nil => rfl
  | cons a l ih => rw [List.flatMap_cons, List.flatMap_cons, typeNames_append, ih]

theorem valueNames_flatMap {α : Type} (f : α → List Declaration) (l : List α) :
    valueNames (l.flatMap f) = l.flatMap fun a => valueNames (f a) := by
  induction l with
  | nil => rfl
  | cons a l ih => rw [List.flatMap_cons, List.flatMap_cons, valueNames_append, ih]

/-- The elements of a list with what is found for each. -/
theorem map_filterMap_eq {α β γ : Type} {f : α → Option β} {g : β → γ} {t : α → γ} {l : List α}
    (h : ∀ a ∈ l, ∃ b, f a = some b ∧ g b = t a) : (l.filterMap f).map g = l.map t := by
  induction l with
  | nil => rfl
  | cons a l ih =>
    obtain ⟨⟨b, hb, hg⟩, hl⟩ := List.forall_mem_cons.mp h
    rw [List.filterMap_cons_some hb, List.map_cons, List.map_cons, ih hl, hg]

end Names

/-- The names of the serializer and the deserializer of a type. -/
def codecNames (name : JsString) : List JsString := [js "serialize" ++ name, js "deserialize" ++ name]

namespace GenerationContext

/-- The specifiers of the imports, before those that are the same are made one. -/
def importSpecs (ctx : GenerationContext) : List ImportSpec :=
  (ctx.externalStructRefs.values.filterMap ctx.externalInfo).flatMap structImports ++
    (ctx.externalRecordRefs.values.filterMap ctx.externalInfo).flatMap recordImports

section

variable {localeLE : JsString → JsString → Bool} {abi : ProgramABI} {allAbis : List ProgramABI}
  {helperNames : List JsString} {includeLeo : Bool} {ctx : GenerationContext}
  (hctx : ctx = createGenerationContext localeLE abi allAbis helperNames includeLeo)
  (named : abi.Named) (hdistinct : Distinct abi allAbis)

include hctx named hdistinct

theorem map_typeName {refs : List StructRef} (hrefs : refs ⊆ ctx.externals) :
    (refs.filterMap ctx.externalInfo).map (·.typeName) = refs.map ctx.typeName := by
  refine map_filterMap_eq fun ref href => ?_
  obtain ⟨info, hinfo, -, hname, -⟩ := externalInfo_spec hctx named hdistinct (hrefs href)
  exact ⟨info, hinfo, hname⟩

theorem filter_externalInfo {refs : List StructRef} (hrefs : refs ⊆ ctx.externals) :
    refs.filter (fun ref => (ctx.externalInfo ref).isSome) = refs := by
  refine List.filter_eq_self.mpr fun ref href => ?_
  obtain ⟨info, hinfo, -⟩ := externalInfo_spec hctx named hdistinct (hrefs href)
  rw [hinfo]
  rfl

theorem refInputName_eq (localPaths : List (List JsString)) {ref : StructRef}
    (href : ref ∈ ctx.externals) :
    ctx.refInputName localPaths ref = ctx.inputNameOf (externalRefKey ref) := by
  have hforeign := isForeign hctx named href
  obtain ⟨program, hprogram, -⟩ := isExternalRef_iff.mp hforeign.external
  have hlocal : ¬((ref.program = none ∨ ref.program = some ctx.abi.program) ∧
      pathKey ref.path ∈ localPaths.map pathKey) := by
    rw [abi_eq hctx]
    rintro ⟨hnone | hown, -⟩
    · exact nomatch hprogram.symm.trans hnone
    · exact hforeign.notOwn hown
  obtain ⟨name, hget, -⟩ := inputName_spec hctx named hdistinct
    (List.mem_append_right _ (List.mem_map_of_mem href))
  unfold refInputName inputNameOf
  dsimp only
  rw [if_neg hlocal, hget]
  rfl

theorem inputName_eq {path : List JsString} (hpath : path ∈ abi.paths) :
    ctx.inputName path = ctx.inputNameOf (pathKey path) := by
  rw [← abi_eq hctx] at hpath
  obtain ⟨name, hget, -⟩ := inputName_spec hctx named hdistinct
    (List.mem_append_left _ (List.mem_map_of_mem hpath))
  unfold inputName inputNameOf
  rw [hget]
  rfl

theorem typeNames_importSpecs : typeNames (ctx.importSpecs.map (·.declares)) =
    ctx.externalStructRefs.values.map ctx.typeName ++
      ctx.externalRecordRefs.values.map fun ref => js "_" ++ ctx.typeName ref := by
  have hstructs (infos : List ExternalRefInfo) : typeNames ((infos.flatMap structImports).map
      (·.declares)) = infos.map (·.typeName) := by
    rw [List.map_flatMap, typeNames_flatMap, List.map_eq_flatMap]
    rfl
  have hrecords (infos : List ExternalRefInfo) : typeNames ((infos.flatMap recordImports).map
      (·.declares)) = (infos.map (·.typeName)).map (js "_" ++ ·) := by
    rw [List.map_flatMap, typeNames_flatMap, List.map_map, List.map_eq_flatMap]
    rfl
  unfold importSpecs
  rw [List.map_append, typeNames_append, hstructs, hrecords,
    map_typeName hctx named hdistinct (List.subset_append_left ..),
    map_typeName hctx named hdistinct (List.subset_append_right ..), List.map_map]
  rfl

theorem valueNames_importSpecs : valueNames (ctx.importSpecs.map (·.declares)) =
    (ctx.externals.map ctx.typeName).flatMap codecNames := by
  have hinfos (imports : ExternalRefInfo → List ImportSpec)
      (himports : ∀ info, valueNames ((imports info).map (·.declares)) = codecNames info.typeName)
      (infos : List ExternalRefInfo) : valueNames ((infos.flatMap imports).map (·.declares)) =
        (infos.map (·.typeName)).flatMap codecNames := by
    rw [List.map_flatMap, valueNames_flatMap, List.flatMap_map]
    exact List.flatMap_congr fun info _ => himports info
  unfold importSpecs externals
  rw [List.map_append, valueNames_append, hinfos structImports fun _ => rfl,
    hinfos recordImports fun _ => rfl,
    map_typeName hctx named hdistinct (List.subset_append_left ..),
    map_typeName hctx named hdistinct (List.subset_append_right ..), List.map_append,
    List.flatMap_append]

/-- The types that the imports and their aliases declare. -/
theorem typeNames_generateExternalImports : (typeNames ctx.generateExternalImports).Sublist
    (ctx.externalStructRefs.values.map ctx.typeName ++
      ctx.externalRecordRefs.values.map (fun ref => js "_" ++ ctx.typeName ref) ++
      ctx.externalRecordRefs.values.map ctx.typeName ++
      ctx.externals.map fun ref => ctx.inputNameOf (externalRefKey ref)) := by
  have hstructs : ctx.externalStructRefs.values ⊆ ctx.externals := List.subset_append_left ..
  have hrecords : ctx.externalRecordRefs.values ⊆ ctx.externals := List.subset_append_right ..
  have haliases (localPaths : List (List JsString)) (refs : List StructRef)
      (hrefs : refs ⊆ ctx.externals) : typeNames ((refs.filter fun ref =>
        (ctx.externalInfo ref).isSome).map fun ref => .typeAlias (ctx.refInputName localPaths ref)) =
        refs.map fun ref => ctx.inputNameOf (externalRefKey ref) := by
    rw [filter_externalInfo hctx named hdistinct hrefs, typeNames, List.filterMap_map]
    show refs.filterMap (fun ref => some (ctx.refInputName localPaths ref)) = _
    rw [List.filterMap_eq_map']
    exact List.map_congr_left fun ref href =>
      refInputName_eq hctx named hdistinct localPaths (hrefs href)
  have hvalues (infos : List ExternalRefInfo) : typeNames (infos.flatMap fun info =>
      [.typeAlias info.typeName, .const info.typeName]) = infos.map (·.typeName) := by
    rw [typeNames_flatMap, List.map_eq_flatMap]
    rfl
  unfold generateExternalImports
  dsimp only
  rw [typeNames_append, typeNames_append, typeNames_append, haliases _ _ hstructs,
    haliases _ _ hrecords, hvalues, map_typeName hctx named hdistinct hrecords, List.append_assoc,
    ← List.map_append]
  refine List.Sublist.append (List.Sublist.append ?_ (List.Sublist.refl _)) (List.Sublist.refl _)
  rw [← typeNames_importSpecs hctx named hdistinct]
  exact ((List.dedup_sublist _).map _).filterMap _

theorem valueNames_generateExternalImports : (valueNames ctx.generateExternalImports).Sublist
    ((ctx.externals.map ctx.typeName).flatMap codecNames ++
      ctx.externalRecordRefs.values.map ctx.typeName) := by
  have hrecords : ctx.externalRecordRefs.values ⊆ ctx.externals := List.subset_append_right ..
  have haliases (localPaths : List (List JsString)) (refs : List StructRef) :
      valueNames (refs.map fun ref => .typeAlias (ctx.refInputName localPaths ref)) = [] := by
    rw [valueNames, List.filterMap_map]
    exact List.filterMap_none _
  have hvalues (infos : List ExternalRefInfo) : valueNames (infos.flatMap fun info =>
      [.typeAlias info.typeName, .const info.typeName]) = infos.map (·.typeName) := by
    rw [valueNames_flatMap, List.map_eq_flatMap]
    rfl
  unfold generateExternalImports
  dsimp only
  rw [valueNames_append, valueNames_append, valueNames_append, haliases, haliases, hvalues,
    map_typeName hctx named hdistinct hrecords, List.append_nil, List.append_nil]
  refine List.Sublist.append ?_ (List.Sublist.refl _)
  rw [← valueNames_importSpecs hctx named hdistinct]
  exact ((List.dedup_sublist _).map _).filterMap _

end

end GenerationContext

/-! ## Types -/

/-- No name of `BaseContract` has an underscore, and those that end with `Input` are reserved for
input names. -/
theorem reservedTypeName_spec : ∀ name ∈ reservedBaseContractTypeImportNames,
    Begins isLetter name ∧ unit '_' ∉ name ∧ ¬js "Storage" <:+ name ∧ ¬js "WidenInput" <+: name ∧
      (js "Input" <:+ name → name ∈ reservedInputImports) := by
  decide +kernel

section Types

variable {abi : ProgramABI} {helpers : List DynamicRecordHelper} {includeLeo : Bool}
  {className : JsString} {ctx : GenerationContext} {ds : List Declaration}

/-- The class has a name of its own. -/
theorem className_spec (abi : ProgramABI) (includeLeo : Bool) :
    Begins isUpper (programIdToClassName abi.program) →
      Begins isUpper (resolveContractClassName abi includeLeo) ∧
      resolveContractClassName abi includeLeo ∉ reservedBaseContractImportNames includeLeo ∧
      resolveContractClassName abi includeLeo ∉ abi.localTypeNames := by
  intro hbegins
  have hfree := fresh_notMem (classCandidate_injective (programIdToClassName abi.program))
    (reservedBaseContractImportNames includeLeo ++ abi.localTypeNames)
  rw [List.mem_append, not_or] at hfree
  exact ⟨hbegins.append _, hfree⟩

/-- The names of the types that the program itself declares. -/
def ownTypeNames (abi : ProgramABI) (className : JsString) : List JsString :=
  abi.localTypeNames ++
    ((if abi.storageVariables ≠ [] then [className ++ js "Storage"] else []) ++ [className])

theorem mem_ownTypeNames {name : JsString} (h : name ∈ ownTypeNames abi className) :
    name ∈ abi.localTypeNames ∨ name = className ++ js "Storage" ∨ name = className := by
  unfold ownTypeNames at h
  rcases List.mem_append.mp h with h | h
  · exact .inl h
  · refine .inr ?_
    rcases List.mem_append.mp h with h | h
    · split at h
      · exact .inl (List.mem_singleton.mp h)
      · exact nomatch h
    · exact .inr (List.mem_singleton.mp h)

theorem begins_className (named : abi.Named)
    (hg : Generates abi helpers includeLeo className ctx ds) : Begins isUpper className := by
  rw [hg.className_eq]
  exact (className_spec abi includeLeo (begins_programIdToClassName named.program)).1

theorem className_notReserved (named : abi.Named)
    (hg : Generates abi helpers includeLeo className ctx ds) :
    className ∉ reservedBaseContractImportNames includeLeo ∧ className ∉ abi.localTypeNames := by
  rw [hg.className_eq]
  exact (className_spec abi includeLeo (begins_programIdToClassName named.program)).2

theorem begins_localTypeName (named : abi.Named) {name : JsString} (h : name ∈ abi.localTypeNames) :
    Begins isLetter name := by
  rw [← abi.map_paths] at h
  obtain ⟨path, hpath, rfl⟩ := List.mem_map.mp h
  exact begins_pathToTsName (named.isPath hpath)

theorem begins_ownTypeName (named : abi.Named)
    (hg : Generates abi helpers includeLeo className ctx ds) {name : JsString}
    (h : name ∈ ownTypeNames abi className) : Begins isLetter name := by
  have hclass := (begins_className named hg).mono isLetter_of_isUpper
  rcases mem_ownTypeNames h with h | rfl | rfl
  · exact begins_localTypeName named h
  · exact hclass.append _
  · exact hclass

theorem nodup_ownTypeNames (named : abi.Named) (htypes : abi.localTypeNames.Nodup)
    (hg : Generates abi helpers includeLeo className ctx ds) :
    (ownTypeNames abi className).Nodup := by
  have hstorage : className ++ js "Storage" ≠ className := fun h => by
    have hlength := congrArg List.length h
    rw [List.length_append, Nat.add_eq_left] at hlength
    exact absurd hlength (by decide)
  have hclass := (className_notReserved named hg).2
  unfold ownTypeNames
  rw [List.nodup_append']
  refine ⟨htypes, ?_, fun name hname hown => ?_⟩
  · split
    · simpa using hstorage
    · exact List.nodup_singleton className
  · rcases List.mem_append.mp hown with h | h
    · split at h
      next hvariables =>
        rw [← abi.map_paths] at hname
        obtain ⟨path, hpath, rfl⟩ := List.mem_map.mp hname
        exact (hg.localNames path hpath).2 hvariables (List.mem_singleton.mp h)
      · exact nomatch h
    · exact hclass (List.mem_singleton.mp h ▸ hname)

theorem ownTypeNames_notReserved (named : abi.Named)
    (hg : Generates abi helpers includeLeo className ctx ds) {name : JsString}
    (h : name ∈ ownTypeNames abi className) : name ∉ reservedBaseContractTypeImportNames := by
  intro hreserved
  rcases mem_ownTypeNames h with h | rfl | rfl
  · rw [← abi.map_paths] at h
    obtain ⟨path, hpath, rfl⟩ := List.mem_map.mp h
    exact (hg.localNames path hpath).1 hreserved
  · exact (reservedTypeName_spec _ hreserved).2.2.1 (List.suffix_append ..)
  · exact (className_notReserved named hg).1 (List.mem_append_right _ hreserved)

theorem ownTypeNames_subset (hg : Generates abi helpers includeLeo className ctx ds) :
    ownTypeNames abi className ⊆ localDeclaredNames abi includeLeo := by
  intro name h
  unfold localDeclaredNames
  dsimp only
  rw [← hg.className_eq]
  rcases mem_ownTypeNames h with h | rfl | rfl
  · exact List.mem_cons_of_mem _ (List.mem_cons_of_mem _ h)
  · exact List.mem_cons_of_mem _ List.mem_cons_self
  · exact List.mem_cons_self

variable {localeLE : JsString → JsString → Bool} {allAbis : List ProgramABI}
  (hctx : ctx = createGenerationContext localeLE abi allAbis (helpers.map (·.helperName)) includeLeo)
  (named : abi.Named) (hdistinct : Distinct abi allAbis)

include hctx named hdistinct

theorem typeName_begins {name : JsString} (h : name ∈ ctx.externals.map ctx.typeName) :
    Begins isUpper name ∧ unit '_' ∈ name ∧ name ∉ localDeclaredNames abi includeLeo := by
  obtain ⟨ref, href, rfl⟩ := List.mem_map.mp h
  obtain ⟨k, hk, hfree⟩ := GenerationContext.typeName_spec hctx named hdistinct href
  obtain ⟨program, hprogram, -, hid⟩ :=
    isExternalRef_iff.mp (GenerationContext.isForeign hctx named href).external
  refine ⟨?_, ?_, hfree⟩
  · rw [hk, underscored, preferredAlias, hprogram]
    exact (((begins_programIdToClassName hid).append _).append _).append _
  · rw [hk, underscored, preferredAlias]
    exact List.mem_append_left _ (List.mem_append_left _ (List.mem_append_right _ (by decide)))

theorem inputNameOf_spec {name : JsString} (h : name ∈ ctx.inputKeys.map ctx.inputNameOf) :
    Begins isLetter name ∧ js "Input" <:+ name ∧
      name ∉ reservedInputImports ++ ctx.declared abi (helpers.map (·.helperName)) includeLeo := by
  obtain ⟨key, hkey, rfl⟩ := List.mem_map.mp h
  obtain ⟨name, hget, hfree, base, hbase, k, hk⟩ :=
    GenerationContext.inputName_spec hctx named hdistinct hkey
  unfold GenerationContext.inputNameOf
  rw [hget, Option.getD_some]
  refine ⟨?_, ?_, hfree⟩
  · have hbegins : Begins isLetter base := by
      rcases List.mem_append.mp hbase with h | h
      · exact begins_localTypeName named h
      · exact (typeName_begins hctx named hdistinct h).1.mono isLetter_of_isUpper
    rw [hk]
    exact (hbegins.append _).append _
  · rw [hk]
    exact List.suffix_append ..

/-- The types of a module: what is imported, the program's own types, those of other programs, the
input types, `WidenInput`, and the private names of imported records. -/
def typeFamilies (abi : ProgramABI) (className : JsString) (ctx : GenerationContext) :
    List JsString :=
  reservedBaseContractTypeImportNames ++ ownTypeNames abi className ++
    ctx.externals.map ctx.typeName ++ ctx.inputKeys.map ctx.inputNameOf ++ [ctx.widenInputAlias] ++
    ctx.externalRecordRefs.values.map fun ref => js "_" ++ ctx.typeName ref

theorem nodup_typeFamilies (hg : Generates abi helpers includeLeo className ctx ds) :
    (typeFamilies abi className ctx).Nodup := by
  have hinput (name : JsString) (h : name ∈ ctx.inputKeys.map ctx.inputNameOf) :=
    inputNameOf_spec hctx named hdistinct h
  obtain ⟨⟨k, hwiden⟩, hwidenDeclared, hwidenInput⟩ :=
    GenerationContext.widenInputAlias_spec hctx named hdistinct
  -- What is declared is avoided by the input names and by `WidenInput`.
  have hdeclared : ∀ name, name ∈ ownTypeNames abi className ∨ name ∈ ctx.externals.map ctx.typeName →
      name ∈ ctx.declared abi (helpers.map (·.helperName)) includeLeo := by
    rintro name (h | h)
    · exact List.mem_append_left _ (List.mem_append_left _ (ownTypeNames_subset hg h))
    · exact List.mem_append_right _ h
  have hunderscore : ¬isLetter (unit '_') := by decide
  unfold typeFamilies
  refine List.nodup_append'.mpr ⟨List.nodup_append'.mpr ⟨List.nodup_append'.mpr
    ⟨List.nodup_append'.mpr ⟨List.nodup_append'.mpr ⟨?_, ?_, ?_⟩, ?_, ?_⟩, ?_, ?_⟩, ?_, ?_⟩, ?_, ?_⟩
  · decide +kernel
  · exact nodup_ownTypeNames named hdistinct.types hg
  · exact fun name hreserved hown => ownTypeNames_notReserved named hg hown hreserved
  · exact GenerationContext.nodup_typeName hctx named hdistinct
  · intro name hbefore hexternal
    obtain ⟨-, hmem, hfree⟩ := typeName_begins hctx named hdistinct hexternal
    rcases List.mem_append.mp hbefore with h | h
    · exact (reservedTypeName_spec name h).2.1 hmem
    · exact hfree (ownTypeNames_subset hg h)
  · exact GenerationContext.nodup_inputNameOf hctx named hdistinct
  · intro name hbefore hname
    obtain ⟨-, hsuffix, hfree⟩ := hinput name hname
    rw [List.mem_append, not_or] at hfree
    rcases List.mem_append.mp hbefore with h | h
    · rcases List.mem_append.mp h with h | h
      · exact hfree.1 ((reservedTypeName_spec name h).2.2.2.2 hsuffix)
      · exact hfree.2 (hdeclared name (.inl h))
    · exact hfree.2 (hdeclared name (.inr h))
  · exact List.nodup_singleton _
  · intro name hbefore hname
    rw [List.mem_singleton.mp hname] at hbefore
    rcases List.mem_append.mp hbefore with h | h
    · rcases List.mem_append.mp h with h | h
      · rcases List.mem_append.mp h with h | h
        · refine (reservedTypeName_spec _ h).2.2.2.1 ?_
          rw [hwiden]
          exact List.prefix_append ..
        · exact hwidenDeclared (hdeclared _ (.inl h))
      · exact hwidenDeclared (hdeclared _ (.inr h))
    · exact hwidenInput h
  · have hnodup := GenerationContext.nodup_typeName hctx named hdistinct
    unfold GenerationContext.externals at hnodup
    rw [List.map_append, List.nodup_append'] at hnodup
    have hmap : (ctx.externalRecordRefs.values.map fun ref => js "_" ++ ctx.typeName ref) =
        (ctx.externalRecordRefs.values.map ctx.typeName).map (js "_" ++ ·) := by
      rw [List.map_map]
      rfl
    rw [hmap]
    exact hnodup.2.1.map fun _ _ h => List.append_cancel_left h
  · intro name hbefore hname
    obtain ⟨ref, -, rfl⟩ := List.mem_map.mp hname
    -- Every other name begins with a letter.
    have hletter : Begins isLetter (js "_" ++ ctx.typeName ref) := by
      rcases List.mem_append.mp hbefore with h | h
      · rcases List.mem_append.mp h with h | h
        · rcases List.mem_append.mp h with h | h
          · rcases List.mem_append.mp h with h | h
            · exact (reservedTypeName_spec _ h).1
            · exact begins_ownTypeName named hg h
          · exact (typeName_begins hctx named hdistinct h).1.mono isLetter_of_isUpper
        · exact (hinput _ h).1
      · rw [List.mem_singleton.mp h, hwiden]
        exact Begins.append (by decide) _
    exact hunderscore hletter

omit hctx named hdistinct in
theorem typeNames_eq (hg : Generates abi helpers includeLeo className ctx ds) : typeNames ds =
    reservedBaseContractTypeImportNames ++
      (if ctx.externalStructRefs.values ≠ [] ∨ ctx.externalRecordRefs.values ≠ [] then
        some ctx.widenInputAlias else none).toList ++
      typeNames ctx.generateExternalImports ++
      abi.paths.flatMap (fun path => [pathToTsName path, ctx.inputName path]) ++
      (if abi.storageVariables ≠ [] then [className ++ js "Storage"] else []) ++ [className] := by
  have hstorage : typeNames (if abi.storageVariables ≠ [] then
      [.interface (className ++ js "Storage")] else []) =
      if abi.storageVariables ≠ [] then [className ++ js "Storage"] else [] := by
    split <;> rfl
  have hstructs : typeNames (abi.structPaths.flatMap generateStructCodec) = [] := by
    rw [typeNames_flatMap]
    exact List.flatMap_eq_nil_iff.mpr fun _ _ => rfl
  have hrecords : typeNames (abi.recordPaths.flatMap generateRecordCodec) = [] := by
    rw [typeNames_flatMap]
    exact List.flatMap_eq_nil_iff.mpr fun _ _ => rfl
  have hhelpers : typeNames (helpers.flatMap fun helper =>
      [.function (implName helper.helperName), .const helper.helperName]) = [] := by
    rw [typeNames_flatMap]
    exact List.flatMap_eq_nil_iff.mpr fun _ _ => rfl
  have hinterfaces : typeNames (abi.paths.flatMap ctx.generateInterfaces) =
      abi.paths.flatMap fun path => [pathToTsName path, ctx.inputName path] := by
    rw [typeNames_flatMap]
    rfl
  rw [hg.declarations]
  simp only [typeNames_append, typeNames_baseContractImport, hinterfaces, hstorage, hstructs,
    hrecords, hhelpers, List.append_nil]
  rfl

/-- **The types have different names**, if the program's own types do and no reference is both to a
struct and to a record. -/
theorem nodup_typeNames_of_distinct (hg : Generates abi helpers includeLeo className ctx ds) :
    (typeNames ds).Nodup := by
  have hexternals := GenerationContext.typeNames_generateExternalImports hctx named hdistinct
  have hpaths : (abi.paths.flatMap fun path => [pathToTsName path, ctx.inputName path]).Perm
      (abi.localTypeNames ++ abi.paths.map fun path => ctx.inputNameOf (pathKey path)) := by
    have hinput : abi.paths.map (fun path => ctx.inputNameOf (pathKey path)) =
        abi.paths.map ctx.inputName :=
      List.map_congr_left fun path hpath =>
        (GenerationContext.inputName_eq hctx named hdistinct hpath).symm
    rw [hinput, ← abi.map_paths]
    rw [List.map_eq_flatMap (f := ctx.inputName)]
    exact (List.map_append_flatMap_perm abi.paths pathToTsName _).symm
  have hwiden : ((if ctx.externalStructRefs.values ≠ [] ∨ ctx.externalRecordRefs.values ≠ [] then
      some ctx.widenInputAlias else none).toList).Sublist [ctx.widenInputAlias] := by
    split
    · exact List.Sublist.refl _
    · exact List.nil_sublist _
  have hfamilies := nodup_typeFamilies hctx named hdistinct hg
  rw [List.nodup_iff_count_le_one] at hfamilies ⊢
  intro name
  refine le_trans ?_ (hfamilies name)
  have hexternalsCount := hexternals.count_le name
  have hwidenCount := hwiden.count_le name
  rw [typeNames_eq hg]
  unfold typeFamilies ownTypeNames GenerationContext.inputKeys
  simp only [GenerationContext.abi_eq hctx, List.map_append, List.map_map, List.count_append,
    hpaths.count_eq, GenerationContext.externals, Function.comp_def] at hexternalsCount ⊢
  omega

end Types

/-! ## Values -/

/-- What the name of a function begins with. -/
inductive Verb where
  | serialize
  | deserialize
  | decrypt
  | create
  | bind
  deriving DecidableEq

def Verb.text : Verb → JsString
  | serialize => js "serialize"
  | deserialize => js "deserialize"
  | decrypt => js "decrypt"
  | create => js "create"
  | bind => js "bindDynamicRecordHelperProgram"

def verbName (name : Verb × JsString) : JsString := name.1.text ++ name.2

theorem Verb.three_le_length (verb : Verb) : 3 ≤ verb.text.length := by
  cases verb <;> decide

/-- Three characters tell which verb it is. -/
theorem Verb.eq_of_take {verb verb' : Verb} (h : verb.text.take 3 = verb'.text.take 3) :
    verb = verb' := by
  revert h
  cases verb <;> cases verb' <;> decide

theorem verbName_injective : verbName.Injective := by
  rintro ⟨verb, name⟩ ⟨verb', name'⟩ h
  have htake := congrArg (List.take 3) h
  unfold verbName at htake
  rw [List.take_append_of_le_length verb.three_le_length,
    List.take_append_of_le_length verb'.three_le_length] at htake
  obtain rfl := Verb.eq_of_take htake
  exact congrArg (verb, ·) (List.append_cancel_left h)

theorem begins_verbName (name : Verb × JsString) :
    Begins isLetter (verbName name) ∧ ¬Begins isUpper (verbName name) := by
  obtain ⟨verb, name⟩ := name
  have hupper : ¬Begins isUpper verb.text := by cases verb <;> decide
  have hletter : Begins isLetter verb.text := by cases verb <;> decide
  refine ⟨hletter.append name, fun h => hupper ?_⟩
  unfold verbName at h
  cases htext : verb.text with
  | nil =>
    rw [htext] at hletter
    cases hletter
  | cons c rest =>
    rw [htext] at h
    exact h

section Values

variable {abi : ProgramABI} {helpers : List DynamicRecordHelper} {includeLeo : Bool}
  {className : JsString} {ctx : GenerationContext} {ds : List Declaration}

theorem map_fst_reservedHelperNames (externalInfos : List ExternalRefInfo) :
    (reservedHelperNames abi className includeLeo helpers externalInfos).map Prod.fst =
      baseContractValueImportNames includeLeo ++ [className, js "create" ++ className] ++
        (abi.structPaths.map pathToTsName).flatMap codecNames ++
        (abi.recordPaths.map pathToTsName).flatMap
          (fun name => codecNames name ++ [js "decrypt" ++ name]) ++
        externalInfos.flatMap (fun info => codecNames info.typeName ++
          if info.emitsValueBinding then [info.typeName] else []) ++
        helpers.map fun helper => implName helper.helperName := by
  have hinfo (info : ExternalRefInfo) : (([(info.serializerName,
          js "the imported external serializer '" ++ info.serializerName ++ js "'"),
        (info.deserializerName,
          js "the imported external deserializer '" ++ info.deserializerName ++ js "'")] ++
        if info.emitsValueBinding then
          [(info.typeName, js "the external record binding '" ++ info.typeName ++ js "'")]
        else []).map Prod.fst) = codecNames info.typeName ++
          if info.emitsValueBinding then [info.typeName] else [] := by
    rw [List.map_append]
    split <;> rfl
  unfold reservedHelperNames
  simp only [List.map_append, List.map_map, List.map_flatMap, List.flatMap_map, hinfo,
    Function.comp_def, List.map_id_fun', id_eq]
  rfl

/-- The names of the values that are capitalized. -/
def capitalValueNames (includeLeo : Bool) (className : JsString) (ctx : GenerationContext) :
    List JsString :=
  [js "BaseContract"] ++ (if includeLeo then [js "Leo"] else []) ++ [className] ++
    ctx.externalRecordRefs.values.map ctx.typeName

/-- The functions that every module imports or declares. -/
def baseVerbs (includeLeo : Bool) (className : JsString) : List (Verb × JsString) :=
  (if includeLeo then [(.bind, [])] else []) ++
    [(.create, js "RecordOutputMatcher"), (.create, className)]

/-- The functions of a module and the functions that it imports. -/
def verbs (abi : ProgramABI) (includeLeo : Bool) (className : JsString) (ctx : GenerationContext) :
    List (Verb × JsString) :=
  baseVerbs includeLeo className ++
    (ctx.externals.map ctx.typeName ++ abi.localTypeNames).map (.serialize, ·) ++
    (ctx.externals.map ctx.typeName ++ abi.localTypeNames).map (.deserialize, ·) ++
    (abi.recordPaths.map pathToTsName).map (.decrypt, ·)

def valueFamilies (abi : ProgramABI) (helpers : List DynamicRecordHelper) (includeLeo : Bool)
    (className : JsString) (ctx : GenerationContext) : List JsString :=
  capitalValueNames includeLeo className ctx ++ (verbs abi includeLeo className ctx).map verbName ++
    helpers.map (fun helper => implName helper.helperName) ++ helpers.map (·.helperName)

theorem valueNames_eq (hg : Generates abi helpers includeLeo className ctx ds) : valueNames ds =
    baseContractValueImportNames includeLeo ++ valueNames ctx.generateExternalImports ++
      (abi.structPaths.map pathToTsName).flatMap codecNames ++
      (abi.recordPaths.map pathToTsName).flatMap
        (fun name => codecNames name ++ [js "decrypt" ++ name]) ++
      helpers.flatMap (fun helper => [implName helper.helperName, helper.helperName]) ++
      [className, js "create" ++ className] := by
  have hinterfaces : valueNames (abi.paths.flatMap ctx.generateInterfaces) = [] := by
    rw [valueNames_flatMap]
    exact List.flatMap_eq_nil_iff.mpr fun _ _ => rfl
  have hstorage : valueNames (if abi.storageVariables ≠ [] then
      [.interface (className ++ js "Storage")] else []) = [] := by
    split <;> rfl
  have hstructs : valueNames (abi.structPaths.flatMap generateStructCodec) =
      (abi.structPaths.map pathToTsName).flatMap codecNames := by
    rw [valueNames_flatMap, List.flatMap_map]
    rfl
  have hrecords : valueNames (abi.recordPaths.flatMap generateRecordCodec) =
      (abi.recordPaths.map pathToTsName).flatMap
        (fun name => codecNames name ++ [js "decrypt" ++ name]) := by
    rw [valueNames_flatMap, List.flatMap_map]
    rfl
  have hhelpers : valueNames (helpers.flatMap fun helper =>
      [.function (implName helper.helperName), .const helper.helperName]) =
      helpers.flatMap fun helper => [implName helper.helperName, helper.helperName] := by
    rw [valueNames_flatMap]
    rfl
  rw [hg.declarations]
  simp only [valueNames_append, valueNames_baseContractImport, hinterfaces, hstorage, hstructs,
    hrecords, hhelpers, List.append_nil]
  rfl

theorem implName_injective : implName.Injective := fun _ _ h =>
  List.append_cancel_left (List.append_cancel_right h)

theorem perm_flatMap_codecNames (names : List JsString) : (names.flatMap codecNames).Perm
    (names.map (js "serialize" ++ ·) ++ names.map (js "deserialize" ++ ·)) := by
  rw [List.map_eq_flatMap (f := (js "deserialize" ++ ·))]
  exact (List.map_append_flatMap_perm names _ _).symm

variable {localeLE : JsString → JsString → Bool} {allAbis : List ProgramABI}
  (hctx : ctx = createGenerationContext localeLE abi allAbis (helpers.map (·.helperName)) includeLeo)
  (named : abi.Named) (hdistinct : Distinct abi allAbis)

include hctx named hdistinct

theorem nodup_capitalValueNames (hg : Generates abi helpers includeLeo className ctx ds) :
    (capitalValueNames includeLeo className ctx).Nodup := by
  have hreserved := (className_notReserved named hg).1
  have hrecords {name : JsString} (h : name ∈ ctx.externalRecordRefs.values.map ctx.typeName) :
      unit '_' ∈ name ∧ name ∉ localDeclaredNames abi includeLeo :=
    (typeName_begins hctx named hdistinct (List.map_subset _ (List.subset_append_right ..) h)).2
  have hnodup := GenerationContext.nodup_typeName hctx named hdistinct
  unfold GenerationContext.externals at hnodup
  rw [List.map_append, List.nodup_append'] at hnodup
  unfold capitalValueNames
  refine List.nodup_append'.mpr ⟨List.nodup_append'.mpr ⟨?_, ?_, ?_⟩, hnodup.2.1, ?_⟩
  · cases includeLeo <;> decide
  · exact List.nodup_singleton _
  · intro name hname hclass
    rw [List.mem_singleton.mp hclass] at hname
    refine hreserved (List.mem_append_left _ ?_)
    unfold baseContractValueImportNames
    cases includeLeo
    · exact List.mem_of_mem_head? (Option.mem_def.mpr (congrArg some (List.mem_singleton.mp hname).symm))
    · rcases List.mem_cons.mp hname with h | h
      · exact h ▸ List.mem_cons_self
      · exact List.mem_cons_of_mem _ (List.mem_append_left _ (List.mem_singleton.mp h ▸ List.mem_cons_self))
  · intro name hname hrecord
    obtain ⟨hmem, hfree⟩ := hrecords hrecord
    rcases List.mem_append.mp hname with h | h
    · -- The names that are imported have no underscore.
      have hbase : ∀ name ∈ [js "BaseContract"] ++ (if includeLeo then [js "Leo"] else []),
          unit '_' ∉ name := by
        cases includeLeo <;> decide
      exact hbase name h hmem
    · refine hfree ?_
      rw [List.mem_singleton.mp h, hg.className_eq]
      exact List.mem_cons_self

theorem nodup_verbs (hg : Generates abi helpers includeLeo className ctx ds) :
    (verbs abi includeLeo className ctx).Nodup := by
  have htypes : (ctx.externals.map ctx.typeName ++ abi.localTypeNames).Nodup := by
    refine List.nodup_append'.mpr ⟨GenerationContext.nodup_typeName hctx named hdistinct,
      hdistinct.types, fun name hname hlocal => ?_⟩
    exact (typeName_begins hctx named hdistinct hname).2.2
      (List.mem_cons_of_mem _ (List.mem_cons_of_mem _ hlocal))
  have hrecords : (abi.recordPaths.map pathToTsName).Nodup := by
    have hlocal := hdistinct.types
    rw [← abi.map_paths, ProgramABI.paths, List.map_append, List.nodup_append'] at hlocal
    exact hlocal.2.1
  have hclass : className ≠ js "RecordOutputMatcher" := by
    rintro rfl
    exact (className_notReserved named hg).1 (List.mem_append_right _ (by decide +kernel))
  have hpair (verb : Verb) {names : List JsString} (h : names.Nodup) :
      (names.map (verb, ·)).Nodup :=
    h.map fun _ _ heq => (Prod.mk.inj heq).2
  -- The parts have different verbs.
  have hverb (verb : Verb) (names : List JsString) (others : List (Verb × JsString))
      (hothers : ∀ name ∈ others, name.1 ≠ verb) : others.Disjoint (names.map (verb, ·)) := by
    intro name hother hname
    obtain ⟨_, -, rfl⟩ := List.mem_map.mp hname
    exact hothers _ hother rfl
  have hmap {verb verb' : Verb} (hne : verb ≠ verb') (names : List JsString) :
      ∀ name ∈ names.map (verb, ·), name.1 ≠ verb' := by
    intro name hname
    obtain ⟨_, -, rfl⟩ := List.mem_map.mp hname
    exact hne
  have hbase {verb : Verb} (hverb : verb ≠ .bind ∧ verb ≠ .create) :
      ∀ name ∈ baseVerbs includeLeo className, name.1 ≠ verb := by
    unfold baseVerbs
    cases includeLeo <;> simp [hverb.1.symm, hverb.2.symm]
  unfold verbs
  refine List.nodup_append'.mpr ⟨List.nodup_append'.mpr ⟨List.nodup_append'.mpr ⟨?_,
    hpair _ htypes, hverb _ _ _ ?_⟩, hpair _ htypes, hverb _ _ _ ?_⟩, hpair _ hrecords,
    hverb _ _ _ ?_⟩
  · unfold baseVerbs
    cases includeLeo <;> simp [hclass.symm]
  · exact hbase (by decide)
  · exact List.forall_mem_append.mpr ⟨hbase (by decide), hmap (by decide) _⟩
  · exact List.forall_mem_append.mpr ⟨List.forall_mem_append.mpr
      ⟨hbase (by decide), hmap (by decide) _⟩, hmap (by decide) _⟩

/-- What the names of helpers avoid. -/
theorem reserved_of_mem (hg : Generates abi helpers includeLeo className ctx ds) {name : JsString}
    (h : name ∈ capitalValueNames includeLeo className ctx ++
      (verbs abi includeLeo className ctx).map verbName ++
      helpers.map fun helper => implName helper.helperName) :
    name ∈ (reservedHelperNames abi className includeLeo helpers
      ctx.externalInfoByKey.values).map Prod.fst := by
  have hexternal {type : JsString} (htype : type ∈ ctx.externals.map ctx.typeName) {name : JsString}
      (hname : name ∈ codecNames type) : name ∈ ctx.externalInfoByKey.values.flatMap fun info =>
        codecNames info.typeName ++ if info.emitsValueBinding then [info.typeName] else [] := by
    obtain ⟨ref, href, rfl⟩ := List.mem_map.mp htype
    obtain ⟨info, -, hinfo, heq, -⟩ :=
      GenerationContext.externalInfo_spec hctx named hdistinct href
    exact List.mem_flatMap.mpr ⟨info, hinfo, List.mem_append_left _ (heq ▸ hname)⟩
  have hrecord {name : JsString} (hname : name ∈ ctx.externalRecordRefs.values.map ctx.typeName) :
      name ∈ ctx.externalInfoByKey.values.flatMap fun info =>
        codecNames info.typeName ++ if info.emitsValueBinding then [info.typeName] else [] := by
    obtain ⟨ref, href, rfl⟩ := List.mem_map.mp hname
    obtain ⟨info, -, hinfo, heq, hvalue⟩ :=
      GenerationContext.externalInfo_spec hctx named hdistinct (List.mem_append_right _ href)
    refine List.mem_flatMap.mpr ⟨info, hinfo, List.mem_append_right _ ?_⟩
    rw [if_pos (hvalue href), heq]
    exact List.mem_singleton_self _
  have hcodec {P Q R : Prop} {type : JsString}
      (htype : type ∈ ctx.externals.map ctx.typeName ++ abi.localTypeNames) {name : JsString}
      (hname : name ∈ codecNames type) :
      ((((P ∨ Q) ∨ name ∈ (abi.structPaths.map pathToTsName).flatMap codecNames) ∨
        name ∈ (abi.recordPaths.map pathToTsName).flatMap
          (fun name => codecNames name ++ [js "decrypt" ++ name])) ∨
        name ∈ ctx.externalInfoByKey.values.flatMap fun info =>
          codecNames info.typeName ++ if info.emitsValueBinding then [info.typeName] else []) ∨
        R := by
    rw [← abi.map_paths, ProgramABI.paths, List.map_append] at htype
    rcases List.mem_append.mp htype with h | h
    · exact .inl (.inr (hexternal h hname))
    · rcases List.mem_append.mp h with h | h
      · exact .inl (.inl (.inl (.inr (List.mem_flatMap.mpr ⟨type, h, hname⟩))))
      · exact .inl (.inl (.inr (List.mem_flatMap.mpr ⟨type, h, List.mem_append_left _ hname⟩)))
  rw [map_fst_reservedHelperNames]
  simp only [List.mem_append] at h ⊢
  have hvalue {Q R S T U : Prop} {name : JsString}
      (hname : name ∈ baseContractValueImportNames includeLeo) :
      ((((name ∈ baseContractValueImportNames includeLeo ∨ Q) ∨ R) ∨ S) ∨ T) ∨ U :=
    .inl (.inl (.inl (.inl (.inl hname))))
  have hclass {Q R S T U : Prop} {name : JsString} {names : List JsString} (hname : name ∈ names) :
      ((((Q ∨ name ∈ names) ∨ R) ∨ S) ∨ T) ∨ U :=
    .inl (.inl (.inl (.inl (.inr hname))))
  rcases h with (h | h) | h
  · unfold capitalValueNames at h
    simp only [List.mem_append] at h
    rcases h with ((h | h) | h) | h
    · rw [List.mem_singleton.mp h]
      exact hvalue List.mem_cons_self
    · cases includeLeo with
      | false => exact nomatch h
      | true =>
        rw [List.mem_singleton.mp h]
        exact hvalue (List.mem_cons_of_mem _ List.mem_cons_self)
    · rw [List.mem_singleton.mp h]
      exact hclass List.mem_cons_self
    · exact .inl (.inr (hrecord h))
  · obtain ⟨verb, hverb, rfl⟩ := List.mem_map.mp h
    unfold verbs baseVerbs at hverb
    simp only [List.mem_append] at hverb
    rcases hverb with (((h | h) | h) | h) | h
    · cases includeLeo with
      | false => exact nomatch h
      | true =>
        rw [List.mem_singleton.mp h]
        exact hvalue (List.mem_cons_of_mem _ (List.mem_cons_of_mem _ List.mem_cons_self))
    · rcases List.mem_cons.mp h with rfl | h
      · refine hvalue ?_
        unfold baseContractValueImportNames
        exact List.mem_append_right _ (List.mem_singleton_self _)
      · rw [List.mem_singleton.mp h]
        exact hclass (List.mem_cons_of_mem _ List.mem_cons_self)
    · obtain ⟨type, htype, rfl⟩ := List.mem_map.mp h
      exact hcodec htype List.mem_cons_self
    · obtain ⟨type, htype, rfl⟩ := List.mem_map.mp h
      exact hcodec htype (List.mem_cons_of_mem _ List.mem_cons_self)
    · obtain ⟨type, htype, rfl⟩ := List.mem_map.mp h
      refine .inl (.inl (.inr (List.mem_flatMap.mpr ⟨type, htype, List.mem_append_right _ ?_⟩)))
      exact List.mem_singleton_self _
  · exact .inr h

theorem nodup_valueFamilies (hg : Generates abi helpers includeLeo className ctx ds)
    (hhelpers : (helpers.map (·.helperName)).Nodup) :
    (valueFamilies abi helpers includeLeo className ctx).Nodup := by
  have hcapital {name : JsString} (h : name ∈ capitalValueNames includeLeo className ctx) :
      Begins isUpper name := by
    unfold capitalValueNames at h
    rcases List.mem_append.mp h with h | h
    · rcases List.mem_append.mp h with h | h
      · have hbase : ∀ name ∈ [js "BaseContract"] ++ (if includeLeo then [js "Leo"] else []),
            Begins isUpper name := by
          cases includeLeo <;> decide
        exact hbase name h
      · rw [List.mem_singleton.mp h]
        exact begins_className named hg
    · exact (typeName_begins hctx named hdistinct
        (List.map_subset _ (List.subset_append_right ..) h)).1
  have himpl : helpers.map (fun helper => implName helper.helperName) =
      (helpers.map (·.helperName)).map implName := by
    rw [List.map_map]
    rfl
  unfold valueFamilies
  refine List.nodup_append'.mpr ⟨List.nodup_append'.mpr ⟨List.nodup_append'.mpr ⟨?_, ?_, ?_⟩,
    ?_, ?_⟩, hhelpers, ?_⟩
  · exact nodup_capitalValueNames hctx named hdistinct hg
  · exact (nodup_verbs hctx named hdistinct hg).map verbName_injective
  · intro name hname hverb
    obtain ⟨verb, -, rfl⟩ := List.mem_map.mp hverb
    exact (begins_verbName verb).2 (hcapital hname)
  · rw [himpl]
    exact hhelpers.map implName_injective
  · intro name hname himpl
    obtain ⟨helper, -, rfl⟩ := List.mem_map.mp himpl
    have hletter : Begins isLetter (implName helper.helperName) := by
      rcases List.mem_append.mp hname with h | h
      · exact (hcapital h).mono isLetter_of_isUpper
      · obtain ⟨verb, -, heq⟩ := List.mem_map.mp h
        exact heq ▸ (begins_verbName verb).1
    have hunderscore : ¬isLetter (unit '_') := by decide
    exact hunderscore hletter
  · intro name hbefore hname
    obtain ⟨helper, hhelper, rfl⟩ := List.mem_map.mp hname
    exact hg.helperNames helper hhelper (reserved_of_mem hctx named hdistinct hg hbefore)

omit hctx named hdistinct in
/-- The values that every module has. -/
theorem perm_baseValueNames (includeLeo : Bool) (className : JsString) :
    (baseContractValueImportNames includeLeo ++ [className, js "create" ++ className]).Perm
      ([js "BaseContract"] ++ (if includeLeo then [js "Leo"] else []) ++ [className] ++
        (baseVerbs includeLeo className).map verbName) := by
  have hmiddle (before : List JsString) : (before ++ className :: [js "create" ++ className]).Perm
      (className :: (before ++ [js "create" ++ className])) := List.perm_middle
  cases includeLeo with
  | false => exact (hmiddle [js "createRecordOutputMatcher"]).cons _
  | true =>
    exact ((hmiddle [js "bindDynamicRecordHelperProgram",
      js "createRecordOutputMatcher"]).cons _).cons _

/-- **The values have different names**, if the helpers do, too. -/
theorem nodup_valueNames_of_distinct (hg : Generates abi helpers includeLeo className ctx ds)
    (hhelpers : (helpers.map (·.helperName)).Nodup) : (valueNames ds).Nodup := by
  have hexternals := GenerationContext.valueNames_generateExternalImports hctx named hdistinct
  have hrecords : ((abi.recordPaths.map pathToTsName).flatMap
      fun name => codecNames name ++ [js "decrypt" ++ name]).Perm
      ((abi.recordPaths.map pathToTsName).flatMap codecNames ++
        (abi.recordPaths.map pathToTsName).map (js "decrypt" ++ ·)) := by
    rw [List.map_eq_flatMap (f := (js "decrypt" ++ ·))]
    exact (List.flatMap_append_perm _ _ _).symm
  have hhelperNames : (helpers.flatMap fun helper => [implName helper.helperName,
      helper.helperName]).Perm (helpers.map (fun helper => implName helper.helperName) ++
        helpers.map (·.helperName)) := by
    rw [List.map_eq_flatMap (f := DynamicRecordHelper.helperName)]
    exact (List.map_append_flatMap_perm helpers _ _).symm
  have hverb (verb : Verb) (names : List JsString) :
      (names.map (verb, ·)).map verbName = names.map (verb.text ++ ·) := by
    rw [List.map_map]
    rfl
  have hbase := perm_baseValueNames includeLeo className
  have hfamilies := nodup_valueFamilies hctx named hdistinct hg hhelpers
  rw [List.nodup_iff_count_le_one] at hfamilies ⊢
  intro name
  refine le_trans ?_ (hfamilies name)
  have hexternalsCount := hexternals.count_le name
  have hbaseCount := hbase.count_eq name
  rw [valueNames_eq hg]
  unfold valueFamilies capitalValueNames verbs
  rw [← abi.map_paths]
  simp only [ProgramABI.paths, List.map_append, List.count_append, hrecords.count_eq,
    hhelperNames.count_eq, (perm_flatMap_codecNames _).count_eq, hverb, Verb.text] at *
  omega

end Values

/-! ## Modules -/

section Modules

variable {localeLE : JsString → JsString → Bool} {abi : ProgramABI} {allAbis : List ProgramABI}
  {helpers : List DynamicRecordHelper} {includeLeo : Bool} {className : JsString}
  {ctx : GenerationContext} {ds : List Declaration}

/-- A reference both to a struct and to a record has one name for two types. -/
theorem not_nodup_of_both
    (hctx : ctx = createGenerationContext localeLE abi allAbis (helpers.map (·.helperName)) includeLeo)
    (named : abi.Named) {ref : StructRef} (hstruct : ref ∈ ctx.externalStructRefs.values)
    (hrecord : ref ∈ ctx.externalRecordRefs.values) :
    ¬(typeNames ctx.generateExternalImports).Nodup := by
  intro hnodup
  obtain ⟨info, hinfo⟩ : ∃ info, ctx.externalInfo ref = some info := by
    rw [GenerationContext.externalInfo_eq hctx named (List.mem_append_left _ hstruct),
      GenerationContext.externalInfoByKey_eq hctx]
    exact exists_info (List.mem_append_left _ hstruct)
  have hstructInfo := List.mem_filterMap.mpr ⟨ref, hstruct, hinfo⟩
  have hrecordInfo := List.mem_filterMap.mpr ⟨ref, hrecord, hinfo⟩
  unfold GenerationContext.generateExternalImports at hnodup
  dsimp only at hnodup
  rw [typeNames_append, typeNames_append, typeNames_append] at hnodup
  have hdisjoint := (List.nodup_append'.mp (List.nodup_append'.mp
    (List.nodup_append'.mp hnodup).1).1).2.2
  refine hdisjoint (a := info.typeName) ?_ ?_
  · refine List.mem_filterMap.mpr ⟨.importType info.typeName, List.mem_map.mpr
      ⟨⟨info.programId, info.baseName, .importType info.typeName⟩, ?_, rfl⟩, rfl⟩
    refine List.mem_dedup.mpr (List.mem_append_left _ (List.mem_flatMap.mpr ⟨info, hstructInfo, ?_⟩))
    exact List.mem_cons_self
  · refine List.mem_filterMap.mpr ⟨.typeAlias info.typeName, List.mem_flatMap.mpr
      ⟨info, hrecordInfo, List.mem_cons_self⟩, rfl⟩

end Modules

/-- **A module that is generated declares no name twice if and only if** the names of the program's
own types are different, so are those of its helpers, and no type of another program is referred to
both as a struct and as a record. -/
theorem declares_once_iff {localeLE : JsString → JsString → Bool} {abi : LeoABI}
    {allAbis : List ProgramABI} {dynamicRecords : List DynamicRecordHelper} {ds : List Declaration}
    (h : generateBindings localeLE abi.abi allAbis dynamicRecords = .ok ds) :
    ((typeNames ds).Nodup ∧ (valueNames ds).Nodup) ↔ Distinct abi.abi allAbis ∧
      ((ownHelpers abi.abi dynamicRecords).map (·.helperName)).Nodup := by
  obtain ⟨includeLeo, className, ctx, hctx, hg⟩ := generates h
  constructor
  · rintro ⟨htypes, hvalues⟩
    rw [typeNames_eq hg] at htypes
    rw [valueNames_eq hg] at hvalues
    obtain ⟨hbefore, hpaths, -⟩ := List.nodup_append'.mp (List.nodup_append'.mp
      (List.nodup_append'.mp htypes).1).1
    refine ⟨⟨?_, fun ref hstruct hrecord hnames => ?_⟩, ?_⟩
    · have hperm := List.map_append_flatMap_perm abi.abi.paths pathToTsName
        fun path => [ctx.inputName path]
      rw [← abi.abi.map_paths]
      exact (List.nodup_append'.mp (hperm.nodup_iff.mpr hpaths)).1
    · by_contra hboth
      have hstructs : ref ∈ ctx.externalStructRefs.values := by
        rw [hctx]
        exact (mem_externalStructRefs abi.named).mpr ⟨hstruct, hnames⟩
      have hrecords : ref ∈ ctx.externalRecordRefs.values := by
        rw [hctx]
        exact (mem_externalRecordRefs abi.named).mpr ⟨hrecord, Bool.not_eq_false _ ▸ hboth⟩
      exact not_nodup_of_both hctx abi.named hstructs hrecords (List.nodup_append'.mp hbefore).2.1
    · have hhelpers := (List.nodup_append'.mp (List.nodup_append'.mp hvalues).1).2.1
      have hperm := List.map_append_flatMap_perm (ownHelpers abi.abi dynamicRecords)
        (fun helper => implName helper.helperName) fun helper => [helper.helperName]
      have hnodup := (List.nodup_append'.mp (hperm.nodup_iff.mpr hhelpers)).2.1
      rwa [← List.map_eq_flatMap] at hnodup
  · rintro ⟨hdistinct, hhelpers⟩
    exact ⟨nodup_typeNames_of_distinct hctx abi.named hdistinct hg,
      nodup_valueNames_of_distinct hctx abi.named hdistinct hg hhelpers⟩

/-! ## Two programs -/

namespace Sample

def field (name : JsString) (identifier : isIdentifierName name = true)
    (ordinary : name ≠ js "__proto__") (ty : PlaintextType) : FieldABI :=
  ⟨⟨name, identifier, ordinary⟩, ty⟩

def amount : FieldABI := field (js "amount") (by decide) (by decide) (.primitive (.uint .s64))

/-- A type with the field `amount`. -/
def struct (path : List JsString) : StructABI := ⟨path, [amount], List.nodup_singleton _⟩

def record (path : List JsString) : RecordABI := ⟨path, [amount], List.nodup_singleton _⟩

/-- `bank.aleo`, with a struct and a record. -/
def bank : ProgramABI where
  program := js "bank.aleo"
  structs := [struct [js "Rate"]]
  records := [record [js "Coin"]]
  mappings := []
  storageVariables := []
  transitions := []
  views := []

/-- `shop.aleo`, which refers to both, with a record of its own and a stored value. -/
def shop : LeoABI where
  program := js "shop.aleo"
  structs := [struct [js "prices", js "Rate"]]
  records := [record [js "Coin"]]
  mappings := []
  storageVariables := [⟨.plaintext (.primitive .field)⟩]
  transitions := [⟨js "buy", [.record ⟨[js "Coin"], some (js "bank.aleo")⟩,
    .plaintext (.struct ⟨[js "Rate"], some (js "bank.aleo")⟩)], [.record ⟨[js "Coin"], none⟩], []⟩]
  views := []
  named := ⟨by decide, by decide, by decide, by decide, by decide⟩

/-- A helper for the program's own record. -/
def asCoin : DynamicRecordHelper where
  helperName := js "asCoin"
  sourceRecord := js "Coin"
  sourceProgram := js "shop.aleo"
  schema := .ofList [(js "owner", js "address.private"), (js "amount", js "u64.private"),
    (js "_nonce", js "group.public")]

/-- `vectors.aleo`, with `Vector3` in the module `utils`, and `Utils_Vector3`. -/
def vectors : LeoABI where
  program := js "vectors.aleo"
  structs := [struct [js "utils", js "Vector3"], struct [js "Utils_Vector3"]]
  records := []
  mappings := []
  storageVariables := []
  transitions := []
  views := []
  named := ⟨by decide, by decide, nofun, nofun, nofun⟩

end Sample

theorem declares_once_iff_shop :
    ∃ ds, generateBindings (fun _ _ => true) Sample.shop.abi [Sample.bank] [Sample.asCoin] = .ok ds ∧
      (typeNames ds).Nodup ∧ (valueNames ds).Nodup := by
  have hok : (generateBindings (fun _ _ => true) Sample.shop.abi [Sample.bank]
    [Sample.asCoin]).toOption.isSome = true := by decide +kernel
  cases h : generateBindings (fun _ _ => true) Sample.shop.abi [Sample.bank] [Sample.asCoin] with
  | error e =>
    rw [h] at hok
    cases hok
  | ok ds =>
    have hdistinct : Distinct Sample.shop.abi [Sample.bank] := ⟨by decide, by decide⟩
    exact ⟨ds, rfl, (declares_once_iff h).mpr ⟨hdistinct, by decide⟩⟩

/-- Both structs of `vectors.aleo` are `Utils_Vector3`. -/
theorem vectors_declared_twice :
    ∃ ds, generateBindings (fun _ _ => true) Sample.vectors.abi [] [] = .ok ds ∧
      ¬((typeNames ds).Nodup ∧ (valueNames ds).Nodup) :=
  ⟨_, rfl, by decide +kernel⟩

end Lionden.Codegen.Bindings
