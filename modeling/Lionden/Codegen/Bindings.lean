import Lionden.Codegen.Names
import Lionden.Lib.Fresh
import Lionden.Lib.InsertionMap
import Mathlib.Data.List.Dedup
import Mathlib.Data.List.Sort

/-!
# The declarations of a bindings module (`generateBindings`)

What a generated module declares, in the order of its text: an import, an interface, a type alias, a
constant, a function or a class, each with the name that it declares. What stands inside a
declaration is left out, and so is the order in which import and alias lines are sorted.

`localeLE a b` is `a.localeCompare(b) <= 0`, which the host decides.

* `ProgramABI`, `LeoABI`: an ABI, and one whose names are those of a Leo program.
* `createGenerationContext`: the references to other programs and the names made for them.
* `generateBindings`: the declarations, or the first `CodegenError`.
-/

namespace Lionden.Codegen.Bindings

/-! ## ABIs -/

abbrev RecordRef := StructRef

inductive AleoType where
  | plaintext (ty : PlaintextType)
  | record (ref : RecordRef)
  | future
  | dynamicRecord

inductive StorageType where
  | plaintext (ty : PlaintextType)
  | vector (elem : StorageType)

structure MappingABI where
  key : PlaintextType
  value : PlaintextType

structure StorageVariableABI where
  ty : StorageType

/-- A transition or a view. -/
structure FunctionABI where
  name : JsString
  inputs : List AleoType
  outputs : List AleoType
  constParameters : List JsValue

structure ProgramABI extends Codegen.ProgramABI where
  records : List RecordABI
  mappings : List MappingABI
  storageVariables : List StorageVariableABI
  transitions : List FunctionABI
  views : List FunctionABI

/-- The structs that a plaintext type refers to. -/
def plaintextStructs : PlaintextType → List StructRef
  | .primitive _ => []
  | .struct ref => [ref]
  | .array elem _ => plaintextStructs elem
  | .optional inner => plaintextStructs inner

def storageStructs : StorageType → List StructRef
  | .plaintext ty => plaintextStructs ty
  | .vector elem => storageStructs elem

def aleoStructs : AleoType → List StructRef
  | .plaintext ty => plaintextStructs ty
  | _ => []

def aleoRecords : AleoType → List RecordRef
  | .record ref => [ref]
  | _ => []

namespace ProgramABI

variable (abi : ProgramABI)

/-- The inputs and outputs of transitions and views. -/
def signatures : List AleoType :=
  (abi.transitions ++ abi.views).flatMap fun f => f.inputs ++ f.outputs

/-- The structs that `collectExternalRefs` visits, in its order. -/
def structRefs : List StructRef :=
  abi.structs.flatMap (fun s => s.fields.flatMap fun f => plaintextStructs f.ty) ++
    abi.records.flatMap (fun r => r.fields.flatMap fun f => plaintextStructs f.ty) ++
    abi.mappings.flatMap (fun m => plaintextStructs m.key ++ plaintextStructs m.value) ++
    abi.storageVariables.flatMap (fun v => storageStructs v.ty) ++
    abi.signatures.flatMap aleoStructs

/-- The records that `collectExternalRefs` visits, in its order. -/
def recordRefs : List RecordRef := abi.signatures.flatMap aleoRecords

/-- The TypeScript names of the program's own structs and records. -/
def localTypeNames : List JsString :=
  abi.structs.map (fun s => pathToTsName s.path) ++ abi.records.map fun r => pathToTsName r.path

/-- The names of the ABI are those of a Leo program. -/
structure Named : Prop where
  program : isProgramId abi.program = true
  structs : ∀ s ∈ abi.structs, isPath s.path = true
  records : ∀ r ∈ abi.records, isPath r.path = true
  structRefs : ∀ ref ∈ abi.structRefs, isRef ref = true
  recordRefs : ∀ ref ∈ abi.recordRefs, isRef ref = true

end ProgramABI

/-- An ABI as the compiler writes it. -/
structure LeoABI extends abi : ProgramABI where
  named : abi.Named

/-- `ResolvedDynamicRecordHelperEmit`. -/
structure DynamicRecordHelper where
  helperName : JsString
  sourceRecord : JsString
  sourceProgram : JsString
  schema : InsertionMap JsString JsString

/-! ## Errors -/

inductive TypeKind where
  | struct
  | record

def TypeKind.name : TypeKind → JsString
  | struct => js "struct"
  | record => js "record"

/-- `CodegenError`: what the error says, with the data of its context. -/
inductive CodegenError where
  | transitionConstParameters (program name : JsString)
  | viewConstParameters (program name : JsString)
  | unsupportedPrimitive (program abiPath primitive : JsString)
  | reservedTypeName (program : JsString) (kind : TypeKind) (typeName : JsString)
  | storageTypeName (program : JsString) (kind : TypeKind) (typeName : JsString)
  | reservedMember (program transition : JsString)
  | reservedHelperName (program helperName clashesWith : JsString)
  | sourceRecordNotLocal (helperName sourceRecord program : JsString)
  | schemaKeys (helperName sourceRecord : JsString) (missing extra : List JsString)
  | schemaEntry (helperName field entry : JsString)
  | schemaMetadata (helperName field expected actual : JsString)
  | schemaType (helperName sourceRecord field expected actual : JsString)
  | nonPrimitiveField (helperName sourceRecord field : JsString)
  | unsupportedField (helperName sourceRecord field primitive : JsString)

/-- `SUPPORTED_DYNAMIC_RECORD_PRIMITIVES`. -/
def supportedDynamicRecordPrimitives : List JsString :=
  ["address", "boolean", "field", "group", "scalar", "u8", "u16", "u32", "u64", "u128", "i8", "i16",
    "i32", "i64", "i128"].map js

/-- `codegen.dynamicRecords.${helperName}`. -/
def helperPath (helperName : JsString) : JsString := js "codegen.dynamicRecords." ++ helperName

/-- The message of the error. -/
def CodegenError.message : CodegenError → JsString
  | transitionConstParameters program name =>
    js "Code generation for " ++ program ++ js "/" ++ name ++ js (" is unsupported: " ++
      "executable functions with const_parameters are not yet supported.")
  | viewConstParameters program name =>
    js "Code generation for " ++ program ++ js "/" ++ name ++ js (" is unsupported: " ++
      "view functions with const_parameters are not yet supported.")
  | unsupportedPrimitive program abiPath primitive =>
    js "Code generation for program " ++ program ++ js " is unsupported at ABI path " ++ abiPath ++
      js ": Primitive::" ++ primitive ++ js " is not supported by generated bindings yet."
  | reservedTypeName program kind typeName =>
    js "Program " ++ program ++ js " declares a " ++ kind.name ++ js " '" ++ typeName ++
      js "', whose generated interface collides with the reserved binding '" ++ typeName ++
      js "' imported from BaseContract. Rename the " ++ kind.name ++ js "."
  | storageTypeName program kind typeName =>
    js "Program " ++ program ++ js " declares a " ++ kind.name ++ js " '" ++ typeName ++
      js "', whose generated interface collides with the generated storage interface '" ++
      typeName ++ js "'. Rename the " ++ kind.name ++ js "."
  | reservedMember program transition =>
    js "Program " ++ program ++ js " has a transition '" ++ transition ++
      js ("' whose generated accessor collides with a reserved contract member (inherited " ++
        "BaseContract members such as connect/withSigner/address/programId, or the " ++
        "mappings/storage container). Rename the transition.")
  | reservedHelperName program helperName clashesWith =>
    js "Program " ++ program ++ js " configures a dynamic-record helper '" ++ helperName ++
      js "', whose generated 'export const " ++ helperName ++ js "' collides with " ++
      clashesWith ++ js ". Rename the helper (codegen.dynamicRecords)."
  | sourceRecordNotLocal helperName sourceRecord program =>
    helperPath helperName ++ js ": sourceRecord '" ++ sourceRecord ++
      js "' is not a local record in '" ++ program ++ js "'."
  | schemaKeys helperName sourceRecord missing extra =>
    helperPath helperName ++ js ": schema keys do not match record '" ++ sourceRecord ++
      js "'. Missing: [" ++ (js ", ").intercalate missing ++ js "]; Extra: [" ++
      (js ", ").intercalate extra ++ js "]."
  | schemaEntry helperName field entry =>
    helperPath helperName ++ js ".schema." ++ field ++ js ": '" ++ entry ++
      js "' is not a valid '<type>.<visibility>' schema entry."
  | schemaMetadata helperName field expected _ =>
    helperPath helperName ++ js ".schema." ++ field ++ js " must be \"" ++ expected ++
      js "\": record version metadata is a public u8."
  | schemaType helperName sourceRecord field expected actual =>
    helperPath helperName ++ js ".schema." ++ field ++ js ": field has Leo type '" ++ expected ++
      js "' on record '" ++ sourceRecord ++ js "', but schema says '" ++ actual ++ js "'."
  | nonPrimitiveField helperName sourceRecord field =>
    helperPath helperName ++ js ": record '" ++ sourceRecord ++
      js "' contains non-primitive field '" ++ field ++
      js "'. Interface conversion helpers only support primitive record fields."
  | unsupportedField helperName sourceRecord field primitive =>
    helperPath helperName ++ js ": record '" ++ sourceRecord ++ js "' field '" ++ field ++
      js "' uses unsupported primitive '" ++ primitive ++
      js "'. Leo.dynamicRecord only supports: " ++
      (js "/").intercalate supportedDynamicRecordPrimitives ++ js "."

/-! ## Names -/

/-- `resolveContractClassName(abi, { includeLeoValueImport })`. -/
def resolveContractClassName (abi : ProgramABI) (includeLeoValueImport : Bool) : JsString :=
  fresh (classCandidate (programIdToClassName abi.program))
    (reservedBaseContractImportNames includeLeoValueImport ++ abi.localTypeNames)

/-- `localDeclaredNames(abi, includeLeoValueImport)`. -/
def localDeclaredNames (abi : ProgramABI) (includeLeoValueImport : Bool) : List JsString :=
  let className := resolveContractClassName abi includeLeoValueImport
  className :: (className ++ js "Storage") :: abi.localTypeNames

/-- `sortRefsByKey(refs)`. -/
def sortRefsByKey (localeLE : JsString → JsString → Bool) (refs : List StructRef) :
    List StructRef :=
  refs.insertionSort fun a b => localeLE (externalRefKey a) (externalRefKey b)

/-- `programsById`: of programs with one id the last counts, and the program itself before all. -/
def programsById (abi : ProgramABI) (allAbis : List ProgramABI) :
    InsertionMap JsString ProgramABI :=
  .ofList (allAbis.map (fun other => (other.program, other)) ++ [(abi.program, abi)])

/-- `ref` is to one of `types` of another program, which is known and declares it. -/
def namesExternal (abi : ProgramABI) (allAbis : List ProgramABI)
    (types : ProgramABI → List (List JsString)) (ref : StructRef) : Bool :=
  match ref.program with
  | none => false
  | some program =>
    decide (program ≠ []) && decide (program ≠ abi.program) &&
      match (programsById abi allAbis).get? program with
      | none => false
      | some other => (types other).any fun path => pathKey path = pathKey ref.path

def ProgramABI.structPaths (abi : ProgramABI) : List (List JsString) := abi.structs.map (·.path)

def ProgramABI.recordPaths (abi : ProgramABI) : List (List JsString) := abi.records.map (·.path)

/-- `externalStructRefs`, or `externalRecordRefs`: the references with their keys. -/
def externalRefs (refs : List StructRef) : InsertionMap JsString StructRef :=
  .ofList (refs.map fun ref => (externalRefKey ref, ref))

/-- `ExternalRefInfo`, without the class name of the program, which nothing reads. -/
structure ExternalRefInfo where
  programId : JsString
  baseName : JsString
  typeName : JsString
  emitsValueBinding : Bool

/-- `info.serializerName`. -/
def ExternalRefInfo.serializerName (info : ExternalRefInfo) : JsString :=
  js "serialize" ++ info.typeName

/-- `info.deserializerName`. -/
def ExternalRefInfo.deserializerName (info : ExternalRefInfo) : JsString :=
  js "deserialize" ++ info.typeName

/-- The alias that a type of another program has unless it is taken. -/
def preferredAlias (ref : StructRef) : JsString :=
  programIdToClassName (ref.program.getD []) ++ js "_" ++ pathToTsName ref.path

/-- `resolveExternalInfos`. The references, which have a program, come sorted: structs, then
records. A struct's alias avoids the names of helpers, too. -/
def resolveExternalInfos (localeLE : JsString → JsString → Bool)
    (structRefs recordRefs : InsertionMap JsString StructRef)
    (declared reservedHelperNames : List JsString) : InsertionMap JsString ExternalRefInfo :=
  let refs := (sortRefsByKey localeLE structRefs.values).map (·, false) ++
    (sortRefsByKey localeLE recordRefs.values).map (·, true)
  let aliases := claims (fun ref => underscored (preferredAlias ref.1))
    (fun ref => if ref.2 then [] else reservedHelperNames) declared refs
  .ofList (aliases.map fun claim => (externalRefKey claim.1.1,
    { programId := claim.1.1.program.getD [], baseName := pathToTsName claim.1.1.path,
      typeName := claim.2, emitsValueBinding := claim.1.2 }))

/-- `GenerationContext`. -/
structure GenerationContext where
  abi : ProgramABI
  externalStructRefs : InsertionMap JsString StructRef
  externalRecordRefs : InsertionMap JsString StructRef
  externalInfoByKey : InsertionMap JsString ExternalRefInfo
  inputNameByKey : InsertionMap JsString JsString
  widenInputAlias : JsString

/-- `externalInfoByKey.get(externalRefKey(ref))!.typeName`. -/
def externalTypeName (infos : InsertionMap JsString ExternalRefInfo) (ref : StructRef) :
    JsString :=
  ((infos.get? (externalRefKey ref)).map (·.typeName)).getD []

/-- The keys of `inputNameByKey` with the names that the input names are made of: local structs,
local records, then the references to other programs, sorted. -/
def inputBases (localeLE : JsString → JsString → Bool) (abi : ProgramABI)
    (structRefs recordRefs : InsertionMap JsString StructRef)
    (infos : InsertionMap JsString ExternalRefInfo) : List (JsString × JsString) :=
  (abi.structPaths ++ abi.recordPaths).map (fun path => (pathKey path, pathToTsName path)) ++
    (sortRefsByKey localeLE structRefs.values ++ sortRefsByKey localeLE recordRefs.values).map
      fun ref => (externalRefKey ref, externalTypeName infos ref)

/-- `createGenerationContext(abi, allAbis, reservedHelperNames, includeLeoValueImport)`. -/
def createGenerationContext (localeLE : JsString → JsString → Bool) (abi : ProgramABI)
    (allAbis : List ProgramABI) (reservedHelperNames : List JsString)
    (includeLeoValueImport : Bool) : GenerationContext :=
  let structRefs :=
    externalRefs (abi.structRefs.filter (namesExternal abi allAbis ProgramABI.structPaths))
  let recordRefs :=
    externalRefs (abi.recordRefs.filter (namesExternal abi allAbis ProgramABI.recordPaths))
  let localNames := localDeclaredNames abi includeLeoValueImport
  let infos := resolveExternalInfos localeLE structRefs recordRefs localNames reservedHelperNames
  -- `resolveInputNames`
  let declared := localNames ++ reservedHelperNames ++
    (structRefs.values ++ recordRefs.values).map (externalTypeName infos)
  let inputs := claims (fun base => inputCandidate base.2) (fun _ => [])
    (reservedInputImports ++ declared) (inputBases localeLE abi structRefs recordRefs infos)
  { abi
    externalStructRefs := structRefs
    externalRecordRefs := recordRefs
    externalInfoByKey := infos
    inputNameByKey := .ofList (inputs.map fun claim => (claim.1.1, claim.2))
    widenInputAlias := fresh (underscored (js "WidenInput")) (inputs.map Prod.snd ++ declared) }

/-! ## Checks -/

/-- `xs.forEach((x, i) => visit(x, ...))`, with the path of the element. -/
def visitAll {α : Type} (abiPath : JsString) (xs : List α)
    (visit : α → JsString → Except CodegenError Unit) : Except CodegenError Unit :=
  xs.zipIdx.forM fun x => visit x.1 (abiPath ++ js "[" ++ decimal x.2 ++ js "]")

section SupportedTypes

variable (program : JsString)

/-- `visitPrimitive(prim, abiPath)`. -/
def visitPrimitive (abiPath : JsString) : PrimitiveType → Except CodegenError Unit
  | .signature => .error (.unsupportedPrimitive program abiPath (js "Signature"))
  | _ => .ok ()

/-- `visitPlaintext(ty, abiPath)`. -/
def visitPlaintext : PlaintextType → JsString → Except CodegenError Unit
  | .primitive prim, abiPath => visitPrimitive program (abiPath ++ js ".Primitive") prim
  | .struct _, _ => .ok ()
  | .array elem _, abiPath => visitPlaintext elem (abiPath ++ js ".Array[0]")
  | .optional inner, abiPath => visitPlaintext inner (abiPath ++ js ".Optional")

/-- `visitAleo(ty, abiPath)`. -/
def visitAleo : AleoType → JsString → Except CodegenError Unit
  | .plaintext ty, abiPath => visitPlaintext program ty (abiPath ++ js ".Plaintext")
  | _, _ => .ok ()

/-- `visitStorage(ty, abiPath)`. -/
def visitStorage : StorageType → JsString → Except CodegenError Unit
  | .plaintext ty, abiPath => visitPlaintext program ty (abiPath ++ js ".Plaintext")
  | .vector elem, abiPath => visitStorage elem (abiPath ++ js ".Vector")

/-- The fields of a struct or a record. -/
def visitFields (fields : List FieldABI) (abiPath : JsString) : Except CodegenError Unit :=
  visitAll (abiPath ++ js ".fields") fields fun field path =>
    visitPlaintext program field.ty (path ++ js ".ty")

/-- The inputs and outputs of a transition or a view. -/
def visitFunction (f : FunctionABI) (abiPath : JsString) : Except CodegenError Unit := do
  visitAll (abiPath ++ js ".inputs") f.inputs fun ty path => visitAleo program ty (path ++ js ".ty")
  visitAll (abiPath ++ js ".outputs") f.outputs fun ty path =>
    visitAleo program ty (path ++ js ".ty")

end SupportedTypes

/-- `assertCodegenSupportedTypes(abi)`. -/
def assertCodegenSupportedTypes (abi : ProgramABI) : Except CodegenError Unit := do
  visitAll (js "structs") abi.structs fun struct => visitFields abi.program struct.fields
  visitAll (js "records") abi.records fun record => visitFields abi.program record.fields
  visitAll (js "mappings") abi.mappings fun mapping path => do
    visitPlaintext abi.program mapping.key (path ++ js ".key")
    visitPlaintext abi.program mapping.value (path ++ js ".value")
  visitAll (js "storage_variables") abi.storageVariables fun v path =>
    visitStorage abi.program v.ty (path ++ js ".ty")
  visitAll (js "transitions") abi.transitions (visitFunction abi.program)
  visitAll (js "views") abi.views (visitFunction abi.program)

/-- `assertNoExecutableConstParameters(abi)`. -/
def assertNoExecutableConstParameters (abi : ProgramABI) : Except CodegenError Unit := do
  abi.transitions.forM fun transition =>
    if transition.constParameters ≠ [] then
      .error (.transitionConstParameters abi.program transition.name)
    else .ok ()
  abi.views.forM fun view =>
    if view.constParameters ≠ [] then .error (.viewConstParameters abi.program view.name)
    else .ok ()

/-- `check(kind, path)` of `assertNoReservedLocalTypeNames`. -/
def checkLocalTypeName (abi : ProgramABI) (className : JsString) (kind : TypeKind)
    (path : List JsString) : Except CodegenError Unit :=
  let name := pathToTsName path
  if name ∈ reservedBaseContractTypeImportNames then
    .error (.reservedTypeName abi.program kind name)
  else if abi.storageVariables ≠ [] ∧ name = className ++ js "Storage" then
    .error (.storageTypeName abi.program kind name)
  else .ok ()

/-- `assertNoReservedLocalTypeNames(abi, className)`. -/
def assertNoReservedLocalTypeNames (abi : ProgramABI) (className : JsString) :
    Except CodegenError Unit := do
  abi.structPaths.forM (checkLocalTypeName abi className .struct)
  abi.recordPaths.forM (checkLocalTypeName abi className .record)

/-- `assertNoReservedContractMembers(abi)`. -/
def assertNoReservedContractMembers (abi : ProgramABI) : Except CodegenError Unit :=
  let reserved := reservedContractInstanceMembers ++
    (if abi.mappings ≠ [] then [js "mappings"] else []) ++
    (if abi.storageVariables ≠ [] then [js "storage"] else []) ++
    (if abi.views ≠ [] then [js "views"] else [])
  abi.transitions.forM fun transition =>
    if transition.name ∈ reserved then .error (.reservedMember abi.program transition.name)
    else .ok ()

/-- `_${helperName}Impl`. -/
def implName (helperName : JsString) : JsString := js "_" ++ helperName ++ js "Impl"

/-- What the name of a helper may clash with, and its description: `reserved` of
`assertNoReservedHelperNames`. -/
def reservedHelperNames (abi : ProgramABI) (className : JsString) (includeLeoValueImport : Bool)
    (helpers : List DynamicRecordHelper) (externalInfos : List ExternalRefInfo) :
    List (JsString × JsString) :=
  let generated (name : JsString) := (name, js "the generated '" ++ name ++ js "'")
  (baseContractValueImportNames includeLeoValueImport).map
      (fun name => (name, js "the '" ++ name ++ js "' value imported from BaseContract")) ++
    [(className, js "the contract class '" ++ className ++ js "'"),
      (js "create" ++ className, js "the contract factory 'create" ++ className ++ js "'")] ++
    abi.structPaths.flatMap (fun path =>
      [generated (js "serialize" ++ pathToTsName path),
        generated (js "deserialize" ++ pathToTsName path)]) ++
    abi.recordPaths.flatMap (fun path =>
      [generated (js "serialize" ++ pathToTsName path),
        generated (js "deserialize" ++ pathToTsName path),
        generated (js "decrypt" ++ pathToTsName path)]) ++
    externalInfos.flatMap (fun info =>
      [(info.serializerName,
          js "the imported external serializer '" ++ info.serializerName ++ js "'"),
        (info.deserializerName,
          js "the imported external deserializer '" ++ info.deserializerName ++ js "'")] ++
        if info.emitsValueBinding then
          [(info.typeName, js "the external record binding '" ++ info.typeName ++ js "'")]
        else []) ++
    helpers.map fun helper => (implName helper.helperName,
      js "the backing function of dynamic-record helper '" ++ helper.helperName ++ js "'")

/-- `assertNoReservedHelperNames`. -/
def assertNoReservedHelperNames (abi : ProgramABI) (className : JsString)
    (includeLeoValueImport : Bool) (helpers : List DynamicRecordHelper)
    (externalInfos : List ExternalRefInfo) : Except CodegenError Unit :=
  let reserved := InsertionMap.ofList
    (reservedHelperNames abi className includeLeoValueImport helpers externalInfos)
  helpers.forM fun helper =>
    match reserved.get? helper.helperName with
    | some clashesWith =>
      .error (.reservedHelperName abi.program helper.helperName clashesWith)
    | none => .ok ()

/-! ## Declarations -/

/-- A declaration of the module, with its name. -/
inductive Declaration where
  | importType (name : JsString)
  | importValue (name : JsString)
  | importClass (name : JsString)
  | interface (name : JsString)
  | typeAlias (name : JsString)
  | const (name : JsString)
  | function (name : JsString)
  | contractClass (name : JsString)
  deriving DecidableEq

/-- The name that a declaration adds to the types of the module. A class is a type, too. -/
def Declaration.typeName? : Declaration → Option JsString
  | importType name | importClass name | interface name | typeAlias name
  | contractClass name => some name
  | importValue _ | const _ | function _ => none

/-- The name that a declaration adds to the values of the module. -/
def Declaration.valueName? : Declaration → Option JsString
  | importValue name | importClass name | const name | function name
  | contractClass name => some name
  | importType _ | interface _ | typeAlias _ => none

def typeNames (ds : List Declaration) : List JsString := ds.filterMap Declaration.typeName?

def valueNames (ds : List Declaration) : List JsString := ds.filterMap Declaration.valueName?

/-- `baseContractImport(includeLeo, widenImport)`. `BaseContract` is a class, the other values that
it imports are not types. -/
def baseContractImport (includeLeo : Bool) (widenImport : Option JsString) : List Declaration :=
  .importClass (js "BaseContract") ::
    ((if includeLeo then [js "Leo", js "bindDynamicRecordHelperProgram"] else []) ++
      [js "createRecordOutputMatcher"]).map .importValue ++
    baseContractTypeImportNames.map .importType ++
    widenImport.toList.map .importType

/-- A specifier of an import from another program's module: what it imports, and the declaration
that it makes. -/
structure ImportSpec where
  programId : JsString
  imported : JsString
  declares : Declaration
  deriving DecidableEq

def structImports (info : ExternalRefInfo) : List ImportSpec :=
  [⟨info.programId, info.baseName, .importType info.typeName⟩,
    ⟨info.programId, js "serialize" ++ info.baseName, .importValue info.serializerName⟩,
    ⟨info.programId, js "deserialize" ++ info.baseName, .importValue info.deserializerName⟩]

/-- A record's type is imported under a private name, to be exported again with its value. -/
def recordImports (info : ExternalRefInfo) : List ImportSpec :=
  [⟨info.programId, info.baseName, .importType (js "_" ++ info.typeName)⟩,
    ⟨info.programId, js "serialize" ++ info.baseName, .importValue info.serializerName⟩,
    ⟨info.programId, js "deserialize" ++ info.baseName, .importValue info.deserializerName⟩]

namespace GenerationContext

variable (ctx : GenerationContext)

/-- `externalStructInfo(ref, ctx)`, `externalRecordInfo(ref, ctx)`. -/
def externalInfo (ref : StructRef) : Option ExternalRefInfo :=
  if ref.program = none ∨ ref.program = some [] ∨ ref.program = some ctx.abi.program then none
  else ctx.externalInfoByKey.get? (externalRefKey ref)

/-- `structInputName(ref, ctx)`, `recordInputName(ref, ctx)`, with the paths of the program's own
structs or records. -/
def refInputName (localPaths : List (List JsString)) (ref : StructRef) : JsString :=
  let isLocal := (ref.program = none ∨ ref.program = some ctx.abi.program) ∧
    pathKey ref.path ∈ localPaths.map pathKey
  let key := if isLocal then pathKey ref.path else externalRefKey ref
  (ctx.inputNameByKey.get? key).getD (pathToTsName ref.path ++ js "Input")

/-- The name of the input interface of a local struct or record. -/
def inputName (path : List JsString) : JsString :=
  (ctx.inputNameByKey.get? (pathKey path)).getD (pathToTsName path ++ js "Input")

/-- `generateExternalImports(ctx)`. The specifiers of a program's import are a set. -/
def generateExternalImports : List Declaration :=
  let structInfos := ctx.externalStructRefs.values.filterMap ctx.externalInfo
  let recordInfos := ctx.externalRecordRefs.values.filterMap ctx.externalInfo
  (structInfos.flatMap structImports ++ recordInfos.flatMap recordImports).dedup.map (·.declares) ++
    recordInfos.flatMap (fun info => [.typeAlias info.typeName, .const info.typeName]) ++
    (ctx.externalStructRefs.values.filter fun ref => (ctx.externalInfo ref).isSome).map
      (fun ref => .typeAlias (ctx.refInputName ctx.abi.structPaths ref)) ++
    (ctx.externalRecordRefs.values.filter fun ref => (ctx.externalInfo ref).isSome).map
      (fun ref => .typeAlias (ctx.refInputName ctx.abi.recordPaths ref))

/-- The interfaces of a struct or a record: `generateStructInterface` and
`generateStructInputInterface`, and those of a record. -/
def generateInterfaces (path : List JsString) : List Declaration :=
  [.interface (pathToTsName path), .interface (ctx.inputName path)]

end GenerationContext

/-- `generateStructSerializer`, `generateStructDeserializer`. -/
def generateStructCodec (path : List JsString) : List Declaration :=
  [.function (js "serialize" ++ pathToTsName path),
    .function (js "deserialize" ++ pathToTsName path)]

/-- `generateRecordSerializer`, `generateRecordDeserializer`, `generateRecordDecryptor`. -/
def generateRecordCodec (path : List JsString) : List Declaration :=
  generateStructCodec path ++ [.function (js "decrypt" ++ pathToTsName path)]

/-! ## Helpers of dynamic records -/

/-- `primitiveOfPlaintext(ty)`. -/
def primitiveOfPlaintext : PlaintextType → Option JsString
  | .primitive .address => some (js "address")
  | .primitive .boolean => some (js "boolean")
  | .primitive .field => some (js "field")
  | .primitive .group => some (js "group")
  | .primitive .scalar => some (js "scalar")
  | .primitive .identifier => some (js "identifier")
  | .primitive (.uint size) => some (size.name (js "u"))
  | .primitive (.int size) => some (size.name (js "i"))
  | _ => none

/-- `buildExpectedFieldsForHelper(helper, record)`. -/
def buildExpectedFieldsForHelper (helper : DynamicRecordHelper) (record : RecordABI) :
    Except CodegenError (InsertionMap JsString JsString) := do
  let expected ← (record.fields.filter fun field => field.name.name ≠ js "owner").foldlM
    (fun expected field =>
      match primitiveOfPlaintext field.ty with
      | none =>
        .error (.nonPrimitiveField helper.helperName helper.sourceRecord field.name.name)
      | some prim =>
        if prim ∉ supportedDynamicRecordPrimitives then
          .error (.unsupportedField helper.helperName helper.sourceRecord field.name.name prim)
        else .ok (expected.set field.name.name prim))
    (InsertionMap.empty.set (js "owner") (js "address"))
  return expected.set (js "_nonce") (js "group")

/-- `OPTIONAL_DYNAMIC_RECORD_METADATA`. -/
def optionalDynamicRecordMetadata : List (JsString × JsString) :=
  [(js "_version", js "u8.public")]

/-- `entry.slice(0, entry.lastIndexOf("."))`, and `none` without a dot. -/
def beforeLastDot (entry : JsString) : Option JsString :=
  if unit '.' ∈ entry then some (entry.reverse.dropWhile (· ≠ unit '.')).tail.reverse else none

/-- The check of one entry of a helper's schema. -/
def checkSchemaEntry (helper : DynamicRecordHelper) (expectedFields : InsertionMap JsString JsString)
    (field entry : JsString) : Except CodegenError Unit :=
  match beforeLastDot entry with
  | none => .error (.schemaEntry helper.helperName field entry)
  | some schemaPrim =>
    match optionalDynamicRecordMetadata.lookup field with
    | some required =>
      if entry ≠ required then
        .error (.schemaMetadata helper.helperName field required entry)
      else .ok ()
    | none =>
      let expectedPrim := (expectedFields.get? field).getD []
      if schemaPrim ≠ expectedPrim then
        .error (.schemaType helper.helperName helper.sourceRecord field expectedPrim schemaPrim)
      else .ok ()

/-- `generateDynamicRecordHelper(helper, abi, ctx)`. -/
def generateDynamicRecordHelper (abi : ProgramABI) (helper : DynamicRecordHelper) :
    Except CodegenError (List Declaration) := do
  match abi.records.find? fun r => pathToTsName r.path = helper.sourceRecord with
  | none =>
    .error (.sourceRecordNotLocal helper.helperName helper.sourceRecord abi.program)
  | some record =>
    let expectedFields ← buildExpectedFieldsForHelper helper record
    let missing := expectedFields.keys.filter fun k => k ∉ helper.schema.keys
    let extra := helper.schema.keys.filter fun k =>
      k ∉ expectedFields.keys ∧ k ∉ optionalDynamicRecordMetadata.map Prod.fst
    if missing ≠ [] ∨ extra ≠ [] then
      .error (.schemaKeys helper.helperName helper.sourceRecord missing extra)
    helper.schema.entries.forM fun e => checkSchemaEntry helper expectedFields e.1 e.2
    return [.function (implName helper.helperName), .const helper.helperName]

/-! ## The module -/

/-- `generateContractClass(abi, className, ctx)`: the class and its factory. -/
def generateContractClass (className : JsString) : List Declaration :=
  [.contractClass className, .function (js "create" ++ className)]

/-- The helpers of the program itself. -/
def ownHelpers (abi : ProgramABI) (dynamicRecords : List DynamicRecordHelper) :
    List DynamicRecordHelper :=
  dynamicRecords.filter fun helper => helper.sourceProgram = abi.program

/-- `generateBindings(abi, allAbis, { dynamicRecords })`. -/
def generateBindings (localeLE : JsString → JsString → Bool) (abi : ProgramABI)
    (allAbis : List ProgramABI) (dynamicRecords : List DynamicRecordHelper) :
    Except CodegenError (List Declaration) := do
  let helpers := ownHelpers abi dynamicRecords
  let includeLeoValueImport := !helpers.isEmpty
  let className := resolveContractClassName abi includeLeoValueImport
  let ctx := createGenerationContext localeLE abi allAbis (helpers.map (·.helperName))
    includeLeoValueImport
  assertCodegenSupportedTypes abi
  assertNoExecutableConstParameters abi
  assertNoReservedLocalTypeNames abi className
  assertNoReservedContractMembers abi
  assertNoReservedHelperNames abi className includeLeoValueImport helpers
    ctx.externalInfoByKey.values
  let hasExternalRefs := ctx.externalStructRefs.values ≠ [] ∨ ctx.externalRecordRefs.values ≠ []
  let helperDeclarations ← helpers.mapM (generateDynamicRecordHelper abi)
  return baseContractImport includeLeoValueImport
      (if hasExternalRefs then some ctx.widenInputAlias else none) ++
    ctx.generateExternalImports ++
    (abi.structPaths ++ abi.recordPaths).flatMap ctx.generateInterfaces ++
    (if abi.storageVariables ≠ [] then [.interface (className ++ js "Storage")] else []) ++
    abi.structPaths.flatMap generateStructCodec ++
    abi.recordPaths.flatMap generateRecordCodec ++
    helperDeclarations.flatten ++
    generateContractClass className

end Lionden.Codegen.Bindings
