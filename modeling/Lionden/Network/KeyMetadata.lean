import Lionden.Network.CreditsCache
import Lionden.Network.SidecarKeys

/-!
# Checks of key metadata (`key-artifacts.ts`)

Three kinds of files say which keys belong to a program: beside its artifacts, in the cache of its
keys and in that of the keys of `credits.aleo`. For each kind there are its value, which is written,
its check, and what the check accepts.

* `….Valid`, `….valid`: what is accepted is valid.
* `….Valid.parse`: the value of what is valid is accepted, as it is.
* `….eq_of_parse`: what is accepted of a value is what it is the value of.
* `….isData`: a value is data, which JSON writes.
-/

namespace Lionden.Network.KeyCache

/-! ## Data -/

def KEY_ARTIFACTS_FORMAT : JsString := js "lionden.keyArtifacts.v1"

/-- `KeyArtifactsMetadata`, with the names of the program. -/
structure KeyArtifactsFile extends KeyArtifactsMetadata where
  programId : JsString
  sourceProgramId : JsString

/-- A property that may be left out. -/
def optionalProperty (key : String) (value : Option JsValue) : List (JsString × JsValue) :=
  value.toList.map (Prod.mk (js key))

def KeyFileRef.value (ref : KeyFileRef) : JsValue :=
  .object [(js "path", .string ref.path), (js "fingerprint", ref.fingerprint.value)] none

def KeyArtifactFunctionRef.value (ref : KeyArtifactFunctionRef) : JsValue :=
  .object ((js "transition", .string ref.transition) ::
    (optionalProperty "prover" (ref.prover.map KeyFileRef.value) ++
      optionalProperty "verifier" (ref.verifier.map KeyFileRef.value))) none

def functionsValue (refs : List KeyArtifactFunctionRef) : JsValue :=
  .array ((refs.map KeyArtifactFunctionRef.value).map some)

def KeyArtifactsFile.value (metadata : KeyArtifactsFile) : JsValue :=
  .object ([(js "format", .string KEY_ARTIFACTS_FORMAT),
    (js "programId", .string metadata.programId),
    (js "sourceProgramId", .string metadata.sourceProgramId),
    (js "sourceHash", .string metadata.sourceHash),
    (js "importsHash", .string metadata.importsHash)] ++
    optionalProperty "functions" (metadata.functions.map functionsValue)) none

/-! ## Checks -/

section Parse

variable (filePath : JsString)

/-- What is checked unless it is undefined. -/
def expectOptional {α : Type} (value : JsValue) (check : JsValue → Except JsString α) :
    Except JsString (Option α) :=
  match value with
  | .undefined => .ok none
  | value => some <$> check value

def expectKeyFileRef (value : JsValue) (label : JsString) : Except JsString KeyFileRef := do
  if !isRecord value then invalidMetadata filePath (label ++ js " must be an object")
  else
  let path ← expectString filePath value "path"
  let fingerprint ← expectFingerprint filePath (value.property (js "fingerprint"))
    (label ++ js ".fingerprint")
  .ok { path, fingerprint }

def expectFunctionRef (value : JsValue) (label : JsString) :
    Except JsString KeyArtifactFunctionRef := do
  if !isRecord value then invalidMetadata filePath (label ++ js " must be an object")
  else
  let transition ← expectString filePath value "transition"
  let prover ← expectOptional (value.property (js "prover")) fun prover =>
    expectKeyFileRef filePath prover (label ++ js ".prover")
  let verifier ← expectOptional (value.property (js "verifier")) fun verifier =>
    expectKeyFileRef filePath verifier (label ++ js ".verifier")
  .ok { transition, prover, verifier }

def expectFunctionRefs (value : JsValue) : Except JsString (List KeyArtifactFunctionRef) :=
  match value with
  | .array elements => elements.zipIdx.mapM fun entry =>
    expectFunctionRef filePath (entry.1.getD .undefined)
      (js "functions[" ++ decimal entry.2 ++ js "]")
  | _ => invalidMetadata filePath (js "functions must be an array")

def parseKeyArtifactsMetadata (value : JsValue) : Except JsString KeyArtifactsFile := do
  if !isRecord value then invalidMetadata filePath (js "expected an object")
  else if !(value.property (js "format")).isText KEY_ARTIFACTS_FORMAT then
    invalidMetadata filePath (js "unsupported format " ++
      (JSON.stringify (value.property (js "format"))).getD (js "undefined"))
  else
  let programId ← expectString filePath value "programId"
  let sourceProgramId ← expectString filePath value "sourceProgramId"
  let sourceHash ← expectString filePath value "sourceHash"
  let importsHash ← expectString filePath value "importsHash"
  let functions ← expectOptional (value.property (js "functions")) (expectFunctionRefs filePath)
  .ok { programId, sourceProgramId, sourceHash, importsHash, functions }

end Parse

/-! ## What is valid -/

def KeyFingerprint.Valid (fingerprint : KeyFingerprint) : Prop := isDigest fingerprint.sha256 = true

structure KeyFileRef.Valid (ref : KeyFileRef) : Prop where
  path : ref.path ≠ []
  fingerprint : ref.fingerprint.Valid

structure KeyArtifactFunctionRef.Valid (ref : KeyArtifactFunctionRef) : Prop where
  transition : ref.transition ≠ []
  prover : ∀ prover ∈ ref.prover, prover.Valid
  verifier : ∀ verifier ∈ ref.verifier, verifier.Valid

structure KeyArtifactsFile.Valid (metadata : KeyArtifactsFile) : Prop where
  programId : metadata.programId ≠ []
  sourceProgramId : metadata.sourceProgramId ≠ []
  sourceHash : metadata.sourceHash ≠ []
  importsHash : metadata.importsHash ≠ []
  functions : ∀ refs ∈ metadata.functions, ∀ ref ∈ refs, ref.Valid

structure RuntimeKeyIdentity.Valid (identity : RuntimeKeyIdentity) : Prop where
  network : identity.network ≠ []
  programId : identity.programId ≠ []
  transition : identity.transition ≠ []
  sourceHash : identity.sourceHash ≠ []
  importsHash : identity.importsHash ≠ []
  wasmHash : identity.wasmHash ≠ []

structure RuntimeKeyCacheMetadata.Valid (metadata : RuntimeKeyCacheMetadata) : Prop where
  identity : metadata.identity.Valid
  prover : metadata.prover.Valid
  verifier : metadata.verifier.Valid

/-! ## What is accepted is valid -/

section Accepted

variable {platform : Platform} {filePath : JsString}

theorem invalidMetadata_ne_ok {α : Type} {reason : JsString} {a : α} :
    invalidMetadata filePath reason ≠ .ok a := nofun

/-- What is checked holds, if there is no error. -/
theorem passed_of_ok {α : Type} {check : Bool} {reason : JsString} {rest : Except JsString α} {a : α}
    (h : (if !check then invalidMetadata filePath reason else rest) = .ok a) :
    check = true ∧ rest = .ok a := by
  cases check with
  | true => exact ⟨rfl, h⟩
  | false => exact absurd h invalidMetadata_ne_ok

theorem expectString_ne_nil {value : JsValue} {key : String} {s : JsString}
    (h : expectString filePath value key = .ok s) : s ≠ [] := by
  unfold expectString at h
  split at h
  · cases h
    exact List.cons_ne_nil _ _
  · exact absurd h invalidMetadata_ne_ok

/-- What is undefined is left out, and the rest is checked. -/
theorem expectOptional_ok {α : Type} {value : JsValue} {check : JsValue → Except JsString α}
    {o : Option α} (h : expectOptional value check = .ok o) : ∀ a ∈ o, check value = .ok a := by
  intro a ha
  unfold expectOptional at h
  split at h
  · cases h
    cases ha
  · obtain ⟨b, hb, rfl⟩ := Fallible.map_ok.mp h
    rwa [← Option.some.inj ha]

theorem KeyFingerprint.valid {value : JsValue} {label : JsString} {fingerprint : KeyFingerprint}
    (h : expectFingerprint filePath value label = .ok fingerprint) : fingerprint.Valid := by
  have h := (passed_of_ok h).2
  split at h
  · obtain ⟨hdigest, h⟩ := passed_of_ok h
    split at h
    · cases h
      exact hdigest
    · exact absurd h invalidMetadata_ne_ok
  · exact absurd h invalidMetadata_ne_ok

theorem KeyFileRef.valid {value : JsValue} {label : JsString} {ref : KeyFileRef}
    (h : expectKeyFileRef filePath value label = .ok ref) : ref.Valid := by
  obtain ⟨path, hpath, h⟩ := Fallible.bind_ok.mp (passed_of_ok h).2
  obtain ⟨fingerprint, hfingerprint, h⟩ := Fallible.bind_ok.mp h
  cases h
  exact ⟨expectString_ne_nil hpath, KeyFingerprint.valid hfingerprint⟩

theorem KeyArtifactFunctionRef.valid {value : JsValue} {label : JsString}
    {ref : KeyArtifactFunctionRef} (h : expectFunctionRef filePath value label = .ok ref) :
    ref.Valid := by
  obtain ⟨transition, htransition, h⟩ := Fallible.bind_ok.mp (passed_of_ok h).2
  obtain ⟨prover, hprover, h⟩ := Fallible.bind_ok.mp h
  obtain ⟨verifier, hverifier, h⟩ := Fallible.bind_ok.mp h
  cases h
  exact ⟨expectString_ne_nil htransition,
    fun _ hmem => KeyFileRef.valid (expectOptional_ok hprover _ hmem),
    fun _ hmem => KeyFileRef.valid (expectOptional_ok hverifier _ hmem)⟩

theorem valid_of_expectFunctionRefs {value : JsValue} {refs : List KeyArtifactFunctionRef}
    (h : expectFunctionRefs filePath value = .ok refs) : ∀ ref ∈ refs, ref.Valid := by
  unfold expectFunctionRefs at h
  split at h
  · next elements =>
    have hall := Fallible.mapM_ok.mp h
    clear h
    generalize elements.zipIdx = entries at hall
    induction hall with
    | nil => exact List.forall_mem_nil _
    | cons href _ ih => exact List.forall_mem_cons.mpr ⟨KeyArtifactFunctionRef.valid href, ih⟩
  · exact absurd h invalidMetadata_ne_ok

theorem KeyArtifactsFile.valid {value : JsValue} {metadata : KeyArtifactsFile}
    (h : parseKeyArtifactsMetadata filePath value = .ok metadata) : metadata.Valid := by
  obtain ⟨-, h⟩ := passed_of_ok (passed_of_ok h).2
  obtain ⟨programId, hprogramId, h⟩ := Fallible.bind_ok.mp h
  obtain ⟨sourceProgramId, hsourceProgramId, h⟩ := Fallible.bind_ok.mp h
  obtain ⟨sourceHash, hsourceHash, h⟩ := Fallible.bind_ok.mp h
  obtain ⟨importsHash, himportsHash, h⟩ := Fallible.bind_ok.mp h
  obtain ⟨functions, hfunctions, h⟩ := Fallible.bind_ok.mp h
  cases h
  exact ⟨expectString_ne_nil hprogramId, expectString_ne_nil hsourceProgramId,
    expectString_ne_nil hsourceHash, expectString_ne_nil himportsHash,
    fun _ hmem => valid_of_expectFunctionRefs (expectOptional_ok hfunctions _ hmem)⟩

theorem RuntimeKeyIdentity.valid {value : JsValue} {identity : RuntimeKeyIdentity}
    (h : expectIdentity filePath value = .ok identity) : identity.Valid := by
  obtain ⟨edition, -, h⟩ := Fallible.bind_ok.mp (passed_of_ok h).2
  obtain ⟨network, hnetwork, h⟩ := Fallible.bind_ok.mp h
  obtain ⟨programId, hprogramId, h⟩ := Fallible.bind_ok.mp h
  obtain ⟨transition, htransition, h⟩ := Fallible.bind_ok.mp h
  obtain ⟨sourceHash, hsourceHash, h⟩ := Fallible.bind_ok.mp h
  obtain ⟨importsHash, himportsHash, h⟩ := Fallible.bind_ok.mp h
  obtain ⟨wasmHash, hwasmHash, h⟩ := Fallible.bind_ok.mp h
  cases h
  exact ⟨expectString_ne_nil hnetwork, expectString_ne_nil hprogramId,
    expectString_ne_nil htransition, expectString_ne_nil hsourceHash,
    expectString_ne_nil himportsHash, expectString_ne_nil hwasmHash⟩

theorem RuntimeKeyCacheMetadata.valid {value : JsValue} {metadata : RuntimeKeyCacheMetadata}
    (h : parseRuntimeKeyCacheMetadata platform filePath value = .ok metadata) :
    metadata.Valid := by
  obtain ⟨-, h⟩ := passed_of_ok (passed_of_ok h).2
  obtain ⟨identity, hidentity, h⟩ := Fallible.bind_ok.mp h
  obtain ⟨prover, hprover, h⟩ := Fallible.bind_ok.mp h
  obtain ⟨verifier, hverifier, h⟩ := Fallible.bind_ok.mp h
  obtain ⟨diagnostics, -, h⟩ := Fallible.bind_ok.mp h
  cases h
  exact ⟨RuntimeKeyIdentity.valid hidentity, KeyFingerprint.valid hprover,
    KeyFingerprint.valid hverifier⟩

/-! ## What is valid is accepted -/

theorem of_passed {α : Type} {check : Bool} (hcheck : check = true) {reason : JsString}
    {rest : Except JsString α} :
    (if !check then invalidMetadata filePath reason else rest) = rest := by
  rw [hcheck, if_neg (by decide)]

theorem expectString_text {value : JsValue} {key : String} {s : JsString}
    (hvalue : value.property (js key) = .string s) (hs : s ≠ []) :
    expectString filePath value key = .ok s := by
  unfold expectString
  rw [hvalue]
  cases s with
  | nil => exact absurd rfl hs
  | cons c rest => rfl

/-- A property that may be left out. -/
theorem expectOptional_value {α : Type} {value : α → JsValue} (hvalue : ∀ a, value a ≠ .undefined)
    {check : JsValue → Except JsString α} {o : Option α} (h : ∀ a ∈ o, check (value a) = .ok a) :
    expectOptional ((o.map value).getD .undefined) check = .ok o := by
  cases o with
  | none => rfl
  | some a =>
    rw [Option.map_some, Option.getD_some]
    unfold expectOptional
    split
    · next hundefined => exact absurd hundefined (hvalue a)
    · rw [h a rfl]
      rfl

theorem KeyFingerprint.Valid.parse {fingerprint : KeyFingerprint} (h : fingerprint.Valid)
    (label : JsString) :
    expectFingerprint filePath fingerprint.value label = .ok fingerprint := by
  have hsize : fingerprint.value.property (js "size") = natValue fingerprint.size := rfl
  have hsha256 : fingerprint.value.property (js "sha256") = .string fingerprint.sha256 := rfl
  have hdigest : isDigest fingerprint.sha256 = true := h
  have hrecord : isRecord fingerprint.value = true := rfl
  unfold expectFingerprint
  rw [of_passed hrecord, hsize, hsha256, natOf_natValue]
  dsimp only
  rw [hdigest]
  rfl

theorem KeyFileRef.Valid.parse {ref : KeyFileRef} (h : ref.Valid) (label : JsString) :
    expectKeyFileRef filePath ref.value label = .ok ref := by
  have hfingerprint : ref.value.property (js "fingerprint") = ref.fingerprint.value := rfl
  refine (of_passed rfl).trans (Fallible.bind_ok.mpr ⟨_, expectString_text rfl h.path, ?_⟩)
  rw [hfingerprint, h.fingerprint.parse]
  rfl

theorem KeyFileRef.value_ne (ref : KeyFileRef) : ref.value ≠ .undefined := by
  simp [KeyFileRef.value]

theorem KeyArtifactFunctionRef.property_prover (ref : KeyArtifactFunctionRef) :
    ref.value.property (js "prover") = (ref.prover.map KeyFileRef.value).getD .undefined := by
  obtain ⟨transition, prover, verifier⟩ := ref
  cases prover <;> cases verifier <;> rfl

theorem KeyArtifactFunctionRef.property_verifier (ref : KeyArtifactFunctionRef) :
    ref.value.property (js "verifier") = (ref.verifier.map KeyFileRef.value).getD .undefined := by
  obtain ⟨transition, prover, verifier⟩ := ref
  cases prover <;> cases verifier <;> rfl

theorem KeyArtifactFunctionRef.Valid.parse {ref : KeyArtifactFunctionRef} (h : ref.Valid)
    (label : JsString) : expectFunctionRef filePath ref.value label = .ok ref := by
  refine (of_passed rfl).trans (Fallible.bind_ok.mpr ⟨_, expectString_text rfl h.transition, ?_⟩)
  rw [ref.property_prover, ref.property_verifier,
    expectOptional_value KeyFileRef.value_ne fun _ hmem => (h.prover _ hmem).parse _,
    expectOptional_value KeyFileRef.value_ne fun _ hmem => (h.verifier _ hmem).parse _]
  rfl

theorem parse_functionsValue {refs : List KeyArtifactFunctionRef} (h : ∀ ref ∈ refs, ref.Valid) :
    expectFunctionRefs filePath (functionsValue refs) = .ok refs := by
  refine Fallible.mapM_ok.mpr ?_
  generalize 0 = k
  induction refs generalizing k with
  | nil => exact .nil
  | cons ref refs ih =>
    obtain ⟨href, hrefs⟩ := List.forall_mem_cons.mp h
    exact .cons (href.parse _) (ih hrefs _)

theorem functionsValue_ne (refs : List KeyArtifactFunctionRef) :
    functionsValue refs ≠ .undefined := by
  simp [functionsValue]

theorem KeyArtifactsFile.property_functions (metadata : KeyArtifactsFile) :
    metadata.value.property (js "functions") =
      (metadata.functions.map functionsValue).getD .undefined := by
  obtain ⟨⟨sourceHash, importsHash, functions⟩, programId, sourceProgramId⟩ := metadata
  cases functions <;> rfl

theorem KeyArtifactsFile.Valid.parse {metadata : KeyArtifactsFile} (h : metadata.Valid) :
    parseKeyArtifactsMetadata filePath metadata.value = .ok metadata := by
  have hformat : (metadata.value.property (js "format")).isText KEY_ARTIFACTS_FORMAT = true :=
    decide_eq_true (Eq.refl KEY_ARTIFACTS_FORMAT)
  have hrecord : isRecord metadata.value = true := rfl
  unfold parseKeyArtifactsMetadata
  rw [of_passed hrecord, of_passed hformat]
  refine Fallible.bind_ok.mpr ⟨_, expectString_text rfl h.programId, ?_⟩
  refine Fallible.bind_ok.mpr ⟨_, expectString_text rfl h.sourceProgramId, ?_⟩
  refine Fallible.bind_ok.mpr ⟨_, expectString_text rfl h.sourceHash, ?_⟩
  refine Fallible.bind_ok.mpr ⟨_, expectString_text rfl h.importsHash, ?_⟩
  rw [metadata.property_functions, expectOptional_value functionsValue_ne fun _ hmem =>
    parse_functionsValue (h.functions _ hmem)]
  rfl

theorem RuntimeKeyIdentity.Valid.parse {identity : RuntimeKeyIdentity} (h : identity.Valid) :
    expectIdentity filePath identity.value = .ok identity := by
  obtain ⟨hnetwork, hprogramId, htransition, hsourceHash, himportsHash, hwasmHash⟩ :=
    identity_properties identity
  have hedition : expectEdition filePath identity.value = .ok identity.edition := by
    obtain ⟨network, programId, transition, edition, sourceHash, importsHash, wasmHash⟩ := identity
    cases edition with
    | none => rfl
    | some n =>
      have hproperty : (RuntimeKeyIdentity.value ⟨network, programId, transition, some n,
          sourceHash, importsHash, wasmHash⟩).property (js "edition") = natValue n := rfl
      have hn : natOf (.number (.finite n)) = some n := natOf_natValue n
      unfold expectEdition
      rw [hproperty]
      dsimp only [natValue]
      rw [hn]
  have hrecord : isRecord identity.value = true := rfl
  unfold expectIdentity
  rw [of_passed hrecord, hedition, expectString_text hnetwork h.network,
    expectString_text hprogramId h.programId, expectString_text htransition h.transition,
    expectString_text hsourceHash h.sourceHash, expectString_text himportsHash h.importsHash,
    expectString_text hwasmHash h.wasmHash]
  rfl

/-- Diagnostics are always valid. -/
theorem parse_diagnostics (diagnostics : RuntimeKeyCacheDiagnostics) :
    expectDiagnostics filePath diagnostics.value = .ok diagnostics := by
  obtain ⟨sdkVersion, wasmVersion⟩ := diagnostics
  cases sdkVersion <;> cases wasmVersion <;> rfl

theorem optionalDiagnostics_value (metadata : RuntimeKeyCacheMetadata) :
    optionalDiagnostics filePath metadata.value = .ok metadata.diagnostics := by
  obtain ⟨identity, prover, verifier, diagnostics⟩ := metadata
  cases diagnostics with
  | none => rfl
  | some diagnostics =>
    show some <$> expectDiagnostics filePath diagnostics.value = _
    rw [parse_diagnostics]
    rfl

theorem RuntimeKeyCacheMetadata.Valid.parse {metadata : RuntimeKeyCacheMetadata}
    (h : metadata.Valid) :
    parseRuntimeKeyCacheMetadata platform filePath metadata.value = .ok metadata := by
  have hidentity : metadata.value.property (js "identity") = metadata.identity.value := rfl
  have hprover : metadata.value.property (js "prover") = metadata.prover.value := rfl
  have hverifier : metadata.value.property (js "verifier") = metadata.verifier.value := rfl
  have hformat : hasFormat metadata.value = true :=
    decide_eq_true (Eq.refl RUNTIME_KEY_CACHE_FORMAT)
  have hrecord : isRecord metadata.value = true := rfl
  unfold parseRuntimeKeyCacheMetadata
  rw [of_passed hrecord, of_passed hformat, hidentity, hprover, hverifier, h.identity.parse,
    h.prover.parse, h.verifier.parse, optionalDiagnostics_value]
  rfl

/-! ## What is accepted of a value is what it is the value of -/

theorem eq_of_expectString {value : JsValue} {key : String} {s t : JsString}
    (h : expectString filePath value key = .ok s) (hvalue : value.property (js key) = .string t) :
    s = t := by
  cases (expectString_ok h).symm.trans hvalue
  rfl

theorem eq_of_expectOptional {α : Type} {value : α → JsValue}
    (hvalue : ∀ a, value a ≠ .undefined) {check : JsValue → Except JsString α} {o o' : Option α}
    (h : expectOptional ((o.map value).getD .undefined) check = .ok o')
    (hcheck : ∀ a ∈ o, ∀ a', check (value a) = .ok a' → a' = a) : o' = o := by
  cases o with
  | none =>
    cases h
    rfl
  | some a =>
    rw [Option.map_some, Option.getD_some] at h
    unfold expectOptional at h
    split at h
    · next hundefined => exact absurd hundefined (hvalue a)
    · obtain ⟨a', ha', rfl⟩ := Fallible.map_ok.mp h
      rw [hcheck a rfl a' ha']

theorem KeyFileRef.eq_of_parse {ref parsed : KeyFileRef} {label : JsString}
    (h : expectKeyFileRef filePath ref.value label = .ok parsed) : parsed = ref := by
  obtain ⟨path, hpath, h⟩ := Fallible.bind_ok.mp (passed_of_ok h).2
  obtain ⟨fingerprint, hfingerprint, h⟩ := Fallible.bind_ok.mp h
  cases h
  obtain rfl := eq_of_expectString hpath rfl
  obtain rfl := expectFingerprint_value hfingerprint
  rfl

theorem KeyArtifactFunctionRef.eq_of_parse {ref parsed : KeyArtifactFunctionRef}
    {label : JsString} (h : expectFunctionRef filePath ref.value label = .ok parsed) :
    parsed = ref := by
  obtain ⟨transition, htransition, h⟩ := Fallible.bind_ok.mp (passed_of_ok h).2
  obtain ⟨prover, hprover, h⟩ := Fallible.bind_ok.mp h
  obtain ⟨verifier, hverifier, h⟩ := Fallible.bind_ok.mp h
  cases h
  rw [ref.property_prover] at hprover
  rw [ref.property_verifier] at hverifier
  obtain rfl := eq_of_expectString htransition rfl
  obtain rfl := eq_of_expectOptional KeyFileRef.value_ne hprover
    fun _ _ _ => KeyFileRef.eq_of_parse
  obtain rfl := eq_of_expectOptional KeyFileRef.value_ne hverifier
    fun _ _ _ => KeyFileRef.eq_of_parse
  rfl

theorem eq_of_parse_functionsValue {refs parsed : List KeyArtifactFunctionRef}
    (h : expectFunctionRefs filePath (functionsValue refs) = .ok parsed) : parsed = refs := by
  have hall := Fallible.mapM_ok.mp h
  clear h
  generalize 0 = k at hall
  induction refs generalizing parsed k with
  | nil =>
    cases hall
    rfl
  | cons ref refs ih =>
    cases hall with
    | cons href hrefs => rw [KeyArtifactFunctionRef.eq_of_parse href, ih _ hrefs]

theorem KeyArtifactsFile.eq_of_parse {metadata parsed : KeyArtifactsFile}
    (h : parseKeyArtifactsMetadata filePath metadata.value = .ok parsed) : parsed = metadata := by
  obtain ⟨-, h⟩ := passed_of_ok (passed_of_ok h).2
  obtain ⟨programId, hprogramId, h⟩ := Fallible.bind_ok.mp h
  obtain ⟨sourceProgramId, hsourceProgramId, h⟩ := Fallible.bind_ok.mp h
  obtain ⟨sourceHash, hsourceHash, h⟩ := Fallible.bind_ok.mp h
  obtain ⟨importsHash, himportsHash, h⟩ := Fallible.bind_ok.mp h
  obtain ⟨functions, hfunctions, h⟩ := Fallible.bind_ok.mp h
  cases h
  rw [metadata.property_functions] at hfunctions
  obtain rfl := eq_of_expectString hprogramId rfl
  obtain rfl := eq_of_expectString hsourceProgramId rfl
  obtain rfl := eq_of_expectString hsourceHash rfl
  obtain rfl := eq_of_expectString himportsHash rfl
  obtain rfl := eq_of_expectOptional functionsValue_ne hfunctions
    fun _ _ _ => eq_of_parse_functionsValue
  rfl

theorem RuntimeKeyCacheMetadata.eq_of_parse {metadata parsed : RuntimeKeyCacheMetadata}
    (h : parseRuntimeKeyCacheMetadata platform filePath metadata.value = .ok parsed) :
    parsed = metadata := by
  obtain ⟨hidentity, hprover, hverifier⟩ := parse_value h
  have hdiagnostics : parsed.diagnostics = metadata.diagnostics := by
    obtain ⟨-, h⟩ := passed_of_ok (passed_of_ok h).2
    obtain ⟨identity, -, h⟩ := Fallible.bind_ok.mp h
    obtain ⟨prover, -, h⟩ := Fallible.bind_ok.mp h
    obtain ⟨verifier, -, h⟩ := Fallible.bind_ok.mp h
    rw [optionalDiagnostics_value] at h
    cases h
    rfl
  show (⟨parsed.identity, parsed.prover, parsed.verifier, parsed.diagnostics⟩ :
    RuntimeKeyCacheMetadata) = metadata
  rw [hidentity, hprover, hverifier, hdiagnostics]

end Accepted

/-! ## Formats and data -/

section Formats

variable {platform : Platform} {filePath : JsString}

theorem format_keyArtifacts {value : JsValue} {metadata : KeyArtifactsFile}
    (h : parseKeyArtifactsMetadata filePath value = .ok metadata) :
    value.property (js "format") = .string KEY_ARTIFACTS_FORMAT :=
  JsValue.isText_iff.mp (passed_of_ok (passed_of_ok h).2).1

theorem format_runtimeKeyCache {value : JsValue} {metadata : RuntimeKeyCacheMetadata}
    (h : parseRuntimeKeyCacheMetadata platform filePath value = .ok metadata) :
    value.property (js "format") = .string RUNTIME_KEY_CACHE_FORMAT := by
  obtain ⟨hformat, -⟩ := passed_of_ok (passed_of_ok h).2
  unfold hasFormat at hformat
  split at hformat
  · next format hvalue => rw [hvalue, of_decide_eq_true hformat]
  · exact absurd hformat Bool.false_ne_true

theorem isData_natValue {n : Nat} (h : IsDouble (n : ℚ)) :
    IsData JsNumber.Writable (natValue n) :=
  .number ⟨n, rfl, by rwa [Nat.abs_cast]⟩

theorem keys_optionalProperty {key : String} {o : Option JsValue} :
    ((optionalProperty key o).map Prod.fst).Sublist [js key] := by
  cases o with
  | none => exact List.nil_sublist _
  | some value => exact List.Sublist.refl _

theorem isData_optionalProperty {α : Type} {key : String} {value : α → JsValue} {o : Option α}
    (h : ∀ a ∈ o, IsData JsNumber.Writable (value a)) :
    ∀ p ∈ optionalProperty key (o.map value), IsData JsNumber.Writable p.2 := by
  cases o with
  | none => exact List.forall_mem_nil _
  | some a => exact List.forall_mem_singleton.mpr (h a rfl)

theorem KeyFingerprint.isData {fingerprint : KeyFingerprint}
    (h : IsDouble (fingerprint.size : ℚ)) : IsData JsNumber.Writable fingerprint.value := by
  refine .object (show [js "sha256", js "size"].Nodup by decide) ?_
  exact List.forall_mem_cons.mpr ⟨.string _, List.forall_mem_singleton.mpr (isData_natValue h)⟩

theorem KeyFileRef.isData {ref : KeyFileRef} (h : IsDouble (ref.fingerprint.size : ℚ)) :
    IsData JsNumber.Writable ref.value := by
  refine .object (show [js "path", js "fingerprint"].Nodup by decide) ?_
  exact List.forall_mem_cons.mpr
    ⟨.string _, List.forall_mem_singleton.mpr (KeyFingerprint.isData h)⟩

/-- The sizes of the files. -/
def KeyArtifactFunctionRef.sizes (ref : KeyArtifactFunctionRef) : List Nat :=
  (ref.prover.toList ++ ref.verifier.toList).map (·.fingerprint.size)

theorem KeyArtifactFunctionRef.isData {ref : KeyArtifactFunctionRef}
    (h : ∀ n ∈ ref.sizes, IsDouble (n : ℚ)) : IsData JsNumber.Writable ref.value := by
  obtain ⟨transition, prover, verifier⟩ := ref
  have hprover : ∀ file ∈ prover, IsData JsNumber.Writable file.value := fun file hmem =>
    KeyFileRef.isData (h _ (List.mem_map_of_mem (List.mem_append_left _
      (Option.mem_toList.mpr hmem))))
  have hverifier : ∀ file ∈ verifier, IsData JsNumber.Writable file.value := fun file hmem =>
    KeyFileRef.isData (h _ (List.mem_map_of_mem (List.mem_append_right _
      (Option.mem_toList.mpr hmem))))
  refine .object ?_ (List.forall_mem_cons.mpr ⟨.string _, List.forall_mem_append.mpr
    ⟨isData_optionalProperty hprover, isData_optionalProperty hverifier⟩⟩)
  have hkeys : [js "transition", js "prover", js "verifier"].Nodup := by decide
  rw [List.map_cons, List.map_append]
  exact hkeys.sublist (.cons_cons _ (keys_optionalProperty.append keys_optionalProperty))

/-- The sizes of the files of all functions. -/
def KeyArtifactsFile.numbers (metadata : KeyArtifactsFile) : List Nat :=
  (metadata.functions.getD []).flatMap KeyArtifactFunctionRef.sizes

theorem KeyArtifactsFile.isData {metadata : KeyArtifactsFile}
    (h : ∀ n ∈ metadata.numbers, IsDouble (n : ℚ)) : IsData JsNumber.Writable metadata.value := by
  obtain ⟨⟨sourceHash, importsHash, functions⟩, programId, sourceProgramId⟩ := metadata
  have hfunctions : ∀ refs ∈ functions, IsData JsNumber.Writable (functionsValue refs) := by
    rintro refs ⟨⟩
    refine .array (List.forall_mem_map.mpr fun ref hmem => KeyArtifactFunctionRef.isData ?_)
    exact fun n hn => h n (List.mem_flatMap_of_mem hmem hn)
  refine .object ?_ (List.forall_mem_append.mpr ⟨?_, isData_optionalProperty hfunctions⟩)
  · have hkeys : [js "format", js "programId", js "sourceProgramId", js "sourceHash",
        js "importsHash", js "functions"].Nodup := by decide
    rw [List.map_append]
    exact hkeys.sublist (List.Sublist.append (List.Sublist.refl _) keys_optionalProperty)
  · simp [IsData.string]

/-- The edition and the sizes. -/
def RuntimeKeyCacheMetadata.numbers (metadata : RuntimeKeyCacheMetadata) : List Nat :=
  metadata.identity.edition.toList ++ [metadata.prover.size, metadata.verifier.size]

theorem RuntimeKeyIdentity.isData {identity : RuntimeKeyIdentity}
    (h : ∀ n ∈ identity.edition, IsDouble (n : ℚ)) : IsData JsNumber.Writable identity.value := by
  obtain ⟨network, programId, transition, edition, sourceHash, importsHash, wasmHash⟩ := identity
  cases edition with
  | none =>
    refine .object (show [js "network", js "programId", js "transition", js "sourceHash",
      js "importsHash", js "wasmHash"].Nodup by decide) ?_
    simp [IsData.string]
  | some n =>
    refine .object (show [js "network", js "programId", js "transition", js "edition",
      js "sourceHash", js "importsHash", js "wasmHash"].Nodup by decide) ?_
    simp [IsData.string, isData_natValue (h n rfl)]

theorem RuntimeKeyCacheDiagnostics.isData (diagnostics : RuntimeKeyCacheDiagnostics) :
    IsData JsNumber.Writable diagnostics.value := by
  obtain ⟨sdkVersion, wasmVersion⟩ := diagnostics
  have hkeys : [js "sdkVersion", js "wasmVersion"].Nodup := by decide
  refine .object ?_ ?_
  · refine hkeys.sublist ?_
    cases sdkVersion <;> cases wasmVersion <;> simp
  · cases sdkVersion <;> cases wasmVersion <;> simp [IsData.string]

theorem RuntimeKeyCacheMetadata.isData {metadata : RuntimeKeyCacheMetadata}
    (h : ∀ n ∈ metadata.numbers, IsDouble (n : ℚ)) : IsData JsNumber.Writable metadata.value := by
  obtain ⟨identity, prover, verifier, diagnostics⟩ := metadata
  have hidentity : IsData JsNumber.Writable identity.value := RuntimeKeyIdentity.isData
    fun n hn => h n (List.mem_append_left _ (Option.mem_toList.mpr hn))
  have hprover : IsData JsNumber.Writable prover.value :=
    KeyFingerprint.isData (h _ (List.mem_append_right _ List.mem_cons_self))
  have hverifier : IsData JsNumber.Writable verifier.value :=
    KeyFingerprint.isData (h _ (List.mem_append_right _
      (List.mem_cons_of_mem _ List.mem_cons_self)))
  have hkeys : [js "format", js "identity", js "prover", js "verifier", js "diagnostics"].Nodup := by
    decide
  refine .object ?_ ?_
  · refine hkeys.sublist ?_
    cases diagnostics <;> simp
  · cases diagnostics with
    | none => simp [IsData.string, hidentity, hprover, hverifier]
    | some diagnostics =>
      simp [IsData.string, hidentity, hprover, hverifier, RuntimeKeyCacheDiagnostics.isData]

end Formats

end Lionden.Network.KeyCache

/-! ## Credits -/

namespace Lionden.Network.CreditsCache

open KeyCache

variable {filePath : JsString}

structure CreditsKeyCacheMetadata.Valid (metadata : CreditsKeyCacheMetadata) : Prop where
  locator : metadata.locator ≠ []
  network : metadata.network ≠ []
  wasmHash : metadata.wasmHash ≠ []
  prover : metadata.prover.Valid

theorem CreditsKeyCacheMetadata.valid {value : JsValue} {metadata : CreditsKeyCacheMetadata}
    (h : parseCreditsKeyCacheMetadata filePath value = .ok metadata) : metadata.Valid := by
  obtain ⟨-, h⟩ := passed_of_ok (passed_of_ok h).2
  obtain ⟨locator, hlocator, h⟩ := Fallible.bind_ok.mp h
  obtain ⟨network, hnetwork, h⟩ := Fallible.bind_ok.mp h
  obtain ⟨wasmHash, hwasmHash, h⟩ := Fallible.bind_ok.mp h
  obtain ⟨prover, hprover, h⟩ := Fallible.bind_ok.mp h
  cases h
  exact ⟨expectString_ne_nil hlocator, expectString_ne_nil hnetwork,
    expectString_ne_nil hwasmHash, KeyFingerprint.valid hprover⟩

theorem CreditsKeyCacheMetadata.Valid.parse {metadata : CreditsKeyCacheMetadata}
    (h : metadata.Valid) :
    parseCreditsKeyCacheMetadata filePath metadata.value = .ok metadata := by
  have hrecord : isRecord metadata.value = true := rfl
  have hformat : (metadata.value.property (js "format")).isText CREDITS_KEY_CACHE_FORMAT = true :=
    decide_eq_true (Eq.refl CREDITS_KEY_CACHE_FORMAT)
  have hprover : metadata.value.property (js "prover") = metadata.prover.value := rfl
  unfold parseCreditsKeyCacheMetadata
  rw [of_passed hrecord, of_passed hformat]
  refine Fallible.bind_ok.mpr ⟨_, expectString_text rfl h.locator, ?_⟩
  refine Fallible.bind_ok.mpr ⟨_, expectString_text rfl h.network, ?_⟩
  refine Fallible.bind_ok.mpr ⟨_, expectString_text rfl h.wasmHash, ?_⟩
  rw [hprover, h.prover.parse]
  rfl

theorem format_creditsKeyCache {value : JsValue} {metadata : CreditsKeyCacheMetadata}
    (h : parseCreditsKeyCacheMetadata filePath value = .ok metadata) :
    value.property (js "format") = .string CREDITS_KEY_CACHE_FORMAT :=
  JsValue.isText_iff.mp (passed_of_ok (passed_of_ok h).2).1

theorem CreditsKeyCacheMetadata.isData {metadata : CreditsKeyCacheMetadata}
    (h : IsDouble (metadata.prover.size : ℚ)) : IsData JsNumber.Writable metadata.value := by
  have hkeys : [js "format", js "locator", js "network", js "wasmHash", js "prover"].Nodup := by
    decide
  refine .object hkeys ?_
  simp [IsData.string, KeyFingerprint.isData h]

end Lionden.Network.CreditsCache
