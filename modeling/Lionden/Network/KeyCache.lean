import Lionden.Js.Json
import Lionden.Lib.Fallible
import Lionden.Lib.Trace
import Mathlib.Data.Set.Function
import Mathlib.Logic.Function.Basic

/-!
# The cache of execution keys

The keys of an identity are in a directory of their own: `prover.key`, `verifier.key`, and
`metadata.json` with the identity and the digests of both. Each file is replaced as a whole; the three
of a write are not.

* `RuntimeKeyCacheMetadata.value`, `parseRuntimeKeyCacheMetadata`, `parse_value`: the metadata, as they
  are written and read.
* `Writer.advance`, `Reader.advance`: the next file that a writer replaces or a reader reads.
* `Sound.step`, `hit_recorded`: what a reader finds, in any order of these steps.
-/

namespace Lionden.Network.KeyCache

abbrev Bytes := List UInt8

/-- What is used of the platform. -/
structure Platform where
  /-- The digest of a file, as `digest("hex")` gives it. -/
  sha256 : Bytes → JsString
  sha256Text : JsString → JsString
  /-- `JSON.stringify` of any value. -/
  stringify : JsValue → JsString

/-! ## Metadata -/

structure KeyFingerprint where
  sha256 : JsString
  size : Nat
  deriving DecidableEq

structure RuntimeKeyIdentity where
  network : JsString
  programId : JsString
  transition : JsString
  edition : Option Nat
  sourceHash : JsString
  importsHash : JsString
  wasmHash : JsString
  deriving DecidableEq

structure RuntimeKeyCacheDiagnostics where
  sdkVersion : Option JsString
  wasmVersion : Option JsString
  deriving DecidableEq

structure RuntimeKeyCacheMetadata where
  identity : RuntimeKeyIdentity
  prover : KeyFingerprint
  verifier : KeyFingerprint
  diagnostics : Option RuntimeKeyCacheDiagnostics
  deriving DecidableEq

def RUNTIME_KEY_CACHE_FORMAT : JsString := js "lionden.runtimeKeyCache.v1"

def natValue (n : Nat) : JsValue := .number (.finite n)

def KeyFingerprint.value (fingerprint : KeyFingerprint) : JsValue :=
  .object [(js "sha256", .string fingerprint.sha256), (js "size", natValue fingerprint.size)] none

def RuntimeKeyIdentity.value (identity : RuntimeKeyIdentity) : JsValue :=
  .object ([(js "network", .string identity.network), (js "programId", .string identity.programId),
      (js "transition", .string identity.transition)] ++
    (identity.edition.map fun edition => (js "edition", natValue edition)).toList ++
    [(js "sourceHash", .string identity.sourceHash),
      (js "importsHash", .string identity.importsHash),
      (js "wasmHash", .string identity.wasmHash)]) none

def RuntimeKeyCacheDiagnostics.value (diagnostics : RuntimeKeyCacheDiagnostics) : JsValue :=
  .object ((diagnostics.sdkVersion.map fun version => (js "sdkVersion", .string version)).toList ++
    (diagnostics.wasmVersion.map fun version => (js "wasmVersion", .string version)).toList) none

/-- What `metadata.json` holds: reading the file gives the value that was written. -/
def RuntimeKeyCacheMetadata.value (metadata : RuntimeKeyCacheMetadata) : JsValue :=
  .object ([(js "format", .string RUNTIME_KEY_CACHE_FORMAT),
      (js "identity", metadata.identity.value), (js "prover", metadata.prover.value),
      (js "verifier", metadata.verifier.value)] ++
    (metadata.diagnostics.map fun diagnostics => (js "diagnostics", diagnostics.value)).toList) none

/-- `JSON.stringify(identity)`. -/
def RuntimeKeyIdentity.text (identity : RuntimeKeyIdentity) : JsString :=
  let field (key : String) (value : JsString) : JsString := jsonStringify (js key) ++ js ":" ++ value
  js "\x7b" ++ join (js ",") ([field "network" (jsonStringify identity.network),
      field "programId" (jsonStringify identity.programId),
      field "transition" (jsonStringify identity.transition)] ++
    (identity.edition.map fun edition => field "edition" (decimal edition)).toList ++
    [field "sourceHash" (jsonStringify identity.sourceHash),
      field "importsHash" (jsonStringify identity.importsHash),
      field "wasmHash" (jsonStringify identity.wasmHash)]) ++ js "\x7d"

section Parse

variable (platform : Platform) (filePath : JsString)

/-- A `KeyArtifactsMetadataError`. -/
def invalidMetadata {α : Type} (reason : JsString) : Except JsString α :=
  .error (js "Invalid key metadata at " ++ filePath ++ js ": " ++ reason ++ js ".")

def isRecord : JsValue → Bool
  | .object .. => true
  | _ => false

def expectString (value : JsValue) (key : String) : Except JsString JsString :=
  match value.property (js key) with
  | .string (c :: rest) => .ok (c :: rest)
  | _ => invalidMetadata filePath (js key ++ js " must be a non-empty string")

/-- A number that is an integer and not negative. -/
def natOf : JsValue → Option Nat
  | .number x => x.toInt?.bind fun i => if 0 ≤ i then some i.toNat else none
  | _ => none

/-- `/^[0-9a-f]{64}$/u`. -/
def isDigest (s : JsString) : Bool :=
  decide (s.length = 64) && s.all fun c => isDigit c || inRange 'a' 'f' c

def expectFingerprint (value : JsValue) (label : JsString) : Except JsString KeyFingerprint :=
  if !isRecord value then invalidMetadata filePath (label ++ js " must be an object")
  else
  match value.property (js "sha256") with
  | .string sha256 =>
    if !isDigest sha256 then
      invalidMetadata filePath (label ++ js ".sha256 must be a SHA-256 hex string")
    else
    match natOf (value.property (js "size")) with
    | some size => .ok { sha256, size }
    | none => invalidMetadata filePath (label ++ js ".size must be a non-negative integer")
  | _ => invalidMetadata filePath (label ++ js ".sha256 must be a SHA-256 hex string")

/-- The edition, if there is one. -/
def expectEdition (value : JsValue) : Except JsString (Option Nat) :=
  match value.property (js "edition") with
  | .undefined => .ok none
  | edition =>
    match natOf edition with
    | some n => .ok (some n)
    | none => invalidMetadata filePath (js "identity.edition must be a non-negative integer")

def expectIdentity (value : JsValue) : Except JsString RuntimeKeyIdentity := do
  if !isRecord value then invalidMetadata filePath (js "identity must be an object")
  else
  let edition ← expectEdition filePath value
  let network ← expectString filePath value "network"
  let programId ← expectString filePath value "programId"
  let transition ← expectString filePath value "transition"
  let sourceHash ← expectString filePath value "sourceHash"
  let importsHash ← expectString filePath value "importsHash"
  let wasmHash ← expectString filePath value "wasmHash"
  .ok { network, programId, transition, edition, sourceHash, importsHash, wasmHash }

def expectVersion (value : JsValue) (key : String) : Except JsString (Option JsString) :=
  match value.property (js key) with
  | .undefined => .ok none
  | .string version => .ok (some version)
  | _ => invalidMetadata filePath (js "diagnostics." ++ js key ++ js " must be a string")

def expectDiagnostics (value : JsValue) : Except JsString RuntimeKeyCacheDiagnostics := do
  if !isRecord value then invalidMetadata filePath (js "diagnostics must be an object")
  else
  let sdkVersion ← expectVersion filePath value "sdkVersion"
  let wasmVersion ← expectVersion filePath value "wasmVersion"
  .ok { sdkVersion, wasmVersion }

def optionalDiagnostics (value : JsValue) : Except JsString (Option RuntimeKeyCacheDiagnostics) :=
  match value.property (js "diagnostics") with
  | .undefined => .ok none
  | diagnostics => some <$> expectDiagnostics filePath diagnostics

/-- `value["format"] === RUNTIME_KEY_CACHE_FORMAT`. -/
def hasFormat (value : JsValue) : Bool :=
  match value.property (js "format") with
  | .string format => decide (format = RUNTIME_KEY_CACHE_FORMAT)
  | _ => false

def parseRuntimeKeyCacheMetadata (value : JsValue) : Except JsString RuntimeKeyCacheMetadata := do
  if !isRecord value then invalidMetadata filePath (js "expected an object")
  else if !hasFormat value then
    invalidMetadata filePath
      (js "unsupported format " ++ platform.stringify (value.property (js "format")))
  else
  let identity ← expectIdentity filePath (value.property (js "identity"))
  let prover ← expectFingerprint filePath (value.property (js "prover")) (js "prover")
  let verifier ← expectFingerprint filePath (value.property (js "verifier")) (js "verifier")
  let diagnostics ← optionalDiagnostics filePath value
  .ok { identity, prover, verifier, diagnostics }

end Parse

/-! ### What is read is what was written -/

section RoundTrip

variable {platform : Platform} {filePath : JsString}

theorem expectString_ok {value : JsValue} {key : String} {s : JsString}
    (h : expectString filePath value key = .ok s) : value.property (js key) = .string s := by
  unfold expectString at h
  split at h
  · next hvalue =>
    cases h
    exact hvalue
  · exact nomatch h

theorem natOf_natValue (n : Nat) : natOf (natValue n) = some n := by
  simp [natOf, natValue, JsNumber.toInt?]

theorem expectFingerprint_value {fingerprint parsed : KeyFingerprint} {label : JsString}
    (h : expectFingerprint filePath fingerprint.value label = .ok parsed) :
    parsed = fingerprint := by
  have hsize : fingerprint.value.property (js "size") = natValue fingerprint.size := rfl
  have hsha256 : fingerprint.value.property (js "sha256") = .string fingerprint.sha256 := rfl
  unfold expectFingerprint at h
  rw [if_neg (show ¬(!isRecord fingerprint.value) = true from nofun), hsize, hsha256,
    natOf_natValue] at h
  dsimp only at h
  split at h
  · exact nomatch h
  · cases h
    rfl

theorem expectEdition_value {identity : RuntimeKeyIdentity} {edition : Option Nat}
    (h : expectEdition filePath identity.value = .ok edition) : edition = identity.edition := by
  obtain ⟨network, programId, transition, stored, sourceHash, importsHash, wasmHash⟩ := identity
  unfold expectEdition at h
  cases stored with
  | none =>
    cases h
    rfl
  | some n =>
    have hproperty : (RuntimeKeyIdentity.value ⟨network, programId, transition, some n, sourceHash,
        importsHash, wasmHash⟩).property (js "edition") = natValue n := rfl
    rw [hproperty] at h
    dsimp only [natValue] at h
    rw [show natOf (.number (.finite n)) = some n from natOf_natValue n] at h
    cases h
    rfl

/-- The strings of an identity. -/
theorem identity_properties (identity : RuntimeKeyIdentity) :
    identity.value.property (js "network") = .string identity.network ∧
    identity.value.property (js "programId") = .string identity.programId ∧
    identity.value.property (js "transition") = .string identity.transition ∧
    identity.value.property (js "sourceHash") = .string identity.sourceHash ∧
    identity.value.property (js "importsHash") = .string identity.importsHash ∧
    identity.value.property (js "wasmHash") = .string identity.wasmHash := by
  obtain ⟨network, programId, transition, edition, sourceHash, importsHash, wasmHash⟩ := identity
  cases edition <;> exact ⟨rfl, rfl, rfl, rfl, rfl, rfl⟩

theorem expectIdentity_value {identity parsed : RuntimeKeyIdentity}
    (h : expectIdentity filePath identity.value = .ok parsed) : parsed = identity := by
  obtain ⟨hnetwork, hprogramId, htransition, hsourceHash, himportsHash, hwasmHash⟩ :=
    identity_properties identity
  have hstring {key : String} {s t : JsString}
      (h : expectString filePath identity.value key = .ok s)
      (hkey : identity.value.property (js key) = .string t) : s = t := by
    have hs := (expectString_ok h).symm.trans hkey
    cases hs
    rfl
  unfold expectIdentity at h
  rw [if_neg (show ¬(!isRecord identity.value) = true from nofun)] at h
  obtain ⟨edition, hedition, h⟩ := Fallible.bind_ok.mp h
  obtain ⟨network, h₁, h⟩ := Fallible.bind_ok.mp h
  obtain ⟨programId, h₂, h⟩ := Fallible.bind_ok.mp h
  obtain ⟨transition, h₃, h⟩ := Fallible.bind_ok.mp h
  obtain ⟨sourceHash, h₄, h⟩ := Fallible.bind_ok.mp h
  obtain ⟨importsHash, h₅, h⟩ := Fallible.bind_ok.mp h
  obtain ⟨wasmHash, h₆, h⟩ := Fallible.bind_ok.mp h
  cases h
  obtain rfl := expectEdition_value hedition
  obtain rfl := hstring h₁ hnetwork
  obtain rfl := hstring h₂ hprogramId
  obtain rfl := hstring h₃ htransition
  obtain rfl := hstring h₄ hsourceHash
  obtain rfl := hstring h₅ himportsHash
  obtain rfl := hstring h₆ hwasmHash
  rfl

/-- What is read of metadata that were written: their identity and their digests. -/
theorem parse_value {metadata parsed : RuntimeKeyCacheMetadata}
    (h : parseRuntimeKeyCacheMetadata platform filePath metadata.value = .ok parsed) :
    parsed.identity = metadata.identity ∧ parsed.prover = metadata.prover ∧
      parsed.verifier = metadata.verifier := by
  have hidentity : metadata.value.property (js "identity") = metadata.identity.value := rfl
  have hprover : metadata.value.property (js "prover") = metadata.prover.value := rfl
  have hverifier : metadata.value.property (js "verifier") = metadata.verifier.value := rfl
  unfold parseRuntimeKeyCacheMetadata at h
  rw [if_neg (show ¬(!isRecord metadata.value) = true from nofun)] at h
  split at h
  · exact nomatch h
  obtain ⟨identity, h₁, h⟩ := Fallible.bind_ok.mp h
  obtain ⟨prover, h₂, h⟩ := Fallible.bind_ok.mp h
  obtain ⟨verifier, h₃, h⟩ := Fallible.bind_ok.mp h
  obtain ⟨diagnostics, -, h⟩ := Fallible.bind_ok.mp h
  cases h
  rw [hidentity] at h₁
  rw [hprover] at h₂
  rw [hverifier] at h₃
  exact ⟨expectIdentity_value h₁, expectFingerprint_value h₂, expectFingerprint_value h₃⟩

end RoundTrip

/-! ## Writers and readers -/

structure RuntimeKeyCacheWrite where
  identity : RuntimeKeyIdentity
  provingKeyBytes : Bytes
  verifyingKeyBytes : Bytes
  diagnostics : Option RuntimeKeyCacheDiagnostics

/-- The directory of an identity. -/
structure KeyDir where
  /-- `prover.key`. -/
  prover : Option Bytes
  /-- `verifier.key`. -/
  verifier : Option Bytes
  /-- `metadata.json`. -/
  metadata : Option JsValue

abbrev Files := JsString → KeyDir

inductive Source where
  | sidecar
  | runtime
  deriving DecidableEq

structure RuntimeKeyCacheHit where
  source : Source
  provingKeyBytes : Bytes
  verifyingKeyBytes : Bytes
  deriving DecidableEq

/-- What is asked for, and the keys that `readSidecarKeys` finds beside the program. -/
structure Request where
  identity : RuntimeKeyIdentity
  sidecar : Option (Bytes × Bytes)

inductive Writer where
  | start
  | proverWritten
  | verifierWritten
  | stored
  | failed (message : JsString)
  deriving DecidableEq

inductive Reader where
  | start
  /-- The metadata have been read, and their identity is the one that is asked for. -/
  | known (metadata : RuntimeKeyCacheMetadata)
  | proverExists (metadata : RuntimeKeyCacheMetadata)
  | bothExist (metadata : RuntimeKeyCacheMetadata)
  | proverRead (metadata : RuntimeKeyCacheMetadata) (provingKeyBytes : Bytes)
  | done (hit : Option RuntimeKeyCacheHit)
  | failed
  deriving DecidableEq

section System

variable (platform : Platform) (cachePath : JsString)

def runtimeIdentityDir (identity : RuntimeKeyIdentity) : JsString :=
  cachePath ++ js "/lionden-runtime/" ++ platform.sha256Text identity.text

def fingerprintBytes (bytes : Bytes) : KeyFingerprint where
  sha256 := platform.sha256 bytes
  size := bytes.length

def RuntimeKeyCacheWrite.metadata (write : RuntimeKeyCacheWrite) : RuntimeKeyCacheMetadata where
  identity := write.identity
  prover := fingerprintBytes platform write.provingKeyBytes
  verifier := fingerprintBytes platform write.verifyingKeyBytes
  diagnostics := write.diagnostics

/-- The next file of `writeCachedExecutionKeys`. The metadata are checked before they are written. -/
def Writer.advance (write : RuntimeKeyCacheWrite) (files : Files) : Writer → Writer × Files
  | start =>
    let dir := runtimeIdentityDir platform cachePath write.identity
    (proverWritten, Function.update files dir
      { files dir with prover := some write.provingKeyBytes })
  | proverWritten =>
    let dir := runtimeIdentityDir platform cachePath write.identity
    (verifierWritten, Function.update files dir
      { files dir with verifier := some write.verifyingKeyBytes })
  | verifierWritten =>
    let dir := runtimeIdentityDir platform cachePath write.identity
    let value := (write.metadata platform).value
    match parseRuntimeKeyCacheMetadata platform (dir ++ js "/metadata.json") value with
    | .error message => (failed message, files)
    | .ok _ => (stored, Function.update files dir { files dir with metadata := some value })
  | writer => (writer, files)

/-- The next file of `findCachedExecutionKeys`. -/
def Reader.advance (request : Request) (files : Files) : Reader → Reader
  | start =>
    match request.sidecar with
    | some (provingKeyBytes, verifyingKeyBytes) =>
      done (some { source := .sidecar, provingKeyBytes, verifyingKeyBytes })
    | none =>
      let dir := runtimeIdentityDir platform cachePath request.identity
      match (files dir).metadata with
      | none => done none
      | some value =>
        match parseRuntimeKeyCacheMetadata platform (dir ++ js "/metadata.json") value with
        | .error _ => done none
        | .ok metadata =>
          if metadata.identity = request.identity then known metadata else done none
  | known metadata =>
    if (files (runtimeIdentityDir platform cachePath request.identity)).prover.isSome then
      proverExists metadata
    else done none
  | proverExists metadata =>
    if (files (runtimeIdentityDir platform cachePath request.identity)).verifier.isSome then
      bothExist metadata
    else done none
  | bothExist metadata =>
    match (files (runtimeIdentityDir platform cachePath request.identity)).prover with
    | none => failed
    | some provingKeyBytes => proverRead metadata provingKeyBytes
  | proverRead metadata provingKeyBytes =>
    match (files (runtimeIdentityDir platform cachePath request.identity)).verifier with
    | none => failed
    | some verifyingKeyBytes =>
      if fingerprintBytes platform provingKeyBytes = metadata.prover ∧
          fingerprintBytes platform verifyingKeyBytes = metadata.verifier then
        done (some { source := .runtime, provingKeyBytes, verifyingKeyBytes })
      else done none
  | reader => reader

structure System (ι κ : Type) where
  files : Files
  writers : ι → Writer
  readers : κ → Reader

inductive Event (ι κ : Type) where
  | write (i : ι)
  | read (r : κ)

variable {ι κ : Type} (writes : ι → RuntimeKeyCacheWrite) (requests : κ → Request)

def System.step [DecidableEq ι] [DecidableEq κ] (s : System ι κ) : Event ι κ → System ι κ
  | .write i =>
    let (writer, files) := (s.writers i).advance platform cachePath (writes i) s.files
    { s with files, writers := Function.update s.writers i writer }
  | .read r =>
    let reader := (s.readers r).advance platform cachePath (requests r) s.files
    { s with readers := Function.update s.readers r reader }

/-- The cache is empty. -/
def System.initial : System ι κ where
  files _ := { prover := none, verifier := none, metadata := none }
  writers _ := .start
  readers _ := .start

/-- The keys are those that one write for the identity has recorded together. -/
def Recorded (s : System ι κ) (identity : RuntimeKeyIdentity) (hit : RuntimeKeyCacheHit) : Prop :=
  ∃ i, s.writers i = .stored ∧ (writes i).identity = identity ∧
    hit.provingKeyBytes = (writes i).provingKeyBytes ∧
    hit.verifyingKeyBytes = (writes i).verifyingKeyBytes

/-- No two of the keys that are written have the same digest. -/
def CollisionFree : Prop :=
  Set.InjOn platform.sha256
    (Set.range (fun i => (writes i).provingKeyBytes) ∪
      Set.range fun i => (writes i).verifyingKeyBytes)

/-! ## The invariant -/

variable {platform cachePath writes requests} {s : System ι κ}

/-- The metadata are those of a write for the identity that is asked for. -/
def Matches (platform : Platform) (writes : ι → RuntimeKeyCacheWrite) (s : System ι κ)
    (request : Request) (metadata : RuntimeKeyCacheMetadata) : Prop :=
  ∃ i, s.writers i = .stored ∧ (writes i).identity = request.identity ∧
    metadata.prover = fingerprintBytes platform (writes i).provingKeyBytes ∧
    metadata.verifier = fingerprintBytes platform (writes i).verifyingKeyBytes

/-- What a reader knows. -/
def Knows (platform : Platform) (writes : ι → RuntimeKeyCacheWrite) (s : System ι κ)
    (request : Request) : Reader → Prop
  | .known metadata | .proverExists metadata | .bothExist metadata =>
    Matches platform writes s request metadata
  | .proverRead metadata provingKeyBytes => Matches platform writes s request metadata ∧
    provingKeyBytes ∈ Set.range fun i => (writes i).provingKeyBytes
  | .done (some hit) => hit.source = .runtime → Recorded writes s request.identity hit
  | _ => True

/-- Every file comes from a write. -/
structure Sound (platform : Platform) (writes : ι → RuntimeKeyCacheWrite)
    (requests : κ → Request) (s : System ι κ) : Prop where
  prover : ∀ dir bytes, (s.files dir).prover = some bytes →
    bytes ∈ Set.range fun i => (writes i).provingKeyBytes
  verifier : ∀ dir bytes, (s.files dir).verifier = some bytes →
    bytes ∈ Set.range fun i => (writes i).verifyingKeyBytes
  metadata : ∀ dir value, (s.files dir).metadata = some value →
    ∃ i, s.writers i = .stored ∧ value = ((writes i).metadata platform).value
  readers : ∀ r, Knows platform writes s (requests r) (s.readers r)

theorem Knows.mono {s' : System ι κ} {request : Request} {reader : Reader}
    (hstored : ∀ i, s.writers i = .stored → s'.writers i = .stored)
    (h : Knows platform writes s request reader) : Knows platform writes s' request reader := by
  have hmatches {metadata : RuntimeKeyCacheMetadata}
      (h : Matches platform writes s request metadata) :
      Matches platform writes s' request metadata := by
    obtain ⟨i, hi, h⟩ := h
    exact ⟨i, hstored i hi, h⟩
  cases reader with
  | start => trivial
  | known metadata => exact hmatches h
  | proverExists metadata => exact hmatches h
  | bothExist metadata => exact hmatches h
  | proverRead metadata provingKeyBytes => exact ⟨hmatches h.1, h.2⟩
  | failed => trivial
  | done hit =>
    cases hit with
    | none => trivial
    | some hit =>
      intro hruntime
      obtain ⟨i, hi, h⟩ := h hruntime
      exact ⟨i, hstored i hi, h⟩

/-- A reader with the digests of a write finds the keys of that write. -/
theorem Matches.recorded (hfree : CollisionFree platform writes) {request : Request}
    {metadata : RuntimeKeyCacheMetadata} (h : Matches platform writes s request metadata)
    {provingKeyBytes verifyingKeyBytes : Bytes}
    (hproving : provingKeyBytes ∈ Set.range fun i => (writes i).provingKeyBytes)
    (hverifying : verifyingKeyBytes ∈ Set.range fun i => (writes i).verifyingKeyBytes)
    (hprover : fingerprintBytes platform provingKeyBytes = metadata.prover)
    (hverifier : fingerprintBytes platform verifyingKeyBytes = metadata.verifier) :
    Recorded writes s request.identity
      { source := .runtime, provingKeyBytes, verifyingKeyBytes } := by
  obtain ⟨i, hi, hidentity, hprover', hverifier'⟩ := h
  refine ⟨i, hi, hidentity, ?_, ?_⟩
  · exact hfree (.inl hproving) (.inl ⟨i, rfl⟩)
      (congrArg KeyFingerprint.sha256 (hprover.trans hprover'))
  · exact hfree (.inr hverifying) (.inr ⟨i, rfl⟩)
      (congrArg KeyFingerprint.sha256 (hverifier.trans hverifier'))

theorem Sound.read_advance (hfree : CollisionFree platform writes)
    (h : Sound platform writes requests s) (r : κ) :
    Knows platform writes s (requests r)
      ((s.readers r).advance platform cachePath (requests r) s.files) := by
  have hknows := h.readers r
  generalize s.readers r = reader at hknows
  cases reader with
  | start =>
    unfold Reader.advance
    dsimp only
    split
    · exact fun hruntime => nomatch hruntime
    split
    · trivial
    next value hvalue =>
    split
    · trivial
    next metadata hparse =>
    split
    · next hidentity =>
      obtain ⟨i, hi, rfl⟩ := h.metadata _ value hvalue
      obtain ⟨hparsed, hprover, hverifier⟩ := parse_value hparse
      exact ⟨i, hi, hparsed.symm.trans hidentity, hprover, hverifier⟩
    · trivial
  | known metadata =>
    unfold Reader.advance
    dsimp only
    split
    · exact hknows
    · trivial
  | proverExists metadata =>
    unfold Reader.advance
    dsimp only
    split
    · exact hknows
    · trivial
  | bothExist metadata =>
    unfold Reader.advance
    dsimp only
    split
    · trivial
    · next bytes hbytes => exact ⟨hknows, h.prover _ bytes hbytes⟩
  | proverRead metadata provingKeyBytes =>
    unfold Reader.advance
    dsimp only
    split
    · trivial
    next bytes hbytes =>
    split
    · next hdigests =>
      exact fun _ => hknows.1.recorded hfree hknows.2 (h.verifier _ bytes hbytes) hdigests.1
        hdigests.2
    · trivial
  | failed => trivial
  | done hit => exact hknows

/-- A file that was not replaced. -/
theorem update_other {α : Type} {files : Files} {dir dir' : JsString} {changed : KeyDir} {a : α}
    (field : KeyDir → Option α) (hget : field (Function.update files dir changed dir') = some a)
    (h : field changed = field (files dir)) : field (files dir') = some a := by
  by_cases hdir : dir' = dir
  · rw [hdir, Function.update_self, h] at hget
    rwa [hdir]
  · rwa [Function.update_of_ne hdir] at hget

/-- A file that may have been replaced. -/
theorem update_file {α : Type} {files : Files} {dir dir' : JsString} {changed : KeyDir} {a b : α}
    (field : KeyDir → Option α) (hget : field (Function.update files dir changed dir') = some a)
    (h : field changed = some b) : a = b ∨ field (files dir') = some a := by
  by_cases hdir : dir' = dir
  · rw [hdir, Function.update_self, h] at hget
    exact .inl (Option.some.inj hget).symm
  · rw [Function.update_of_ne hdir] at hget
    exact .inr hget

/-- The next file of a writer. -/
structure Advances (platform : Platform) (write : RuntimeKeyCacheWrite) (files files' : Files)
    (writer writer' : Writer) : Prop where
  prover : ∀ dir bytes, (files' dir).prover = some bytes →
    bytes = write.provingKeyBytes ∨ (files dir).prover = some bytes
  verifier : ∀ dir bytes, (files' dir).verifier = some bytes →
    bytes = write.verifyingKeyBytes ∨ (files dir).verifier = some bytes
  metadata : ∀ dir value, (files' dir).metadata = some value →
    (writer' = .stored ∧ value = (write.metadata platform).value) ∨
      (files dir).metadata = some value
  stored : writer = .stored → writer' = .stored

theorem advance_spec (write : RuntimeKeyCacheWrite) (files : Files) (writer : Writer) :
    Advances platform write files (writer.advance platform cachePath write files).2 writer
      (writer.advance platform cachePath write files).1 := by
  cases writer with
  | start =>
    exact ⟨fun _ _ h => update_file KeyDir.prover h rfl,
      fun _ _ h => .inr (update_other KeyDir.verifier h rfl),
      fun _ _ h => .inr (update_other KeyDir.metadata h rfl), nofun⟩
  | proverWritten =>
    exact ⟨fun _ _ h => .inr (update_other KeyDir.prover h rfl),
      fun _ _ h => update_file KeyDir.verifier h rfl,
      fun _ _ h => .inr (update_other KeyDir.metadata h rfl), nofun⟩
  | verifierWritten =>
    unfold Writer.advance
    dsimp only
    split
    · exact ⟨fun _ _ => .inr, fun _ _ => .inr, fun _ _ => .inr, nofun⟩
    · exact ⟨fun _ _ h => .inr (update_other KeyDir.prover h rfl),
        fun _ _ h => .inr (update_other KeyDir.verifier h rfl),
        fun _ _ h => (update_file KeyDir.metadata h rfl).imp_left fun hvalue => ⟨rfl, hvalue⟩, nofun⟩
  | stored => exact ⟨fun _ _ => .inr, fun _ _ => .inr, fun _ _ => .inr, id⟩
  | failed message => exact ⟨fun _ _ => .inr, fun _ _ => .inr, fun _ _ => .inr, id⟩

variable [DecidableEq ι] [DecidableEq κ]

theorem Sound.step (hfree : CollisionFree platform writes)
    (h : Sound platform writes requests s) (e : Event ι κ) :
    Sound platform writes requests (s.step platform cachePath writes requests e) := by
  cases e with
  | write i =>
    have hadvance : Advances platform (writes i) s.files
        ((s.writers i).advance platform cachePath (writes i) s.files).2 (s.writers i)
        ((s.writers i).advance platform cachePath (writes i) s.files).1 := advance_spec ..
    generalize hnext : (s.writers i).advance platform cachePath (writes i) s.files = next at hadvance
    obtain ⟨writer, files⟩ := next
    have hstep : s.step platform cachePath writes requests (.write i) =
        { s with files, writers := Function.update s.writers i writer } := by
      simp only [System.step, hnext]
    rw [hstep]
    have hstored (j : ι) (hj : s.writers j = .stored) :
        Function.update s.writers i writer j = .stored := by
      by_cases hji : j = i
      · rw [hji, Function.update_self]
        exact hadvance.stored (hji ▸ hj)
      · rw [Function.update_of_ne hji, hj]
    refine ⟨fun dir bytes hbytes => ?_, fun dir bytes hbytes => ?_, fun dir value hvalue => ?_,
      fun r => (h.readers r).mono hstored⟩
    · rcases hadvance.prover dir bytes hbytes with rfl | hold
      · exact ⟨i, rfl⟩
      · exact h.prover dir bytes hold
    · rcases hadvance.verifier dir bytes hbytes with rfl | hold
      · exact ⟨i, rfl⟩
      · exact h.verifier dir bytes hold
    · rcases hadvance.metadata dir value hvalue with ⟨hwriter, hvalue⟩ | hold
      · exact ⟨i, (Function.update_self ..).trans hwriter, hvalue⟩
      · obtain ⟨j, hj, hvalue⟩ := h.metadata dir value hold
        exact ⟨j, hstored j hj, hvalue⟩
  | read r =>
    refine ⟨h.prover, h.verifier, h.metadata, fun q => ?_⟩
    show Knows platform writes _ (requests q) (Function.update s.readers r _ q)
    by_cases hq : q = r
    · subst hq
      rw [Function.update_self]
      exact (h.read_advance hfree q).mono fun _ hi => hi
    · rw [Function.update_of_ne hq]
      exact (h.readers q).mono fun _ hi => hi

/-- **A hit is what one write has recorded**: whatever the order in which writers replace the files
and readers read them, the keys of a hit in the cache are the pair of one write for the identity that
was asked for. -/
theorem hit_recorded (platform : Platform) (cachePath : JsString)
    (writes : ι → RuntimeKeyCacheWrite) (requests : κ → Request)
    (hfree : CollisionFree platform writes) (events : List (Event ι κ)) (k : Nat) (r : κ)
    (hit : RuntimeKeyCacheHit)
    (hdone : (Trace.exec (System.step platform cachePath writes requests) System.initial
      (events.take k)).readers r = .done (some hit)) (hruntime : hit.source = .runtime) :
    Recorded writes (Trace.exec (System.step platform cachePath writes requests) System.initial
      (events.take k)) (requests r).identity hit := by
  have hinitial : Sound platform writes requests System.initial :=
    ⟨nofun, nofun, nofun, fun _ => trivial⟩
  have hsound := Trace.AllSteps.invariant (I := Sound platform writes requests)
    (fun s e hs _ => hs.step hfree e) hinitial
    (show Trace.AllSteps (System.step platform cachePath writes requests) (fun _ _ => True)
      System.initial events from fun _ _ _ => trivial) k
  have hknows := hsound.readers r
  rw [hdone] at hknows
  exact hknows hruntime

end System

/-! ## Two writers of one identity -/

def firstByte : Platform where
  sha256 bytes := List.replicate 64 (digitUnit (bytes.headD 0).toNat)
  sha256Text _ := js "0"
  stringify _ := []

def mint : RuntimeKeyIdentity where
  network := js "testnet"
  programId := js "token.aleo"
  transition := js "mint"
  edition := some 1
  sourceHash := js "0"
  importsHash := js "0"
  wasmHash := js "0"

def mintKeys (second : Bool) : RuntimeKeyCacheWrite where
  identity := mint
  provingKeyBytes := if second then [3] else [1]
  verifyingKeyBytes := if second then [4] else [2]
  diagnostics := none

/-- The first writer replaces the prover between two files of the second. -/
def overlap : List (Event Bool Unit) :=
  [.write true, .write false, .write true, .write true, .write false, .write false] ++
    List.replicate 5 (.read ())

theorem mintKeys_collisionFree : CollisionFree firstByte mintKeys := by
  rintro x (⟨_ | _, rfl⟩ | ⟨_ | _, rfl⟩) y (⟨_ | _, rfl⟩ | ⟨_ | _, rfl⟩) h
  all_goals first | rfl | exact absurd h (by decide)

theorem hit_recorded_overlap :
    Recorded mintKeys (Trace.exec (System.step firstByte (js ".cache") mintKeys
      fun _ => { identity := mint, sidecar := none }) System.initial (overlap.take 11)) mint
      { source := .runtime, provingKeyBytes := [1], verifyingKeyBytes := [2] } :=
  hit_recorded firstByte (js ".cache") mintKeys (fun _ => { identity := mint, sidecar := none })
    mintKeys_collisionFree overlap 11 () _ (by decide) rfl

end Lionden.Network.KeyCache
