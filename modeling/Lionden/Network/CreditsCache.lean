import Lionden.Build.HashStream
import Lionden.Js.Pretty
import Lionden.Lib.Processes
import Lionden.Network.KeyCache

/-!
# The cache of credits keys (`sdk-adapter.ts`, `key-artifacts.ts`)

The proving keys of `credits.aleo` are kept on disk, each in a `.prover` file with a `.metadata.json`
beside it. They are written when the SDK has synthesized one that is not there yet, and read when the
SDK is set up. Both are programs of file operations, which may fall between those of others. A file is
replaced as a whole; a replacement that throws is one after which its program takes no further step
that matters.

* `isCreditsEntryCurrent`, `persistCreditsIfMissing`: whether an entry is there, and writing it.
* `warmupCreditsKeys`: reading all of them.
* `parse_text`: metadata are read as they were written.
-/

namespace Lionden.Network.CreditsCache

open KeyCache (KeyFingerprint natValue isRecord expectString expectFingerprint invalidMetadata)
open Processes

/-- The bytes of a file, as many as a number of the language counts. -/
abbrev Uint8Array := { bytes : List UInt8 // bytes.length < 2 ^ 53 }

/-- What is used of the platform. -/
structure Platform where
  /-- `digest("hex")`. -/
  sha256 : List UInt8 → JsString
  /-- `path.join`. -/
  pathJoin : List JsString → JsString
  /-- The message of what `JSON.parse` throws at a text. -/
  syntaxError : JsString → JsString

/-! ## Metadata -/

structure CreditsKeyCacheMetadata where
  locator : JsString
  network : JsString
  wasmHash : JsString
  prover : KeyFingerprint
  deriving DecidableEq

def CREDITS_KEY_CACHE_FORMAT : JsString := js "lionden.creditsKeyCache.v1"

def CreditsKeyCacheMetadata.value (metadata : CreditsKeyCacheMetadata) : JsValue :=
  .object [(js "format", .string CREDITS_KEY_CACHE_FORMAT),
    (js "locator", .string metadata.locator), (js "network", .string metadata.network),
    (js "wasmHash", .string metadata.wasmHash), (js "prover", metadata.prover.value)] none

/-- `JSON.stringify(metadata, null, 2) + "\n"`. -/
def CreditsKeyCacheMetadata.text (metadata : CreditsKeyCacheMetadata) : JsString :=
  JSON.prettyObject 0 [(js "format", jsonStringify CREDITS_KEY_CACHE_FORMAT),
    (js "locator", jsonStringify metadata.locator), (js "network", jsonStringify metadata.network),
    (js "wasmHash", jsonStringify metadata.wasmHash),
    (js "prover", JSON.prettyObject 2 [(js "sha256", jsonStringify metadata.prover.sha256),
      (js "size", numberString (.finite metadata.prover.size))])] ++ js "\n"

def parseCreditsKeyCacheMetadata (filePath : JsString) (value : JsValue) :
    Except JsString CreditsKeyCacheMetadata := do
  if !isRecord value then invalidMetadata filePath (js "expected an object")
  else if !(value.property (js "format")).isText CREDITS_KEY_CACHE_FORMAT then
    invalidMetadata filePath (js "unsupported format " ++
      (JSON.stringify (value.property (js "format"))).getD (js "undefined"))
  else
  let locator ← expectString filePath value "locator"
  let network ← expectString filePath value "network"
  let wasmHash ← expectString filePath value "wasmHash"
  let prover ← expectFingerprint filePath (value.property (js "prover")) (js "prover")
  .ok { locator, network, wasmHash, prover }

theorem parse_value {filePath : JsString} {metadata parsed : CreditsKeyCacheMetadata}
    (h : parseCreditsKeyCacheMetadata filePath metadata.value = .ok parsed) : parsed = metadata := by
  have hlocator : metadata.value.property (js "locator") = .string metadata.locator := rfl
  have hnetwork : metadata.value.property (js "network") = .string metadata.network := rfl
  have hwasmHash : metadata.value.property (js "wasmHash") = .string metadata.wasmHash := rfl
  have hprover : metadata.value.property (js "prover") = metadata.prover.value := rfl
  unfold parseCreditsKeyCacheMetadata at h
  rw [if_neg (show ¬(!isRecord metadata.value) = true from nofun)] at h
  split at h
  · exact nomatch h
  obtain ⟨locator, h₁, h⟩ := Fallible.bind_ok.mp h
  obtain ⟨network, h₂, h⟩ := Fallible.bind_ok.mp h
  obtain ⟨wasmHash, h₃, h⟩ := Fallible.bind_ok.mp h
  obtain ⟨prover, h₄, h⟩ := Fallible.bind_ok.mp h
  cases h
  rw [hprover] at h₄
  obtain rfl := KeyCache.expectFingerprint_value h₄
  cases (KeyCache.expectString_ok h₁).symm.trans hlocator
  cases (KeyCache.expectString_ok h₂).symm.trans hnetwork
  cases (KeyCache.expectString_ok h₃).symm.trans hwasmHash
  rfl

theorem isDouble_natCast {n : Nat} (h : n < 2 ^ 53) : IsDouble (n : ℚ) := by
  have hbig : (n : ℚ) < 2 ^ 53 := by exact_mod_cast h
  refine ⟨hbig.trans (pow_lt_pow_right₀ (by norm_num) (by norm_num)), n, 0, h, by norm_num, ?_⟩
  simp

/-- The text that is written is read as the value that was checked. -/
theorem parse_text (metadata : CreditsKeyCacheMetadata) (h : metadata.prover.size < 2 ^ 53) :
    JSON.parse metadata.text = some metadata.value := by
  have hsize : JsNumber.Writable (.finite (metadata.prover.size : ℚ)) := by
    refine ⟨_, rfl, ?_⟩
    rw [Nat.abs_cast]
    exact isDouble_natCast h
  refine JSON.parse_pretty (.cons (JSON.property_string _ _) (.cons (JSON.property_string _ _)
    (.cons (JSON.property_string _ _) (.cons (JSON.property_string _ _)
      (.cons (JSON.property_object 2 _ ?_ ?_) .nil))))) ?_
  · exact .cons (JSON.property_string _ _) (.cons (JSON.property_number _ hsize) .nil)
  · show [js "sha256", js "size"].Nodup
    decide
  · show [js "format", js "locator", js "network", js "wasmHash", js "prover"].Nodup
    decide

/-! ## Files -/

inductive File (α : Type) where
  | missing
  /-- It is there, but reading it throws. -/
  | unreadable (message : JsString)
  | contents (a : α)

def File.exists {α : Type} : File α → Bool
  | missing => false
  | _ => true

def File.read {α : Type} (path : JsString) : File α → Except JsString α
  | missing => .error (js "ENOENT: no such file or directory, open '" ++ path ++ js "'")
  | unreadable message => .error message
  | contents a => .ok a

/-- A call of `cacheKeys`. -/
structure CachedKeys (π υ : Type) where
  locator : JsString
  provingKey : π
  verifyingKey : υ

/-- The files, by their paths, and the keys that were cached in memory, in order. A text is a file that
holds its UTF-8. -/
structure Host (π υ : Type) where
  provers : JsString → File Uint8Array
  metadata : JsString → File JsString
  cached : List (CachedKeys π υ)

inductive Op (π υ : Type) where
  | proverExists (path : JsString)
  | metadataExists (path : JsString)
  | readProver (path : JsString)
  | readMetadata (path : JsString)
  | replaceProver (path : JsString) (bytes : Uint8Array)
  | replaceMetadata (path text : JsString)
  | cacheKeys (keys : CachedKeys π υ)

variable {π υ : Type}

abbrev Answer : Op π υ → Type
  | .proverExists _ | .metadataExists _ => Bool
  | .readProver _ => Except JsString Uint8Array
  | .readMetadata _ => Except JsString JsString
  | .replaceProver .. | .replaceMetadata .. | .cacheKeys _ => Unit

def act : (k : Op π υ) → Host π υ → Answer k × Host π υ
  | .proverExists path, s => ((s.provers path).exists, s)
  | .metadataExists path, s => ((s.metadata path).exists, s)
  | .readProver path, s => ((s.provers path).read path, s)
  | .readMetadata path, s => ((s.metadata path).read path, s)
  | .replaceProver path bytes, s =>
    ((), { s with provers := Function.update s.provers path (.contents bytes) })
  | .replaceMetadata path text, s =>
    ((), { s with metadata := Function.update s.metadata path (.contents text) })
  | .cacheKeys keys, s => ((), { s with cached := s.cached ++ [keys] })

abbrev FileProc (π υ α : Type) := Proc (Op π υ) Answer α

/-! ### Calls -/

/-- `fs.existsSync` of a `.prover` file. -/
def proverExists (path : JsString) : FileProc π υ Bool :=
  Proc.perform (Op.proverExists path : Op π υ)

/-- `fs.existsSync` of a `.metadata.json` file. -/
def metadataExists (path : JsString) : FileProc π υ Bool :=
  Proc.perform (Op.metadataExists path : Op π υ)

/-- `fs.readFileSync` of a `.prover` file. -/
def readProver (path : JsString) : FileProc π υ (Except JsString Uint8Array) :=
  Proc.perform (Op.readProver path : Op π υ)

/-- `fs.readFileSync` of a `.metadata.json` file. -/
def readMetadata (path : JsString) : FileProc π υ (Except JsString JsString) :=
  Proc.perform (Op.readMetadata path : Op π υ)

def writeFileAtomic (path : JsString) (bytes : Uint8Array) : FileProc π υ Unit :=
  Proc.perform (Op.replaceProver path bytes : Op π υ)

/-- `writeJsonAtomic` of the value that has this text. -/
def writeJsonAtomic (path text : JsString) : FileProc π υ Unit :=
  Proc.perform (Op.replaceMetadata path text : Op π υ)

def cacheKeys (keys : CachedKeys π υ) : FileProc π υ Unit :=
  Proc.perform (Op.cacheKeys keys : Op π υ)

/-! ## Programs -/

/-- An entry of `CREDITS_PROGRAM_KEYS`: its `locator`, if that is a text, and what `verifyingKey()`
gives, if that is a function. -/
structure CreditsValue (υ : Type) where
  locator : Option JsString
  verifyingKey : Option (Except JsString υ)

structure Sdk (π υ : Type) where
  CREDITS_PROGRAM_KEYS : List (JsString × CreditsValue υ)
  /-- `ProvingKey.fromBytes`. -/
  fromBytes : Uint8Array → Except JsString π

structure CreditsKeyPersistenceConfig (π υ : Type) where
  sdk : Sdk π υ
  cachePath : JsString
  network : JsString
  wasmHash : JsString

structure Paths where
  prover : JsString
  metadata : JsString

def base64urlUnit (n : Nat) : CodeUnit :=
  (js "ABCDEFGHIJKLMNOPQRSTUVWXYZabcdefghijklmnopqrstuvwxyz0123456789-_").getD n 0

/-- `toString("base64url")`, without padding. -/
def base64url : List UInt8 → JsString
  | [] => []
  | [a] => [base64urlUnit (a.toNat / 4), base64urlUnit (a.toNat % 4 * 16)]
  | [a, b] =>
    [base64urlUnit (a.toNat / 4), base64urlUnit (a.toNat % 4 * 16 + b.toNat / 16),
      base64urlUnit (b.toNat % 16 * 4)]
  | a :: b :: c :: rest =>
    base64urlUnit (a.toNat / 4) :: base64urlUnit (a.toNat % 4 * 16 + b.toNat / 16) ::
      base64urlUnit (b.toNat % 16 * 4 + c.toNat / 64) :: base64urlUnit (c.toNat % 64) ::
      base64url rest

section Programs

variable (platform : Platform)

def fingerprintBytes (bytes : Uint8Array) : KeyFingerprint where
  sha256 := platform.sha256 bytes.1
  size := bytes.1.length

def creditsCachePaths (cachePath wasmHash network locator : JsString) : Paths :=
  let safeLocator := base64url (Build.utf8 locator)
  let dir := platform.pathJoin [cachePath, js "lionden-credits", wasmHash, network]
  { prover := platform.pathJoin [dir, safeLocator ++ js ".prover"]
    metadata := platform.pathJoin [dir, safeLocator ++ js ".metadata.json"] }

/-- What `readCreditsKeyCacheMetadata` makes of the text of a file. -/
def metadataOfText (filePath text : JsString) : Except JsString CreditsKeyCacheMetadata :=
  match JSON.parse text with
  | none =>
    .error (js "Failed to read key metadata at " ++ filePath ++ js ": " ++ platform.syntaxError text)
  | some value => parseCreditsKeyCacheMetadata filePath value

def readCreditsKeyCacheMetadata (filePath : JsString) :
    FileProc π υ (Except JsString (Option CreditsKeyCacheMetadata)) := do
  if !(← metadataExists filePath) then return .ok none
  else
  match ← readMetadata filePath with
  | .error message =>
    return .error (js "Failed to read key metadata at " ++ filePath ++ js ": " ++ message)
  | .ok text => return some <$> metadataOfText platform filePath text

def isCreditsEntryCurrent (paths : Paths) (locator : JsString)
    (config : CreditsKeyPersistenceConfig π υ) (fingerprint : KeyFingerprint) :
    FileProc π υ Bool := do
  if !(← proverExists paths.prover) then return false
  else if !(← metadataExists paths.metadata) then return false
  else
  match ← readCreditsKeyCacheMetadata platform paths.metadata with
  | .error _ | .ok none => return false
  | .ok (some metadata) =>
    if metadata.locator ≠ locator then return false
    else if metadata.network ≠ config.network then return false
    else if metadata.wasmHash ≠ config.wasmHash then return false
    else if metadata.prover ≠ fingerprint then return false
    else
    match ← readProver paths.prover with
    | .error _ => return false
    | .ok onDisk => return decide (fingerprintBytes platform onDisk = fingerprint)

/-- Where `persistCreditsIfMissing` returns. -/
inductive Persisted where
  | unconfigured
  | unknown
  /-- The write is skipped. -/
  | current
  | written
  | failed (message : JsString)
  deriving DecidableEq

/-- `bytes` is what `keyToBytes` gives of the proving key. -/
def persistCreditsIfMissing (config : Option (CreditsKeyPersistenceConfig π υ)) (name : JsString)
    (bytes : Except JsString Uint8Array) : FileProc π υ Persisted := do
  match config with
  | none => return .unconfigured
  | some config =>
    match (config.sdk.CREDITS_PROGRAM_KEYS.lookup name).bind CreditsValue.locator with
    | none | some [] => return .unknown
    | some locator =>
      let paths :=
        creditsCachePaths platform config.cachePath config.wasmHash config.network locator
      match bytes with
      | .error message => return .failed message
      | .ok bytes =>
        let fingerprint := fingerprintBytes platform bytes
        if ← isCreditsEntryCurrent platform paths locator config fingerprint then return .current
        else
        writeFileAtomic paths.prover bytes
        let metadata : CreditsKeyCacheMetadata :=
          { locator, network := config.network, wasmHash := config.wasmHash, prover := fingerprint }
        match parseCreditsKeyCacheMetadata paths.metadata metadata.value with
        | .error message => return .failed message
        | .ok _ =>
          writeJsonAtomic paths.metadata metadata.text
          return .written

/-- One entry of `warmupCreditsKeys`. Whatever throws ends it. -/
def warmupCreditsEntry (config : CreditsKeyPersistenceConfig π υ) (value : CreditsValue υ) :
    FileProc π υ Unit := do
  -- `isWarmableCreditsEntry`
  match value.locator, value.verifyingKey with
  | some locator, some verifyingKey =>
    let paths := creditsCachePaths platform config.cachePath config.wasmHash config.network locator
    if !(← proverExists paths.prover) then return ()
    else if !(← metadataExists paths.metadata) then return ()
    else
    match ← readCreditsKeyCacheMetadata platform paths.metadata with
    | .error _ | .ok none => return ()
    | .ok (some metadata) =>
      if metadata.locator ≠ locator then return ()
      else if metadata.network ≠ config.network then return ()
      else if metadata.wasmHash ≠ config.wasmHash then return ()
      else
      match ← readProver paths.prover with
      | .error _ => return ()
      | .ok bytes =>
        if fingerprintBytes platform bytes ≠ metadata.prover then return ()
        else
        match config.sdk.fromBytes bytes, verifyingKey with
        | .ok provingKey, .ok verifyingKey =>
          cacheKeys { locator, provingKey, verifyingKey }
        | _, _ => return ()
  | _, _ => return ()

def warmupCreditsKeys (config : CreditsKeyPersistenceConfig π υ) : FileProc π υ Unit :=
  config.sdk.CREDITS_PROGRAM_KEYS.forM fun entry => warmupCreditsEntry platform config entry.2

end Programs

end Lionden.Network.CreditsCache
