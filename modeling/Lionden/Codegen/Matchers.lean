import Lionden.Codegen.Runtime
import Lionden.Js.NumberString

/-!
# Matchers of record outputs (`contract-wrapper.ts`)

A matcher says which record to decrypt for an output of which the chain shows only an id: the
program that emitted it, and the transition and output that hold it. An id-only handle looks these
up in the transitions of the confirmed transaction.

* `buildRecordOutputMatcher`, `bindRecordOutputMatcherProgram`: how matchers are made.
* `resolveIdOnlySource`, `resolveAndDecryptIdOnly`: what a handle does with one.
* `decryptRecord`: the decryption, with the calls that the SDK gets.
-/

namespace Lionden.Codegen.Matchers

/-! ## Transitions -/

structure IdOnlyRawOutput where
  type : JsString
  id : JsString

inductive RawTransitionOutput where
  | text (s : JsString)
  | idOnly (output : IdOnlyRawOutput)

structure ConfirmedTransitionRecord where
  programId : JsString
  transitionName : JsString
  rawOutputs : List RawTransitionOutput

/-- `xs[i]`: only the integers from 0 on name an element. -/
def elementAt {α : Type} (xs : List α) (i : JsNumber) : Option α :=
  match i.toInt? with
  | some (.ofNat n) => xs[n]?
  | _ => none

/-! ## Errors -/

inductive IdOnlyRecordResolutionReason where
  | transitionNotFound
  | transitionNotUnique
  | transitionIndexOutOfRange
  | transitionMatchIndexOutOfRange
  | programMismatch
  | notACiphertext
  deriving DecidableEq

structure IdOnlyRecordResolutionError where
  reason : IdOnlyRecordResolutionReason
  message : JsString
  programId : Option JsString := none
  transition : Option JsString := none
  outputIndex : JsNumber
  expectedProgram : Option JsString := none
  actualProgram : Option JsString := none

structure NetworkRecordDecryptionError where
  message : JsString
  ciphertextPrefix : JsString

inductive Thrown where
  | idOnlyRecordResolution (error : IdOnlyRecordResolutionError)
  | recordDecryptionKey (message : JsString)
  | localRecordDecryption (message : JsString) (cause : NetworkRecordDecryptionError)
  | networkRecordDecryption (error : NetworkRecordDecryptionError)
  /-- Whatever else a deserializer throws. -/
  | other (error : JsError)

/-! ## Matchers -/

inductive IdOnlyRecordSource where
  | positional (transitionIndex outputIndex : JsNumber)
  | named (programId transitionName : JsString) (outputIndex : JsNumber)
      (transitionMatchIndex : Option JsNumber)

def IdOnlyRecordSource.outputIndex : IdOnlyRecordSource → JsNumber
  | positional _ outputIndex => outputIndex
  | named _ _ outputIndex _ => outputIndex

inductive Binding where
  | unbound
  | bound

/-- The type of a matcher's `source`. -/
def Binding.Source : Binding → Type
  | unbound => Unit
  | bound => IdOnlyRecordSource

variable {α : Type} {s : Binding}

@[ext]
structure RecordOutputMatcher (α : Type) (s : Binding) where
  program : JsString
  recordName : JsString
  deserialize : JsString → Except Thrown α
  source : s.Source

/-- What a matcher is built from. -/
structure Base (α : Type) where
  program : JsString
  recordName : JsString
  deserialize : JsString → Except Thrown α

def buildRecordOutputMatcher (base : Base α) (source : s.Source) : RecordOutputMatcher α s :=
  { program := base.program, recordName := base.recordName, deserialize := base.deserialize,
    source }

/-- The base that the methods of a matcher close over. -/
def RecordOutputMatcher.base (m : RecordOutputMatcher α s) : Base α :=
  { program := m.program, recordName := m.recordName, deserialize := m.deserialize }

def RecordOutputMatcher.from (m : RecordOutputMatcher α s) (transitionName : JsString)
    (outputIndex : JsNumber) (index : Option JsNumber) : RecordOutputMatcher α .bound :=
  buildRecordOutputMatcher m.base
    (.named m.base.program transitionName outputIndex index : IdOnlyRecordSource)

def RecordOutputMatcher.at (m : RecordOutputMatcher α s) (transitionIndex outputIndex : JsNumber) :
    RecordOutputMatcher α .bound :=
  buildRecordOutputMatcher m.base (.positional transitionIndex outputIndex : IdOnlyRecordSource)

def createRecordOutputMatcher (base : Base α) : RecordOutputMatcher α .unbound :=
  buildRecordOutputMatcher base ()

def rebindMatcherSource (source : s.Source) (fromProgramId toProgramId : JsString) : s.Source :=
  match s, source with
  | .unbound, source => source
  | .bound, .positional transitionIndex outputIndex =>
    IdOnlyRecordSource.positional transitionIndex outputIndex
  | .bound, .named programId transitionName outputIndex index =>
    if programId ≠ fromProgramId then .named programId transitionName outputIndex index
    else .named toProgramId transitionName outputIndex index

def bindRecordOutputMatcherProgram (m : RecordOutputMatcher α s) (programId : JsString) :
    RecordOutputMatcher α s :=
  if m.program = programId then m
  else
    buildRecordOutputMatcher
      { program := programId, recordName := m.recordName, deserialize := m.deserialize }
      (rebindMatcherSource m.source m.program programId)

/-- A helper is a function on inputs with two properties. -/
structure DynamicRecordHelper (β α : Type) where
  fn : β → JsString
  output : RecordOutputMatcher α .unbound

def bindDynamicRecordHelperProgram {β : Type} (fn : β → JsString)
    (matcher : RecordOutputMatcher α .unbound) (programId : JsString) : DynamicRecordHelper β α :=
  { fn, output := bindRecordOutputMatcherProgram matcher programId }

def DynamicRecordHelper.forProgram {β : Type} (helper : DynamicRecordHelper β α)
    (nextProgramId : JsString) : DynamicRecordHelper β α :=
  bindDynamicRecordHelperProgram helper.fn helper.output nextProgramId

def bindOwnRuntimeMatcher (matcher : RecordOutputMatcher α .bound)
    (sourceProgramId runtimeProgramId : Option JsString) : RecordOutputMatcher α .bound :=
  match sourceProgramId, runtimeProgramId with
  | some sourceProgramId, some runtimeProgramId =>
    if sourceProgramId = runtimeProgramId ∨ matcher.program ≠ sourceProgramId then matcher
    else bindRecordOutputMatcherProgram matcher runtimeProgramId
  | _, _ => matcher

/-! ## Decryption -/

/-- The SDK: each operation gives a text or the message of what it throws. -/
structure Sdk where
  /-- `PrivateKey.from_string(s).to_view_key().to_string()`. -/
  toViewKey : JsString → Except JsString JsString
  /-- `RecordCiphertext.fromString(c).decrypt(ViewKey.from_string(k)).toString()`. -/
  decrypt : JsString → JsString → Except JsString JsString

/-- What a promise settles with, and the ciphertexts and view keys that the SDK got before. -/
structure Settled (α : Type) where
  result : Except Thrown α
  decrypted : List (JsString × JsString)

section Decryption

variable (sdk : Sdk)

def deriveViewKey (privateKey : JsString) : Except Thrown JsString :=
  let ciphertextPrefix := privateKey.take 16
  if ¬ js "APrivateKey1" <+: privateKey then
    .error (.networkRecordDecryption
      { message := js "Private key must be a string starting with \"APrivateKey1\".",
        ciphertextPrefix })
  else
    match sdk.toViewKey privateKey with
    | .ok viewKey => .ok viewKey
    | .error message =>
      .error (.networkRecordDecryption
        { message := js "Failed to derive view key: " ++ message, ciphertextPrefix })

def decryptRecordCiphertext (ciphertext viewKey : JsString) : Settled JsString :=
  let ciphertextPrefix := ciphertext.take 16
  let rejected (message : JsString) : Settled JsString :=
    { result := .error (.networkRecordDecryption { message, ciphertextPrefix }), decrypted := [] }
  if ciphertext = [] then rejected (js "Record ciphertext must be a non-empty string.")
  else if ¬ js "record1" <+: ciphertext then
    rejected (js "Record ciphertext must start with \"record1\". Received prefix " ++
      jsonStringify ciphertextPrefix ++ js ".")
  else if ¬ js "AViewKey1" <+: viewKey then
    rejected (js "View key must be a string starting with \"AViewKey1\". To pass a private key, call deriveViewKey() first.")
  else
    match sdk.decrypt ciphertext viewKey with
    | .ok plaintext => { result := .ok plaintext, decrypted := [(ciphertext, viewKey)] }
    | .error message =>
      { result := .error (.networkRecordDecryption
          { message := js "Failed to decrypt record ciphertext (prefix " ++
              jsonStringify ciphertextPrefix ++ js "): " ++ message,
            ciphertextPrefix }),
        decrypted := [(ciphertext, viewKey)] }

/-- A key that is no string: `{ viewKey }` or `{ privateKey }`, each with a text that is not empty. -/
def keyText (props : List (JsString × JsValue)) (name : JsString) : Option JsString :=
  match JsValue.get props name with
  | .string s => truthy (some s)
  | _ => none

def normalizeRecordDecryptionKey (key : JsValue) : Except Thrown JsString :=
  let unusable : Except Thrown JsString :=
    .error (.recordDecryptionKey
      (js "Decryption key must be a non-empty AViewKey1/APrivateKey1 string, or an object with a `viewKey` or `privateKey` field. Received " ++
        (match key with | .null => js "null" | key => key.typeof) ++ js "."))
  match key with
  | .string s =>
    let trimmed := trim s
    if js "AViewKey1" <+: trimmed then .ok trimmed
    else if js "APrivateKey1" <+: trimmed then deriveViewKey sdk trimmed
    else
      .error (.recordDecryptionKey
        (js "Decryption key string must start with \"APrivateKey1\" or \"AViewKey1\". Received prefix " ++
          jsonStringify (trimmed.take 16) ++
          js ". To pass an opaque string, wrap in \x7b viewKey \x7d or \x7b privateKey \x7d."))
  | .object props _ =>
    match keyText props (js "viewKey"), keyText props (js "privateKey") with
    | some viewKey, _ =>
      if js "AViewKey1" <+: viewKey then .ok viewKey
      else
        .error (.recordDecryptionKey
          (js "\x7b viewKey \x7d must start with \"AViewKey1\". Received prefix " ++
            jsonStringify (viewKey.take 16) ++ js "."))
    | none, some privateKey =>
      if js "APrivateKey1" <+: privateKey then deriveViewKey sdk privateKey
      else
        .error (.recordDecryptionKey
          (js "\x7b privateKey \x7d must start with \"APrivateKey1\". Received prefix " ++
            jsonStringify (privateKey.take 16) ++ js "."))
    | none, none => unusable
  | _ => unusable

/-- The `catch` of `decryptRecord`: an error of the network layer is wrapped. -/
def rethrown : Thrown → Thrown
  | .networkRecordDecryption cause =>
    .localRecordDecryption
      (js "Failed to decrypt record ciphertext. The view key may not match the record's owner, or the ciphertext is malformed. Cause: " ++
        cause.message) cause
  | cause => cause

def decryptRecord (ciphertext : JsString) (key : JsValue)
    (deserialize : JsString → Except Thrown α) : Settled α :=
  match normalizeRecordDecryptionKey sdk key with
  | .error cause => { result := .error (rethrown cause), decrypted := [] }
  | .ok viewKey =>
    let plain := decryptRecordCiphertext sdk ciphertext viewKey
    match plain.result with
    | .error cause => { result := .error (rethrown cause), decrypted := plain.decrypted }
    | .ok plaintext =>
      { result := (deserialize plaintext).mapError rethrown, decrypted := plain.decrypted }

end Decryption

/-! ## Resolution -/

structure Selected where
  transition : ConfirmedTransitionRecord
  transitionIndex : JsNumber

def resolveIdOnlySource (transitions : List ConfirmedTransitionRecord) :
    IdOnlyRecordSource → Except IdOnlyRecordResolutionError Selected
  | .positional idx outputIndex =>
    match elementAt transitions idx with
    | none =>
      .error {
        reason := .transitionIndexOutOfRange
        message := js "transitionIndex " ++ numberString idx ++
          js " is out of range; transactions has " ++ decimal transitions.length ++
          js " transition(s)."
        outputIndex }
    | some t => .ok { transition := t, transitionIndex := idx }
  | .named programId transitionName outputIndex transitionMatchIndex =>
    let matchesWithIndex := transitions.zipIdx.filter fun t =>
      decide (t.1.programId = programId) && decide (t.1.transitionName = transitionName)
    let name := programId ++ js "/" ++ transitionName
    if matchesWithIndex.length = 0 then
      let available := join (js ", ") (transitions.map fun t =>
        t.programId ++ js "/" ++ t.transitionName)
      .error {
        reason := .transitionNotFound
        message := js "No transition matching " ++ name ++
          js " in confirmed transaction. Available: " ++
          (if available = [] then js "(none)" else available) ++ js "."
        programId := programId, transition := transitionName, outputIndex }
    else
      match transitionMatchIndex with
      | none =>
        match matchesWithIndex with
        | [only] => .ok { transition := only.1, transitionIndex := .finite (only.2 : ℚ) }
        | _ =>
          .error {
            reason := .transitionNotUnique
            message := decimal matchesWithIndex.length ++ js " transitions match " ++ name ++
              js "; pass `.from(name, outputIndex, \x7b match: n \x7d)` to disambiguate (0-based within matches) or use `.at(transitionIndex, outputIndex)` to index positionally."
            programId := programId, transition := transitionName, outputIndex }
      | some index =>
        match elementAt matchesWithIndex index with
        | none =>
          .error {
            reason := .transitionMatchIndexOutOfRange
            message := js "match index " ++ numberString index ++
              js " (from `.from(..., \x7b match \x7d)`) is out of range; " ++
              decimal matchesWithIndex.length ++ js " transition(s) match " ++ name ++ js "."
            programId := programId, transition := transitionName, outputIndex }
        | some m => .ok { transition := m.1, transitionIndex := .finite (m.2 : ℚ) }

def resolveAndDecryptIdOnly (sdk : Sdk) (transitions : List ConfirmedTransitionRecord)
    (matcher : RecordOutputMatcher α .bound) (key : JsValue) (notACiphertextHint : JsString) :
    Settled α :=
  let source : IdOnlyRecordSource := matcher.source
  match resolveIdOnlySource transitions source with
  | .error error => { result := .error (.idOnlyRecordResolution error), decrypted := [] }
  | .ok selected =>
    let t := selected.transition
    if t.programId ≠ matcher.program then
      { result := .error (.idOnlyRecordResolution {
          reason := .programMismatch
          message := js "Selected transition " ++ t.programId ++ js "/" ++ t.transitionName ++
            js " does not match matcher program " ++ matcher.program ++
            js ". Pass `<helper>.output.from(...)` for the program that emitted the record, or use `.at(transitionIndex, outputIndex)` to point at the correct callee transition."
          programId := t.programId, transition := t.transitionName
          outputIndex := source.outputIndex
          expectedProgram := matcher.program, actualProgram := t.programId }),
        decrypted := [] }
    else
      let notACiphertext (kind : JsString) : Settled α :=
        { result := .error (.idOnlyRecordResolution {
            reason := .notACiphertext
            message := js "Selected output at " ++ matcher.program ++ js "/" ++ t.transitionName ++
              js " index " ++ numberString source.outputIndex ++
              js " is not a record ciphertext (got " ++ kind ++ js "). " ++ notACiphertextHint
            programId := t.programId, transition := t.transitionName
            outputIndex := source.outputIndex }),
          decrypted := [] }
      match elementAt t.rawOutputs source.outputIndex with
      | some (.text ciphertext) => decryptRecord sdk ciphertext key matcher.deserialize
      | some (.idOnly output) => notACiphertext (js "id-only output " ++ output.id)
      | none => notACiphertext (js "undefined")

/-! ## Handles -/

inductive HandleKind where
  | idOnlyDynamicRecord
  | idOnlyExternalRecord

/-- The properties of a handle, and the arguments that its `match` closes over. -/
structure IdOnlyRecordHandle where
  kind : HandleKind
  type : JsString
  id : JsString
  transitions : List ConfirmedTransitionRecord
  sourceProgramId : Option JsString
  runtimeProgramId : Option JsString
  notACiphertextHint : JsString

def makeIdOnlyDynamicRecordHandle (entry : IdOnlyRawOutput)
    (transitions : List ConfirmedTransitionRecord)
    (sourceProgramId runtimeProgramId : Option JsString) : IdOnlyRecordHandle :=
  { kind := .idOnlyDynamicRecord, type := js "record_dynamic", id := entry.id, transitions,
    sourceProgramId, runtimeProgramId,
    notACiphertextHint := js "The dyn-handle's `.match(...).decrypt(...)` does not dereference the dynamic-record id — it expects `.from(transition, outputIndex)` or `.at(...)` pointing at a sibling concrete record output materialized by a V15-compliant callee." }

def makeIdOnlyExternalRecordHandle (entry : IdOnlyRawOutput)
    (transitions : List ConfirmedTransitionRecord)
    (sourceProgramId runtimeProgramId : Option JsString) : IdOnlyRecordHandle :=
  { kind := .idOnlyExternalRecord, type := js "external_record", id := entry.id, transitions,
    sourceProgramId, runtimeProgramId,
    notACiphertextHint := js "The callee transition you selected may not actually hold the source ciphertext for this id-only record." }

/-- `CapturedRecord.decrypt` takes the key. -/
def IdOnlyRecordHandle.match (handle : IdOnlyRecordHandle) (sdk : Sdk)
    (matcher : RecordOutputMatcher α .bound) : JsValue → Settled α :=
  let runtimeMatcher :=
    bindOwnRuntimeMatcher matcher handle.sourceProgramId handle.runtimeProgramId
  fun key => resolveAndDecryptIdOnly sdk handle.transitions runtimeMatcher key
    handle.notACiphertextHint

end Lionden.Codegen.Matchers
