import Lionden.Js.Json
import Lionden.Lib.Fallible
import Lionden.Lib.Trace

/-!
# Waiting for a confirmation

`waitForConfirmation` polls the node three times over, with one deadline: for the transaction, for the
hash of its block and for the height of that block. The clock and the node do anything, so a run is
given the turns of its loops: what the clock shows, and what the fetch settles with.

* `pollPhase`, `classifyConfirmedBody`, `classifyBlockHash`, `classifyBlockHeight`: one phase.
* `waitForConfirmation`, `waitForConfirmation_is`: the call, and that it runs a state machine.
* `RunInv.turn`, `runInv`: what holds after every turn of the machine.
* `confirmation_sound_iff`: when a confirmation means what it says.
-/

namespace Lionden.Network

/-! ## The node and the client's answers -/

/-- The status of a response, and the text of its body unless reading it fails. -/
structure Response where
  status : Nat
  body : Option JsString

def Response.ok (r : Response) : Bool := decide (200 ≤ r.status) && decide (r.status ≤ 299)

/-- `response.json()`. -/
def Response.json (r : Response) : Option JsValue := r.body.bind JSON.parse

/-- One turn of a polling loop: the clock, and the response unless the fetch fails. -/
structure Turn where
  now : Int
  response : Option Response

/-- A request of a loop, and what came of it. -/
structure Exchange where
  url : JsString
  headers : List (JsString × JsString)
  response : Option Response

inductive Stage where
  | confirmed
  | blockHash
  | blockHeight
  deriving DecidableEq

inductive ConfirmationError where
  | closed (message : JsString)
  /-- `TransactionShapeParseError`. -/
  | shape (message txId field : JsString)
  /-- `NetworkConfirmationTimeoutError`. -/
  | timeout (message txId : JsString) (timeout : Int) (stage : Stage)

/-- `RawTransitionOutput`. -/
inductive RawTransitionOutput where
  | value (s : JsString)
  | idOnly (id type : JsString)

structure ConfirmedTransitionRecord where
  programId : JsString
  transitionName : JsString
  rawOutputs : List RawTransitionOutput
  transitionPublicKey : JsString

inductive TxStatus where
  | accepted
  | rejected
  deriving DecidableEq

structure ConfirmedTransaction where
  txId : JsString
  blockHeight : JsNumber
  status : TxStatus
  transitions : List ConfirmedTransitionRecord

/-! ## Transitions -/

/-- A string that is not empty. -/
def nonEmptyString : JsValue → Option JsString
  | .string s => if s = [] then none else some s
  | _ => none

def shapeError (txId text field : JsString) : ConfirmationError :=
  .shape (js "Transaction " ++ txId ++ js ": " ++ text) txId field

def indexed (path : JsString) (i : Nat) : JsString := path ++ js "[" ++ decimal i ++ js "]"

def parseOutput (txId path : JsString) (outputIndex : Nat) (output : JsValue) :
    Except ConfirmationError RawTransitionOutput :=
  let outputPath := indexed (path ++ js ".outputs") outputIndex
  if ¬ output.isObject then
    .error (shapeError txId (outputPath ++ js " is not an object.") outputPath)
  else if ¬ output.hasOwn (js "value") then
    match nonEmptyString (output.property (js "id")) with
    | none => .error (shapeError txId (outputPath ++ js " has no value and no string id.")
        (outputPath ++ js ".id"))
    | some id => .ok (.idOnly id ((nonEmptyString (output.property (js "type"))).getD (js "unknown")))
  else match output.property (js "value") with
    | .string s => .ok (.value s)
    | _ => .error (shapeError txId (outputPath ++ js ".value is not a string.")
        (outputPath ++ js ".value"))

/-- The elements of an array with their indices; an array of JSON has no holes. -/
def entries (elements : List (Option JsValue)) : List (JsValue × Nat) :=
  elements.reduceOption.zipIdx

def parseTransition (txId : JsString) (index : Nat) (entry : JsValue) :
    Except ConfirmationError ConfirmedTransitionRecord := do
  let path := indexed (js "transaction.execution.transitions") index
  if ¬ entry.isObject then
    .error (shapeError txId (path ++ js " is not an object.") path)
  else do
    let required (field detail : JsString) : Except ConfirmationError JsString :=
      match nonEmptyString (entry.property field) with
      | some s => .ok s
      | none => .error (shapeError txId
          (path ++ js "." ++ field ++ js " is missing or not a string." ++ detail)
          (path ++ js "." ++ field))
    let programId ← required (js "program") []
    let transitionName ← required (js "function") []
    let transitionPublicKey ← required (js "tpk")
      (js " The transition public key is required to decrypt private inputs/outputs.")
    let rawOutputs ← match entry.property (js "outputs") with
      | .undefined | .null => .ok []
      | .array elements => (entries elements).mapM fun (output, i) => parseOutput txId path i output
      | _ => .error (shapeError txId (path ++ js ".outputs is not an array.") (path ++ js ".outputs"))
    .ok { programId, transitionName, rawOutputs, transitionPublicKey }

/-- `txData.type === "execute"`. -/
def isExecute (txData : JsValue) : Bool :=
  match txData.property (js "type") with
  | .string s => decide (s = js "execute")
  | _ => false

def parseConfirmedTransitions (txData : JsValue) (txId : JsString) :
    Except ConfirmationError (List ConfirmedTransitionRecord) :=
  if ¬ txData.truthy then .ok []
  else
    let execution := txData.property (js "execution")
    if ¬ execution.truthy then
      if isExecute txData then
        .error (shapeError txId (js "type is \"execute\" but transaction.execution is missing.")
          (js "transaction.execution"))
      else .ok []
    else match execution.property (js "transitions") with
      | .undefined | .null =>
        if isExecute txData then
          .error (shapeError txId
            (js "type is \"execute\" but transaction.execution.transitions is missing.")
            (js "transaction.execution.transitions"))
        else .ok []
      | .array elements => (entries elements).mapM fun (entry, i) => parseTransition txId i entry
      | v => .error (shapeError txId
          (js "transaction.execution.transitions is not an array (got " ++ v.typeof ++ js ").")
          (js "transaction.execution.transitions"))

def ConfirmationError.IsShape (txId : JsString) (e : ConfirmationError) : Prop :=
  ∃ message field, e = .shape message txId field

theorem parseOutput_error {txId path : JsString} {i : Nat} {output : JsValue}
    {e : ConfirmationError} (h : parseOutput txId path i output = .error e) : e.IsShape txId := by
  unfold parseOutput at h
  dsimp only at h
  split at h
  · cases h
    exact ⟨_, _, rfl⟩
  split at h
  · split at h
    · cases h
      exact ⟨_, _, rfl⟩
    · cases h
  · split at h
    · cases h
    · cases h
      exact ⟨_, _, rfl⟩

theorem parseTransition_error {txId : JsString} {i : Nat} {entry : JsValue} {e : ConfirmationError}
    (h : parseTransition txId i entry = .error e) : e.IsShape txId := by
  unfold parseTransition at h
  dsimp only at h
  have hrequired : ∀ {field detail : JsString},
      (match nonEmptyString (entry.property field) with
        | some s => Except.ok s
        | none => .error (shapeError txId
          (indexed (js "transaction.execution.transitions") i ++ js "." ++ field ++
            js " is missing or not a string." ++ detail)
          (indexed (js "transaction.execution.transitions") i ++ js "." ++ field))) = .error e →
      e.IsShape txId := by
    intro field detail h
    split at h
    · cases h
    · cases h
      exact ⟨_, _, rfl⟩
  split at h
  · cases h
    exact ⟨_, _, rfl⟩
  rcases Fallible.bind_error.mp h with h | ⟨_, -, h⟩
  · exact hrequired h
  rcases Fallible.bind_error.mp h with h | ⟨_, -, h⟩
  · exact hrequired h
  rcases Fallible.bind_error.mp h with h | ⟨_, -, h⟩
  · exact hrequired h
  split at h
  · cases h
  · cases h
  · rcases Fallible.bind_error.mp h with h | ⟨_, -, h⟩
    · obtain ⟨x, -, hx⟩ := Fallible.mapM_error h
      exact parseOutput_error hx
    · cases h
  · cases h
    exact ⟨_, _, rfl⟩

/-- Whatever is wrong with the transitions of a transaction, the error is one of its shape. -/
theorem parseConfirmedTransitions_error {txData : JsValue} {txId : JsString}
    {e : ConfirmationError} (h : parseConfirmedTransitions txData txId = .error e) :
    e.IsShape txId := by
  unfold parseConfirmedTransitions at h
  dsimp only at h
  split at h
  · cases h
  split at h
  · split at h
    · cases h
      exact ⟨_, _, rfl⟩
    · cases h
  split at h
  · split at h
    · cases h
      exact ⟨_, _, rfl⟩
    · cases h
  · split at h
    · cases h
      exact ⟨_, _, rfl⟩
    · cases h
  · obtain ⟨x, -, hx⟩ := Fallible.mapM_error h
    exact parseTransition_error hx
  · cases h
    exact ⟨_, _, rfl⟩

/-! ## One phase -/

inductive PhaseOutcome (α : Type) where
  | confirmed (value : α)
  | retryable
  | fatalShape (error : ConfirmationError)

def classifyConfirmedBody (txId : JsString) (response : Option Response) : PhaseOutcome JsValue :=
  match response with
  | none => .retryable
  | some r =>
    if ¬ r.ok then .retryable
    else match r.json with
      | none => .fatalShape (.shape
          (js "Transaction " ++ txId ++ js " confirmed body is not valid JSON") txId (js "body"))
      | some parsed =>
        if ¬ parsed.isObject then .fatalShape (.shape
          (js "Transaction " ++ txId ++ js " confirmed body is not a JSON object") txId (js "body"))
        else .confirmed parsed

/-- The hash that the text of a body is: a JSON string, or the text itself. -/
def unquoted (text : JsString) : Option JsString :=
  let raw := trim text
  if raw.head? = some 34 ∧ raw.getLast? = some 34 then
    match JSON.parse raw with
    | some (.string s) => some s
    -- Quoted text is a string or no JSON: `parse_quoted`.
    | _ => none
  else some raw

def classifyBlockHash (response : Option Response) : PhaseOutcome JsString :=
  match response with
  | none => .retryable
  | some r =>
    if ¬ r.ok then .retryable
    else match r.body.bind unquoted with
      | some blockHash => .confirmed blockHash
      | none => .retryable

/-- `header.metadata.height` of a block. -/
def heightOf (block : JsValue) : Option JsNumber :=
  match ((block.property (js "header")).property (js "metadata")).property (js "height") with
  | .number h => some h
  | _ => none

def classifyBlockHeight (txId blockHash : JsString) (response : Option Response) :
    PhaseOutcome JsNumber :=
  let fatal (text field : JsString) : PhaseOutcome JsNumber := .fatalShape (.shape
    (js "Transaction " ++ txId ++ js " confirmed at block " ++ blockHash ++ js " but " ++ text)
    txId field)
  match response with
  | none => .retryable
  | some r =>
    if ¬ r.ok then .retryable
    else match r.json with
      | none => fatal (js "the block body is not valid JSON") (js "body")
      | some parsed =>
        if ¬ parsed.isObject then fatal (js "the block body is not a JSON object") (js "body")
        else match heightOf parsed with
          | some h => .confirmed h
          | none => fatal (js "header.metadata.height is missing or non-numeric")
              (js "header.metadata.height")

/-- What a loop has come to, with the requests that it has made, and the turns that are left to the
loops after it; `polling` if its turns have run out. -/
inductive Polled (α : Type) where
  | confirmed (value : α) (log : List Exchange) (rest : List Turn)
  | threw (error : ConfirmationError) (log : List Exchange)
  | polling (log : List Exchange)

def Polled.prepend {α : Type} (earlier : List Exchange) : Polled α → Polled α
  | .confirmed v log rest => .confirmed v (earlier ++ log) rest
  | .threw e log => .threw e (earlier ++ log)
  | .polling log => .polling (earlier ++ log)

/-- What is done with the value, in the turns that are left. -/
def Polled.andThen {α β : Type} (p : Polled α) (f : α → List Turn → Polled β) : Polled β :=
  match p with
  | .confirmed v log rest => (f v rest).prepend log
  | .threw e log => .threw e log
  | .polling log => .polling log

/-- `pollPhase`, whose `sleep` has no effect here. -/
def pollPhase {α : Type} (url : JsString) (headers : List (JsString × JsString)) (deadline : Int)
    (classify : Option Response → PhaseOutcome α) (timedOut : ConfirmationError) :
    List Turn → Polled α
  | [] => .polling []
  | turn :: turns =>
    if turn.now < deadline then
      let exchange := ⟨url, headers, turn.response⟩
      match classify turn.response with
      | .confirmed v => .confirmed v [exchange] turns
      | .fatalShape e => .threw e [exchange]
      | .retryable =>
        (pollPhase url headers deadline classify timedOut turns).prepend [exchange]
    else .threw timedOut []

/-! ## The three phases -/

/-- What the requests of a connection are made with. -/
structure Settings where
  endpoint : JsString
  networkId : JsString
  apiKey : JsString
  closed : Bool

namespace Settings

variable (c : Settings)

def headers : List (JsString × JsString) :=
  if c.apiKey = [] then [] else [(js "Authorization", js "Bearer " ++ c.apiKey)]

def base : JsString := c.endpoint ++ js "/" ++ c.networkId

def confirmedUrl (txId : JsString) : JsString := c.base ++ js "/transaction/confirmed/" ++ txId

def blockHashUrl (txId : JsString) : JsString := c.base ++ js "/find/blockHash/" ++ txId

def blockUrl (blockHash : JsString) : JsString := c.base ++ js "/block/" ++ blockHash

end Settings

def DEFAULT_CONFIRMATION_TIMEOUT_MS : Int := 60000

/-- `confirmedBody.transaction.type`, or else `confirmedBody.type`. -/
def txType (confirmedBody : JsValue) : JsValue :=
  let type := (confirmedBody.property (js "transaction")).property (js "type")
  if type.isNullish then confirmedBody.property (js "type") else type

def statusOf (confirmedBody : JsValue) : TxStatus :=
  match txType confirmedBody with
  | .string s => if s = js "fee" then .rejected else .accepted
  | _ => .accepted

def timeoutMessage (txId text : JsString) (timeout : Int) : JsString :=
  js "Transaction " ++ txId ++ text ++ js " within " ++ intString timeout ++ js "ms"

def timeoutError (txId : JsString) (timeout : Int) : Stage → ConfirmationError
  | .confirmed => .timeout (timeoutMessage txId (js " not confirmed") timeout) txId timeout .confirmed
  | .blockHash => .timeout
      (timeoutMessage txId (js " confirmed but block-hash lookup did not resolve") timeout)
      txId timeout .blockHash
  | .blockHeight => .timeout
      (timeoutMessage txId (js " confirmed but block height could not be resolved") timeout)
      txId timeout .blockHeight

/-- `waitForConfirmation`, called when the clock shows `start`. -/
def waitForConfirmation (c : Settings) (txId : JsString) (timeout : Option Int) (start : Int)
    (turns : List Turn) : Polled ConfirmedTransaction :=
  if c.closed then .threw (.closed (js "Connection is closed.")) []
  else
    let effectiveTimeout := timeout.getD DEFAULT_CONFIRMATION_TIMEOUT_MS
    let deadline := start + effectiveTimeout
    let poll {α : Type} (url : JsString) (classify : Option Response → PhaseOutcome α)
        (stage : Stage) : List Turn → Polled α :=
      pollPhase url c.headers deadline classify (timeoutError txId effectiveTimeout stage)
    (poll (c.confirmedUrl txId) (classifyConfirmedBody txId) .confirmed turns).andThen
      fun confirmedBody turns =>
        match parseConfirmedTransitions (confirmedBody.property (js "transaction")) txId with
        | .error e => .threw e []
        | .ok transitions =>
          (poll (c.blockHashUrl txId) classifyBlockHash .blockHash turns).andThen
            fun blockHash turns =>
              (poll (c.blockUrl blockHash) (classifyBlockHeight txId blockHash) .blockHeight
                turns).andThen fun blockHeight turns =>
                  .confirmed { txId, blockHeight, status := statusOf confirmedBody, transitions } []
                    turns

/-! ## What the node has answered -/

/-- The node has answered a request for `url` with a 2xx status. -/
def Exchange.Answered (e : Exchange) (url : JsString) (r : Response) : Prop :=
  e.url = url ∧ e.response = some r ∧ r.ok = true

section Answers

variable (c : Settings) (txId : JsString)

def GivesTransaction (e : Exchange) (body : JsValue)
    (transitions : List ConfirmedTransitionRecord) : Prop :=
  ∃ r, e.Answered (c.confirmedUrl txId) r ∧ r.json = some body ∧ body.isObject = true ∧
    parseConfirmedTransitions (body.property (js "transaction")) txId = .ok transitions

def GivesHash (e : Exchange) (blockHash : JsString) : Prop :=
  ∃ r, e.Answered (c.blockHashUrl txId) r ∧ r.body.bind unquoted = some blockHash

def GivesHeight (blockHash : JsString) (e : Exchange) (blockHeight : JsNumber) : Prop :=
  ∃ r block, e.Answered (c.blockUrl blockHash) r ∧ r.json = some block ∧
    heightOf block = some blockHeight

/-- A 2xx answer to a request for a transaction or for a block that does not give it. -/
def FatalShape (e : Exchange) : Prop :=
  (∃ r, e.Answered (c.confirmedUrl txId) r) ∧
      (∀ body transitions, ¬GivesTransaction c txId e body transitions) ∨
    ∃ blockHash, (∃ r, e.Answered (c.blockUrl blockHash) r) ∧ ∀ h, ¬GivesHeight c blockHash e h

/-- The phase that a call is in after its exchanges: it has no transaction yet, or no hash yet, or
both. -/
def InStage (log : List Exchange) : Stage → Prop
  | .confirmed => ∀ e ∈ log, ∀ body transitions, ¬GivesTransaction c txId e body transitions
  | .blockHash => (∃ e ∈ log, ∃ body transitions, GivesTransaction c txId e body transitions) ∧
      ∀ e ∈ log, ∀ blockHash, ¬GivesHash c txId e blockHash
  | .blockHeight => (∃ e ∈ log, ∃ body transitions, GivesTransaction c txId e body transitions) ∧
      ∃ e ∈ log, ∃ blockHash, GivesHash c txId e blockHash

end Answers

/-! ## The call as a state machine -/

/-- What a call is polling for, with what it has read before. -/
inductive Phase where
  | confirmed
  | blockHash (body : JsValue) (transitions : List ConfirmedTransitionRecord)
  | blockHeight (body : JsValue) (transitions : List ConfirmedTransitionRecord)
      (blockHash : JsString)

inductive Progress where
  | polling (phase : Phase)
  | confirmed (tx : ConfirmedTransaction)
  | threw (error : ConfirmationError)

namespace Phase

def stage : Phase → Stage
  | confirmed => .confirmed
  | blockHash .. => .blockHash
  | blockHeight .. => .blockHeight

def url (c : Settings) (txId : JsString) : Phase → JsString
  | confirmed => c.confirmedUrl txId
  | blockHash .. => c.blockHashUrl txId
  | blockHeight _ _ hash => c.blockUrl hash

/-- What a response makes of a phase. -/
def answered (txId : JsString) : Phase → Option Response → Progress
  | confirmed, response =>
    match classifyConfirmedBody txId response with
    | .retryable => .polling .confirmed
    | .fatalShape e => .threw e
    | .confirmed body =>
      match parseConfirmedTransitions (body.property (js "transaction")) txId with
      | .error e => .threw e
      | .ok transitions => .polling (.blockHash body transitions)
  | blockHash body transitions, response =>
    match classifyBlockHash response with
    | .retryable => .polling (.blockHash body transitions)
    | .fatalShape e => .threw e
    | .confirmed hash => .polling (.blockHeight body transitions hash)
  | blockHeight body transitions hash, response =>
    match classifyBlockHeight txId hash response with
    | .retryable => .polling (.blockHeight body transitions hash)
    | .fatalShape e => .threw e
    | .confirmed height =>
      .confirmed { txId, blockHeight := height, status := statusOf body, transitions }

end Phase

section Machine

variable (c : Settings) (txId : JsString) (timeout deadline : Int)

def turn : Progress × List Exchange → Turn → Progress × List Exchange
  | (.polling phase, log), t =>
    if t.now < deadline then
      (phase.answered txId t.response, log ++ [⟨phase.url c txId, c.headers, t.response⟩])
    else (.threw (timeoutError txId timeout phase.stage), log)
  | s, _ => s

/-- A result of the code, and the state of the machine. -/
def Polled.Is : Polled ConfirmedTransaction → Progress × List Exchange → Prop
  | .confirmed tx log _, s => s = (.confirmed tx, log)
  | .threw e log, s => s = (.threw e, log)
  | .polling log, s => ∃ phase, s = (.polling phase, log)

theorem Polled.prepend_prepend {α : Type} (a b : List Exchange) (p : Polled α) :
    (p.prepend b).prepend a = p.prepend (a ++ b) := by
  cases p <;> simp [Polled.prepend]

theorem Polled.prepend_nil {α : Type} (p : Polled α) : p.prepend [] = p := by
  cases p <;> rfl

theorem Polled.prepend_andThen {α β : Type} (a : List Exchange) (p : Polled α)
    (f : α → List Turn → Polled β) : (p.prepend a).andThen f = (p.andThen f).prepend a := by
  cases p with
  | confirmed v log rest => exact (Polled.prepend_prepend a log (f v rest)).symm
  | threw e log => rfl
  | polling log => rfl

/-- A machine that has ended stays as it is. -/
theorem exec_ended {s : Progress × List Exchange} (h : ∀ t, turn c txId timeout deadline s t = s)
    (turns : List Turn) : Trace.exec (turn c txId timeout deadline) s turns = s := by
  induction turns with
  | nil => rfl
  | cons t turns ih =>
    show Trace.exec _ (turn c txId timeout deadline s t) turns = s
    rw [h t]
    exact ih

/-- A loop of the code is a phase of the machine, if what follows it is what follows the phase. -/
theorem pollPhase_is (phase : Phase) {α : Type} {classify : Option Response → PhaseOutcome α}
    {k : α → List Turn → Polled ConfirmedTransaction}
    (hwait : ∀ r, classify r = .retryable → phase.answered txId r = .polling phase)
    (hfatal : ∀ r e, classify r = .fatalShape e → phase.answered txId r = .threw e)
    (hnext : ∀ r v, classify r = .confirmed v → ∀ log turns, ((k v turns).prepend log).Is
      (Trace.exec (turn c txId timeout deadline) (phase.answered txId r, log) turns))
    (log : List Exchange) (turns : List Turn) :
    (((pollPhase (phase.url c txId) c.headers deadline classify
      (timeoutError txId timeout phase.stage) turns).andThen k).prepend log).Is
        (Trace.exec (turn c txId timeout deadline) (.polling phase, log) turns) := by
  induction turns generalizing log with
  | nil => exact ⟨phase, by simp [Trace.exec]⟩
  | cons t turns ih =>
    show Polled.Is _ (Trace.exec _ (turn c txId timeout deadline (.polling phase, log) t) turns)
    by_cases hnow : t.now < deadline
    · simp only [pollPhase, turn, hnow, if_true]
      cases hr : classify t.response with
      | confirmed v =>
        have := hnext t.response v hr (log ++ [⟨phase.url c txId, c.headers, t.response⟩]) turns
        simpa only [Polled.andThen, Polled.prepend_prepend] using this
      | retryable =>
        rw [hwait t.response hr]
        simpa only [Polled.prepend_andThen, Polled.prepend_prepend] using ih _
      | fatalShape e =>
        rw [hfatal t.response e hr, exec_ended _ _ _ _ fun _ => rfl]
        rfl
    · simp only [pollPhase, turn, hnow, if_false]
      rw [exec_ended _ _ _ _ fun _ => rfl]
      simp [Polled.andThen, Polled.prepend, Polled.Is]

end Machine

/-- **The code refines the machine**: an open connection's call is a run of it. -/
theorem waitForConfirmation_is {c : Settings} (hopen : c.closed = false) (txId : JsString)
    (timeout : Option Int) (start : Int) (turns : List Turn) :
    (waitForConfirmation c txId timeout start turns).Is
      (Trace.exec (turn c txId (timeout.getD DEFAULT_CONFIRMATION_TIMEOUT_MS)
        (start + timeout.getD DEFAULT_CONFIRMATION_TIMEOUT_MS)) (.polling .confirmed, []) turns) := by
  unfold waitForConfirmation
  simp only [hopen, Bool.false_eq_true, if_false]
  rw [← Polled.prepend_nil (Polled.andThen _ _)]
  refine pollPhase_is c txId _ _ .confirmed ?_ ?_ ?_ [] turns
  · intro r hr
    simp [Phase.answered, hr]
  · intro r e hr
    simp [Phase.answered, hr]
  intro r body hr log turns
  simp only [Phase.answered, hr]
  cases hts : parseConfirmedTransitions (body.property (js "transaction")) txId with
  | error e =>
    dsimp only
    rw [exec_ended _ _ _ _ fun _ => rfl]
    simp [Polled.prepend, Polled.Is]
  | ok transitions =>
    dsimp only
    refine pollPhase_is c txId _ _ (.blockHash body transitions) ?_ ?_ ?_ log turns
    · intro r hr
      simp [Phase.answered, hr]
    · intro r e hr
      simp [Phase.answered, hr]
    intro r hash hr log turns
    simp only [Phase.answered, hr]
    refine pollPhase_is c txId _ _ (.blockHeight body transitions hash) ?_ ?_ ?_ log turns
    · intro r hr
      simp [Phase.answered, hr]
    · intro r e hr
      simp [Phase.answered, hr]
    intro r height hr log turns
    simp only [Phase.answered, hr]
    rw [exec_ended _ _ _ _ fun _ => rfl]
    simp [Polled.prepend, Polled.Is]

/-! ## One exchange -/

section Exchanges

variable {c : Settings} {txId : JsString}

theorem blockHashUrl_ne_confirmedUrl : c.blockHashUrl txId ≠ c.confirmedUrl txId := by
  intro h
  simp only [Settings.blockHashUrl, Settings.confirmedUrl, List.append_assoc] at h
  exact absurd (List.cons.inj (List.cons.inj (List.append_cancel_left h)).2).1 (by decide)

theorem blockUrl_ne_confirmedUrl (hash : JsString) : c.blockUrl hash ≠ c.confirmedUrl txId := by
  intro h
  simp only [Settings.blockUrl, Settings.confirmedUrl, List.append_assoc] at h
  exact absurd (List.cons.inj (List.cons.inj (List.append_cancel_left h)).2).1 (by decide)

theorem blockUrl_ne_blockHashUrl (hash : JsString) : c.blockUrl hash ≠ c.blockHashUrl txId := by
  intro h
  simp only [Settings.blockUrl, Settings.blockHashUrl, List.append_assoc] at h
  exact absurd (List.cons.inj (List.cons.inj (List.append_cancel_left h)).2).1 (by decide)

theorem blockUrl_injective : Function.Injective c.blockUrl :=
  fun _ _ h => List.append_cancel_left h

theorem heightOf_isObject {block : JsValue} {h : JsNumber} (hblock : heightOf block = some h) :
    block.isObject = true := by
  cases block <;> first | rfl | exact nomatch hblock

/-- A poll for the transaction: no answer yet, the transaction, or a body that is not one. -/
theorem confirmed_answered (e : Exchange) (hurl : e.url = c.confirmedUrl txId) :
    (∀ r, ¬e.Answered (c.confirmedUrl txId) r) ∧
        Phase.confirmed.answered txId e.response = .polling .confirmed ∨
      (∃ body transitions, GivesTransaction c txId e body transitions ∧
        Phase.confirmed.answered txId e.response = .polling (.blockHash body transitions)) ∨
      FatalShape c txId e ∧ ∃ err, err.IsShape txId ∧
        Phase.confirmed.answered txId e.response = .threw err := by
  cases hr : e.response with
  | none => exact .inl ⟨fun r h => (nomatch hr.symm.trans h.2.1), rfl⟩
  | some r =>
    by_cases hok : r.ok = true
    swap
    · refine .inl ⟨fun r' h => hok ?_, by simp [Phase.answered, classifyConfirmedBody, hok]⟩
      cases hr.symm.trans h.2.1
      exact h.2.2
    have hanswered : e.Answered (c.confirmedUrl txId) r := ⟨hurl, hr, hok⟩
    have hfatal (hnot : ∀ body transitions, ¬(r.json = some body ∧ body.isObject = true ∧
        parseConfirmedTransitions (body.property (js "transaction")) txId = .ok transitions)) :
        FatalShape c txId e := by
      refine .inl ⟨⟨r, hanswered⟩, fun body transitions h => ?_⟩
      obtain ⟨r', hr', hgives⟩ := h
      cases hr.symm.trans hr'.2.1
      exact hnot body transitions hgives
    simp only [Phase.answered, classifyConfirmedBody, hok, not_true_eq_false, if_false]
    cases hjson : r.json with
    | none => exact .inr (.inr ⟨hfatal (by simp [hjson]), _, ⟨_, _, rfl⟩, rfl⟩)
    | some body =>
      by_cases hobject : body.isObject = true
      · cases hts : parseConfirmedTransitions (body.property (js "transaction")) txId with
        | ok transitions =>
          exact .inr (.inl ⟨body, transitions, ⟨r, hanswered, hjson, hobject, hts⟩,
            by simp [hobject, hts]⟩)
        | error err =>
          refine .inr (.inr ⟨hfatal ?_, err, parseConfirmedTransitions_error hts,
            by simp [hobject, hts]⟩)
          rintro _ transitions ⟨hbody, -, h⟩
          cases hjson.symm.trans hbody
          exact nomatch hts.symm.trans h
      · refine .inr (.inr ⟨hfatal ?_, _, ⟨_, _, rfl⟩, by simp only [hobject]; rfl⟩)
        rintro _ transitions ⟨hbody, h, -⟩
        cases hjson.symm.trans hbody
        exact hobject h

/-- A poll for the hash of the block: none yet, or a hash. -/
theorem blockHash_answered (body : JsValue) (transitions : List ConfirmedTransitionRecord)
    (e : Exchange) (hurl : e.url = c.blockHashUrl txId) :
    (∀ hash, ¬GivesHash c txId e hash) ∧
        (Phase.blockHash body transitions).answered txId e.response =
          .polling (.blockHash body transitions) ∨
      ∃ hash, GivesHash c txId e hash ∧
        (Phase.blockHash body transitions).answered txId e.response =
          .polling (.blockHeight body transitions hash) := by
  cases hr : e.response with
  | none => exact .inl ⟨fun hash ⟨r, h, _⟩ => (nomatch hr.symm.trans h.2.1), rfl⟩
  | some r =>
    by_cases hok : r.ok = true
    · cases hhash : r.body.bind unquoted with
      | none =>
        refine .inl ⟨fun hash ⟨r', h, hgives⟩ => ?_,
          by simp [Phase.answered, classifyBlockHash, hok, hhash]⟩
        cases hr.symm.trans h.2.1
        exact nomatch hhash.symm.trans hgives
      | some hash =>
        exact .inr ⟨hash, ⟨r, ⟨hurl, hr, hok⟩, hhash⟩,
          by simp [Phase.answered, classifyBlockHash, hok, hhash]⟩
    · refine .inl ⟨fun hash ⟨r', h, _⟩ => hok ?_,
        by simp [Phase.answered, classifyBlockHash, hok]⟩
      cases hr.symm.trans h.2.1
      exact h.2.2

/-- A poll for the height of the block: no answer yet, the height, or a body without one. -/
theorem blockHeight_answered (body : JsValue) (transitions : List ConfirmedTransitionRecord)
    (hash : JsString) (e : Exchange) (hurl : e.url = c.blockUrl hash) :
    (∀ r, ¬e.Answered (c.blockUrl hash) r) ∧
        (Phase.blockHeight body transitions hash).answered txId e.response =
          .polling (.blockHeight body transitions hash) ∨
      (∃ height, GivesHeight c hash e height ∧
        (Phase.blockHeight body transitions hash).answered txId e.response =
          .confirmed { txId, blockHeight := height, status := statusOf body, transitions }) ∨
      FatalShape c txId e ∧ ∃ err, err.IsShape txId ∧
        (Phase.blockHeight body transitions hash).answered txId e.response = .threw err := by
  cases hr : e.response with
  | none => exact .inl ⟨fun r h => (nomatch hr.symm.trans h.2.1), rfl⟩
  | some r =>
    by_cases hok : r.ok = true
    swap
    · refine .inl ⟨fun r' h => hok ?_, by simp [Phase.answered, classifyBlockHeight, hok]⟩
      cases hr.symm.trans h.2.1
      exact h.2.2
    have hanswered : e.Answered (c.blockUrl hash) r := ⟨hurl, hr, hok⟩
    have hfatal (hnot : ∀ block h, ¬(r.json = some block ∧ heightOf block = some h)) :
        FatalShape c txId e := by
      refine .inr ⟨hash, ⟨r, hanswered⟩, fun height ⟨r', block, hr', hgives⟩ => ?_⟩
      cases hr.symm.trans hr'.2.1
      exact hnot block height hgives
    simp only [Phase.answered, classifyBlockHeight, hok, not_true_eq_false, if_false]
    cases hjson : r.json with
    | none => exact .inr (.inr ⟨hfatal (by simp [hjson]), _, ⟨_, _, rfl⟩, rfl⟩)
    | some block =>
      cases hheight : heightOf block with
      | some height =>
        exact .inr (.inl ⟨height, ⟨r, block, hanswered, hjson, hheight⟩,
          by simp [heightOf_isObject hheight, hheight]⟩)
      | none =>
        refine .inr (.inr ⟨hfatal ?_, ?_⟩)
        · rintro _ h ⟨hblock, hh⟩
          cases hjson.symm.trans hblock
          exact nomatch hheight.symm.trans hh
        · by_cases hobject : block.isObject = true
          · exact ⟨_, ⟨_, _, rfl⟩, by simp only [hobject, hheight]; rfl⟩
          · exact ⟨_, ⟨_, _, rfl⟩, by simp only [hobject]; rfl⟩

/-- Each phase asks for something else, so that an answer counts only in its own phase. -/
theorem not_fatal_of_blockHashUrl {e : Exchange} (hurl : e.url = c.blockHashUrl txId) :
    ¬FatalShape c txId e := by
  rintro (⟨⟨r, h⟩, -⟩ | ⟨hash, ⟨r, h⟩, -⟩)
  · exact blockHashUrl_ne_confirmedUrl (hurl.symm.trans h.1)
  · exact blockUrl_ne_blockHashUrl hash (h.1.symm.trans hurl)

theorem not_givesHash {e : Exchange} (hurl : e.url = c.confirmedUrl txId) (hash : JsString) :
    ¬GivesHash c txId e hash :=
  fun ⟨_, h, _⟩ => blockHashUrl_ne_confirmedUrl (h.1.symm.trans hurl)

/-- A transaction is asked for in its phase only. -/
theorem not_fatal_of_confirmed {e : Exchange} (hurl : e.url = c.confirmedUrl txId)
    (h : (∀ r, ¬e.Answered (c.confirmedUrl txId) r) ∨
      ∃ body transitions, GivesTransaction c txId e body transitions) : ¬FatalShape c txId e := by
  rintro (⟨⟨r, hr⟩, hnone⟩ | ⟨hash, ⟨r, hr⟩, -⟩)
  · rcases h with h | ⟨body, transitions, h⟩
    · exact h r hr
    · exact hnone body transitions h
  · exact blockUrl_ne_confirmedUrl hash (hr.1.symm.trans hurl)

theorem not_fatal_of_blockUrl {hash : JsString} {e : Exchange} (hurl : e.url = c.blockUrl hash)
    (h : (∀ r, ¬e.Answered (c.blockUrl hash) r) ∨ ∃ height, GivesHeight c hash e height) :
    ¬FatalShape c txId e := by
  rintro (⟨⟨r, hr⟩, -⟩ | ⟨hash', ⟨r, hr⟩, hnone⟩)
  · exact blockUrl_ne_confirmedUrl hash (hurl.symm.trans hr.1)
  · obtain rfl := blockUrl_injective (hurl.symm.trans hr.1)
    rcases h with h | ⟨height, h⟩
    · exact h r hr
    · exact hnone height h

end Exchanges

/-! ## Runs -/

section Runs

variable (c : Settings) (txId : JsString) (timeout deadline : Int)

/-- What the exchanges say of the phase that they have led to. -/
def Phase.Reached (log : List Exchange) : Phase → Prop
  | .confirmed => ∀ e ∈ log, e.url = c.confirmedUrl txId ∧
      ∀ body transitions, ¬GivesTransaction c txId e body transitions
  | .blockHash body transitions => (∃ e ∈ log, GivesTransaction c txId e body transitions) ∧
      ∀ e ∈ log, ∀ hash, ¬GivesHash c txId e hash
  | .blockHeight body transitions hash => ∃ e₁ e₂, List.Sublist [e₁, e₂] log ∧
      GivesTransaction c txId e₁ body transitions ∧ GivesHash c txId e₂ hash

/-- The exchanges that a confirmation rests on, in their order. -/
def Confirms (log : List Exchange) (tx : ConfirmedTransaction) : Prop :=
  ∃ e₁ e₂ e₃ body transitions hash, List.Sublist [e₁, e₂, e₃] log ∧
    GivesTransaction c txId e₁ body transitions ∧ GivesHash c txId e₂ hash ∧
    GivesHeight c hash e₃ tx.blockHeight ∧
    tx = { txId, blockHeight := tx.blockHeight, status := statusOf body, transitions }

/-- The last exchange, and no other, is of fatal shape. -/
def ShapeAtEnd (log : List Exchange) (err : ConfirmationError) : Prop :=
  err.IsShape txId ∧
    ∃ earlier e, log = earlier ++ [e] ∧ (∀ e' ∈ earlier, ¬FatalShape c txId e') ∧ FatalShape c txId e

/-- The turn after the exchanges is too late; the error is that of the phase that the call is in. -/
def TimedOut (turns : List Turn) (log : List Exchange) (err : ConfirmationError) : Prop :=
  (∃ stage, InStage c txId log stage ∧ err = timeoutError txId timeout stage) ∧
    ∃ t, turns[log.length]? = some t ∧ deadline ≤ t.now

/-- The invariant of the machine. -/
def RunInv (turns : List Turn) : Progress × List Exchange → Prop
  | (.polling phase, log) => log.length = turns.length ∧ (∀ t ∈ turns, t.now < deadline) ∧
      (∀ e ∈ log, ¬FatalShape c txId e) ∧ phase.Reached c txId log
  | (.confirmed tx, log) => (∀ e ∈ log, ¬FatalShape c txId e) ∧ Confirms c txId log tx
  | (.threw err, log) => ShapeAtEnd c txId log err ∨
      (∀ e ∈ log, ¬FatalShape c txId e) ∧ TimedOut c txId timeout deadline turns log err

end Runs

section RunLemmas

variable {c : Settings} {txId : JsString} {timeout deadline : Int}

theorem Phase.Reached.inStage {log : List Exchange} {phase : Phase}
    (h : phase.Reached c txId log) : InStage c txId log phase.stage := by
  cases phase with
  | confirmed => exact fun e he => (h e he).2
  | blockHash body transitions =>
    obtain ⟨⟨e, he, hgives⟩, hnone⟩ := h
    exact ⟨⟨e, he, body, transitions, hgives⟩, hnone⟩
  | blockHeight body transitions hash =>
    obtain ⟨e₁, e₂, hsub, h₁, h₂⟩ := h
    exact ⟨⟨e₁, hsub.subset (by simp), body, transitions, h₁⟩, e₂, hsub.subset (by simp), hash, h₂⟩

/-- A phase that goes on polling after an exchange, or gives way to another one. -/
theorem RunInv.polled {turns : List Turn} {log : List Exchange} {t : Turn} {e : Exchange}
    {phase : Phase} (hlen : log.length = turns.length) (hearly : ∀ t ∈ turns, t.now < deadline)
    (hfine : ∀ e ∈ log, ¬FatalShape c txId e) (hnow : t.now < deadline)
    (he : ¬FatalShape c txId e) (hreached : phase.Reached c txId (log ++ [e])) :
    RunInv c txId timeout deadline (turns ++ [t]) (.polling phase, log ++ [e]) := by
  refine ⟨by simp [hlen], ?_, ?_, hreached⟩
  · simpa [or_imp, forall_and] using ⟨hearly, hnow⟩
  · simpa [or_imp, forall_and] using ⟨hfine, he⟩

/-- **The step lemma**. -/
theorem RunInv.turn {turns : List Turn} {s : Progress × List Exchange}
    (h : RunInv c txId timeout deadline turns s) (t : Turn) :
    RunInv c txId timeout deadline (turns ++ [t]) (turn c txId timeout deadline s t) := by
  obtain ⟨progress, log⟩ := s
  cases progress with
  | confirmed tx => exact h
  | threw err =>
    refine h.imp id fun ⟨hfine, hstage, t', ht', hlate⟩ => ⟨hfine, hstage, t', ?_, hlate⟩
    rw [List.getElem?_append_left (List.getElem?_eq_some_iff.mp ht').1]
    exact ht'
  | polling phase =>
    obtain ⟨hlen, hearly, hfine, hreached⟩ := h
    by_cases hnow : t.now < deadline
    swap
    · simp only [Network.turn, hnow, if_false]
      refine .inr ⟨hfine, ⟨phase.stage, hreached.inStage, rfl⟩, t, ?_, not_lt.mp hnow⟩
      rw [hlen]
      exact List.getElem?_concat_length
    simp only [Network.turn, hnow, if_true]
    generalize he : (⟨phase.url c txId, c.headers, t.response⟩ : Exchange) = e
    have hurl : e.url = phase.url c txId := he ▸ rfl
    have hresponse : t.response = e.response := he ▸ rfl
    rw [hresponse]
    have hpolled {phase : Phase} (he : ¬FatalShape c txId e)
        (hreached : phase.Reached c txId (log ++ [e])) :
        RunInv c txId timeout deadline (turns ++ [t]) (.polling phase, log ++ [e]) :=
      .polled hlen hearly hfine hnow he hreached
    cases phase with
    | confirmed =>
      rcases confirmed_answered e hurl with
        ⟨hnone, heq⟩ | ⟨body, transitions, hgives, heq⟩ | ⟨hfatal, err, hshape, heq⟩
      · rw [heq]
        refine hpolled (not_fatal_of_confirmed hurl (.inl hnone)) fun e' he' => ?_
        rcases List.mem_append.mp he' with he' | he'
        · exact hreached e' he'
        · rw [List.mem_singleton.mp he']
          exact ⟨hurl, fun body transitions ⟨r, hr, _⟩ => hnone r hr⟩
      · rw [heq]
        refine hpolled (not_fatal_of_confirmed hurl (.inr ⟨body, transitions, hgives⟩))
          ⟨⟨e, by simp, hgives⟩, fun e' he' => ?_⟩
        rcases List.mem_append.mp he' with he' | he'
        · exact not_givesHash (hreached e' he').1
        · rw [List.mem_singleton.mp he']
          exact not_givesHash hurl
      · rw [heq]
        exact .inl ⟨hshape, log, e, rfl, hfine, hfatal⟩
    | blockHash body transitions =>
      have hfatal : ¬FatalShape c txId e := not_fatal_of_blockHashUrl hurl
      obtain ⟨⟨e₁, he₁, hgives⟩, hnohash⟩ := hreached
      rcases blockHash_answered body transitions e hurl with ⟨hnone, heq⟩ | ⟨hash, hhash, heq⟩
      · rw [heq]
        refine hpolled hfatal ⟨⟨e₁, by simp [he₁], hgives⟩, fun e' he' => ?_⟩
        rcases List.mem_append.mp he' with he' | he'
        · exact hnohash e' he'
        · rw [List.mem_singleton.mp he']
          exact hnone
      · rw [heq]
        have hsub : List.Sublist [e₁, e] (log ++ [e]) :=
          (List.singleton_sublist.mpr he₁).append (.refl [e])
        exact hpolled hfatal ⟨e₁, e, hsub, hgives, hhash⟩
    | blockHeight body transitions hash =>
      obtain ⟨e₁, e₂, hsub, hgives, hhash⟩ := hreached
      rcases blockHeight_answered body transitions hash e hurl with
        ⟨hnone, heq⟩ | ⟨height, hheight, heq⟩ | ⟨hfatal, err, hshape, heq⟩
      · rw [heq]
        exact hpolled (not_fatal_of_blockUrl hurl (.inl hnone))
          ⟨e₁, e₂, hsub.trans (List.sublist_append_left ..), hgives, hhash⟩
      · rw [heq]
        have hfatal : ¬FatalShape c txId e := not_fatal_of_blockUrl hurl (.inr ⟨height, hheight⟩)
        exact ⟨by simpa [or_imp, forall_and] using ⟨hfine, hfatal⟩,
          e₁, e₂, e, body, transitions, hash, hsub.append (.refl [e]), hgives, hhash, hheight, rfl⟩
      · rw [heq]
        exact .inl ⟨hshape, log, e, rfl, hfine, hfatal⟩

/-- **The run lemma**. -/
theorem runInv (turns : List Turn) : RunInv c txId timeout deadline turns
    (Trace.exec (turn c txId timeout deadline) (.polling .confirmed, []) turns) := by
  induction turns using List.reverseRecOn with
  | nil => exact ⟨rfl, by simp, by simp, by simp [Phase.Reached]⟩
  | append_singleton turns t ih =>
    unfold Trace.exec at ih ⊢
    rw [List.foldl_concat]
    exact ih.turn t

end RunLemmas

/-! ## Soundness -/

def Polled.log {α : Type} : Polled α → List Exchange
  | .confirmed _ log _ | .threw _ log | .polling log => log

/-- The body's transaction type says that the transaction was executed or deployed. -/
def SaysAccepted (body : JsValue) : Prop :=
  txType body = .string (js "execute") ∨ txType body = .string (js "deploy")

/-- What a confirmation promises: for this transaction, the node has given an object, a hash that is
not empty and a height, in this order, and the transaction is accepted only if the object says so. -/
def Justified (c : Settings) (txId : JsString) (log : List Exchange) (tx : ConfirmedTransaction) :
    Prop :=
  ∃ e₁ e₂ e₃ body transitions hash, List.Sublist [e₁, e₂, e₃] log ∧
    GivesTransaction c txId e₁ body transitions ∧ (∃ props raw, body = .object props raw) ∧
    GivesHash c txId e₂ hash ∧ hash ≠ [] ∧ GivesHeight c hash e₃ tx.blockHeight ∧
    tx.txId = txId ∧ (tx.status = .accepted → SaysAccepted body)

/-- **The property** of one run. -/
structure Sound (c : Settings) (txId : JsString) (timeout : Option Int) (start : Int)
    (turns : List Turn) : Prop where
  confirmed : ∀ tx log rest, waitForConfirmation c txId timeout start turns = .confirmed tx log rest →
    Justified c txId log tx
  /-- A response of fatal shape is the last one. -/
  atOnce : ∀ earlier e later,
    (waitForConfirmation c txId timeout start turns).log = earlier ++ e :: later →
    FatalShape c txId e → later = [] ∧ ∃ err log, err.IsShape txId ∧
      waitForConfirmation c txId timeout start turns = .threw err log
  threw : ∀ err log, waitForConfirmation c txId timeout start turns = .threw err log →
    c.closed = true ∨ ShapeAtEnd c txId log err ∨
      TimedOut c txId (timeout.getD DEFAULT_CONFIRMATION_TIMEOUT_MS)
        (start + timeout.getD DEFAULT_CONFIRMATION_TIMEOUT_MS) turns log err
  /-- The call has ended once the clock has reached the deadline. -/
  ends : (∃ t ∈ turns, start + timeout.getD DEFAULT_CONFIRMATION_TIMEOUT_MS ≤ t.now) →
    ∀ log, waitForConfirmation c txId timeout start turns ≠ .polling log

/-- The responses of a run are among those that the node may give to a request. -/
def AnsweredBy (node : JsString → Response → Prop) (log : List Exchange) : Prop :=
  ∀ e ∈ log, ∀ r, e.response = some r → node e.url r

/-- The node's answers are `body` to the request for the transaction, `hash` to the one for its
block, and a height to the one for that block. -/
def MayConfirm (c : Settings) (txId : JsString) (node : JsString → Response → Prop)
    (body : JsValue) (hash : JsString) : Prop :=
  ∃ e₁ e₂ e₃ transitions height, AnsweredBy node [e₁, e₂, e₃] ∧
    GivesTransaction c txId e₁ body transitions ∧ GivesHash c txId e₂ hash ∧
    GivesHeight c hash e₃ height

/-- **The condition** on what the node answers: the body is an object, with one of the three types
of a transaction, and the hash is not empty. -/
def AnswersAreRight (c : Settings) (txId : JsString) (node : JsString → Response → Prop) : Prop :=
  ∀ body hash, MayConfirm c txId node body hash →
    (∃ props raw, body = .object props raw) ∧ hash ≠ [] ∧
      (SaysAccepted body ∨ txType body = .string (js "fee"))

theorem saysAccepted_of_statusOf {body : JsValue}
    (h : SaysAccepted body ∨ txType body = .string (js "fee")) (hstatus : statusOf body = .accepted) :
    SaysAccepted body := by
  refine h.resolve_right fun hfee => ?_
  unfold statusOf at hstatus
  rw [hfee] at hstatus
  exact nomatch hstatus

theorem saysAccepted_or_fee {body : JsValue} (h : statusOf body = .accepted → SaysAccepted body) :
    SaysAccepted body ∨ txType body = .string (js "fee") := by
  unfold statusOf at h
  split at h
  · next s hs =>
    by_cases hfee : s = js "fee"
    · exact .inr (by rw [hs, hfee])
    · exact .inl (h (if_neg hfee))
  · exact .inl (h rfl)

section Calls

variable {c : Settings} (hopen : c.closed = false) (txId : JsString) (timeout : Option Int)
  (start : Int) (turns : List Turn)

include hopen

/-- What a call has come to satisfies the invariant. -/
theorem waitForConfirmation_inv : ∃ s,
    (waitForConfirmation c txId timeout start turns).Is s ∧
      RunInv c txId (timeout.getD DEFAULT_CONFIRMATION_TIMEOUT_MS)
        (start + timeout.getD DEFAULT_CONFIRMATION_TIMEOUT_MS) turns s :=
  ⟨_, waitForConfirmation_is hopen txId timeout start turns, runInv turns⟩

theorem confirms_of_confirmed {tx : ConfirmedTransaction} {log : List Exchange} {rest : List Turn}
    (h : waitForConfirmation c txId timeout start turns = .confirmed tx log rest) :
    Confirms c txId log tx := by
  obtain ⟨s, his, hinv⟩ := waitForConfirmation_inv hopen txId timeout start turns
  rw [h] at his
  cases his
  exact hinv.2

/-- Only the last exchange of a call can be of fatal shape, and then the call has thrown. -/
theorem fatal_at_once {earlier later : List Exchange} {e : Exchange}
    (hlog : (waitForConfirmation c txId timeout start turns).log = earlier ++ e :: later)
    (hfatal : FatalShape c txId e) : later = [] ∧ ∃ err log, err.IsShape txId ∧
      waitForConfirmation c txId timeout start turns = .threw err log := by
  obtain ⟨s, his, hinv⟩ := waitForConfirmation_inv hopen txId timeout start turns
  cases hrun : waitForConfirmation c txId timeout start turns with
  | confirmed tx log rest =>
    rw [hrun] at his hlog
    cases his
    exact absurd hfatal (hinv.1 e (by rw [show log = _ from hlog]; simp))
  | polling log =>
    rw [hrun] at his hlog
    obtain ⟨phase, rfl⟩ := his
    exact absurd hfatal (hinv.2.2.1 e (by rw [show log = _ from hlog]; simp))
  | threw err log =>
    rw [hrun] at his hlog
    cases his
    rcases hinv with ⟨hshape, pre, last, hpre, hnone, -⟩ | ⟨hnone, -⟩
    · refine ⟨?_, err, log, hshape, rfl⟩
      rcases List.eq_nil_or_concat later with rfl | ⟨init, x, rfl⟩
      · rfl
      · -- An exchange with a later one is among the earlier ones.
        have heq : (earlier ++ e :: init) ++ [x] = pre ++ [last] := by
          rw [← hpre, show log = _ from hlog]
          simp
        have hmem : e ∈ pre := by
          rw [← (List.append_inj' heq rfl).1]
          simp
        exact absurd hfatal (hnone e hmem)
    · exact absurd hfatal (hnone e (by rw [show log = _ from hlog]; simp))

theorem threw_cases {err : ConfirmationError} {log : List Exchange}
    (h : waitForConfirmation c txId timeout start turns = .threw err log) :
    ShapeAtEnd c txId log err ∨ TimedOut c txId (timeout.getD DEFAULT_CONFIRMATION_TIMEOUT_MS)
      (start + timeout.getD DEFAULT_CONFIRMATION_TIMEOUT_MS) turns log err := by
  obtain ⟨s, his, hinv⟩ := waitForConfirmation_inv hopen txId timeout start turns
  rw [h] at his
  cases his
  exact hinv.imp id And.right

theorem not_polling_of_late {t : Turn} (ht : t ∈ turns)
    (hlate : start + timeout.getD DEFAULT_CONFIRMATION_TIMEOUT_MS ≤ t.now) (log : List Exchange) :
    waitForConfirmation c txId timeout start turns ≠ .polling log := by
  intro h
  obtain ⟨s, his, hinv⟩ := waitForConfirmation_inv hopen txId timeout start turns
  rw [h] at his
  obtain ⟨phase, rfl⟩ := his
  exact absurd (hinv.2.1 t ht) (not_lt.mpr hlate)

/-- Three answers in a row confirm a transaction. -/
theorem waitForConfirmation_three {e₁ e₂ e₃ : Exchange} {body : JsValue}
    {transitions : List ConfirmedTransitionRecord} {hash : JsString} {height : JsNumber}
    (h₁ : GivesTransaction c txId e₁ body transitions) (h₂ : GivesHash c txId e₂ hash)
    (h₃ : GivesHeight c hash e₃ height) : ∃ turns log rest,
      waitForConfirmation c txId timeout start turns =
        .confirmed { txId, blockHeight := height, status := statusOf body, transitions } log rest ∧
      log.map (fun e => (e.url, e.response)) = [e₁, e₂, e₃].map fun e => (e.url, e.response) := by
  let now := start + timeout.getD DEFAULT_CONFIRMATION_TIMEOUT_MS - 1
  refine ⟨[⟨now, e₁.response⟩, ⟨now, e₂.response⟩, ⟨now, e₃.response⟩], ?_⟩
  obtain ⟨r₁, ⟨hurl₁, hr₁, hok₁⟩, hjson₁, hobject, hts⟩ := h₁
  obtain ⟨r₂, ⟨hurl₂, hr₂, hok₂⟩, hhash⟩ := h₂
  obtain ⟨r₃, block, ⟨hurl₃, hr₃, hok₃⟩, hjson₃, hheight⟩ := h₃
  have hnow : now < start + timeout.getD DEFAULT_CONFIRMATION_TIMEOUT_MS := sub_one_lt _
  simp only [waitForConfirmation, hopen, Bool.false_eq_true, if_false, pollPhase, hnow, if_true,
    classifyConfirmedBody, hr₁, hok₁, not_true_eq_false, hjson₁, hobject, Polled.andThen, hts,
    classifyBlockHash, hr₂, hok₂, hhash, classifyBlockHeight, hr₃, hok₃, hjson₃,
    heightOf_isObject hheight, hheight]
  exact ⟨_, [], rfl, by simp [hurl₁, hurl₂, hurl₃, hr₁, hr₂, hr₃]⟩

end Calls

theorem GivesTransaction.unique {c : Settings} {txId : JsString} {e e' : Exchange}
    (hresponse : e.response = e'.response) {body body' : JsValue}
    {ts ts' : List ConfirmedTransitionRecord} (h : GivesTransaction c txId e body ts)
    (h' : GivesTransaction c txId e' body' ts') : body = body' := by
  obtain ⟨r, ⟨-, hr, -⟩, hjson, -⟩ := h
  obtain ⟨r', ⟨-, hr', -⟩, hjson', -⟩ := h'
  cases hr.symm.trans (hresponse.trans hr')
  exact Option.some.inj (hjson.symm.trans hjson')

theorem GivesHash.unique {c : Settings} {txId : JsString} {e e' : Exchange}
    (hresponse : e.response = e'.response) {hash hash' : JsString} (h : GivesHash c txId e hash)
    (h' : GivesHash c txId e' hash') : hash = hash' := by
  obtain ⟨r, ⟨-, hr, -⟩, hhash⟩ := h
  obtain ⟨r', ⟨-, hr', -⟩, hhash'⟩ := h'
  cases hr.symm.trans (hresponse.trans hr')
  exact Option.some.inj (hhash.symm.trans hhash')

theorem sound_of_answers {c : Settings} {txId : JsString} {timeout : Option Int}
    {node : JsString → Response → Prop} (h : AnswersAreRight c txId node) {start : Int}
    {turns : List Turn}
    (hnode : AnsweredBy node (waitForConfirmation c txId timeout start turns).log)
    (hopen : c.closed = false) : Sound c txId timeout start turns where
  confirmed tx log rest hrun := by
    rw [hrun] at hnode
    obtain ⟨e₁, e₂, e₃, body, transitions, hash, hsub, h₁, h₂, h₃, htx⟩ :=
      confirms_of_confirmed hopen txId timeout start turns hrun
    have hmay : MayConfirm c txId node body hash :=
      ⟨e₁, e₂, e₃, transitions, _, fun e he => hnode e (hsub.subset he), h₁, h₂, h₃⟩
    obtain ⟨hobject, hhash, htype⟩ := h body hash hmay
    refine ⟨e₁, e₂, e₃, body, transitions, hash, hsub, h₁, hobject, h₂, hhash, h₃, ?_, ?_⟩
    · rw [htx]
    · rw [htx]
      exact saysAccepted_of_statusOf htype
  atOnce _ _ _ hlog hfatal := fatal_at_once hopen txId timeout start turns hlog hfatal
  threw _ _ hrun := .inr (threw_cases hopen txId timeout start turns hrun)
  ends := fun ⟨_, ht, hlate⟩ => not_polling_of_late hopen txId timeout start turns ht hlate

theorem sound_of_closed {c : Settings} (hclosed : c.closed = true) (txId : JsString)
    (timeout : Option Int) (start : Int) (turns : List Turn) : Sound c txId timeout start turns := by
  have hrun : waitForConfirmation c txId timeout start turns =
      .threw (.closed (js "Connection is closed.")) [] := by
    simp [waitForConfirmation, hclosed]
  refine ⟨fun tx log rest h => ?_, fun earlier e later h => ?_, fun err log _ => .inl hclosed,
    fun _ log h => ?_⟩
  · exact nomatch hrun.symm.trans h
  · rw [hrun] at h
    exact absurd h.symm (by simp [Polled.log])
  · exact nomatch hrun.symm.trans h

/-- If every run is sound, then so are the three answers that a confirmation can rest on. -/
theorem answers_of_sound {c : Settings} (hopen : c.closed = false) {txId : JsString}
    {timeout : Option Int} {node : JsString → Response → Prop}
    (h : ∀ start turns, AnsweredBy node (waitForConfirmation c txId timeout start turns).log →
      Sound c txId timeout start turns) : AnswersAreRight c txId node := by
  rintro body hash ⟨e₁, e₂, e₃, transitions, height, hnode, h₁, h₂, h₃⟩
  obtain ⟨turns, log, rest, hrun, hlog⟩ := waitForConfirmation_three hopen txId timeout 0 h₁ h₂ h₃
  have hanswered : AnsweredBy node (waitForConfirmation c txId timeout 0 turns).log := by
    rw [hrun]
    intro e he r hr
    have hmem : (e.url, e.response) ∈ [e₁, e₂, e₃].map fun e => (e.url, e.response) := by
      rw [← hlog]
      exact List.mem_map_of_mem he
    obtain ⟨e', he', heq⟩ := List.mem_map.mp hmem
    obtain ⟨hurl, hresponse⟩ := Prod.mk.inj heq
    rw [← hurl]
    exact hnode e' he' r (hresponse.trans hr)
  obtain ⟨d₁, d₂, d₃, body', transitions', hash', hsub, hd₁, hobject, hd₂, hhash, -, -, hstatus⟩ :=
    (h 0 turns hanswered).confirmed _ log rest hrun
  -- There are only three exchanges.
  have heq : [d₁, d₂, d₃] = log :=
    hsub.eq_of_length (by simpa using (congrArg List.length hlog).symm)
  subst heq
  simp only [List.map_cons, List.cons.injEq, Prod.mk.injEq] at hlog
  obtain rfl := hd₁.unique hlog.1.2 h₁
  obtain rfl := hd₂.unique hlog.2.1.2 h₂
  exact ⟨hobject, hhash, saysAccepted_or_fee hstatus⟩

/-- **When a confirmation means what it says**: over every clock and every sequence of answers that a
node may give, exactly if what it may answer for a transaction is an object of type execute, deploy
or fee, and the hash that it may answer is not empty. -/
theorem confirmation_sound_iff (c : Settings) (txId : JsString) (timeout : Option Int)
    (node : JsString → Response → Prop) :
    (∀ start turns, AnsweredBy node (waitForConfirmation c txId timeout start turns).log →
      Sound c txId timeout start turns) ↔ c.closed = true ∨ AnswersAreRight c txId node := by
  cases hc : c.closed with
  | true =>
    exact iff_of_true (fun start turns _ => sound_of_closed hc txId timeout start turns) (.inl rfl)
  | false =>
    refine ⟨fun h => .inr (answers_of_sound hc h), fun h start turns hnode => ?_⟩
    exact sound_of_answers (h.resolve_left nofun) hnode hc

def localnet : Settings := ⟨js "http://127.0.0.1:3030", js "testnet", [], false⟩

/-- `{"status":"rejected","transaction":{"id":"at1"}}`. -/
def untyped : JsValue :=
  .object [(js "status", .string (js "rejected")),
    (js "transaction", .object [(js "id", .string (js "at1"))] none)] none

/-- **A transaction without a type is accepted**, although its status says that it was rejected. -/
theorem untyped_is_accepted :
    ¬∀ c txId timeout start turns, Sound c txId timeout start turns := by
  intro h
  have hright : AnswersAreRight localnet (js "at1") fun _ _ => True :=
    answers_of_sound rfl fun start turns _ => h _ _ none start turns
  have h₁ : GivesTransaction localnet (js "at1") ⟨localnet.confirmedUrl (js "at1"), [],
      some ⟨200, some (js "\x7b\"status\":\"rejected\",\"transaction\":\x7b\"id\":\"at1\"\x7d\x7d")⟩⟩
      untyped [] :=
    ⟨_, ⟨rfl, rfl, rfl⟩, rfl, rfl, rfl⟩
  have h₂ : GivesHash localnet (js "at1")
      ⟨localnet.blockHashUrl (js "at1"), [], some ⟨200, some (js "\"ab1\"")⟩⟩ (js "ab1") :=
    ⟨_, ⟨rfl, rfl, rfl⟩, rfl⟩
  have h₃ : GivesHeight localnet (js "ab1") ⟨localnet.blockUrl (js "ab1"), [],
      some ⟨200, some (js "\x7b\"header\":\x7b\"metadata\":\x7b\"height\":7\x7d\x7d\x7d")⟩⟩
      (Number (js "7")) :=
    ⟨_, _, ⟨rfl, rfl, rfl⟩, rfl, rfl⟩
  obtain ⟨-, -, htype⟩ := hright untyped (js "ab1")
    ⟨_, _, _, [], _, fun _ _ _ _ => trivial, h₁, h₂, h₃⟩
  have hnone : txType untyped = .undefined := rfl
  rw [SaysAccepted, hnone] at htype
  rcases htype with (h | h) | h <;> cases h

end Lionden.Network
