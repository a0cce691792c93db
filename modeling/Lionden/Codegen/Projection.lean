import Lionden.Codegen.Projector

/-!
# What the projector makes of the raw outputs

* `ElementExpr.eval`: what the expression of an element gives for the arguments of the projector.
* `ElementExpr.type`: its type.
* `expected`: what the element of an output is to be, said of the output alone.
* `projector_agrees`: the type and the projector have the same elements, and each is as expected.
-/

namespace Lionden.Codegen.Bindings

variable {ctx : GenerationContext}

/-! ## Meaning -/

/-- An entry of the raw outputs. -/
inductive RawOutput where
  | text (s : JsString)
  | idOnly (id : JsString)
  | other

/-- What the projector is called with; `τ` is the type of a list of transitions. -/
structure Arguments (τ : Type) where
  rawOutputs : List RawOutput
  tpk : JsString
  transitions : τ

inductive EvalError where
  | referenceError (name : JsString)
  | transactionShape (abiIndex : Nat)

/-- An element of the typed outputs, with what it was made of. -/
inductive Projected (τ : Type) where
  | dynamicRecordHandle (id : JsString) (transitions : τ) (sourceProgram runtimeProgram : JsString)
  | encryptedRecord (program recordName ciphertext deserialized sourceProgram : JsString)
  | externalRecordHandle (typeArg id : JsString) (transitions : τ)
      (sourceProgram runtimeProgram : JsString)
  | encryptedValue (ciphertext tpk program transition : JsString) (globalIndex : Nat)
      (deserialize : Decoder)
  | decoded (decoder : Decoder) (raw : JsString)
  | raw (s : JsString)

variable {τ : Type}

/-- A ciphertext or literal of the raw outputs. -/
def RawOutput.textAt (raws : List RawOutput) (abiIndex : Nat) : Except EvalError JsString :=
  match raws[abiIndex]? with
  | some (.text s) => .ok s
  | _ => .error (.transactionShape abiIndex)

/-- An id of the raw outputs. -/
def RawOutput.idAt (raws : List RawOutput) (abiIndex : Nat) : Except EvalError JsString :=
  match raws[abiIndex]? with
  | some (.idOnly id) => .ok id
  | _ => .error (.transactionShape abiIndex)

/-- An identifier that is to be the parameter of a name. -/
def lookup {α : Type} (parameter : JsString) (value : α) (identifier : JsString) :
    Except EvalError α :=
  if identifier = parameter then .ok value else .error (.referenceError identifier)

def Access.eval (a : Access) (p : Projector) (args : Arguments τ) : Except EvalError JsString := do
  let raws ← lookup p.rawOutputs args.rawOutputs a.rawOutputs
  match a.accessor with
  | .rawOutputAt => RawOutput.textAt raws a.abiIndex
  | .idOnlyRecordOutputAt => RawOutput.idAt raws a.abiIndex

/-- What the expression gives in the body of a projector. -/
def ElementExpr.eval (e : ElementExpr) (p : Projector) (args : Arguments τ) :
    Except EvalError (Projected τ) :=
  match e with
  | .makeIdOnlyDynamicRecordHandle entry transitions sourceProgram runtimeProgram => do
    let id ← entry.eval p args
    let transitions ← lookup p.transitions args.transitions transitions
    return .dynamicRecordHandle id transitions sourceProgram runtimeProgram
  | .makeEncryptedRecord program recordName ciphertext deserialized sourceProgram => do
    let ciphertext ← ciphertext.eval p args
    return .encryptedRecord program recordName ciphertext deserialized sourceProgram
  | .makeIdOnlyExternalRecordHandle typeArg entry transitions sourceProgram runtimeProgram => do
    let id ← entry.eval p args
    let transitions ← lookup p.transitions args.transitions transitions
    return .externalRecordHandle typeArg id transitions sourceProgram runtimeProgram
  | .makeEncryptedValue ciphertext tpk program transition globalIndex deserialize => do
    let ciphertext ← ciphertext.eval p args
    let tpk ← lookup p.tpk args.tpk tpk
    return .encryptedValue ciphertext tpk program transition globalIndex deserialize.decoder
  | .decode decoder access => do
    let raw ← access.eval p args
    return .decoded decoder raw
  | .raw access => do
    let raw ← access.eval p args
    return .raw raw

/-- The parameters that the expression uses. -/
def ElementExpr.identifiers : ElementExpr → List JsString
  | makeIdOnlyDynamicRecordHandle entry transitions .. => [entry.rawOutputs, transitions]
  | makeEncryptedRecord _ _ ciphertext _ _ => [ciphertext.rawOutputs]
  | makeIdOnlyExternalRecordHandle _ entry transitions .. => [entry.rawOutputs, transitions]
  | makeEncryptedValue ciphertext tpk .. => [ciphertext.rawOutputs, tpk]
  | decode _ access | raw access => [access.rawOutputs]

def Projector.parameters (p : Projector) : List JsString := [p.rawOutputs, p.tpk, p.transitions]

/-- The output at `n` as an element: decoded from the raw output at `n`, a private plaintext at the
index after the inputs. -/
def expected (ctx : GenerationContext) (t : TransitionABI) (source runtime : JsString)
    (args : Arguments τ) (n : Nat) (output : AbiOutput) : Except EvalError (Projected τ) :=
  match output.ty with
  | .dynamicRecord => do
    let id ← RawOutput.idAt args.rawOutputs n
    return .dynamicRecordHandle id args.transitions source runtime
  | .record ref =>
    if isLocalRecordRef ctx ref then do
      let ciphertext ← RawOutput.textAt args.rawOutputs n
      return .encryptedRecord runtime (pathToTsName ref.path) ciphertext (pathToTsName ref.path)
        source
    else do
      let id ← RawOutput.idAt args.rawOutputs n
      return .externalRecordHandle
        (((externalInfo ctx ref).map ExternalRefInfo.typeName).getD (js "LeoDynamicRecord")) id
        args.transitions source runtime
  | .plaintext ty => do
    let raw ← RawOutput.textAt args.rawOutputs n
    if output.mode = .Public then return .decoded (deserializePlaintextExpr ctx ty) raw
    else
      let globalIndex := t.inputs.length + n
      return .encryptedValue raw args.tpk runtime t.name globalIndex
        (deserializePlaintextExpr ctx ty)
  | .future => do
    let raw ← RawOutput.textAt args.rawOutputs n
    return .raw raw

/-! ## Types -/

/-- What a method of `BaseContract` returns. -/
def Parser.type : Parser → TsType
  | parseAddress => .name (js "LeoAddress")
  | parseField => .name (js "LeoField")
  | parseGroup => .name (js "LeoGroup")
  | parseScalar => .name (js "LeoScalar")
  | parseIdentifier => .name (js "LeoIdentifier")
  | parseBoolean => .name (js "boolean")
  | parseNumber => .name (js "number")
  | parseBigInt => .name (js "bigint")
  | parsePlaintext => .name (js "LeoPlaintext")

def Decoder.type : Decoder → TsType
  | parse parser => parser.type
  | named typeName => .name typeName
  | array elem => .generic (js "ReadonlyArray") elem.type
  | optional inner => .nullable inner.type
  | identity => .name (js "string")

def ElementExpr.type : ElementExpr → TsType
  | makeIdOnlyDynamicRecordHandle .. => .name (js "IdOnlyDynamicRecordHandle")
  | makeEncryptedRecord _ _ _ deserialized _ =>
    .generic (js "EncryptedRecord") (.name deserialized)
  | makeIdOnlyExternalRecordHandle typeArg .. =>
    .generic (js "IdOnlyExternalRecordHandle") (.name typeArg)
  | makeEncryptedValue _ _ _ _ _ deserialize =>
    .generic (js "EncryptedValue") deserialize.decoder.type
  | decode decoder _ => decoder.type
  | raw _ => .name (js "string")

/-- A type and an expression of the same kind, with the same record or plaintext type. -/
inductive SameKind (ctx : GenerationContext) : TsType → ElementExpr → Prop
  | dynamicRecord {entry : Access} {transitions source runtime : JsString} :
    SameKind ctx (.name (js "IdOnlyDynamicRecordHandle"))
      (.makeIdOnlyDynamicRecordHandle entry transitions source runtime)
  | record {typeName program source : JsString} {ciphertext : Access} :
    SameKind ctx (.generic (js "EncryptedRecord") (.name typeName))
      (.makeEncryptedRecord program typeName ciphertext typeName source)
  | externalRecord {typeName transitions source runtime : JsString} {entry : Access} :
    SameKind ctx (.generic (js "IdOnlyExternalRecordHandle") (.name typeName))
      (.makeIdOnlyExternalRecordHandle typeName entry transitions source runtime)
  | encryptedValue {ty : PlaintextType} {ciphertext : Access} {tpk program transition : JsString}
      {globalIndex : Nat} :
    SameKind ctx (.generic (js "EncryptedValue") (plaintextToOutputBindingTs ctx ty))
      (.makeEncryptedValue ciphertext tpk program transition globalIndex
        (plaintextDeserializerFn ctx ty))
  | plaintext {ty : PlaintextType} {access : Access} :
    SameKind ctx (plaintextToOutputBindingTs ctx ty)
      (.decode (deserializePlaintextExpr ctx ty) access)

/-- As many elements, wrapped alike. -/
def SameArity : OutputType → Body → Prop
  | .void, .undefined => True
  | .single _, .single _ => True
  | .tuple types, .tuple exprs _ => types.length = exprs.length ∧ 2 ≤ types.length
  | _, _ => False

/-- The output at `n` is the `k`-th that is no future. -/
def IsVisible (outputs : List AbiOutput) (k n : Nat) (output : AbiOutput) : Prop :=
  outputs[n]? = some output ∧ isFutureOutput output.ty = false ∧
    (outputs.take n).countP (fun o => !isFutureOutput o.ty) = k

/-! ## One element -/

theorem decoder_deserializerFn (ty : PlaintextType) :
    (plaintextDeserializerFn ctx ty).decoder = deserializePlaintextExpr ctx ty := by
  cases ty with
  | primitive prim => cases prim <;> rfl
  | struct | array | optional => rfl

/-- Where the generator supports a type, what decodes it has the type that is written for it. -/
theorem decoder_type {program abiPath : JsString} {ty : PlaintextType}
    (h : visitPlaintext program ty abiPath = .ok ()) :
    (deserializePlaintextExpr ctx ty).type = plaintextToOutputBindingTs ctx ty := by
  induction ty generalizing abiPath with
  | primitive prim =>
    cases prim with
    | signature => cases h
    | uint size => cases size <;> rfl
    | int size => cases size <;> rfl
    | _ => rfl
  | struct ref =>
    rw [deserializePlaintextExpr, plaintextToOutputBindingTs]
    split
    · rfl
    · cases externalInfo ctx ref <;> rfl
  | array elem length ih => exact congrArg _ (ih h)
  | optional inner ih => exact congrArg _ (ih h)

variable {t : TransitionABI} {source runtime : JsString} {n : Nat} {output : AbiOutput}

/-- The expression for the output at `n`. -/
def elementAt (ctx : GenerationContext) (t : TransitionABI) (source runtime : JsString) (n : Nat)
    (output : AbiOutput) : ElementExpr :=
  projectorElementExpr ctx
    { accessor := .rawOutputAt, program := runtime, transition := t.name, abiIndex := n } output
    source runtime t.name n t.inputs.length

theorem sameKind_elementAt (h : isFutureOutput output.ty = false) :
    SameKind ctx (typedOutputElementType ctx output) (elementAt ctx t source runtime n output) := by
  unfold typedOutputElementType elementAt projectorElementExpr
  cases hty : output.ty with
  | plaintext ty =>
    simp only
    split
    · exact .encryptedValue
    · exact .plaintext
  | record ref =>
    simp only
    split
    · exact .record
    · cases externalInfo ctx ref <;> exact .externalRecord
  | future =>
    rw [hty] at h
    cases h
  | dynamicRecord => exact .dynamicRecord

theorem type_elementAt {program abiPath : JsString} (h : isFutureOutput output.ty = false)
    (hvisit : visitAleo program output.ty abiPath = .ok ()) :
    (elementAt ctx t source runtime n output).type = typedOutputElementType ctx output := by
  unfold typedOutputElementType elementAt projectorElementExpr
  cases hty : output.ty with
  | plaintext ty =>
    rw [hty] at hvisit
    simp only
    split
    · exact congrArg _ ((congrArg Decoder.type (decoder_deserializerFn ty)).trans
        (decoder_type hvisit))
    · exact decoder_type hvisit
  | record ref =>
    simp only
    split
    · rfl
    · cases externalInfo ctx ref <;> rfl
  | future =>
    rw [hty] at h
    cases h
  | dynamicRecord => rfl

/-- A projector whose parameters are named as the element needs them. -/
structure Names (ctx : GenerationContext) (p : Projector) (output : AbiOutput) : Prop where
  rawOutputs : p.rawOutputs = js "rawOutputs"
  tpk : isPrivatePlaintextOutput output = true → p.tpk = js "tpk"
  transitions : projectorElementUsesTransitions ctx output = true →
    p.transitions = js "transitions"

variable {p : Projector}

theorem identifiers_elementAt (h : Names ctx p output) :
    ∀ x ∈ (elementAt ctx t source runtime n output).identifiers, x ∈ p.parameters := by
  have hraw : js "rawOutputs" ∈ p.parameters := h.rawOutputs ▸ List.mem_cons_self
  have htransitions (huses : projectorElementUsesTransitions ctx output = true) :
      js "transitions" ∈ p.parameters := by
    rw [← h.transitions huses]
    simp [Projector.parameters]
  have htpk (hprivate : isPrivatePlaintextOutput output = true) : js "tpk" ∈ p.parameters := by
    rw [← h.tpk hprivate]
    simp [Projector.parameters]
  unfold projectorElementUsesTransitions at htransitions
  unfold elementAt projectorElementExpr
  cases hty : output.ty with
  | plaintext ty =>
    simp only
    split
    · next hprivate => simp [ElementExpr.identifiers, hraw, htpk hprivate]
    · simp [ElementExpr.identifiers, hraw]
  | record ref =>
    rw [hty] at htransitions
    simp only
    split
    · simp [ElementExpr.identifiers, hraw]
    · next hforeign =>
      simp [ElementExpr.identifiers, hraw, htransitions (by simpa using hforeign)]
  | future => simp [ElementExpr.identifiers, hraw]
  | dynamicRecord =>
    rw [hty] at htransitions
    simp [ElementExpr.identifiers, hraw, htransitions rfl]

theorem lookup_eq {α : Type} {parameter identifier : JsString} {value : α}
    (h : parameter = identifier) : lookup parameter value identifier = .ok value :=
  if_pos h.symm

theorem eval_elementAt (h : Names ctx p output) (args : Arguments τ) :
    (elementAt ctx t source runtime n output).eval p args =
      expected ctx t source runtime args n output := by
  have hraw := @lookup_eq _ _ _ args.rawOutputs h.rawOutputs
  have htransitions (huses : projectorElementUsesTransitions ctx output = true) :=
    @lookup_eq _ _ _ args.transitions (h.transitions huses)
  have htpk (hprivate : isPrivatePlaintextOutput output = true) :=
    @lookup_eq _ _ _ args.tpk (h.tpk hprivate)
  unfold projectorElementUsesTransitions at htransitions
  unfold isPrivatePlaintextOutput at htpk
  unfold elementAt projectorElementExpr expected isPrivatePlaintextOutput
  cases hty : output.ty with
  | plaintext ty =>
    rw [hty] at htpk
    by_cases hpublic : output.mode = .Public
    · simp only [hpublic, ne_eq, not_true_eq_false, decide_false, Bool.false_eq_true, if_false,
        if_true, ElementExpr.eval, Access.eval, hraw]
      rfl
    · simp only [hpublic, ne_eq, not_false_eq_true, decide_true, if_true, if_false,
        ElementExpr.eval, Access.eval, hraw, htpk (by simpa using hpublic), decoder_deserializerFn]
      rfl
  | record ref =>
    rw [hty] at htransitions
    by_cases hlocal : isLocalRecordRef ctx ref = true
    · simp only [hlocal, if_true, ElementExpr.eval, Access.eval, hraw]
      rfl
    · simp only [hlocal, Bool.false_eq_true, if_false, ElementExpr.eval, Access.eval, hraw,
        htransitions (by simpa using hlocal)]
      rfl
  | future =>
    simp only [ElementExpr.eval, Access.eval, hraw]
    rfl
  | dynamicRecord =>
    rw [hty] at htransitions
    simp only [ElementExpr.eval, Access.eval, hraw, htransitions rfl]
    rfl

/-! ## All elements -/

/-- The outputs that are no futures, with their indices. -/
def visible (outputs : List AbiOutput) : List (AbiOutput × Nat) :=
  outputs.zipIdx.filter fun o => !isFutureOutput o.1.ty

theorem visible_fst (outputs : List AbiOutput) :
    (visible outputs).map Prod.fst = outputs.filter fun o => !isFutureOutput o.ty := by
  have hmap : ((outputs.zipIdx.map Prod.fst).filter fun o => !isFutureOutput o.ty) =
      (visible outputs).map Prod.fst := List.filter_map
  rw [← hmap, List.zipIdx_map_fst]

theorem getElem?_filter_zipIdx {α : Type} {p : α → Bool} {xs : List α} {n k i : Nat} {x : α}
    (hx : xs[n]? = some x) (hp : p x = true) (hk : (xs.take n).countP p = k) :
    ((xs.zipIdx i).filter fun y => p y.1)[k]? = some (x, i + n) := by
  induction xs generalizing n k i with
  | nil => simp at hx
  | cons y xs ih =>
    cases n with
    | zero =>
      obtain rfl : y = x := by simpa using hx
      obtain rfl : 0 = k := by simpa using hk
      simp [List.zipIdx_cons, hp]
    | succ n =>
      rw [List.getElem?_cons_succ] at hx
      rw [List.take_succ_cons, List.countP_cons] at hk
      have hshift : i + (n + 1) = i + 1 + n := by omega
      rw [List.zipIdx_cons, hshift]
      by_cases hy : p y = true
      · rw [if_pos hy] at hk
        subst hk
        simp only [List.filter_cons, hy, if_true, List.getElem?_cons_succ]
        exact ih hx rfl
      · rw [if_neg hy] at hk
        simp only [List.filter_cons, hy, Bool.false_eq_true, if_false]
        exact ih hx hk

theorem IsVisible.getElem? {outputs : List AbiOutput} {k : Nat}
    (h : IsVisible outputs k n output) : (visible outputs)[k]? = some (output, n) := by
  obtain ⟨hn, hty, hk⟩ := h
  have hget := @getElem?_filter_zipIdx _ (fun o : AbiOutput => !isFutureOutput o.ty) outputs n k 0
    output hn (by simpa using hty) hk
  rwa [Nat.zero_add] at hget

theorem typedOutput_elems (ctx : GenerationContext) (outputs : List AbiOutput) :
    (formatTypedOutputType ctx outputs).elems =
      (visible outputs).map fun o => typedOutputElementType ctx o.1 := by
  have hmap : ((visible outputs).map fun o => typedOutputElementType ctx o.1) =
      ((visible outputs).map Prod.fst).map (typedOutputElementType ctx) := by
    rw [List.map_map]
    rfl
  rw [hmap, formatTypedOutputType, ← visible_fst]
  rcases visible outputs with _ | ⟨o, _ | ⟨o', os⟩⟩ <;> rfl

theorem visible_getElem? {outputs : List AbiOutput} {o : AbiOutput × Nat}
    (h : o ∈ visible outputs) : outputs[o.2]? = some o.1 :=
  List.mem_zipIdx_iff_getElem?.mp (List.mem_of_mem_filter h)

/-- The expressions of a projector. -/
theorem decoded_elems (ctx : GenerationContext) (t : TransitionABI) (source runtime : JsString) :
    ((visibleIndices t.outputs).filterMap fun n =>
      t.outputs[n]?.map (elementAt ctx t source runtime n)) =
      (visible t.outputs).map fun o => elementAt ctx t source runtime o.2 o.1 := by
  rw [visibleIndices, List.filterMap_map, ← List.filterMap_eq_map]
  refine List.filterMap_congr fun o ho => ?_
  simp [visible_getElem? ho]

theorem projector_elems (ctx : GenerationContext) (t : TransitionABI)
    (source runtime : JsString) :
    (formatProjectorExpr ctx t source runtime).body.elems =
      (visible t.outputs).map fun o => elementAt ctx t source runtime o.2 o.1 := by
  rw [← decoded_elems]
  unfold formatProjectorExpr elementAt
  simp only
  split <;> simp_all [Body.elems]

theorem sameArity (ctx : GenerationContext) (t : TransitionABI) (source runtime : JsString) :
    SameArity (formatTypedOutputType ctx t.outputs)
      (formatProjectorExpr ctx t source runtime).body := by
  have helems := decoded_elems ctx t source runtime
  unfold elementAt at helems
  unfold formatTypedOutputType formatProjectorExpr
  simp only [← visible_fst, helems]
  rcases visible t.outputs with _ | ⟨o, _ | ⟨o', os⟩⟩
  · trivial
  · trivial
  · exact ⟨by simp, by simp⟩

theorem names_formatProjectorExpr {k : Nat} (h : IsVisible t.outputs k n output) :
    Names ctx (formatProjectorExpr ctx t source runtime) output := by
  have hmem : output ∈ t.outputs := List.mem_of_getElem? h.1
  have helems := decoded_elems ctx t source runtime
  have hvisible : visible t.outputs ≠ [] := by
    intro hnil
    have hget := h.getElem?
    rw [hnil] at hget
    cases hget
  have htpk (p : Projector) (hp : p.tpk = if t.outputs.any isPrivatePlaintextOutput then js "tpk"
      else js "_tpk") : isPrivatePlaintextOutput output = true → p.tpk = js "tpk" := by
    intro hprivate
    rw [hp, if_pos (List.any_eq_true.mpr ⟨output, hmem, hprivate⟩)]
  have htransitions (p : Projector) (hp : p.transitions =
      if t.outputs.any (projectorElementUsesTransitions ctx) then js "transitions"
      else js "_transitions") :
      projectorElementUsesTransitions ctx output = true → p.transitions = js "transitions" := by
    intro huses
    rw [hp, if_pos (List.any_eq_true.mpr ⟨output, hmem, huses⟩)]
  unfold elementAt at helems
  unfold formatProjectorExpr
  simp only [helems]
  split
  · next hnil => exact absurd (List.map_eq_nil_iff.mp hnil) hvisible
  · exact ⟨rfl, htpk _ rfl, htransitions _ rfl⟩
  · exact ⟨rfl, htpk _ rfl, htransitions _ rfl⟩

/-- For every transition: the output type and the projector have the same arity, one element for
every output that is no future. The element of such an output is of the same kind on both sides, of
the same type where the generator supports the output, uses only parameters by the names that they
have, and is the one expected of the output and its index. -/
theorem projector_agrees (ctx : GenerationContext) (t : TransitionABI)
    (source runtime : JsString) :
    let type := formatTypedOutputType ctx t.outputs
    let projector := formatProjectorExpr ctx t source runtime
    SameArity type projector.body ∧
      type.elems.length = t.outputs.countP (fun o => !isFutureOutput o.ty) ∧
      projector.body.elems.length = t.outputs.countP (fun o => !isFutureOutput o.ty) ∧
      ∀ k n output, IsVisible t.outputs k n output →
        ∃ elementType element, type.elems[k]? = some elementType ∧
          projector.body.elems[k]? = some element ∧ SameKind ctx elementType element ∧
          ((∃ path, visitAleo ctx.abi.program output.ty path = .ok ()) →
            element.type = elementType) ∧
          (∀ x ∈ element.identifiers, x ∈ projector.parameters) ∧
          ∀ (τ : Type) (args : Arguments τ),
            element.eval projector args = expected ctx t source runtime args n output := by
  intro type projector
  have hcount : (visible t.outputs).length = t.outputs.countP (fun o => !isFutureOutput o.ty) := by
    rw [← List.length_map Prod.fst, visible_fst, List.countP_eq_length_filter]
  refine ⟨sameArity ctx t source runtime, ?_, ?_, fun k n output hvisible => ?_⟩
  · rw [typedOutput_elems, List.length_map, hcount]
  · rw [projector_elems, List.length_map, hcount]
  · have hnames : Names ctx projector output := names_formatProjectorExpr hvisible
    have hget := hvisible.getElem?
    refine ⟨typedOutputElementType ctx output, elementAt ctx t source runtime n output, ?_, ?_,
      sameKind_elementAt hvisible.2.1, ?_, identifiers_elementAt hnames,
      fun τ args => eval_elementAt hnames args⟩
    · rw [typedOutput_elems, List.getElem?_map, hget]
      rfl
    · rw [projector_elems, List.getElem?_map, hget]
      rfl
    · rintro ⟨path, hvisit⟩
      exact type_elementAt hvisible.2.1 hvisit

end Lionden.Codegen.Bindings
