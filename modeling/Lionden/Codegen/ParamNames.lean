import Lionden.Codegen.Methods
import Lionden.Codegen.StateKeys

/-!
# The names of parameters (`typescript-generator.ts`)

An input is a parameter of the generated methods under its own name, or under `arg` and its index if
that is no identifier or is reserved. Underscores make a name that is taken another one.

* `buildSafeParamNames`: the names.
* `Invented`, `claims_spec`: a name is the input's own, or was invented.
* `safe_iff`: the names are safe unless an input is called as something that a body refers to.
-/

namespace Lionden.Codegen.Bindings

/-! ## Names -/

/-- The reserved words of ECMAScript, with those of strict mode. -/
def ecmaScriptReservedWords : List JsString :=
  ["await", "break", "case", "catch", "class", "const", "continue", "debugger", "default", "delete",
    "do", "else", "enum", "export", "extends", "false", "finally", "for", "function", "if", "import",
    "in", "instanceof", "new", "null", "return", "super", "switch", "this", "throw", "true", "try",
    "typeof", "var", "void", "while", "with", "let", "static", "implements", "interface", "package",
    "private", "protected", "public", "yield", "eval", "arguments"].map js

/-- `RESERVED_PARAM_WORDS`. -/
def reservedParamWords : List JsString :=
  ["options", "_args", "_result", "_decoded", "break", "case", "catch", "class", "const",
    "continue", "debugger", "default", "delete", "do", "else", "enum", "export", "extends", "false",
    "finally", "for", "function", "if", "import", "in", "instanceof", "new", "null", "return",
    "super", "switch", "this", "throw", "true", "try", "typeof", "var", "void", "while", "with",
    "implements", "interface", "let", "package", "private", "protected", "public", "static",
    "yield", "async", "await", "eval", "arguments"].map js

/-- `isValidJsIdentifier(name)`, which has the pattern of `isValidIdentifier`. -/
def isValidJsIdentifier (name : JsString) : Bool := isValidIdentifier name

/-- `arg<index>`. -/
def argName (index : Nat) : JsString := js "arg" ++ decimal index

/-- The name that `safeParamName` tries first. -/
def candidate (index : Nat) (name : JsString) : JsString :=
  if isValidJsIdentifier name = true ∧ name ∉ reservedParamWords then name else argName index

/-- The names that `safeParamName` gives the inputs in turn. -/
def paramClaims (names : List JsString) : List ((JsString × Nat) × JsString) :=
  claims (fun item => underscored (candidate item.2 item.1)) (fun _ => []) [] names.zipIdx

/-- `buildSafeParamNames(inputs)`. -/
def buildSafeParamNames (inputs : List AbiInput) : InsertionMap JsString JsString :=
  .ofList ((paramClaims (inputs.map (·.name))).map fun claim => (claim.1.1, claim.2))

/-- `inputs.map((input) => safeNames.get(input.name)!)`. -/
def paramNames (inputs : List AbiInput) : List JsString :=
  inputs.map fun input => ((buildSafeParamNames inputs).get? input.name).getD []

/-! ## Invented names -/

/-- `arg`, an index and underscores. -/
def Invented (name : JsString) : Prop := ∃ index k, name = underscored (argName index) k

theorem underscored_underscored (name : JsString) (j k : Nat) :
    underscored (underscored name j) k = underscored name (j + k) := by
  unfold underscored
  rw [List.append_assoc, List.replicate_append_replicate]

theorem Invented.head {name : JsString} (h : Invented name) : name.head? = some (unit 'a') := by
  obtain ⟨index, k, rfl⟩ := h
  rfl

theorem Invented.isValid {name : JsString} (h : Invented name) : isValidJsIdentifier name = true := by
  obtain ⟨index, k, rfl⟩ := h
  have hrg : ∀ c ∈ js "rg", (isIdentifierPart c || decide (c = unit '$')) = true := by decide
  have hpart : ∀ c ∈ js "rg" ++ decimal index ++ List.replicate k (unit '_'),
      (isIdentifierPart c || decide (c = unit '$')) = true := by
    intro c hc
    rw [List.append_assoc] at hc
    rcases List.mem_append.mp hc with hc | hc
    · exact hrg c hc
    rcases List.mem_append.mp hc with hc | hc
    · simp [isIdentifierPart, isDigit_of_mem_decimal c hc]
    · rw [List.eq_of_mem_replicate hc]
      decide
  exact List.all_eq_true.mpr hpart

/-- Invented names end with a digit or an underscore, as no reserved word does. -/
theorem Invented.notMem {name : JsString} (h : Invented name) : name ∉ reservedParamWords := by
  have hwords : ∀ word ∈ reservedParamWords,
      word.getLast?.all (fun c => !(isDigit c || decide (c = unit '_'))) = true := by
    decide +kernel
  obtain ⟨index, k, rfl⟩ := h
  obtain ⟨c, hlast, hc⟩ : ∃ c, (underscored (argName index) k).getLast? = some c ∧
      (isDigit c = true ∨ c = unit '_') := by
    unfold underscored argName
    cases k with
    | zero =>
      have hlast := List.getLast?_eq_some_getLast (decimal_ne_nil index)
      refine ⟨_, ?_, .inl (isDigit_of_mem_decimal _ (List.getLast_mem (decimal_ne_nil index)))⟩
      rw [List.replicate_zero, List.append_nil, List.getLast?_append, hlast, Option.some_or]
    | succ k =>
      refine ⟨unit '_', ?_, .inr rfl⟩
      rw [List.replicate_succ', ← List.append_assoc, List.getLast?_concat]
  intro hmem
  have hother := hwords _ hmem
  rw [hlast] at hother
  simp at hother
  exact hc.elim (fun hdigit => absurd hdigit (by simp [hother.1])) hother.2

/-! ## Claims -/

theorem candidate_eq (index : Nat) (name : JsString) :
    (isValidJsIdentifier name = true ∧ name ∉ reservedParamWords ∧ candidate index name = name) ∨
      ¬(isValidJsIdentifier name = true ∧ name ∉ reservedParamWords) ∧
        candidate index name = argName index := by
  unfold candidate
  by_cases h : isValidJsIdentifier name = true ∧ name ∉ reservedParamWords
  · rw [if_pos h]
    exact .inl ⟨h.1, h.2, rfl⟩
  · rw [if_neg h]
    exact .inr ⟨h, rfl⟩

/-- **A parameter has the input's own name, or an invented one.** An input that could have its own
name has it, unless that looks invented, too. -/
theorem claims_spec {reserved : List JsString} {items : List (JsString × Nat)}
    (hnodup : (items.map Prod.fst).Nodup)
    (hreserved : ∀ name ∈ reserved, Invented name ∨ name ∉ items.map Prod.fst)
    {claim : (JsString × Nat) × JsString}
    (h : claim ∈ claims (fun item => underscored (candidate item.2 item.1)) (fun _ => []) reserved
      items) :
    (claim.2 = claim.1.1 ∧ isValidJsIdentifier claim.1.1 = true ∧ claim.1.1 ∉ reservedParamWords) ∨
      Invented claim.2 ∧ (isValidJsIdentifier claim.1.1 = true → claim.1.1 ∉ reservedParamWords →
        Invented claim.1.1) := by
  induction items generalizing reserved with
  | nil => exact nomatch h
  | cons item items ih =>
    obtain ⟨name, index⟩ := item
    obtain ⟨hhead, htail⟩ := List.nodup_cons.mp hnodup
    -- What the first input gets.
    have hfirst : (fresh (underscored (candidate index name)) (reserved ++ []) = name ∧
          isValidJsIdentifier name = true ∧ name ∉ reservedParamWords) ∨
        Invented (fresh (underscored (candidate index name)) (reserved ++ [])) ∧
          (isValidJsIdentifier name = true → name ∉ reservedParamWords → Invented name) := by
      obtain ⟨k, heq, -, hbelow⟩ :=
        fresh_spec (underscored_injective (candidate index name)) (reserved ++ [])
      rw [heq]
      rcases candidate_eq index name with ⟨hvalid, hword, hname⟩ | ⟨hnot, hname⟩
      · rw [hname] at hbelow ⊢
        cases k with
        | zero => exact .inl ⟨List.append_nil name, hvalid, hword⟩
        | succ k =>
          have htaken := hbelow 0 (Nat.succ_pos k)
          rw [List.append_nil] at htaken
          have hself : underscored name 0 = name := List.append_nil name
          rw [hself] at htaken
          obtain ⟨i, j, hinvented⟩ :=
            (hreserved name htaken).resolve_right fun hnot => hnot List.mem_cons_self
          refine .inr ⟨⟨i, j + (k + 1), ?_⟩, fun _ _ => ⟨i, j, hinvented⟩⟩
          rw [hinvented, underscored_underscored]
      · rw [hname]
        exact .inr ⟨⟨index, k, rfl⟩, fun hvalid hword => absurd ⟨hvalid, hword⟩ hnot⟩
    rcases List.mem_cons.mp h with rfl | h
    · exact hfirst
    · refine ih htail (fun taken htaken => ?_) h
      rcases List.mem_cons.mp htaken with rfl | htaken
      · rcases hfirst with ⟨heq, -, -⟩ | ⟨hinvented, -⟩
        · rw [heq]
          exact .inr hhead
        · exact .inl hinvented
      · rcases hreserved taken htaken with hinvented | hnot
        · exact .inl hinvented
        · exact .inr fun hmem => hnot (List.mem_cons_of_mem _ hmem)

/-! ## References -/

/-- What a body can refer to. -/
inductive Reference : JsString → Prop where
  | baseContract : Reference (js "BaseContract")
  | undefined : Reference (js "undefined")
  | serializer (typeName : JsString) : Reference (js "serialize" ++ typeName)
  | deserializer (typeName : JsString) : Reference (js "deserialize" ++ typeName)

theorem Reference.not_invented {name : JsString} (h : Reference name) : ¬Invented name := by
  intro hinvented
  have hhead := hinvented.head
  cases h <;> exact absurd (Option.some.inj hhead) (by decide)

theorem Serializer.reference {serializer : Serializer} :
    ∀ name ∈ serializer.references, Reference name := by
  induction serializer with
  | method method bits => simp [references, Reference.baseContract]
  | named typeName inputName => simp [references, Reference.serializer]
  | array elem ih => simpa [references, Reference.baseContract] using ih
  | optional inner zero ih =>
    cases zero with
    | some zero => exact ih
    | none =>
      intro name hname
      rcases List.mem_append.mp hname with hname | hname
      · exact ih name hname
      · rw [List.mem_singleton.mp hname]
        exact .baseContract

theorem Decoder.reference {decoder : Decoder} : ∀ name ∈ decoder.references, Reference name := by
  induction decoder with
  | parse parser => simp [references, Reference.baseContract]
  | named typeName => simp [references, Reference.deserializer]
  | array elem ih => simpa [references, Reference.baseContract] using ih
  | optional inner ih => simpa [references, Reference.baseContract] using ih
  | identity => exact nofun

theorem OutputDecoder.reference {decoder : OutputDecoder} :
    ∀ name ∈ decoder.references, Reference name := by
  cases decoder with
  | parseDynamicRecord => simp [references, Reference.baseContract]
  | decode decoder => exact decoder.reference
  | undefined => simp [references, Reference.undefined]

theorem ElementExpr.reference {expr : ElementExpr} :
    ∀ name ∈ expr.references, Reference name := by
  cases expr with
  | makeIdOnlyDynamicRecordHandle => simp [references, Reference.baseContract]
  | makeIdOnlyExternalRecordHandle => simp [references, Reference.baseContract]
  | raw => simp [references, Reference.baseContract]
  | makeEncryptedRecord _ _ _ deserialized =>
    simp [references, Reference.baseContract, Reference.deserializer]
  | makeEncryptedValue _ _ _ _ _ deserialize =>
    cases deserialize with
    | method parser => simp [references, Callback.references, Reference.baseContract]
    | arrow body =>
      simpa [references, Callback.references, Reference.baseContract] using body.reference
  | decode decoder =>
    simpa [references, Reference.baseContract] using decoder.reference

theorem Call.reference {call : Call} : ∀ name ∈ call.references, Reference name := by
  have houtputs {outputs : List OutputDecoder} :
      ∀ name ∈ outputs.flatMap OutputDecoder.references, Reference name := by
    intro name hname
    obtain ⟨output, -, hname⟩ := List.mem_flatMap.mp hname
    exact output.reference name hname
  cases call with
  | executeLocal outputs =>
    cases outputs with
    | nil => simp [references, Reference.undefined]
    | cons output outputs => exact houtputs
  | queryViewRaw outputs => exact houtputs
  | contract name => exact nofun
  | typed name projector =>
    show ∀ name ∈ projector.body.references, Reference name
    cases projector.body with
    | undefined => simp [Body.references, Reference.undefined]
    | single expr => exact expr.reference
    | tuple exprs type =>
      intro name hname
      obtain ⟨expr, -, hname⟩ := List.mem_flatMap.mp hname
      exact expr.reference name hname

theorem Method.reference {method : Method} : ∀ name ∈ method.references, Reference name := by
  intro name hname
  rcases List.mem_append.mp hname with hname | hname
  · obtain ⟨serializer, -, hname⟩ := List.mem_flatMap.mp hname
    exact serializer.reference name hname
  · exact Call.reference name hname

/-- What a method declares is reserved. -/
theorem Method.mem_reservedParamWords {method : Method} :
    ∀ name ∈ method.locals, name ∈ reservedParamWords := by
  have hall : ∀ name ∈ [js "_args", js "options", js "_result", js "_decoded"],
      name ∈ reservedParamWords := by
    decide +kernel
  intro name hname
  refine hall name ?_
  unfold locals at hname
  cases hcall : method.call <;> rw [hcall] at hname <;> unfold Call.locals at hname <;>
    simp only [List.mem_cons, List.mem_append, List.not_mem_nil, or_false] at hname ⊢
  · split at hname <;> grind
  · grind
  · grind
  · grind

/-! ## Safety -/

/-- The parameters are different, are identifiers and no reserved words, and stand neither for what a
body declares nor for anything else that it refers to. -/
structure Safe (inputs : List AbiInput) (methods : List Method) : Prop where
  distinct : (paramNames inputs).Nodup
  valid : ∀ name ∈ paramNames inputs, isValidJsIdentifier name = true
  unreserved : ∀ name ∈ paramNames inputs, name ∉ ecmaScriptReservedWords
  undeclared : ∀ name ∈ paramNames inputs, ∀ method ∈ methods, name ∉ method.locals
  unshadowed : ∀ name ∈ paramNames inputs, ∀ method ∈ methods, name ∉ method.references

/-- No input that has its own name is called as something that a body refers to. -/
def Unmentioned (inputs : List AbiInput) (methods : List Method) : Prop :=
  ∀ input ∈ inputs, isValidJsIdentifier input.name = true → input.name ∉ reservedParamWords →
    ∀ method ∈ methods, input.name ∉ method.references

instance (inputs : List AbiInput) (methods : List Method) : Decidable (Unmentioned inputs methods) :=
  inferInstanceAs (Decidable (∀ input ∈ inputs, _ → _ → ∀ method ∈ methods, _))

theorem map_name_paramClaims (names : List JsString) :
    (paramClaims names).map (fun claim => claim.1.1) = names := by
  have hfst : (paramClaims names).map Prod.fst = names.zipIdx := map_fst_claims _ _
  conv_rhs => rw [← List.zipIdx_map_fst 0 names, ← hfst, List.map_map]
  rfl

section Safety

variable {inputs : List AbiInput} (hnames : (inputs.map (·.name)).Nodup)

include hnames

theorem paramNames_eq :
    paramNames inputs = (paramClaims (inputs.map (·.name))).map Prod.snd := by
  have hkeys : ((paramClaims (inputs.map (·.name))).map fun claim => claim.1.1).Nodup := by
    rwa [map_name_paramClaims]
  have hlist : paramNames inputs = (inputs.map (·.name)).map fun name =>
      ((buildSafeParamNames inputs).get? name).getD [] := by
    rw [List.map_map]
    rfl
  rw [hlist]
  conv_lhs => rw [← map_name_paramClaims (inputs.map (·.name)), List.map_map]
  refine List.map_congr_left fun claim hclaim => ?_
  exact congrArg (Option.getD · []) (InsertionMap.get?_ofList_map hkeys hclaim)

/-- The claim of a parameter is one of an input. -/
theorem mem_paramNames {name : JsString} (h : name ∈ paramNames inputs) :
    (∃ input ∈ inputs, name = input.name ∧ isValidJsIdentifier input.name = true ∧
      input.name ∉ reservedParamWords) ∨ Invented name := by
  rw [paramNames_eq hnames] at h
  obtain ⟨claim, hclaim, rfl⟩ := List.mem_map.mp h
  have hitems : ((inputs.map (·.name)).zipIdx.map Prod.fst).Nodup := by
    rwa [List.zipIdx_map_fst]
  rcases @claims_spec [] _ hitems nofun _ hclaim with ⟨heq, hvalid, hword⟩ | ⟨hinvented, -⟩
  · have hname : claim.1.1 ∈ inputs.map (·.name) := by
      rw [← map_name_paramClaims (inputs.map (·.name))]
      exact List.mem_map_of_mem hclaim
    obtain ⟨input, hinput, hname⟩ := List.mem_map.mp hname
    rw [← hname] at heq hvalid hword
    exact .inl ⟨input, hinput, heq, hvalid, hword⟩
  · exact .inr hinvented

/-- An input whose name can be a parameter and does not look invented has it. -/
theorem name_mem_paramNames {input : AbiInput} (hinput : input ∈ inputs)
    (hvalid : isValidJsIdentifier input.name = true) (hword : input.name ∉ reservedParamWords)
    (hinvented : ¬Invented input.name) : input.name ∈ paramNames inputs := by
  rw [paramNames_eq hnames]
  have hitems : ((inputs.map (·.name)).zipIdx.map Prod.fst).Nodup := by
    rwa [List.zipIdx_map_fst]
  have hname : input.name ∈ (paramClaims (inputs.map (·.name))).map fun claim => claim.1.1 := by
    rw [map_name_paramClaims]
    exact List.mem_map_of_mem hinput
  obtain ⟨claim, hclaim, heq⟩ := List.mem_map.mp hname
  rcases @claims_spec [] _ hitems nofun _ hclaim with ⟨hown, -, -⟩ | ⟨-, hlooks⟩
  · rw [← heq, ← hown]
    exact List.mem_map_of_mem hclaim
  · rw [heq] at hlooks
    exact absurd (hlooks hvalid hword) hinvented

/-- **The parameters are safe exactly if no input is called as something that a body refers to.** -/
theorem safe_iff (methods : List Method) : Safe inputs methods ↔ Unmentioned inputs methods := by
  have hword : ∀ name ∈ paramNames inputs, name ∉ reservedParamWords := by
    intro name hname
    rcases mem_paramNames hnames hname with ⟨input, -, rfl, -, hword⟩ | hinvented
    · exact hword
    · exact hinvented.notMem
  constructor
  · intro hsafe input hinput hvalid hword method hmethod hmem
    have hname := name_mem_paramNames hnames hinput hvalid hword
      (Method.reference _ hmem).not_invented
    exact hsafe.unshadowed _ hname method hmethod hmem
  · intro hunmentioned
    refine ⟨?_, fun name hname => ?_, fun name hname hreserved => ?_,
      fun name hname method _ hlocal => ?_, fun name hname method hmethod hmem => ?_⟩
    · rw [paramNames_eq hnames]
      exact claims_nodup (fun _ => underscored_injective _) _ _
    · rcases mem_paramNames hnames hname with ⟨input, -, rfl, hvalid, -⟩ | hinvented
      · exact hvalid
      · exact hinvented.isValid
    · have hwords : ∀ word ∈ ecmaScriptReservedWords, word ∈ reservedParamWords := by
        decide +kernel
      exact hword name hname (hwords name hreserved)
    · exact hword name hname (Method.mem_reservedParamWords name hlocal)
    · rcases mem_paramNames hnames hname with ⟨input, hinput, rfl, hvalid, hword⟩ | hinvented
      · exact hunmentioned input hinput hvalid hword method hmethod hmem
      · exact (Method.reference _ hmem).not_invented hinvented

end Safety

/-- **The parameters of the methods of a transition, and of those of a view.** -/
theorem paramNames_safe_iff (ctx : GenerationContext) (callable : CallableABI) (key : JsString)
    (hnames : (callable.inputs.map (·.name)).Nodup) :
    (Safe callable.inputs (generateTransitionMethod ctx callable) ↔
      Unmentioned callable.inputs (generateTransitionMethod ctx callable)) ∧
    (Safe callable.inputs [generateViewAccessor ctx key callable] ↔
      Unmentioned callable.inputs [generateViewAccessor ctx key callable]) :=
  ⟨safe_iff hnames _, safe_iff hnames _⟩

/-! ## A token -/

namespace Sample

/-- A program without types. -/
def token : GenerationContext :=
  createGenerationContext (fun _ _ => true)
    { program := js "token.aleo", structs := [], records := [], mappings := [],
      storageVariables := [], transitions := [], views := [] } [] [] false

/-- A transition that takes and returns a `u32`. -/
def mint (name : JsString) : CallableABI where
  name := js "mint"
  inputs := [⟨name, .plaintext (.primitive (.uint .s32))⟩]
  outputs := [⟨.plaintext (.primitive (.uint .s32)), .Private⟩]

end Sample

theorem paramNames_safe_mint :
    Safe (Sample.mint (js "amount")).inputs
      (generateTransitionMethod Sample.token (Sample.mint (js "amount"))) :=
  (paramNames_safe_iff Sample.token (Sample.mint (js "amount")) (js "mint")
    (by decide +kernel)).1.mpr (by decide +kernel)

/-- An input that is called `BaseContract` is read where its serializer is called. -/
theorem baseContract_shadowed : ¬∀ (ctx : GenerationContext) (callable : CallableABI),
    (callable.inputs.map (·.name)).Nodup →
      Safe callable.inputs (generateTransitionMethod ctx callable) := by
  intro h
  have hnames : ((Sample.mint (js "BaseContract")).inputs.map (·.name)).Nodup := by decide +kernel
  exact absurd ((safe_iff hnames _).mp (h Sample.token (Sample.mint (js "BaseContract")) hnames))
    (by decide +kernel)

end Lionden.Codegen.Bindings
