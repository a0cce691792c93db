import Lionden.Codegen.Matchers

/-!
# What a matcher resolves to

A matcher that the public functions built is a program and a way to select an output: the program
of a named source is always the matcher's, so binding the matcher to another program changes the
one and leaves the other.

* `Settles`: what the documentation of the errors promises for a program and a selector.
* `Built`: the matchers that can be built.
* `matchers_resolve_iff`: a handle keeps the promise unless the selected output is a text that is no
  ciphertext. Every text is given to `decryptRecord`.
-/

namespace Lionden.Codegen.Matchers

/-! ## The promise -/

/-- A source without its program. -/
inductive Selector where
  | position (transitionIndex outputIndex : JsNumber)
  | name (transitionName : JsString) (outputIndex : JsNumber) (matchIndex : Option JsNumber)

def Selector.outputIndex : Selector → JsNumber
  | position _ outputIndex => outputIndex
  | name _ outputIndex _ => outputIndex

inductive Verdict where
  | ciphertext (text : JsString)
  | refused (reason : IdOnlyRecordResolutionReason)

section Promise

variable (isCiphertext : JsString → Bool) (transitions : List ConfirmedTransitionRecord)
  (program : JsString)

/-- The transitions of one function, in order. -/
def callsOf (transitionName : JsString) : List ConfirmedTransitionRecord :=
  transitions.filter fun t =>
    decide (t.programId = program) && decide (t.transitionName = transitionName)

inductive Selects : Selector → ConfirmedTransitionRecord → Prop where
  | position {i o : JsNumber} {t : ConfirmedTransitionRecord} (h : elementAt transitions i = some t) :
    Selects (.position i o) t
  | only {n : JsString} {o : JsNumber} {t : ConfirmedTransitionRecord}
    (h : callsOf transitions program n = [t]) : Selects (.name n o none) t
  | nth {n : JsString} {o k : JsNumber} {t : ConfirmedTransitionRecord}
    (h : elementAt (callsOf transitions program n) k = some t) : Selects (.name n o (some k)) t

/-- Why a selector selects no transition. -/
inductive Unresolved : Selector → IdOnlyRecordResolutionReason → Prop where
  | transitionIndex {i o : JsNumber} (h : elementAt transitions i = none) :
    Unresolved (.position i o) .transitionIndexOutOfRange
  | notFound {n : JsString} {o : JsNumber} {k : Option JsNumber}
    (h : callsOf transitions program n = []) : Unresolved (.name n o k) .transitionNotFound
  | notUnique {n : JsString} {o : JsNumber} (h : 1 < (callsOf transitions program n).length) :
    Unresolved (.name n o none) .transitionNotUnique
  | matchIndex {n : JsString} {o k : JsNumber} (hne : callsOf transitions program n ≠ [])
    (h : elementAt (callsOf transitions program n) k = none) :
    Unresolved (.name n o (some k)) .transitionMatchIndexOutOfRange

inductive Settles (sel : Selector) : Verdict → Prop where
  | unresolved {reason : IdOnlyRecordResolutionReason}
    (h : Unresolved transitions program sel reason) : Settles sel (.refused reason)
  | programMismatch {t : ConfirmedTransitionRecord} (h : Selects transitions program sel t)
    (hp : t.programId ≠ program) : Settles sel (.refused .programMismatch)
  | notACiphertext {t : ConfirmedTransitionRecord} (h : Selects transitions program sel t)
    (hp : t.programId = program)
    (hno : ∀ text, elementAt t.rawOutputs sel.outputIndex = some (.text text) →
      isCiphertext text = false) : Settles sel (.refused .notACiphertext)
  | ciphertext {t : ConfirmedTransitionRecord} {text : JsString}
    (h : Selects transitions program sel t) (hp : t.programId = program)
    (ho : elementAt t.rawOutputs sel.outputIndex = some (.text text))
    (hc : isCiphertext text = true) : Settles sel (.ciphertext text)

/-- The text that the selector selects, if it is one, is a ciphertext. -/
def OnlyCiphertexts (sel : Selector) : Prop :=
  ∀ t text, Selects transitions program sel t → t.programId = program →
    elementAt t.rawOutputs sel.outputIndex = some (.text text) → isCiphertext text = true

end Promise

section Verdicts

variable {isCiphertext : JsString → Bool} {transitions : List ConfirmedTransitionRecord}
  {program : JsString} {sel : Selector}

theorem Selects.unique {t t' : ConfirmedTransitionRecord} (h : Selects transitions program sel t)
    (h' : Selects transitions program sel t') : t = t' := by
  cases h with
  | position h => cases h' with | position h' => exact Option.some.inj (h.symm.trans h')
  | only h => cases h' with | only h' => exact List.singleton_inj.mp (h.symm.trans h')
  | nth h => cases h' with | nth h' => exact Option.some.inj (h.symm.trans h')

theorem elementAt_nil {α : Type} (i : JsNumber) : elementAt ([] : List α) i = none := by
  unfold elementAt
  split <;> simp

theorem Selects.not_unresolved {t : ConfirmedTransitionRecord}
    {reason : IdOnlyRecordResolutionReason} (h : Selects transitions program sel t) :
    ¬ Unresolved transitions program sel reason := by
  intro hu
  cases hu with
  | transitionIndex hn => cases h with | position h => simp [hn] at h
  | notFound hn =>
    cases h with
    | only h => simp [hn] at h
    | nth h => simp [hn, elementAt_nil] at h
  | notUnique hn => cases h with | only h => simp [h] at hn
  | matchIndex _ hn => cases h with | nth h => simp [hn] at h

theorem Unresolved.unique {r r' : IdOnlyRecordResolutionReason}
    (h : Unresolved transitions program sel r) (h' : Unresolved transitions program sel r') :
    r = r' := by
  cases h with
  | transitionIndex => cases h' with | transitionIndex => rfl
  | notFound hn =>
    cases h' with
    | notFound => rfl
    | notUnique h' => simp [hn] at h'
    | matchIndex hne => exact absurd hn hne
  | notUnique h =>
    cases h' with
    | notFound hn => simp [hn] at h
    | notUnique => rfl
  | matchIndex hne =>
    cases h' with
    | notFound hn => exact absurd hn hne
    | matchIndex => rfl

/-- The promise is never two things. -/
theorem Settles.unique {v v' : Verdict} (h : Settles isCiphertext transitions program sel v)
    (h' : Settles isCiphertext transitions program sel v') : v = v' := by
  cases h with
  | unresolved hu =>
    cases h' with
    | unresolved hu' => rw [hu.unique hu']
    | programMismatch hs => exact absurd hu hs.not_unresolved
    | notACiphertext hs => exact absurd hu hs.not_unresolved
    | ciphertext hs => exact absurd hu hs.not_unresolved
  | programMismatch hs hp =>
    cases h' with
    | unresolved hu => exact absurd hu hs.not_unresolved
    | programMismatch => rfl
    | notACiphertext hs' hp' => exact absurd (hs.unique hs' ▸ hp') hp
    | ciphertext hs' hp' => exact absurd (hs.unique hs' ▸ hp') hp
  | notACiphertext hs hp hno =>
    cases h' with
    | unresolved hu => exact absurd hu hs.not_unresolved
    | programMismatch hs' hp' => exact absurd (hs.unique hs' ▸ hp) hp'
    | notACiphertext => rfl
    | ciphertext hs' _ ho hc =>
      obtain rfl := hs.unique hs'
      simp [hno _ ho] at hc
  | ciphertext hs hp ho hc =>
    cases h' with
    | unresolved hu => exact absurd hu hs.not_unresolved
    | programMismatch hs' hp' => exact absurd (hs.unique hs' ▸ hp) hp'
    | notACiphertext hs' _ hno =>
      obtain rfl := hs.unique hs'
      simp [hno _ ho] at hc
    | ciphertext hs' _ ho' =>
      obtain rfl := hs.unique hs'
      have := ho.symm.trans ho'
      simp_all

end Verdicts

/-! ## Resolution -/

def IdOnlyRecordSource.selector : IdOnlyRecordSource → Selector
  | positional transitionIndex outputIndex => .position transitionIndex outputIndex
  | named _ transitionName outputIndex index => .name transitionName outputIndex index

@[simp]
theorem IdOnlyRecordSource.selector_outputIndex (source : IdOnlyRecordSource) :
    source.selector.outputIndex = source.outputIndex := by
  cases source <;> rfl

/-- The source names no program but this one. -/
def IdOnlyRecordSource.Of (program : JsString) : IdOnlyRecordSource → Prop
  | positional .. => True
  | named programId .. => programId = program

theorem elementAt_map {α β : Type} (f : α → β) (xs : List α) (i : JsNumber) :
    elementAt (xs.map f) i = (elementAt xs i).map f := by
  unfold elementAt
  split <;> simp

/-- The loop over the indices collects the transitions of the function. -/
theorem matchesWithIndex_map (transitions : List ConfirmedTransitionRecord)
    (program transitionName : JsString) :
    (transitions.zipIdx.filter fun t =>
      decide (t.1.programId = program) && decide (t.1.transitionName = transitionName)).map
        Prod.fst = callsOf transitions program transitionName := by
  have h : callsOf (transitions.zipIdx.map Prod.fst) program transitionName = _ :=
    List.filter_map
  rw [List.zipIdx_map_fst] at h
  exact h.symm

theorem resolveIdOnlySource_cases (transitions : List ConfirmedTransitionRecord)
    {program : JsString} {source : IdOnlyRecordSource} (hof : source.Of program) :
    (∃ selected, resolveIdOnlySource transitions source = .ok selected ∧
      Selects transitions program source.selector selected.transition) ∨
    ∃ error, resolveIdOnlySource transitions source = .error error ∧
      Unresolved transitions program source.selector error.reason := by
  cases source with
  | positional idx outputIndex =>
    cases ht : elementAt transitions idx with
    | none =>
      refine .inr ⟨_, by simp only [resolveIdOnlySource, ht]; rfl, ?_⟩
      exact .transitionIndex ht
    | some t =>
      refine .inl ⟨_, by simp only [resolveIdOnlySource, ht]; rfl, ?_⟩
      exact .position ht
  | named programId transitionName outputIndex index =>
    obtain rfl : programId = program := hof
    have hcalls := matchesWithIndex_map transitions programId transitionName
    generalize hm : (transitions.zipIdx.filter fun t =>
      decide (t.1.programId = programId) && decide (t.1.transitionName = transitionName)) = found
      at hcalls
    simp only [resolveIdOnlySource, hm]
    cases found with
    | nil => exact .inr ⟨_, rfl, .notFound hcalls.symm⟩
    | cons first rest =>
      cases index with
      | none =>
        cases rest with
        | nil => exact .inl ⟨_, rfl, .only hcalls.symm⟩
        | cons second rest =>
          exact .inr ⟨_, rfl, .notUnique (by rw [← hcalls]; simp)⟩
      | some k =>
        have hat := elementAt_map Prod.fst (first :: rest) k
        rw [hcalls] at hat
        cases hk : elementAt (first :: rest) k with
        | none =>
          rw [hk, Option.map_none] at hat
          refine .inr ⟨_, by simp only [hk]; rfl, ?_⟩
          exact .matchIndex (by rw [← hcalls]; simp) hat
        | some m =>
          rw [hk, Option.map_some] at hat
          refine .inl ⟨_, by simp only [hk]; rfl, ?_⟩
          exact .nth hat

/-! ## Decryption -/

section Decryption

variable (sdk : Sdk) {α : Type}

theorem decryptRecordCiphertext_decrypted (ciphertext viewKey : JsString) :
    ∀ call ∈ (decryptRecordCiphertext sdk ciphertext viewKey).decrypted, call.1 = ciphertext := by
  unfold decryptRecordCiphertext
  dsimp only
  split_ifs
  · simp
  · cases sdk.decrypt ciphertext viewKey <;> simp
  · simp
  · simp

/-- The SDK gets no ciphertext but this one. -/
theorem decryptRecord_decrypted (ciphertext : JsString) (key : JsValue)
    (deserialize : JsString → Except Thrown α) :
    ∀ call ∈ (decryptRecord sdk ciphertext key deserialize).decrypted, call.1 = ciphertext := by
  unfold decryptRecord
  cases normalizeRecordDecryptionKey sdk key with
  | error => simp
  | ok viewKey =>
    have h := decryptRecordCiphertext_decrypted sdk ciphertext viewKey
    dsimp only
    cases (decryptRecordCiphertext sdk ciphertext viewKey).result <;> exact h

/-- The error is none of the resolution. -/
def Thrown.Foreign : Thrown → Prop
  | .idOnlyRecordResolution _ => False
  | _ => True

theorem rethrown_foreign {cause : Thrown} (h : cause.Foreign) : (rethrown cause).Foreign := by
  cases cause <;> exact h

theorem deriveViewKey_foreign {privateKey : JsString} {cause : Thrown}
    (h : deriveViewKey sdk privateKey = .error cause) : cause.Foreign := by
  unfold deriveViewKey at h
  dsimp only at h
  split_ifs at h
  · cases hk : sdk.toViewKey privateKey with
    | ok viewKey => simp [hk] at h
    | error message =>
      rw [hk] at h
      cases h
      trivial
  · cases h; trivial

theorem normalizeRecordDecryptionKey_foreign {key : JsValue} {cause : Thrown}
    (h : normalizeRecordDecryptionKey sdk key = .error cause) : cause.Foreign := by
  unfold normalizeRecordDecryptionKey at h
  dsimp only at h
  split at h
  · split_ifs at h
    · exact deriveViewKey_foreign sdk h
    · cases h; trivial
  · split at h
    · split_ifs at h
      cases h; trivial
    · split_ifs at h
      · exact deriveViewKey_foreign sdk h
      · cases h; trivial
    · cases h; trivial
  · cases h; trivial

/-- Without a call of the SDK there is no plaintext, and the error is foreign. -/
theorem decryptRecordCiphertext_foreign {ciphertext viewKey : JsString}
    (h : (decryptRecordCiphertext sdk ciphertext viewKey).decrypted = []) :
    ∃ cause, (decryptRecordCiphertext sdk ciphertext viewKey).result = .error cause ∧
      cause.Foreign := by
  unfold decryptRecordCiphertext at h ⊢
  dsimp only at h ⊢
  split_ifs at h ⊢
  · exact ⟨_, rfl, trivial⟩
  · cases hd : sdk.decrypt ciphertext viewKey <;> simp [hd] at h
  · exact ⟨_, rfl, trivial⟩
  · exact ⟨_, rfl, trivial⟩

/-- A decryption that throws an error of the resolution has called the SDK (the deserializer may
throw anything). -/
theorem decryptRecord_foreign {ciphertext : JsString} {key : JsValue}
    {deserialize : JsString → Except Thrown α}
    (h : (decryptRecord sdk ciphertext key deserialize).decrypted = []) :
    ∃ cause, (decryptRecord sdk ciphertext key deserialize).result = .error cause ∧
      cause.Foreign := by
  unfold decryptRecord at h ⊢
  cases hk : normalizeRecordDecryptionKey sdk key with
  | error cause =>
    exact ⟨_, rfl, rethrown_foreign (normalizeRecordDecryptionKey_foreign sdk hk)⟩
  | ok viewKey =>
    rw [hk] at h
    dsimp only at h ⊢
    have hnone : (decryptRecordCiphertext sdk ciphertext viewKey).decrypted = [] := by
      split at h <;> exact h
    obtain ⟨cause, hcause, hforeign⟩ := decryptRecordCiphertext_foreign sdk hnone
    rw [hcause]
    exact ⟨_, rfl, rethrown_foreign hforeign⟩

end Decryption

/-- What a handle has to do for a verdict. -/
def Answers {α : Type} (sdk : Sdk) (key : JsValue) (deserialize : JsString → Except Thrown α)
    (outcome : Settled α) : Verdict → Prop
  | .ciphertext text =>
    outcome = decryptRecord sdk text key deserialize ∧ ∀ call ∈ outcome.decrypted, call.1 = text
  | .refused reason =>
    ∃ error, outcome = { result := .error (.idOnlyRecordResolution error), decrypted := [] } ∧
      error.reason = reason

/-! ## Matchers -/

/-- The matchers that the public functions build. -/
inductive Built {α : Type} : {s : Binding} → RecordOutputMatcher α s → Prop where
  | create (base : Base α) : Built (createRecordOutputMatcher base)
  | from {s : Binding} {m : RecordOutputMatcher α s} (h : Built m) (transitionName : JsString)
    (outputIndex : JsNumber) (index : Option JsNumber) :
    Built (m.from transitionName outputIndex index)
  | at {s : Binding} {m : RecordOutputMatcher α s} (h : Built m)
    (transitionIndex outputIndex : JsNumber) : Built (m.at transitionIndex outputIndex)
  | bind {s : Binding} {m : RecordOutputMatcher α s} (h : Built m) (programId : JsString) :
    Built (bindRecordOutputMatcherProgram m programId)
  /-- The `output` of a helper after any number of `forProgram`s. -/
  | helper {β : Type} {m : RecordOutputMatcher α .unbound} (h : Built m) (fn : β → JsString)
    (programId : JsString) (programIds : List JsString) :
    Built (programIds.foldl DynamicRecordHelper.forProgram
      (bindDynamicRecordHelperProgram fn m programId)).output

section Matchers

variable {α : Type} {s : Binding}

/-- A named source names the matcher's program. -/
def Owned (m : RecordOutputMatcher α s) : Prop :=
  match s, m with
  | .unbound, _ => True
  | .bound, m => IdOnlyRecordSource.Of m.program m.source

def RecordOutputMatcher.selector (m : RecordOutputMatcher α .bound) : Selector :=
  IdOnlyRecordSource.selector m.source

variable {m : RecordOutputMatcher α s}

@[simp]
theorem bind_program (m : RecordOutputMatcher α s) (p : JsString) :
    (bindRecordOutputMatcherProgram m p).program = p := by
  unfold bindRecordOutputMatcherProgram
  split_ifs with h
  · exact h
  · rfl

@[simp]
theorem bind_recordName (m : RecordOutputMatcher α s) (p : JsString) :
    (bindRecordOutputMatcherProgram m p).recordName = m.recordName := by
  unfold bindRecordOutputMatcherProgram
  split_ifs <;> rfl

@[simp]
theorem bind_deserialize (m : RecordOutputMatcher α s) (p : JsString) :
    (bindRecordOutputMatcherProgram m p).deserialize = m.deserialize := by
  unfold bindRecordOutputMatcherProgram
  split_ifs <;> rfl

theorem rebindMatcherSource_selector (source : IdOnlyRecordSource) (p q : JsString) :
    IdOnlyRecordSource.selector (rebindMatcherSource (s := .bound) source p q) =
      source.selector := by
  cases source with
  | positional => rfl
  | named programId =>
    by_cases hp : programId = p <;> simp [rebindMatcherSource, hp, IdOnlyRecordSource.selector]

@[simp]
theorem bind_selector (m : RecordOutputMatcher α .bound) (p : JsString) :
    (bindRecordOutputMatcherProgram m p).selector = m.selector := by
  unfold bindRecordOutputMatcherProgram
  split_ifs with h
  · rfl
  · exact rebindMatcherSource_selector m.source m.program p

theorem Owned.bind (h : Owned m) (p : JsString) : Owned (bindRecordOutputMatcherProgram m p) := by
  unfold bindRecordOutputMatcherProgram
  split_ifs with hp
  · exact h
  · obtain ⟨program, recordName, deserialize, source⟩ := m
    cases s with
    | unbound => trivial
    | bound =>
      cases source with
      | positional => trivial
      | named programId =>
        obtain rfl : programId = program := h
        simp [Owned, buildRecordOutputMatcher, rebindMatcherSource, IdOnlyRecordSource.Of]

/-- A source that names no program but the given one is given by its selector. -/
theorem IdOnlyRecordSource.Of.ext {program : JsString} {a b : IdOnlyRecordSource}
    (ha : a.Of program) (hb : b.Of program) (h : a.selector = b.selector) : a = b := by
  cases a with
  | positional => cases b with
    | positional => simp_all [IdOnlyRecordSource.selector]
    | named => simp [IdOnlyRecordSource.selector] at h
  | named => cases b with
    | positional => simp [IdOnlyRecordSource.selector] at h
    | named => simp_all [IdOnlyRecordSource.selector, IdOnlyRecordSource.Of]

/-- A matcher is its program, what it does with a plaintext, and its selector. -/
theorem Owned.ext {m m' : RecordOutputMatcher α .bound} (h : Owned m) (h' : Owned m')
    (hp : m.program = m'.program) (hr : m.recordName = m'.recordName)
    (hd : m.deserialize = m'.deserialize) (hs : m.selector = m'.selector) : m = m' := by
  obtain ⟨program, recordName, deserialize, source⟩ := m
  obtain ⟨program', recordName', deserialize', source'⟩ := m'
  obtain rfl : program = program' := hp
  obtain rfl : recordName = recordName' := hr
  obtain rfl : deserialize = deserialize' := hd
  obtain rfl : source = source' := IdOnlyRecordSource.Of.ext h h' hs
  rfl

theorem Owned.bind_bind (h : Owned m) (p q : JsString) :
    bindRecordOutputMatcherProgram (bindRecordOutputMatcherProgram m p) q =
      bindRecordOutputMatcherProgram m q := by
  cases s with
  | unbound =>
    apply RecordOutputMatcher.ext
    · simp
    · simp
    · simp
    · rfl
  | bound =>
    exact ((h.bind p).bind q).ext (h.bind q) (by simp) (by simp) (by simp) (by simp)

theorem Built.owned (h : Built m) : Owned m := by
  induction h with
  | create => trivial
  | «from» => rfl
  | «at» => trivial
  | bind _ p ih => exact ih.bind p
  | helper => trivial

/-! ## Handles -/

/-- The program that a handle looks for: its own program is meant under the id that it runs as. -/
def IdOnlyRecordHandle.runtimeProgram (handle : IdOnlyRecordHandle) (program : JsString) :
    JsString :=
  match handle.sourceProgramId, handle.runtimeProgramId with
  | some sourceProgramId, some runtimeProgramId =>
    if program = sourceProgramId then runtimeProgramId else program
  | _, _ => program

/-- Binding to the runtime program is one more binding. -/
theorem bindOwnRuntimeMatcher_eq (handle : IdOnlyRecordHandle)
    (m : RecordOutputMatcher α .bound) :
    bindOwnRuntimeMatcher m handle.sourceProgramId handle.runtimeProgramId =
      bindRecordOutputMatcherProgram m (handle.runtimeProgram m.program) := by
  have hself : bindRecordOutputMatcherProgram m m.program = m := if_pos rfl
  unfold bindOwnRuntimeMatcher IdOnlyRecordHandle.runtimeProgram
  cases handle.sourceProgramId with
  | none => exact hself.symm
  | some sourceProgramId =>
    cases handle.runtimeProgramId with
    | none => exact hself.symm
    | some runtimeProgramId =>
      dsimp only
      by_cases hown : m.program = sourceProgramId
      · subst hown
        by_cases hsame : m.program = runtimeProgramId
        · rw [if_pos (.inl hsame), if_pos rfl, ← hsame, hself]
        · rw [if_neg (by simp [hsame]), if_pos rfl]
      · rw [if_pos (.inr hown), if_neg hown, hself]

section Handles

variable (isCiphertext : JsString → Bool) (sdk : Sdk) (transitions : List ConfirmedTransitionRecord)
  {m : RecordOutputMatcher α .bound} (key : JsValue) (hint : JsString)

/-- The outcome is what the promise says. -/
def Resolves (program : JsString) (sel : Selector)
    (deserialize : JsString → Except Thrown α) (outcome : Settled α) : Prop :=
  ∃ verdict, Settles isCiphertext transitions program sel verdict ∧
    Answers sdk key deserialize outcome verdict

/-- The output that is selected in a transition of the program decides the outcome. -/
theorem resolveAndDecryptIdOnly_selected (h : Owned m) {t : ConfirmedTransitionRecord}
    (hs : Selects transitions m.program m.selector t) (hp : t.programId = m.program) :
    (∃ text, elementAt t.rawOutputs m.selector.outputIndex = some (.text text) ∧
      resolveAndDecryptIdOnly sdk transitions m key hint =
        decryptRecord sdk text key m.deserialize) ∨
    (∀ text, elementAt t.rawOutputs m.selector.outputIndex ≠ some (.text text)) ∧
      Answers sdk key m.deserialize (resolveAndDecryptIdOnly sdk transitions m key hint)
        (.refused .notACiphertext) := by
  have hindex : m.selector.outputIndex = IdOnlyRecordSource.outputIndex m.source :=
    IdOnlyRecordSource.selector_outputIndex m.source
  obtain ⟨selected, hresolve, hselected⟩ | ⟨error, -, hu⟩ :=
    resolveIdOnlySource_cases transitions (h : IdOnlyRecordSource.Of m.program m.source)
  · obtain rfl := hs.unique hselected
    rw [hindex]
    unfold resolveAndDecryptIdOnly
    dsimp only
    rw [hresolve]
    dsimp only
    rw [if_neg (not_not.mpr hp)]
    cases hout : elementAt selected.transition.rawOutputs
        (IdOnlyRecordSource.outputIndex m.source) with
    | none => exact .inr ⟨nofun, _, rfl, rfl⟩
    | some output =>
      cases output with
      | text text => exact .inl ⟨text, rfl, rfl⟩
      | idOnly output => exact .inr ⟨nofun, _, rfl, rfl⟩
  · exact absurd hu hs.not_unresolved

theorem resolveAndDecryptIdOnly_iff (h : Owned m) :
    Resolves isCiphertext sdk transitions key m.program m.selector m.deserialize
        (resolveAndDecryptIdOnly sdk transitions m key hint) ↔
      OnlyCiphertexts isCiphertext transitions m.program m.selector := by
  constructor
  · rintro ⟨verdict, hsettles, hanswers⟩ t text hs hp hout
    by_contra hc
    -- the promise is to refuse the text, but it is decrypted
    have hrefused : Settles isCiphertext transitions m.program m.selector
        (.refused .notACiphertext) := by
      refine .notACiphertext hs hp fun other hother => ?_
      obtain rfl : text = other := by simpa using hout.symm.trans hother
      simpa using hc
    obtain rfl := hsettles.unique hrefused
    obtain ⟨error, houtcome, -⟩ := hanswers
    obtain ⟨other, -, hdecrypt⟩ | ⟨hno, -⟩ := resolveAndDecryptIdOnly_selected sdk transitions key hint h hs hp
    · rw [hdecrypt] at houtcome
      obtain ⟨cause, hcause, hforeign⟩ := decryptRecord_foreign sdk (congrArg (·.decrypted) houtcome)
      rw [houtcome] at hcause
      cases hcause
      exact hforeign
    · exact hno text hout
  · intro honly
    obtain ⟨selected, hresolve, hs⟩ | ⟨error, hresolve, hu⟩ :=
      resolveIdOnlySource_cases transitions (h : IdOnlyRecordSource.Of m.program m.source)
    · by_cases hp : selected.transition.programId = m.program
      · obtain ⟨text, hout, hdecrypt⟩ | ⟨hno, hanswers⟩ :=
          resolveAndDecryptIdOnly_selected sdk transitions key hint h hs hp
        · refine ⟨_, .ciphertext hs hp hout (honly _ _ hs hp hout), hdecrypt, ?_⟩
          rw [hdecrypt]
          exact decryptRecord_decrypted sdk text key m.deserialize
        · exact ⟨_, .notACiphertext hs hp fun text hout => absurd hout (hno text), hanswers⟩
      · refine ⟨_, .programMismatch hs hp, ?_⟩
        unfold resolveAndDecryptIdOnly
        dsimp only
        rw [hresolve]
        dsimp only
        rw [if_pos hp]
        exact ⟨_, rfl, rfl⟩
    · refine ⟨_, .unresolved hu, error, ?_, rfl⟩
      unfold resolveAndDecryptIdOnly
      dsimp only
      rw [hresolve]

/-- A handle with a matcher that was built. -/
theorem Built.match_iff (h : Built m) (handle : IdOnlyRecordHandle) :
    Resolves isCiphertext sdk handle.transitions key (handle.runtimeProgram m.program) m.selector
        m.deserialize (handle.match sdk m key) ↔
      OnlyCiphertexts isCiphertext handle.transitions (handle.runtimeProgram m.program)
        m.selector := by
  have h := resolveAndDecryptIdOnly_iff isCiphertext sdk handle.transitions key
    handle.notACiphertextHint (h.owned.bind (handle.runtimeProgram m.program))
  rw [bind_program, bind_selector, bind_deserialize, ← bindOwnRuntimeMatcher_eq] at h
  exact h

end Handles

end Matchers

/-- A named source always names the matcher's program, binding twice is binding to the last program,
and a handle keeps its promise exactly when the text that the matcher selects, if it selects one, is
a ciphertext. -/
theorem matchers_resolve_iff {α : Type} (isCiphertext : JsString → Bool) (sdk : Sdk) :
    (∀ {s : Binding} (m : RecordOutputMatcher α s), Built m → ∀ p q,
      bindRecordOutputMatcherProgram (bindRecordOutputMatcherProgram m p) q =
        bindRecordOutputMatcherProgram m q) ∧
    ∀ m : RecordOutputMatcher α .bound, Built m →
      (∀ programId transitionName outputIndex index,
        m.source = IdOnlyRecordSource.named programId transitionName outputIndex index →
          programId = m.program) ∧
      ∀ (handle : IdOnlyRecordHandle) (key : JsValue),
        Resolves isCiphertext sdk handle.transitions key (handle.runtimeProgram m.program)
            m.selector m.deserialize (handle.match sdk m key) ↔
          OnlyCiphertexts isCiphertext handle.transitions (handle.runtimeProgram m.program)
            m.selector := by
  refine ⟨fun m hm p q => hm.owned.bind_bind p q, fun m hm => ⟨?_, fun handle key =>
    hm.match_iff isCiphertext sdk key handle⟩⟩
  intro programId transitionName outputIndex index hsource
  have howned : IdOnlyRecordSource.Of m.program m.source := hm.owned
  rw [hsource] at howned
  exact howned

/-- The ciphertexts by what they begin with. -/
def isRecordCiphertext (text : JsString) : Bool := decide (js "record1" <+: text)

/-- An SDK that takes every key and ciphertext. -/
def echoSdk : Sdk := { toViewKey := .ok, decrypt := fun ciphertext _ => .ok ciphertext }

/-- A transition with a record and a public number as its outputs. -/
def mint : ConfirmedTransitionRecord :=
  { programId := js "token.aleo", transitionName := js "mint",
    rawOutputs := [.text (js "record1abc"), .text (js "100u64")] }

/-- A handle over calls of the same function. -/
def mintHandle (calls : Nat) : IdOnlyRecordHandle :=
  makeIdOnlyExternalRecordHandle { type := js "external_record", id := js "id" }
    (List.replicate calls mint) none none

def tokenMatcher : RecordOutputMatcher JsString .unbound :=
  createRecordOutputMatcher
    { program := js "token.aleo", recordName := js "Token", deserialize := .ok }

/-- Bound to another program and back, and to the second call. -/
def secondMint : RecordOutputMatcher JsString .bound :=
  (bindRecordOutputMatcherProgram
    (bindRecordOutputMatcherProgram tokenMatcher (js "other.aleo")) (js "token.aleo")).from
      (js "mint") (.finite 0) (some (.finite 1))

theorem matchers_resolve_iff_mint :
    Resolves isRecordCiphertext echoSdk (mintHandle 2).transitions (.string (js "AViewKey1x"))
      (js "token.aleo") (.name (js "mint") (.finite 0) (some (.finite 1))) secondMint.deserialize
      ((mintHandle 2).match echoSdk secondMint (.string (js "AViewKey1x"))) := by
  have hbuilt : Built secondMint := .from (.bind (.bind (.create _) _) _) _ _ _
  refine (((matchers_resolve_iff isRecordCiphertext echoSdk).2 _ hbuilt).2 (mintHandle 2)
      (.string (js "AViewKey1x"))).mpr ?_
  rintro t text (_ | _ | h) - hout
  obtain rfl : mint = t := Option.some.inj h
  obtain rfl : js "record1abc" = text := RawTransitionOutput.text.inj (Option.some.inj hout)
  decide

/-- A public number is no ciphertext, and the attempt to decrypt it fails otherwise than promised. -/
theorem matchers_resolve_text :
    Built (tokenMatcher.from (js "mint") (.finite 1) none) ∧
    ¬ Resolves isRecordCiphertext echoSdk (mintHandle 1).transitions (.string (js "AViewKey1x"))
      (js "token.aleo") (.name (js "mint") (.finite 1) none) tokenMatcher.deserialize
      ((mintHandle 1).match echoSdk (tokenMatcher.from (js "mint") (.finite 1) none)
        (.string (js "AViewKey1x"))) := by
  have hbuilt : Built (tokenMatcher.from (js "mint") (.finite 1) none) := .from (.create _) _ _ _
  refine ⟨hbuilt, fun h => ?_⟩
  have honly := (hbuilt.match_iff isRecordCiphertext echoSdk _ (mintHandle 1)).mp h
  exact absurd (honly mint (js "100u64") (.only rfl) rfl rfl) (by decide)

end Lionden.Codegen.Matchers
