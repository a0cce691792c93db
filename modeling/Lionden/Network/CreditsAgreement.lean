import Lionden.Network.CreditsCache

/-!
# What the warm-up takes of the cache

Alone on the disk, the warm-up takes an entry when its metadata are those of the key and the prover has
their digest. The check before a write asks for the same and for the digest of the key that it has, so
an entry that it leaves alone is taken, with these bytes; and so is one that was written.

* `run_isCreditsEntryCurrent`, `run_warmupCreditsEntry`: the two checks on a disk.
* `persisted_warms`: they agree.
-/

namespace Lionden.Network.CreditsCache

open KeyCache (KeyFingerprint)
open Processes

variable {π υ : Type}

/-! ## Calls -/

@[simp]
theorem run_proverExists (path : JsString) (s : Host π υ) :
    (proverExists path).run act s = ((s.provers path).exists, s) := rfl

@[simp]
theorem run_metadataExists (path : JsString) (s : Host π υ) :
    (metadataExists path).run act s = ((s.metadata path).exists, s) := rfl

@[simp]
theorem run_readProver (path : JsString) (s : Host π υ) :
    (readProver path).run act s = ((s.provers path).read path, s) := rfl

@[simp]
theorem run_readMetadata (path : JsString) (s : Host π υ) :
    (readMetadata path).run act s = ((s.metadata path).read path, s) := rfl

@[simp]
theorem run_cacheKeys (keys : CachedKeys π υ) (s : Host π υ) :
    (cacheKeys keys).run act s = ((), { s with cached := s.cached ++ [keys] }) := rfl

@[simp]
theorem run_writeFileAtomic (path : JsString) (bytes : Uint8Array) (s : Host π υ) :
    (writeFileAtomic path bytes).run act s =
      ((), { s with provers := Function.update s.provers path (.contents bytes) }) := rfl

@[simp]
theorem run_writeJsonAtomic (path text : JsString) (s : Host π υ) :
    (writeJsonAtomic path text).run act s =
      ((), { s with metadata := Function.update s.metadata path (.contents text) }) := rfl

section Disk

variable (platform : Platform)

/-! ## An entry -/

def CreditsKeyPersistenceConfig.paths (config : CreditsKeyPersistenceConfig π υ)
    (locator : JsString) : Paths :=
  creditsCachePaths platform config.cachePath config.wasmHash config.network locator

/-- The metadata name the key and the configuration. -/
def Names (config : CreditsKeyPersistenceConfig π υ) (locator : JsString)
    (metadata : CreditsKeyCacheMetadata) : Prop :=
  metadata.locator = locator ∧ metadata.network = config.network ∧
    metadata.wasmHash = config.wasmHash

instance (config : CreditsKeyPersistenceConfig π υ) (locator : JsString)
    (metadata : CreditsKeyCacheMetadata) : Decidable (Names config locator metadata) :=
  inferInstanceAs (Decidable (_ ∧ _ ∧ _))

/-- The bytes and metadata of an entry that are there and can be read. -/
def entryOf (config : CreditsKeyPersistenceConfig π υ) (locator : JsString) (s : Host π υ) :
    Option (Uint8Array × CreditsKeyCacheMetadata) :=
  let paths := config.paths platform locator
  match s.provers paths.prover, s.metadata paths.metadata with
  | .contents bytes, .contents text =>
    match metadataOfText platform paths.metadata text with
    | .ok metadata => some (bytes, metadata)
    | .error _ => none
  | _, _ => none

/-- The bytes of an entry that the warm-up takes. -/
def accepted (config : CreditsKeyPersistenceConfig π υ) (locator : JsString) (s : Host π υ) :
    Option Uint8Array :=
  (entryOf platform config locator s).bind fun entry =>
    if Names config locator entry.2 ∧ fingerprintBytes platform entry.1 = entry.2.prover then
      some entry.1
    else none

/-- What the warm-up caches for a value. -/
def warmed (config : CreditsKeyPersistenceConfig π υ) (s : Host π υ) (value : CreditsValue υ) :
    Option (CachedKeys π υ) :=
  match value.locator, value.verifyingKey with
  | some locator, some verifyingKey =>
    (accepted platform config locator s).bind fun bytes =>
      match config.sdk.fromBytes bytes, verifyingKey with
      | .ok provingKey, .ok verifyingKey => some { locator, provingKey, verifyingKey }
      | _, _ => none
  | _, _ => none

theorem run_readCreditsKeyCacheMetadata (filePath : JsString) (s : Host π υ) :
    (readCreditsKeyCacheMetadata platform filePath).run act s =
      (match s.metadata filePath with
        | .missing => .ok none
        | .unreadable message =>
          .error (js "Failed to read key metadata at " ++ filePath ++ js ": " ++ message)
        | .contents text => some <$> metadataOfText platform filePath text, s) := by
  unfold readCreditsKeyCacheMetadata
  cases h : s.metadata filePath <;> simp [h, File.exists, File.read]

/-- The check before a write. -/
theorem run_isCreditsEntryCurrent (config : CreditsKeyPersistenceConfig π υ) (locator : JsString)
    (fingerprint : KeyFingerprint) (s : Host π υ) :
    (isCreditsEntryCurrent platform (config.paths platform locator) locator config fingerprint).run
        act s =
      ((entryOf platform config locator s).any fun entry =>
        decide (Names config locator entry.2 ∧ entry.2.prover = fingerprint ∧
          fingerprintBytes platform entry.1 = fingerprint), s) := by
  unfold isCreditsEntryCurrent entryOf
  cases hp : s.provers (config.paths platform locator).prover with
  | missing => simp [hp, File.exists]
  | unreadable message =>
    cases hm : s.metadata (config.paths platform locator).metadata with
    | missing => simp [hp, hm, File.exists]
    | unreadable message => simp [hp, hm, File.exists, run_readCreditsKeyCacheMetadata]
    | contents text =>
      cases hparse : metadataOfText platform (config.paths platform locator).metadata text with
      | error message => simp [hp, hm, hparse, File.exists, run_readCreditsKeyCacheMetadata]
      | ok metadata =>
        simp [hp, hm, hparse, File.exists, run_readCreditsKeyCacheMetadata]
        split_ifs <;> simp [hp, File.read]
  | contents bytes =>
    cases hm : s.metadata (config.paths platform locator).metadata with
    | missing => simp [hp, hm, File.exists]
    | unreadable message => simp [hp, hm, File.exists, run_readCreditsKeyCacheMetadata]
    | contents text =>
      cases hparse : metadataOfText platform (config.paths platform locator).metadata text with
      | error message => simp [hp, hm, hparse, File.exists, run_readCreditsKeyCacheMetadata]
      | ok metadata =>
        simp [hp, hm, hparse, File.exists, run_readCreditsKeyCacheMetadata, Names]
        split_ifs <;> simp_all [File.read]

/-- The check of the warm-up, and what it caches. -/
theorem run_warmupCreditsEntry (config : CreditsKeyPersistenceConfig π υ) (value : CreditsValue υ)
    (s : Host π υ) :
    (warmupCreditsEntry platform config value).run act s =
      ((), { s with cached := s.cached ++ (warmed platform config s value).toList }) := by
  obtain ⟨locator, verifyingKey⟩ := value
  cases locator with
  | none => simp [warmupCreditsEntry, warmed]
  | some locator =>
  cases verifyingKey with
  | none => simp [warmupCreditsEntry, warmed]
  | some verifyingKey =>
  unfold warmupCreditsEntry warmed accepted entryOf CreditsKeyPersistenceConfig.paths
  dsimp only
  generalize creditsCachePaths platform config.cachePath config.wasmHash config.network locator = paths
  cases hp : s.provers paths.prover with
  | missing => simp [hp, File.exists]
  | unreadable message =>
    cases hm : s.metadata paths.metadata with
    | missing => simp [hp, hm, File.exists]
    | unreadable message => simp [hp, hm, File.exists, run_readCreditsKeyCacheMetadata]
    | contents text =>
      cases hparse : metadataOfText platform paths.metadata text with
      | error message => simp [hp, hm, hparse, File.exists, run_readCreditsKeyCacheMetadata]
      | ok metadata =>
        simp [hp, hm, hparse, File.exists, run_readCreditsKeyCacheMetadata]
        split_ifs <;> simp [hp, File.read]
  | contents bytes =>
    cases hm : s.metadata paths.metadata with
    | missing => simp [hp, hm, File.exists]
    | unreadable message => simp [hp, hm, File.exists, run_readCreditsKeyCacheMetadata]
    | contents text =>
      cases hparse : metadataOfText platform paths.metadata text with
      | error message => simp [hp, hm, hparse, File.exists, run_readCreditsKeyCacheMetadata]
      | ok metadata =>
        simp [hp, hm, hparse, File.exists, run_readCreditsKeyCacheMetadata, Names]
        split_ifs <;> simp_all [File.read]
        cases config.sdk.fromBytes bytes <;> cases verifyingKey <;> simp

theorem run_warmupCreditsKeys (config : CreditsKeyPersistenceConfig π υ) (s : Host π υ) :
    (warmupCreditsKeys platform config).run act s =
      ((), { s with cached := s.cached ++
        config.sdk.CREDITS_PROGRAM_KEYS.filterMap (fun entry => warmed platform config s entry.2) }) := by
  unfold warmupCreditsKeys
  generalize config.sdk.CREDITS_PROGRAM_KEYS = entries
  -- what is cached changes no file
  suffices ∀ cached, (entries.forM fun entry => warmupCreditsEntry platform config entry.2).run act
      { s with cached } = ((), { s with cached := cached ++
        (entries.filterMap fun entry => warmed platform config s entry.2) }) from this s.cached
  induction entries with
  | nil => intro cached; simp
  | cons entry entries ih =>
    intro cached
    have hstep := run_warmupCreditsEntry platform config entry.2 { s with cached }
    show Proc.run act (warmupCreditsEntry platform config entry.2 >>= fun _ => entries.forM _) _ = _
    rw [Proc.run_bind, hstep]
    refine (ih _).trans ?_
    have hwarmed : warmed platform config { s with cached } entry.2 = warmed platform config s entry.2 :=
      rfl
    rw [hwarmed, List.filterMap_cons, List.append_assoc]
    cases warmed platform config s entry.2 <;> rfl

/-! ## Agreement -/

/-- No two of these have the same digest. -/
def CollisionFree (contents : Set Uint8Array) : Prop :=
  Set.InjOn (fun bytes : Uint8Array => platform.sha256 bytes.1) contents

/-- The prover files of a disk. -/
def Host.contents (s : Host π υ) : Set Uint8Array := { bytes | ∃ path, s.provers path = .contents bytes }

/-- Every key of the SDK has its verifying key. -/
def Sdk.HasVerifyingKeys (sdk : Sdk π υ) : Prop :=
  ∀ entry ∈ sdk.CREDITS_PROGRAM_KEYS, ∀ locator, entry.2.locator = some locator →
    ∃ verifyingKey, entry.2.verifyingKey = some (.ok verifyingKey)

/-- The warm-up caches the key of these bytes under the locator, and no other. -/
def Warms (config : CreditsKeyPersistenceConfig π υ) (locator : JsString) (bytes : Uint8Array)
    (s : Host π υ) : Prop :=
  let cached := ((warmupCreditsKeys platform config).run act { s with cached := [] }).2.cached
  (∃ keys ∈ cached, keys.locator = locator) ∧
    ∀ keys ∈ cached, keys.locator = locator → config.sdk.fromBytes bytes = .ok keys.provingKey

variable {platform}

theorem warmed_of_accepted {config : CreditsKeyPersistenceConfig π υ} {s : Host π υ}
    {value : CreditsValue υ} {keys : CachedKeys π υ} {bytes : Uint8Array}
    (hlocator : value.locator = some keys.locator)
    (hverifying : value.verifyingKey = some (.ok keys.verifyingKey))
    (h : accepted platform config keys.locator s = some bytes)
    (hkey : config.sdk.fromBytes bytes = .ok keys.provingKey) :
    warmed platform config s value = some keys := by
  simp [warmed, hlocator, hverifying, h, hkey]

theorem accepted_of_warmed {config : CreditsKeyPersistenceConfig π υ} {s : Host π υ}
    {value : CreditsValue υ} {keys : CachedKeys π υ} (h : warmed platform config s value = some keys) :
    ∃ bytes, accepted platform config keys.locator s = some bytes ∧
      config.sdk.fromBytes bytes = .ok keys.provingKey := by
  unfold warmed at h
  split at h
  · next verifyingKey _ _ =>
    obtain ⟨bytes, haccepted, h⟩ := Option.bind_eq_some_iff.mp h
    cases hkey : config.sdk.fromBytes bytes with
    | error message => simp [hkey] at h
    | ok provingKey =>
      cases verifyingKey with
      | error message => simp [hkey] at h
      | ok verifyingKey =>
        rw [hkey] at h
        cases h
        exact ⟨bytes, haccepted, hkey⟩
  · exact nomatch h

/-- An entry that is accepted is warmed. -/
theorem warms_of_accepted {config : CreditsKeyPersistenceConfig π υ} {name locator : JsString}
    {bytes : Uint8Array} {s : Host π υ} {provingKey : π}
    (hlocator : (config.sdk.CREDITS_PROGRAM_KEYS.lookup name).bind CreditsValue.locator = some locator)
    (hsdk : config.sdk.HasVerifyingKeys) (hkey : config.sdk.fromBytes bytes = .ok provingKey)
    (h : accepted platform config locator s = some bytes) : Warms platform config locator bytes s := by
  have hcached : ((warmupCreditsKeys platform config).run act { s with cached := [] }).2.cached =
      config.sdk.CREDITS_PROGRAM_KEYS.filterMap fun entry => warmed platform config s entry.2 := by
    rw [run_warmupCreditsKeys]
    rfl
  unfold Warms
  dsimp only
  rw [hcached]
  constructor
  · obtain ⟨value, hvalue, hvlocator⟩ := Option.bind_eq_some_iff.mp hlocator
    have hmem := Fallible.mem_of_lookup hvalue
    obtain ⟨verifyingKey, hverifying⟩ := hsdk _ hmem locator hvlocator
    exact ⟨⟨locator, provingKey, verifyingKey⟩, List.mem_filterMap.mpr ⟨_, hmem,
      warmed_of_accepted hvlocator hverifying h hkey⟩, rfl⟩
  · rintro keys hkeys rfl
    obtain ⟨entry, -, hwarmed⟩ := List.mem_filterMap.mp hkeys
    obtain ⟨other, hother, hprovingKey⟩ := accepted_of_warmed hwarmed
    obtain rfl : bytes = other := Option.some.inj (h.symm.trans hother)
    exact hprovingKey

/-- The metadata that a write leaves. -/
def written (platform : Platform) (config : CreditsKeyPersistenceConfig π υ) (locator : JsString)
    (bytes : Uint8Array) : CreditsKeyCacheMetadata :=
  { locator, network := config.network, wasmHash := config.wasmHash,
    prover := fingerprintBytes platform bytes }

theorem metadataOfText_written {config : CreditsKeyPersistenceConfig π υ} {locator : JsString}
    {bytes : Uint8Array} {filePath : JsString} {parsed : CreditsKeyCacheMetadata}
    (h : parseCreditsKeyCacheMetadata filePath (written platform config locator bytes).value =
      .ok parsed) :
    metadataOfText platform filePath (written platform config locator bytes).text =
      .ok (written platform config locator bytes) := by
  unfold metadataOfText
  rw [parse_text _ bytes.2]
  dsimp only
  rw [h, parse_value h]

theorem run_persistCreditsIfMissing {config : CreditsKeyPersistenceConfig π υ}
    {name locator : JsString}
    (hlocator : (config.sdk.CREDITS_PROGRAM_KEYS.lookup name).bind CreditsValue.locator = some locator)
    (hne : locator ≠ []) (bytes : Uint8Array) (s : Host π υ) :
    (persistCreditsIfMissing platform (some config) name (.ok bytes)).run act s =
      let paths := config.paths platform locator
      let provers := Function.update s.provers paths.prover (.contents bytes)
      let metadata := written platform config locator bytes
      if ((isCreditsEntryCurrent platform paths locator config
          (fingerprintBytes platform bytes)).run act s).1 then (.current, s)
      else
        match parseCreditsKeyCacheMetadata paths.metadata metadata.value with
        | .error message => (.failed message, { s with provers })
        | .ok _ => (.written, { s with
            provers, metadata := Function.update s.metadata paths.metadata (.contents metadata.text) }) := by
  obtain ⟨ch, rest, rfl⟩ := List.exists_cons_of_ne_nil hne
  have hcheck := run_isCreditsEntryCurrent platform config (ch :: rest)
    (fingerprintBytes platform bytes) s
  simp only [persistCreditsIfMissing, hlocator, CreditsKeyPersistenceConfig.paths, written] at hcheck ⊢
  simp only [Proc.run_bind, hcheck]
  split_ifs
  · rfl
  · split <;> simp_all

/-- The entry that the check finds has the bytes that would be written. -/
theorem accepted_of_current {config : CreditsKeyPersistenceConfig π υ} {locator : JsString}
    {bytes : Uint8Array} {s : Host π υ} (hfree : CollisionFree platform (insert bytes s.contents))
    (h : ((isCreditsEntryCurrent platform (config.paths platform locator) locator config
      (fingerprintBytes platform bytes)).run act s).1 = true) :
    accepted platform config locator s = some bytes := by
  rw [run_isCreditsEntryCurrent, Option.any_eq_true] at h
  obtain ⟨⟨onDisk, metadata⟩, hentry, hsame⟩ := h
  obtain ⟨hnames, hprover, honDisk⟩ := of_decide_eq_true hsame
  have hmem : onDisk ∈ s.contents := by
    unfold entryOf at hentry
    dsimp only at hentry
    split at hentry
    · next contents text hcontents htext =>
      split at hentry
      · cases hentry
        exact ⟨_, hcontents⟩
      · exact nomatch hentry
    · exact nomatch hentry
  obtain rfl : onDisk = bytes := hfree (Set.mem_insert_of_mem _ hmem) (Set.mem_insert _ _)
    (congrArg KeyFingerprint.sha256 honDisk)
  unfold accepted
  rw [hentry]
  exact if_pos ⟨hnames, honDisk.trans hprover.symm⟩

/-- The entry that a write has left. -/
theorem accepted_of_written {config : CreditsKeyPersistenceConfig π υ} {locator : JsString}
    {bytes : Uint8Array} {s : Host π υ} {parsed : CreditsKeyCacheMetadata}
    (h : parseCreditsKeyCacheMetadata (config.paths platform locator).metadata
      (written platform config locator bytes).value = .ok parsed) :
    accepted platform config locator { s with
      provers := Function.update s.provers (config.paths platform locator).prover (.contents bytes)
      metadata := Function.update s.metadata (config.paths platform locator).metadata
        (.contents (written platform config locator bytes).text) } = some bytes := by
  have hentry : entryOf platform config locator { s with
      provers := Function.update s.provers (config.paths platform locator).prover (.contents bytes)
      metadata := Function.update s.metadata (config.paths platform locator).metadata
        (.contents (written platform config locator bytes).text) } =
      some (bytes, written platform config locator bytes) := by
    unfold entryOf
    simp only [Function.update_self, metadataOfText_written h]
  unfold accepted
  rw [hentry]
  exact if_pos ⟨⟨rfl, rfl, rfl⟩, rfl⟩

/-- **The two checks agree**: whether `persistCreditsIfMissing` leaves the entry alone or writes it, the
warm-up then caches the key of the bytes that it has, or would have, written. -/
theorem persisted_warms {config : CreditsKeyPersistenceConfig π υ} {name locator : JsString}
    {bytes : Uint8Array} {s s' : Host π υ} {outcome : Persisted} {provingKey : π}
    (hlocator : (config.sdk.CREDITS_PROGRAM_KEYS.lookup name).bind CreditsValue.locator = some locator)
    (hsdk : config.sdk.HasVerifyingKeys) (hkey : config.sdk.fromBytes bytes = .ok provingKey)
    (hfree : CollisionFree platform (insert bytes s.contents))
    (hrun : (persistCreditsIfMissing platform (some config) name (.ok bytes)).run act s =
      (outcome, s')) (houtcome : outcome = .current ∨ outcome = .written) :
    Warms platform config locator bytes s' := by
  apply warms_of_accepted hlocator hsdk hkey
  by_cases hne : locator = []
  · subst hne
    have hunknown : (persistCreditsIfMissing platform (some config) name (.ok bytes)).run act s =
        (.unknown, s) := by
      unfold persistCreditsIfMissing
      simp [hlocator]
    cases hunknown.symm.trans hrun
    rcases houtcome with h | h <;> cases h
  · rw [run_persistCreditsIfMissing hlocator hne] at hrun
    dsimp only at hrun
    split at hrun
    · next hcurrent =>
      cases hrun
      exact accepted_of_current hfree hcurrent
    · split at hrun
      · cases hrun
        rcases houtcome with h | h <;> cases h
      · next hparsed =>
        cases hrun
        exact accepted_of_written hparsed

end Disk

end Lionden.Network.CreditsCache
