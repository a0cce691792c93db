import Lionden.Network.CreditsAgreement

/-!
# Writers and warm-ups at the same time

Any number of processes share the disk, each persisting a key or warming a cache, and each may stop for
good between any two of its operations. The two files of an entry may then come from different writes.

* `Inv`: every prover comes from a write or was there, all metadata come from a write, and what was
  cached is sound.
* `safe_persistCreditsIfMissing`, `safe_warmupCreditsKeys`: both programs keep it.
* `credits_cache_sound`: what is cached is what one write has written with the metadata that were
  accepted; with no one else on the disk, it is what `persistCreditsIfMissing` has, or would have,
  written.
-/

namespace Lionden.Network.CreditsCache

open Processes

variable {π υ ι : Type}

inductive Task (π υ : Type) where
  | persist (config : Option (CreditsKeyPersistenceConfig π υ)) (name : JsString)
    (bytes : Except JsString Uint8Array)
  | warmup (config : CreditsKeyPersistenceConfig π υ)

def Task.proc (platform : Platform) : Task π υ → FileProc π υ Unit
  | persist config name bytes => do
    let _ ← persistCreditsIfMissing platform config name bytes
    return ()
  | warmup config => warmupCreditsKeys platform config

abbrev History (π υ ι : Type) := List (ι × Op π υ)

/-- A write: its metadata, and the bytes of its prover. -/
abbrev Write := CreditsKeyCacheMetadata × Uint8Array

section Runs

variable (platform : Platform) (past : Set Write) (tasks : ι → Task π υ)

/-- The task persists these bytes, with these metadata. -/
def Task.Writes (task : Task π υ) (write : Write) : Prop :=
  ∃ config name locator, task = .persist (some config) name (.ok write.2) ∧
    (config.sdk.CREDITS_PROGRAM_KEYS.lookup name).bind CreditsValue.locator = some locator ∧
    write.1 = written platform config locator write.2

/-- A write of before, or one whose metadata were written, which is the last thing it does. -/
def Produced (h : History π υ ι) (write : Write) : Prop :=
  write ∈ past ∨ ∃ i path, (i, Op.replaceMetadata path write.1.text) ∈ h ∧
    (tasks i).Writes platform write

/-- The keys come from the bytes of a write whose metadata name them. -/
def Sound (h : History π υ ι) (i : ι) (keys : CachedKeys π υ) : Prop :=
  ∃ config write, tasks i = .warmup config ∧ Produced platform past tasks h write ∧
    Names config keys.locator write.1 ∧ config.sdk.fromBytes write.2 = .ok keys.provingKey

/-- All bytes that were on the disk, or that someone writes. -/
def Known (s₀ : Host π υ) : Set Uint8Array :=
  s₀.contents ∪ { bytes | ∃ metadata, (metadata, bytes) ∈ past } ∪
    { bytes | ∃ i config name, tasks i = .persist config name (.ok bytes) }

/-- Metadata come from earlier writes; the provers may be anything. -/
structure Left (s₀ : Host π υ) : Prop where
  metadata : ∀ path text, s₀.metadata path = .contents text →
    ∀ filePath metadata, metadataOfText platform filePath text = .ok metadata →
      ∃ bytes, (metadata, bytes) ∈ past
  past : ∀ write ∈ past, write.1.prover = fingerprintBytes platform write.2

structure Inv (s₀ s : Host π υ) (h : History π υ ι) : Prop where
  provers : ∀ path bytes, s.provers path = .contents bytes → bytes ∈ Known past tasks s₀
  metadata : ∀ path text, s.metadata path = .contents text →
    ∀ filePath metadata, metadataOfText platform filePath text = .ok metadata →
      ∃ bytes, Produced platform past tasks h (metadata, bytes)
  cached : ∀ i keys, (i, Op.cacheKeys keys) ∈ h → Sound platform past tasks h i keys

variable {platform past tasks} {s₀ : Host π υ} {i : ι} {h : History π υ ι}

theorem Produced.mono {h' : History π υ ι} {write : Write} (hext : h <+: h')
    (hw : Produced platform past tasks h write) : Produced platform past tasks h' write := by
  rcases hw with hw | ⟨i, path, hmem, hwrites⟩
  · exact .inl hw
  · exact .inr ⟨i, path, hext.subset hmem, hwrites⟩

theorem Sound.mono {h' : History π υ ι} {keys : CachedKeys π υ} (hext : h <+: h')
    (hs : Sound platform past tasks h i keys) : Sound platform past tasks h' i keys := by
  obtain ⟨config, write, htask, hw, hrest⟩ := hs
  exact ⟨config, write, htask, hw.mono hext, hrest⟩

theorem Produced.prover {write : Write} (hleft : Left platform past s₀)
    (hw : Produced platform past tasks h write) :
    write.1.prover = fingerprintBytes platform write.2 := by
  rcases hw with hw | ⟨i, path, -, config, name, locator, -, -, hwritten⟩
  · exact hleft.past write hw
  · rw [hwritten]
    rfl

theorem Produced.known {write : Write} (hw : Produced platform past tasks h write) :
    write.2 ∈ Known past tasks s₀ := by
  rcases hw with hw | ⟨i, path, -, config, name, locator, htask, -⟩
  · exact .inl (.inr ⟨write.1, hw⟩)
  · exact .inr ⟨i, some config, name, htask⟩

/-! ## Operations -/

/-- One more operation, which caches nothing. -/
theorem Inv.snoc {s : Host π υ} {k : Op π υ} (hinv : Inv platform past tasks s₀ s h)
    (hk : ∀ keys, k ≠ .cacheKeys keys) : Inv platform past tasks s₀ s (h ++ [(i, k)]) := by
  refine ⟨hinv.provers, fun path text htext filePath metadata hmetadata => ?_,
    fun j keys hmem => ?_⟩
  · obtain ⟨bytes, hw⟩ := hinv.metadata path text htext filePath metadata hmetadata
    exact ⟨bytes, hw.mono (List.prefix_append _ _)⟩
  · rcases List.mem_append.mp hmem with hmem | hmem
    · exact (hinv.cached j keys hmem).mono (List.prefix_append _ _)
    · cases List.mem_singleton.mp hmem
      exact absurd rfl (hk keys)

/-- The programs of a process. -/
abbrev SafeProc (platform : Platform) (past : Set Write) (tasks : ι → Task π υ) (s₀ : Host π υ)
    (i : ι) {α : Type} (Q : α → History π υ ι → Prop) (p : FileProc π υ α)
    (h : History π υ ι) : Prop :=
  Safe act (Inv platform past tasks s₀) i Q p h

theorem safe_proverExists (path : JsString) :
    SafeProc platform past tasks s₀ i (fun _ _ => True) (proverExists path) h :=
  Safe.perform fun _ _ _ hinv => ⟨hinv.snoc nofun, fun _ _ => trivial⟩

theorem safe_metadataExists (path : JsString) :
    SafeProc platform past tasks s₀ i (fun _ _ => True) (metadataExists path) h :=
  Safe.perform fun _ _ _ hinv => ⟨hinv.snoc nofun, fun _ _ => trivial⟩

theorem File.read_eq_ok {α : Type} {path : JsString} {file : File α} {a : α}
    (h : file.read path = .ok a) : file = .contents a := by
  cases file with
  | missing => exact nomatch h
  | unreadable message => exact nomatch h
  | contents b =>
    cases h
    rfl

theorem safe_readProver (path : JsString) :
    SafeProc platform past tasks s₀ i (fun read _ => ∀ bytes, read = .ok bytes →
      bytes ∈ Known past tasks s₀) (readProver path) h :=
  Safe.perform fun _ _ _ hinv => ⟨hinv.snoc nofun, fun _ _ bytes hread =>
    hinv.provers path bytes (File.read_eq_ok hread)⟩

theorem safe_readMetadata (path : JsString) :
    SafeProc platform past tasks s₀ i (fun read h => ∀ text, read = .ok text →
      ∀ filePath metadata, metadataOfText platform filePath text = .ok metadata →
        ∃ bytes, Produced platform past tasks h (metadata, bytes)) (readMetadata path) h := by
  refine Safe.perform fun s h' _ hinv => ⟨hinv.snoc nofun, fun h'' hext text hread filePath
    metadata hmetadata => ?_⟩
  obtain ⟨bytes, hw⟩ := hinv.metadata path text (File.read_eq_ok hread) filePath metadata hmetadata
  exact ⟨bytes, hw.mono ((List.prefix_append _ _).trans hext)⟩

theorem safe_writeFileAtomic {bytes : Uint8Array} (hbytes : bytes ∈ Known past tasks s₀)
    (path : JsString) :
    SafeProc platform past tasks s₀ i (fun _ _ => True) (writeFileAtomic path bytes) h := by
  refine Safe.perform fun s h' _ hinv => ⟨?_, fun _ _ => trivial⟩
  have hsnoc := hinv.snoc (i := i) (k := .replaceProver path bytes) nofun
  refine ⟨fun path' bytes' hfile => ?_, hsnoc.metadata, hsnoc.cached⟩
  by_cases hpath : path' = path
  · subst hpath
    cases (Function.update_self ..).symm.trans hfile
    exact hbytes
  · exact hinv.provers path' bytes' ((Function.update_of_ne hpath ..).symm.trans hfile)

theorem safe_writeJsonAtomic {write : Write} (hwrite : (tasks i).Writes platform write)
    (path : JsString) :
    SafeProc platform past tasks s₀ i (fun _ _ => True) (writeJsonAtomic path write.1.text) h := by
  refine Safe.perform fun s h' _ hinv => ⟨?_, fun _ _ => trivial⟩
  have hsnoc := hinv.snoc (i := i) (k := .replaceMetadata path write.1.text) nofun
  refine ⟨hsnoc.provers, fun path' text hfile filePath metadata hmetadata => ?_, hsnoc.cached⟩
  by_cases hpath : path' = path
  · subst hpath
    cases (Function.update_self ..).symm.trans hfile
    -- what is read back are the metadata of the write
    obtain ⟨config, name, locator, htask, hlocator, hwritten⟩ := hwrite
    obtain rfl : metadata = write.1 := by
      unfold metadataOfText at hmetadata
      rw [hwritten, parse_text _ write.2.2] at hmetadata
      rw [hwritten]
      exact parse_value hmetadata
    exact ⟨write.2, .inr ⟨i, path', List.mem_append_right _ (List.mem_singleton_self _),
      config, name, locator, htask, hlocator, hwritten⟩⟩
  · exact hsnoc.metadata path' text ((Function.update_of_ne hpath ..).symm.trans hfile) filePath
      metadata hmetadata

theorem safe_cacheKeys {keys : CachedKeys π υ} (hs : Sound platform past tasks h i keys) :
    SafeProc platform past tasks s₀ i (fun _ _ => True) (cacheKeys keys) h := by
  refine Safe.perform fun s h' hext hinv => ⟨⟨hinv.provers, ?_, fun j keys' hmem => ?_⟩,
    fun _ _ => trivial⟩
  · intro path text htext filePath metadata hmetadata
    obtain ⟨bytes, hw⟩ := hinv.metadata path text htext filePath metadata hmetadata
    exact ⟨bytes, hw.mono (List.prefix_append _ _)⟩
  · rcases List.mem_append.mp hmem with hmem | hmem
    · exact (hinv.cached j keys' hmem).mono (List.prefix_append _ _)
    · cases List.mem_singleton.mp hmem
      exact hs.mono (hext.trans (List.prefix_append _ _))

/-! ## Programs -/

theorem safe_pure {α : Type} (a : α) :
    SafeProc platform past tasks s₀ i (fun _ _ => True) (pure a) h :=
  Safe.ret fun _ _ => trivial

theorem safe_readCreditsKeyCacheMetadata (filePath : JsString) :
    SafeProc platform past tasks s₀ i (fun read h => ∀ metadata, read = .ok (some metadata) →
      ∃ bytes, Produced platform past tasks h (metadata, bytes))
      (readCreditsKeyCacheMetadata platform filePath) h := by
  unfold readCreditsKeyCacheMetadata
  refine (safe_metadataExists filePath).bind fun there h' _ _ => ?_
  split
  · exact Safe.ret nofun
  refine (safe_readMetadata filePath).bind fun read h'' _ hread => ?_
  split
  · exact Safe.ret nofun
  · next text =>
    refine Safe.ret fun h₃ hext metadata hmetadata => ?_
    obtain ⟨parsed, hparsed, hsome⟩ := Fallible.map_ok.mp hmetadata
    cases hsome
    obtain ⟨bytes, hw⟩ := hread text rfl filePath metadata hparsed
    exact ⟨bytes, hw.mono hext⟩

theorem safe_isCreditsEntryCurrent (paths : Paths) (locator : JsString)
    (config : CreditsKeyPersistenceConfig π υ) (fingerprint : KeyCache.KeyFingerprint) :
    SafeProc platform past tasks s₀ i (fun _ _ => True)
      (isCreditsEntryCurrent platform paths locator config fingerprint) h := by
  unfold isCreditsEntryCurrent
  refine (safe_proverExists paths.prover).bind fun there h₁ _ _ => ?_
  split
  · exact safe_pure _
  refine (safe_metadataExists paths.metadata).bind fun there h₂ _ _ => ?_
  split
  · exact safe_pure _
  refine (safe_readCreditsKeyCacheMetadata paths.metadata).bind fun read h₃ _ _ => ?_
  split
  · exact safe_pure _
  · exact safe_pure _
  · split_ifs
    · exact safe_pure _
    · exact safe_pure _
    · exact safe_pure _
    · exact safe_pure _
    · refine (safe_readProver paths.prover).bind fun onDisk h₄ _ _ => ?_
      split <;> exact safe_pure _

theorem safe_persistCreditsIfMissing {config : Option (CreditsKeyPersistenceConfig π υ)}
    {name : JsString} {bytes : Except JsString Uint8Array}
    (htask : tasks i = .persist config name bytes) :
    SafeProc platform past tasks s₀ i (fun _ _ => True)
      (persistCreditsIfMissing platform config name bytes) h := by
  unfold persistCreditsIfMissing
  split
  · exact safe_pure _
  next config =>
  split
  · exact safe_pure _
  · exact safe_pure _
  next locator _ hlocator =>
  dsimp only
  split
  · exact safe_pure _
  next bytes =>
  refine (safe_isCreditsEntryCurrent _ _ _ _).bind fun current h₁ _ _ => ?_
  split
  · exact safe_pure _
  refine (safe_writeFileAtomic (.inr ⟨i, some config, name, htask⟩) _).bind fun _ h₂ _ _ => ?_
  split
  · exact safe_pure _
  have hwrite : (tasks i).Writes platform (written platform config locator bytes, bytes) :=
    ⟨config, name, locator, htask, hlocator, rfl⟩
  exact (safe_writeJsonAtomic hwrite _).bind fun _ _ _ _ => safe_pure _

theorem safe_warmupCreditsEntry {config : CreditsKeyPersistenceConfig π υ}
    (htask : tasks i = .warmup config) (hleft : Left platform past s₀)
    (hfree : CollisionFree platform (Known past tasks s₀)) (value : CreditsValue υ) :
    SafeProc platform past tasks s₀ i (fun _ _ => True)
      (warmupCreditsEntry platform config value) h := by
  unfold warmupCreditsEntry
  split
  · next locator verifyingKey _ _ =>
    dsimp only
    refine (safe_proverExists _).bind fun there h₁ _ _ => ?_
    split
    · exact safe_pure _
    refine (safe_metadataExists _).bind fun there h₂ _ _ => ?_
    split
    · exact safe_pure _
    refine (safe_readCreditsKeyCacheMetadata _).bind fun read h₃ _ hread => ?_
    split
    · exact safe_pure _
    · exact safe_pure _
    next metadata =>
    split_ifs with hlocator hnetwork hwasmHash
    · exact safe_pure _
    · exact safe_pure _
    · exact safe_pure _
    refine (safe_readProver _).bind fun read h₄ hext hbytes => ?_
    split
    · exact safe_pure _
    next bytes =>
    split_ifs with hdigest
    · exact safe_pure _
    split
    · next provingKey verifyingKey hkey _ =>
      refine safe_cacheKeys ?_
      obtain ⟨produced, hw⟩ := hread metadata rfl
      -- the digest is that of the write's bytes, so the bytes are the write's
      have hsame : fingerprintBytes platform bytes = fingerprintBytes platform produced :=
        (not_not.mp hdigest).trans (hw.prover hleft)
      obtain rfl : bytes = produced :=
        hfree (hbytes bytes rfl) hw.known (congrArg (·.sha256) hsame)
      exact ⟨config, (metadata, bytes), htask, hw.mono hext,
        ⟨not_not.mp hlocator, not_not.mp hnetwork, not_not.mp hwasmHash⟩, hkey⟩
    · exact safe_pure _
  · exact safe_pure _

theorem safe_warmupCreditsKeys {config : CreditsKeyPersistenceConfig π υ}
    (htask : tasks i = .warmup config) (hleft : Left platform past s₀)
    (hfree : CollisionFree platform (Known past tasks s₀)) :
    SafeProc platform past tasks s₀ i (fun _ _ => True) (warmupCreditsKeys platform config) h := by
  unfold warmupCreditsKeys
  generalize config.sdk.CREDITS_PROGRAM_KEYS = entries
  induction entries generalizing h with
  | nil => exact safe_pure _
  | cons entry entries ih =>
    exact (safe_warmupCreditsEntry htask hleft hfree entry.2).bind fun _ _ _ _ => ih

/-! ## Runs -/

theorem Left.inv (hleft : Left platform past s₀) : Inv platform past tasks s₀ s₀ [] := by
  refine ⟨fun path bytes hfile => .inl (.inl ⟨path, hfile⟩), ?_, nofun⟩
  intro path text htext filePath metadata hmetadata
  obtain ⟨bytes, hw⟩ := hleft.metadata path text htext filePath metadata hmetadata
  exact ⟨bytes, .inl hw⟩

theorem Task.safe (hleft : Left platform past s₀)
    (hfree : CollisionFree platform (Known past tasks s₀)) (i : ι) :
    SafeProc platform past tasks s₀ i (fun _ _ => True) ((tasks i).proc platform) [] := by
  cases htask : tasks i with
  | persist config name bytes =>
    exact (safe_persistCreditsIfMissing htask).bind fun _ _ _ _ => safe_pure _
  | warmup config => exact safe_warmupCreditsKeys htask hleft hfree

variable [DecidableEq ι]

/-- Whatever order the operations come in, what was cached is sound. -/
theorem cached_sound (hleft : Left platform past s₀)
    (hfree : CollisionFree platform (Known past tasks s₀)) (schedule : List ι) :
    let s := Trace.exec (System.step act) (System.start s₀ fun i => (tasks i).proc platform) schedule
    ∀ i keys, (i, Op.cacheKeys keys) ∈ s.history →
      Sound platform past tasks s.history i keys := by
  have hstart : System.Holds act (Inv platform past tasks s₀) (fun _ _ _ => True)
      (System.start s₀ fun i => (tasks i).proc platform) :=
    ⟨hleft.inv, Task.safe hleft hfree⟩
  exact (hstart.exec schedule).1.cached

end Runs

/-- **Persistence and warm-up agree**: on every disk, if `persistCreditsIfMissing` leaves the entry
alone or writes it without interruption, the warm-up then caches the key of the bytes that it has, or
would have, written; and in any interleaving of writers and warm-ups, each of which may stop anywhere,
what a warm-up caches are the bytes of a write that wrote the metadata which it accepted. -/
theorem credits_cache_sound (platform : Platform) :
    (∀ (config : CreditsKeyPersistenceConfig π υ) (name locator : JsString) (bytes : Uint8Array)
        (s s' : Host π υ) (outcome : Persisted) (provingKey : π),
      (config.sdk.CREDITS_PROGRAM_KEYS.lookup name).bind CreditsValue.locator = some locator →
      config.sdk.HasVerifyingKeys → config.sdk.fromBytes bytes = .ok provingKey →
      CollisionFree platform (insert bytes s.contents) →
      (persistCreditsIfMissing platform (some config) name (.ok bytes)).run act s = (outcome, s') →
      outcome = .current ∨ outcome = .written → Warms platform config locator bytes s') ∧
    ∀ {ι : Type} [DecidableEq ι] (past : Set Write) (tasks : ι → Task π υ) (s₀ : Host π υ),
      Left platform past s₀ → CollisionFree platform (Known past tasks s₀) →
      ∀ schedule : List ι,
        let s := Trace.exec (System.step act) (System.start s₀ fun i => (tasks i).proc platform)
          schedule
        ∀ i keys, (i, Op.cacheKeys keys) ∈ s.history →
          Sound platform past tasks s.history i keys :=
  ⟨fun _ _ _ _ _ _ _ _ hlocator hsdk hkey hfree hrun houtcome =>
    persisted_warms hlocator hsdk hkey hfree hrun houtcome,
    fun _ _ _ hleft hfree schedule => cached_sound hleft hfree schedule⟩

/-! ## Two writers and a warm-up -/

def firstByte : Platform where
  sha256 bytes := List.replicate 64 (digitUnit (bytes.headD 0).toNat)
  pathJoin := join (js "/")
  syntaxError _ := js "Unexpected token"

/-- An SDK with one key, whose proving keys are their bytes. -/
def bondSdk : Sdk Uint8Array Unit where
  CREDITS_PROGRAM_KEYS :=
    [(js "bond_public", { locator := some (js "credits.aleo/bond_public"), verifyingKey := some (.ok ()) }),
      (js "getKey", { locator := none, verifyingKey := none })]
  fromBytes := .ok

def bondConfig : CreditsKeyPersistenceConfig Uint8Array Unit where
  sdk := bondSdk
  cachePath := js ".cache"
  network := js "testnet"
  wasmHash := js "0"

def noFiles : Host Uint8Array Unit where
  provers _ := .missing
  metadata _ := .missing
  cached := []

/-- Two writers of the same entry, and a warm-up. -/
def bondTasks : Option Bool → Task Uint8Array Unit
  | none => .warmup bondConfig
  | some second =>
    .persist (some bondConfig) (js "bond_public") (.ok ⟨[if second then 2 else 1], by simp⟩)

theorem noFiles_contents : noFiles.contents = ∅ :=
  Set.eq_empty_of_forall_notMem fun _ ⟨_, h⟩ => nomatch h

theorem bondTasks_collisionFree : CollisionFree firstByte (Known ∅ bondTasks noFiles) := by
  have hknown : ∀ bytes ∈ Known ∅ bondTasks noFiles, bytes.1 = [1] ∨ bytes.1 = [2] := by
    rintro bytes ((hdisk | ⟨_, hpast⟩) | ⟨i, config, name, htask⟩)
    · rw [noFiles_contents] at hdisk
      exact absurd hdisk (Set.notMem_empty _)
    · exact absurd hpast (Set.notMem_empty _)
    · rcases i with - | - | -
      · exact nomatch htask
      · cases htask
        exact .inl rfl
      · cases htask
        exact .inr rfl
  intro a ha b hb h
  apply Subtype.ext
  rcases hknown a ha with ha | ha <;> rcases hknown b hb with hb | hb <;> rw [ha, hb]
  all_goals
    simp only [ha, hb] at h
    exact absurd h (by decide)

def firstBytes : Uint8Array := ⟨[1], by simp⟩

def persistBond (s : Host Uint8Array Unit) : Persisted × Host Uint8Array Unit :=
  (persistCreditsIfMissing firstByte (some bondConfig) (js "bond_public") (.ok firstBytes)).run act s

theorem persistBond_contents :
    ∀ bytes ∈ (persistBond noFiles).2.contents, bytes = firstBytes := by
  rintro bytes ⟨path, h⟩
  change Function.update noFiles.provers _ (.contents firstBytes) path = .contents bytes at h
  rw [Function.update_apply] at h
  split at h
  · exact (File.contents.inj h).symm
  · cases h

/-- The key is written, the next time left alone, and cached both times. -/
theorem credits_cache_sound_bond :
    ((persistBond noFiles).1 = .written ∧
      Warms firstByte bondConfig (js "credits.aleo/bond_public") firstBytes (persistBond noFiles).2) ∧
    ((persistBond (persistBond noFiles).2).1 = .current ∧
      Warms firstByte bondConfig (js "credits.aleo/bond_public") firstBytes
        (persistBond (persistBond noFiles).2).2) ∧
    ∀ schedule : List (Option Bool),
      let s := Trace.exec (System.step act)
        (System.start noFiles fun i => (bondTasks i).proc firstByte) schedule
      ∀ i keys, (i, Op.cacheKeys keys) ∈ s.history →
        Sound firstByte ∅ bondTasks s.history i keys := by
  have hlocator : (bondSdk.CREDITS_PROGRAM_KEYS.lookup (js "bond_public")).bind
      CreditsValue.locator = some (js "credits.aleo/bond_public") := by decide
  have hsdk : bondSdk.HasVerifyingKeys := by
    intro entry hentry locator hentryLocator
    rcases List.mem_cons.mp hentry with rfl | hentry
    · exact ⟨(), rfl⟩
    · cases List.mem_singleton.mp hentry
      exact nomatch hentryLocator
  have hfirst : (persistBond noFiles).1 = .written := rfl
  have hagain : (persistBond (persistBond noFiles).2).1 = .current := by decide +kernel
  obtain ⟨halone, htogether⟩ := credits_cache_sound (π := Uint8Array) (υ := Unit) firstByte
  refine ⟨⟨hfirst, ?_⟩, ⟨hagain, ?_⟩, htogether ∅ bondTasks noFiles ⟨nofun, nofun⟩
    bondTasks_collisionFree⟩
  · refine halone bondConfig (js "bond_public") _ _ noFiles _ _ _ hlocator hsdk rfl ?_ rfl (.inr hfirst)
    rw [noFiles_contents]
    simp [CollisionFree]
  · refine halone bondConfig (js "bond_public") _ _ (persistBond noFiles).2
      (persistBond (persistBond noFiles).2).2 (persistBond (persistBond noFiles).2).1 _ hlocator hsdk
      rfl ?_ Prod.mk.eta.symm (.inl hagain)
    have hone : ∀ bytes ∈ insert firstBytes (persistBond noFiles).2.contents, bytes = firstBytes :=
      fun bytes hbytes => hbytes.elim id (persistBond_contents bytes)
    intro a ha b hb _
    rw [hone a ha, hone b hb]

end Lionden.Network.CreditsCache
