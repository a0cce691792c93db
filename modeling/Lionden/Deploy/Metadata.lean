import Mathlib.Logic.Function.Basic
import Lionden.Js.Text
import Lionden.Lib.Trace

/-!
# Network metadata

The directory of a network has the endpoint and the network id that it belongs to in `.network.json`.
The manager compares them with its configuration when it reads state, and remembers that it did; it
writes the file with the first record.

* `validateHttpMetadata`, `writeRecord`: the check, and the part of `record()` that writes.
* `Unmixed`: every record was written under the configuration that the directory has.
* `Own`, `InOrder`: which processes have written since the directory was checked, founded or deleted.
* `unmixed_iff`: the records are unmixed in every state of a run if and only if its writes are in order.
-/

namespace Lionden.Deploy.Metadata

inductive NetworkType where
  | http
  | devnode
  deriving DecidableEq

/-- What a chain is known by: the network id and the endpoint of the node. -/
structure ChainIdentity where
  networkId : JsString
  endpoint : JsString
  deriving DecidableEq

/-- The configuration of a network. -/
structure NetworkConfig where
  type : NetworkType
  identity : ChainIdentity
  ephemeral : Option Bool
  deriving DecidableEq

def NetworkConfig.isEphemeral (c : NetworkConfig) : Bool := c.ephemeral.getD (c.type = .devnode)

structure NetworkMetadata where
  type : NetworkType
  identity : ChainIdentity
  deriving DecidableEq

inductive MetadataFile where
  | missing
  | unreadable
  | json (metadata : NetworkMetadata)

def readNetworkMetadata : MetadataFile → Option NetworkMetadata
  | .missing | .unreadable => none
  | .json metadata => some metadata

/-- A record file: the configuration of the process that wrote it, and the metadata that the directory
had then. -/
structure RecordFile where
  config : NetworkConfig
  metadata : Option NetworkMetadata

/-- `deployments/<network>/`, with a record file for each program. -/
structure Directory where
  metadata : MetadataFile
  records : List (JsString × RecordFile)

def Directory.empty : Directory := ⟨.missing, []⟩

/-- A manager; `metadataValidated` says whether it has found the metadata to match. -/
structure Manager where
  config : NetworkConfig
  metadataValidated : Bool

/-! ## The operations -/

def typeName : NetworkType → JsString
  | .http => js "http"
  | .devnode => js "devnode"

def mismatch (network : JsString) (config : ChainIdentity) (metadata : NetworkMetadata) : JsString :=
  js "Network metadata mismatch for \"" ++ network ++ js "\": config says type=http, networkId=" ++
    config.networkId ++ js ", endpoint=" ++ config.endpoint ++
    js " but deployments/.network.json says type=" ++ typeName metadata.type ++ js ", networkId=" ++
    metadata.identity.networkId ++ js ", endpoint=" ++ metadata.identity.endpoint ++
    js ". This may mean the network was reconfigured. Delete deployments/" ++ network ++
    js "/ to reset."

def unverifiable (network : JsString) : JsString :=
  js "Deployment records exist for \"" ++ network ++ js "\" but .network.json is missing. " ++
    js "This state is unverifiable. Delete deployments/" ++ network ++
    js "/ and re-deploy, or create .network.json manually."

def validateHttpMetadata (network : JsString) (m : Manager) (d : Directory) :
    Except JsString Manager :=
  if m.metadataValidated then .ok m
  else match m.config.type with
    | .devnode => .ok m
    | .http =>
      match readNetworkMetadata d.metadata with
      | some metadata =>
        if metadata.type ≠ .http ∨ metadata.identity.networkId ≠ m.config.identity.networkId ∨
            metadata.identity.endpoint ≠ m.config.identity.endpoint then
          .error (mismatch network m.config.identity metadata)
        else .ok { m with metadataValidated := true }
      | none =>
        if 0 < d.records.length then .error (unverifiable network)
        else .ok { m with metadataValidated := true }

/-- The start of `record()`: the metadata of a directory that has none. -/
def writeMetadata (m : Manager) (d : Directory) : Manager × Directory :=
  match m.config.type, readNetworkMetadata d.metadata with
  | .http, none =>
    ({ m with metadataValidated := true },
      { d with metadata := .json ⟨.http, m.config.identity⟩ })
  | _, _ => (m, d)

/-- `writeDeploymentRecord`, by a process of this configuration. -/
def writeRecord (config : NetworkConfig) (p : JsString) (d : Directory) : Directory :=
  { d with records := (p, ⟨config, readNetworkMetadata d.metadata⟩) ::
    d.records.filter (fun f => f.1 ≠ p) }

/-- The writes of `record()`; an interrupted one ends before the record. -/
def record (m : Manager) (p : JsString) (interrupted : Bool) (d : Directory) : Manager × Directory :=
  if m.config.isEphemeral then (m, d)
  else
    let (m', d') := writeMetadata m d
    (m', if interrupted then d' else writeRecord m.config p d')

/-! ## Runs -/

/-- What happens around the directory of a network. -/
inductive Event where
  /-- The process `i` makes a manager, with the configuration of the moment. -/
  | start (i : Nat) (config : NetworkConfig)
  /-- A read that validates the metadata first. -/
  | validate (i : Nat)
  | record (i : Nat) (p : JsString) (interrupted : Bool)
  | invalidateSession (i : Nat)
  /-- The metadata file is deleted or damaged. -/
  | loseMetadata (file : MetadataFile) (h : readNetworkMetadata file = none)
  | deleteDirectory

/-- The directory of a network, and the managers of the processes. -/
structure System where
  directory : Directory
  managers : Nat → Option Manager

def System.new : System := ⟨.empty, fun _ => none⟩

def System.step (network : JsString) (s : System) : Event → System
  | .start i config => { s with managers := Function.update s.managers i (some ⟨config, false⟩) }
  | .validate i =>
    match s.managers i with
    | none => s
    | some m =>
      match validateHttpMetadata network m s.directory with
      | .ok m' => { s with managers := Function.update s.managers i (some m') }
      | .error _ => s
  | .record i p interrupted =>
    match s.managers i with
    | none => s
    | some m =>
      let (m', d) := record m p interrupted s.directory
      ⟨d, Function.update s.managers i (some m')⟩
  | .invalidateSession i =>
    let manager := (s.managers i).map fun m => { m with metadataValidated := false }
    { s with managers := Function.update s.managers i manager }
  | .loseMetadata file _ => { s with directory := { s.directory with metadata := file } }
  | .deleteDirectory => { s with directory := .empty }

/-! ## When chains are not mixed -/

/-- **The property**: a record was written while the configuration equalled the metadata of the
directory, and equals it still if that can be read. -/
def Unmixed (d : Directory) : Prop :=
  ∀ f ∈ d.records, f.2.metadata.map (·.identity) = some f.2.config.identity ∧
    ∀ metadata, readNetworkMetadata d.metadata = some metadata →
      metadata.identity = f.2.config.identity

/-- When `record()` mixes nothing, for a network with files: metadata that can be read has the
configured identity; where there is none, the network is an HTTP network, and the other records were
written under the configured identity. -/
def MayRecord (config : NetworkConfig) (p : JsString) (interrupted : Bool) (d : Directory) : Prop :=
  config.isEphemeral = false → match readNetworkMetadata d.metadata with
    | some metadata => interrupted = false → metadata.identity = config.identity
    | none => (interrupted = false → config.type = .http) ∧
        (config.type = .http → ∀ f ∈ d.records, (interrupted = false → f.1 ≠ p) →
          f.2.config.identity = config.identity)

theorem Unmixed.empty : Unmixed .empty := nofun

/-- Metadata that cannot be read contradicts no record. -/
theorem Unmixed.lose {d : Directory} (h : Unmixed d) {file : MetadataFile}
    (hfile : readNetworkMetadata file = none) : Unmixed { d with metadata := file } := by
  intro f hf
  refine ⟨(h f hf).1, fun metadata hread => ?_⟩
  rw [show readNetworkMetadata file = some metadata from hread] at hfile
  exact nomatch hfile

/-- New metadata of a directory without any. -/
theorem unmixed_metadata_iff {d : Directory} (h : Unmixed d) (identity : ChainIdentity) :
    Unmixed { d with metadata := .json ⟨.http, identity⟩ } ↔
      ∀ f ∈ d.records, f.2.config.identity = identity := by
  constructor
  · intro hd f hf
    exact ((hd f hf).2 _ rfl).symm
  · intro hd f hf
    refine ⟨(h f hf).1, ?_⟩
    rintro _ ⟨rfl⟩
    exact (hd f hf).symm

/-- A new record of a directory with metadata. -/
theorem unmixed_writeRecord_iff {d : Directory} {config : NetworkConfig} {p : JsString}
    {metadata : NetworkMetadata} (hread : readNetworkMetadata d.metadata = some metadata) :
    Unmixed (writeRecord config p d) ↔ metadata.identity = config.identity ∧
      ∀ f ∈ d.records, f.1 ≠ p → f.2.metadata.map (·.identity) = some f.2.config.identity ∧
        metadata.identity = f.2.config.identity := by
  unfold writeRecord Unmixed
  rw [hread]
  simp only [List.forall_mem_cons, List.mem_filter, decide_eq_true_eq, Option.some_inj,
    forall_eq', Option.map_some, and_imp]
  grind

/-- A new record of a directory without metadata is mixed. -/
theorem not_unmixed_writeRecord {d : Directory} {config : NetworkConfig} {p : JsString}
    (hread : readNetworkMetadata d.metadata = none) : ¬Unmixed (writeRecord config p d) := by
  intro h
  have hnew := (h (p, ⟨config, readNetworkMetadata d.metadata⟩) List.mem_cons_self).1
  rw [hread] at hnew
  exact nomatch hnew

theorem record_unmixed_iff {m : Manager} {p : JsString} {interrupted : Bool} {d : Directory}
    (h : Unmixed d) :
    Unmixed (record m p interrupted d).2 ↔ MayRecord m.config p interrupted d := by
  unfold MayRecord
  by_cases hephemeral : m.config.isEphemeral = true
  · rw [record, if_pos hephemeral]
    simp [h, hephemeral]
  rw [record, if_neg hephemeral]
  simp only [Bool.not_eq_true] at hephemeral
  rw [hephemeral]
  cases hread : readNetworkMetadata d.metadata with
  | some metadata =>
    have hwrite : writeMetadata m d = (m, d) := by
      unfold writeMetadata
      rw [hread]
      cases m.config.type <;> rfl
    rw [hwrite]
    cases interrupted with
    | true => simpa using h
    | false =>
      show Unmixed (writeRecord m.config p d) ↔ _
      rw [unmixed_writeRecord_iff hread]
      have hold : ∀ f ∈ d.records, f.1 ≠ p →
          f.2.metadata.map (·.identity) = some f.2.config.identity ∧
            metadata.identity = f.2.config.identity := fun f hf _ => ⟨(h f hf).1, (h f hf).2 _ hread⟩
      exact ⟨fun hmatch _ _ => hmatch.1, fun hmatch => ⟨hmatch rfl rfl, hold⟩⟩
  | none =>
    cases htype : m.config.type with
    | devnode =>
      have hwrite : writeMetadata m d = (m, d) := by
        unfold writeMetadata
        rw [htype]
      rw [hwrite]
      cases interrupted with
      | true => simpa using h
      | false =>
        show Unmixed (writeRecord m.config p d) ↔ _
        simp [not_unmixed_writeRecord hread]
    | http =>
      have hwrite : writeMetadata m d = ({ m with metadataValidated := true },
          { d with metadata := .json ⟨.http, m.config.identity⟩ }) := by
        unfold writeMetadata
        rw [hread, htype]
      rw [hwrite]
      cases interrupted with
      | true =>
        show Unmixed { d with metadata := .json ⟨.http, m.config.identity⟩ } ↔ _
        rw [unmixed_metadata_iff h]
        simp
      | false =>
        show Unmixed (writeRecord m.config p { d with metadata := .json ⟨.http, m.config.identity⟩ }) ↔ _
        rw [unmixed_writeRecord_iff rfl]
        constructor
        · intro hrecords
          refine fun _ => ⟨fun _ => rfl, fun _ f hf hne => ?_⟩
          exact (hrecords.2 f hf (hne rfl)).2.symm
        · intro hmay
          refine ⟨rfl, fun f hf hne => ⟨(h f hf).1, ?_⟩⟩
          exact ((hmay rfl).2 rfl f hf fun _ => hne).symm

/-- When an event mixes nothing. -/
def MayHappen (s : System) : Event → Prop
  | .record i p interrupted => ∀ m, s.managers i = some m →
      MayRecord m.config p interrupted s.directory
  | _ => True

theorem step_unmixed_iff (network : JsString) (s : System) (event : Event)
    (h : Unmixed s.directory) :
    Unmixed (s.step network event).directory ↔ MayHappen s event := by
  cases event with
  | start i config => exact iff_true_intro h
  | validate i =>
    refine iff_true_intro ?_
    unfold System.step
    dsimp only
    split
    · exact h
    · split
      · exact h
      · exact h
  | record i p interrupted =>
    cases hm : s.managers i with
    | none =>
      have hstep : s.step network (.record i p interrupted) = s := by simp only [System.step, hm]
      rw [hstep]
      simp [MayHappen, hm, h]
    | some m =>
      have hstep : (s.step network (.record i p interrupted)).directory =
          (record m p interrupted s.directory).2 := by simp only [System.step, hm]
      rw [hstep, record_unmixed_iff h]
      simp [MayHappen, hm]
  | invalidateSession i => exact iff_true_intro h
  | loseMetadata file hfile => exact iff_true_intro (h.lose hfile)
  | deleteDirectory => exact iff_true_intro .empty

/-! ## Who writes, and after which check -/

/-- The event is a `record()` by a process of this configuration, and writes: the record file, or the
metadata where none can be read. -/
def System.Writes (s : System) (config : NetworkConfig) : Event → Prop
  | .record i _ interrupted => ∃ m, s.managers i = some m ∧ m.config = config ∧
      config.isEphemeral = false ∧ (interrupted = true →
        config.type = .http ∧ readNetworkMetadata s.directory.metadata = none)
  | _ => False

/-- The directory has neither metadata that can be read, nor a record that stays. -/
def System.Founds (s : System) : Event → Prop
  | .record _ p interrupted => readNetworkMetadata s.directory.metadata = none ∧
      ∀ f ∈ s.directory.records, interrupted = false ∧ f.1 = p
  | _ => False

/-- A process of this network id and endpoint checks the metadata, and does not throw. -/
def System.Checks (network : JsString) (s : System) (identity : ChainIdentity) : Event → Prop
  | .validate i => ∃ m m', s.managers i = some m ∧ m.config.type = .http ∧
      m.config.identity = identity ∧ m.metadataValidated = false ∧
      validateHttpMetadata network m s.directory = .ok m'
  | _ => False

/-- From the events before on, only processes of one network id and endpoint have written: since the
directory was new or deleted, since one of them founded it, or since one of them checked it. -/
inductive Own (network : JsString) (identity : ChainIdentity) : List Event → Prop where
  | new : Own network identity []
  | deleted (history : List Event) : Own network identity (history ++ [.deleteDirectory])
  | founds {history : List Event} {e : Event} {config : NetworkConfig}
      (hw : (Trace.exec (System.step network) .new history).Writes config e)
      (hidentity : config.identity = identity)
      (hf : (Trace.exec (System.step network) .new history).Founds e) :
      Own network identity (history ++ [e])
  | checks {history : List Event} {e : Event}
      (h : (Trace.exec (System.step network) .new history).Checks network identity e) :
      Own network identity (history ++ [e])
  | next {history : List Event} {e : Event} (h : Own network identity history)
      (hw : ∀ config, (Trace.exec (System.step network) .new history).Writes config e →
        config.identity = identity) : Own network identity (history ++ [e])

/-- **The condition of a write**, on the events before it. -/
def InOrder (network : JsString) (history : List Event) (e : Event) : Prop :=
  ∀ config, (Trace.exec (System.step network) .new history).Writes config e →
    (config.type = .devnode → ∃ metadata, readNetworkMetadata
      (Trace.exec (System.step network) .new history).directory.metadata = some metadata) ∧
    ((Trace.exec (System.step network) .new history).Founds e ∨
      Own network config.identity history)

theorem writes_unique {s : System} {config config' : NetworkConfig} {e : Event}
    (h : s.Writes config e) (h' : s.Writes config' e) : config = config' := by
  cases e with
  | record i p interrupted =>
    obtain ⟨m, hm, rfl, -⟩ := h
    obtain ⟨m', hm', rfl, -⟩ := h'
    rw [Option.some.inj (hm.symm.trans hm')]
  | start | validate | invalidateSession | loseMetadata | deleteDirectory => exact absurd h id

/-- All that the directory has is of one chain. -/
structure Directory.Of (d : Directory) (identity : ChainIdentity) : Prop where
  metadata : ∀ metadata, readNetworkMetadata d.metadata = some metadata →
    metadata.identity = identity
  records : ∀ f ∈ d.records, f.2.config.identity = identity

/-- Nothing that the directory has is of this chain. -/
structure Directory.Foreign (d : Directory) (identity : ChainIdentity) : Prop where
  metadata : ∀ metadata, readNetworkMetadata d.metadata = some metadata →
    metadata.identity ≠ identity
  records : ∀ f ∈ d.records, f.2.config.identity ≠ identity

theorem Directory.Of.foreign {d : Directory} {one other : ChainIdentity} (h : d.Of one)
    (hne : one ≠ other) : d.Foreign other where
  metadata metadata hread := by
    rw [h.metadata metadata hread]
    exact hne
  records f hf := by
    rw [h.records f hf]
    exact hne

/-- A check that does not throw: the directory has nothing of another chain. -/
theorem of_validated {network : JsString} {m m' : Manager} {d : Directory} (hd : Unmixed d)
    (hunchecked : m.metadataValidated = false) (htype : m.config.type = .http)
    (h : validateHttpMetadata network m d = .ok m') : d.Of m.config.identity := by
  unfold validateHttpMetadata at h
  rw [hunchecked, htype] at h
  simp only [Bool.false_eq_true, if_false] at h
  cases hread : readNetworkMetadata d.metadata with
  | some metadata =>
    rw [hread] at h
    dsimp only at h
    split at h
    · exact absurd h (by simp)
    · next hmatch =>
      push Not at hmatch
      have hidentity : metadata.identity = m.config.identity := by
        cases hi : metadata.identity
        cases hc : m.config.identity
        simp_all
      refine ⟨fun metadata' hread' => ?_, fun f hf => ?_⟩
      · rw [hread] at hread'
        rw [← Option.some.inj hread']
        exact hidentity
      · rw [← (hd f hf).2 metadata hread]
        exact hidentity
  | none =>
    rw [hread] at h
    dsimp only at h
    split at h
    · exact absurd h (by simp)
    · next hempty =>
      have hnil : d.records = [] := List.length_eq_zero_iff.mp (by omega)
      refine ⟨fun metadata' hread' => ?_, fun f hf => ?_⟩
      · rw [hread] at hread'
        exact absurd hread' (by simp)
      · rw [hnil] at hf
        exact absurd hf List.not_mem_nil

/-- After a write that mixes nothing, the directory is that of the writer. -/
theorem of_writes {network : JsString} {s : System} {config : NetworkConfig} {e : Event}
    (hw : s.Writes config e) (h : Unmixed (s.step network e).directory) :
    (s.step network e).directory.Of config.identity := by
  suffices ∃ metadata, readNetworkMetadata (s.step network e).directory.metadata = some metadata ∧
      metadata.identity = config.identity by
    obtain ⟨metadata, hread, hidentity⟩ := this
    refine ⟨fun metadata' hread' => ?_, fun f hf => ?_⟩
    · rw [hread] at hread'
      rw [← Option.some.inj hread']
      exact hidentity
    · rw [← (h f hf).2 metadata hread]
      exact hidentity
  cases e with
  | record i p interrupted =>
    obtain ⟨m, hm, rfl, hfiles, hmissing⟩ := hw
    have hstep : (s.step network (.record i p interrupted)).directory =
        (record m p interrupted s.directory).2 := by simp only [System.step, hm]
    rw [hstep] at h ⊢
    have hrecord : (record m p interrupted s.directory).2 = if interrupted = true
        then (writeMetadata m s.directory).2
        else writeRecord m.config p (writeMetadata m s.directory).2 := by
      rw [record, if_neg (by simp [hfiles])]
    rw [hrecord] at h ⊢
    cases interrupted with
    | true =>
      obtain ⟨htype, hread⟩ := hmissing rfl
      have hwrite : (writeMetadata m s.directory).2 =
          { s.directory with metadata := .json ⟨.http, m.config.identity⟩ } := by
        unfold writeMetadata
        rw [htype, hread]
      rw [if_pos rfl, hwrite]
      exact ⟨_, rfl, rfl⟩
    | false =>
      have hnew := (h (p, ⟨m.config, readNetworkMetadata (writeMetadata m s.directory).2.metadata⟩)
        List.mem_cons_self).1
      obtain ⟨metadata, hread, hidentity⟩ := Option.map_eq_some_iff.mp hnew
      exact ⟨metadata, hread, hidentity⟩
  | start | validate | invalidateSession | loseMetadata | deleteDirectory => exact absurd hw id

/-- An event that writes nothing and deletes nothing leaves the records, and the metadata or none. -/
theorem directory_of_not_writes (network : JsString) {s : System} {e : Event}
    (hw : ∀ config, ¬s.Writes config e) (hdelete : e ≠ .deleteDirectory) :
    (s.step network e).directory.records = s.directory.records ∧
      ∀ metadata, readNetworkMetadata (s.step network e).directory.metadata = some metadata →
        readNetworkMetadata s.directory.metadata = some metadata := by
  cases e with
  | start | invalidateSession => exact ⟨rfl, fun _ h => h⟩
  | validate i =>
    suffices (s.step network (.validate i)).directory = s.directory by
      rw [this]
      exact ⟨rfl, fun _ h => h⟩
    simp only [System.step]
    split
    · rfl
    · split <;> rfl
  | record i p interrupted =>
    suffices (s.step network (.record i p interrupted)).directory = s.directory by
      rw [this]
      exact ⟨rfl, fun _ h => h⟩
    cases hm : s.managers i with
    | none => simp only [System.step, hm]
    | some m =>
      simp only [System.step, hm]
      by_cases hephemeral : m.config.isEphemeral = true
      · rw [record, if_pos hephemeral]
      · simp only [Bool.not_eq_true] at hephemeral
        have hquiet : interrupted = true ∧ ¬(m.config.type = .http ∧
            readNetworkMetadata s.directory.metadata = none) := by
          have hnot := hw m.config
          simp only [System.Writes, not_exists, not_and, Classical.not_imp] at hnot
          have := hnot m hm rfl hephemeral
          tauto
        obtain ⟨rfl, hquiet⟩ := hquiet
        rw [record, if_neg (by simp [hephemeral])]
        unfold writeMetadata
        cases htype : m.config.type with
        | devnode => rfl
        | http =>
          cases hread : readNetworkMetadata s.directory.metadata with
          | none => exact absurd ⟨htype, hread⟩ hquiet
          | some metadata => rfl
  | loseMetadata file hfile =>
    refine ⟨rfl, fun metadata hread => ?_⟩
    rw [show readNetworkMetadata file = some metadata from hread] at hfile
    exact absurd hfile (by simp)
  | deleteDirectory => exact absurd rfl hdelete

/-- The directory that a run has left to the processes of one chain has nothing of another. -/
theorem Own.of {network : JsString} {identity : ChainIdentity} {history : List Event}
    (h : Own network identity history)
    (hall : Trace.Always (System.step network) .new (fun s => Unmixed s.directory) history) :
    (Trace.exec (System.step network) .new history).directory.Of identity := by
  induction h with
  | new => exact ⟨fun _ hread => absurd hread (by simp [Trace.exec, System.new, Directory.empty,
      readNetworkMetadata]), fun _ hf => absurd hf List.not_mem_nil⟩
  | deleted history =>
    rw [Trace.exec_concat]
    exact ⟨fun _ hread => absurd hread (by simp [System.step, Directory.empty,
      readNetworkMetadata]), fun _ hf => absurd hf List.not_mem_nil⟩
  | founds hw hidentity hf =>
    have hlast := hall.last
    rw [Trace.exec_concat] at hlast ⊢
    exact hidentity ▸ of_writes hw hlast
  | @checks history e h =>
    have hbefore := (Trace.always_concat.mp hall).1.last
    rw [Trace.exec_concat]
    cases e with
    | validate i =>
      obtain ⟨m, m', hm, htype, rfl, hunchecked, hok⟩ := h
      have hof := of_validated hbefore hunchecked htype hok
      simp only [System.step, hm, hok]
      exact hof
    | start | record | invalidateSession | loseMetadata | deleteDirectory => exact absurd h id
  | @next history e _ hw ih =>
    obtain ⟨hbefore, hlast⟩ := Trace.always_concat.mp hall
    rw [Trace.exec_concat] at hlast ⊢
    by_cases hwrites : ∃ config, (Trace.exec (System.step network) .new history).Writes config e
    · obtain ⟨config, hwrites⟩ := hwrites
      exact hw config hwrites ▸ of_writes hwrites hlast
    · push Not at hwrites
      have hof := ih hbefore
      by_cases hdelete : e = .deleteDirectory
      · subst hdelete
        exact ⟨fun _ hread => absurd hread (by simp [System.step, Directory.empty,
          readNetworkMetadata]), fun _ hf => absurd hf List.not_mem_nil⟩
      · obtain ⟨hrecords, hmetadata⟩ := directory_of_not_writes network hwrites hdelete
        refine ⟨fun metadata hread => hof.metadata metadata (hmetadata metadata hread), ?_⟩
        rw [hrecords]
        exact hof.records

/-- A directory of other chains is founded anew by a write that mixes nothing. -/
theorem Directory.Foreign.founds {s : System} {config : NetworkConfig} {e : Event}
    (h : s.directory.Foreign config.identity) (hw : s.Writes config e) (hmay : MayHappen s e) :
    s.Founds e := by
  cases e with
  | record i p interrupted =>
    obtain ⟨m, hm, rfl, hfiles, hmissing⟩ := hw
    have hrecord := hmay m hm hfiles
    cases hread : readNetworkMetadata s.directory.metadata with
    | some metadata =>
      rw [hread] at hrecord hmissing
      cases interrupted with
      | true => exact absurd (hmissing rfl).2 (by simp)
      | false => exact absurd (hrecord rfl) (h.metadata metadata hread)
    | none =>
      rw [hread] at hrecord
      have htype : m.config.type = .http := by
        cases interrupted with
        | true => exact (hmissing rfl).1
        | false => exact hrecord.1 rfl
      refine ⟨hread, fun f hf => ?_⟩
      by_contra hother
      refine h.records f hf (hrecord.2 htype f hf fun hi hp => hother ⟨hi, hp⟩)
  | start | validate | invalidateSession | loseMetadata | deleteDirectory => exact absurd hw id

/-- The directory that a run has not left to the processes of a chain has nothing of that chain. -/
theorem foreign_of_not_own {network : JsString} {identity : ChainIdentity} {history : List Event}
    (hall : Trace.Always (System.step network) .new (fun s => Unmixed s.directory) history)
    (h : ¬Own network identity history) :
    (Trace.exec (System.step network) .new history).directory.Foreign identity := by
  induction history using List.reverseRecOn with
  | nil => exact absurd .new h
  | append_singleton history e ih =>
    obtain ⟨hbefore, hlast⟩ := Trace.always_concat.mp hall
    rw [Trace.exec_concat] at hlast ⊢
    -- the last writer is of another chain, or there is none and nothing has changed
    by_cases hwrites : ∃ config, (Trace.exec (System.step network) .new history).Writes config e
    · obtain ⟨config, hwrites⟩ := hwrites
      by_cases hidentity : config.identity = identity
      · have hown : ¬Own network identity history := fun hown =>
          h (.next hown fun config' hw => hidentity ▸ writes_unique hw hwrites ▸ rfl)
        have hmay := (step_unmixed_iff network _ e hbefore.last).mp hlast
        have hfounds := (hidentity ▸ ih hbefore hown : Directory.Foreign _ config.identity).founds
          hwrites hmay
        exact absurd (.founds hwrites hidentity hfounds) h
      · exact (of_writes hwrites hlast).foreign hidentity
    · push Not at hwrites
      have hown : ¬Own network identity history := fun hown =>
        h (.next hown fun config hw => absurd hw (hwrites config))
      have hforeign := ih hbefore hown
      have hdelete : e ≠ .deleteDirectory := by
        rintro rfl
        exact h (.deleted history)
      obtain ⟨hrecords, hmetadata⟩ := directory_of_not_writes network hwrites hdelete
      refine ⟨fun metadata hread => hforeign.metadata metadata (hmetadata metadata hread), ?_⟩
      rw [hrecords]
      exact hforeign.records

/-- After an unmixed run, the condition on the history is that on the directory. -/
theorem mayHappen_iff_inOrder {network : JsString} {history : List Event} {e : Event}
    (hall : Trace.Always (System.step network) .new (fun s => Unmixed s.directory) history) :
    MayHappen (Trace.exec (System.step network) .new history) e ↔ InOrder network history e := by
  constructor
  · intro hmay config hw
    refine ⟨?_, ?_⟩
    · intro htype
      cases e with
      | record i p interrupted =>
        obtain ⟨m, hm, rfl, hfiles, hmissing⟩ := hw
        cases hread : readNetworkMetadata
          (Trace.exec (System.step network) .new history).directory.metadata with
        | some metadata => exact ⟨metadata, rfl⟩
        | none =>
          have hrecord := hmay m hm hfiles
          rw [hread] at hrecord
          cases interrupted with
          | true => exact absurd ((hmissing rfl).1.symm.trans htype) (by simp)
          | false => exact absurd ((hrecord.1 rfl).symm.trans htype) (by simp)
      | start | validate | invalidateSession | loseMetadata | deleteDirectory => exact absurd hw id
    · by_cases hown : Own network config.identity history
      · exact .inr hown
      · exact .inl ((foreign_of_not_own hall hown).founds hw hmay)
  · intro horder
    cases e with
    | record i p interrupted =>
      intro m hm hfiles
      have hwrites : (interrupted = true → m.config.type = .http ∧ readNetworkMetadata
          (Trace.exec (System.step network) .new history).directory.metadata = none) →
          _ := fun hmissing => horder m.config ⟨m, hm, rfl, hfiles, hmissing⟩
      cases hread : readNetworkMetadata
        (Trace.exec (System.step network) .new history).directory.metadata with
      | some metadata =>
        intro hi
        subst hi
        rcases (hwrites (by simp)).2 with hfounds | hown
        · exact absurd (hread.symm.trans hfounds.1) (by simp)
        · exact (hown.of hall).metadata metadata hread
      | none =>
        refine ⟨fun hi => ?_, fun htype f hf hstays => ?_⟩
        · subst hi
          cases htype : m.config.type with
          | http => rfl
          | devnode =>
            obtain ⟨metadata, hsome⟩ := (hwrites (by simp)).1 htype
            exact absurd (hread.symm.trans hsome) (by simp)
        · rcases (hwrites fun _ => ⟨htype, hread⟩).2 with hfounds | hown
          · exact absurd (hfounds.2 f hf).2 (hstays (hfounds.2 f hf).1)
          · exact (hown.of hall).records f hf
    | start | validate | invalidateSession | loseMetadata | deleteDirectory => trivial

/-- **When chains are not mixed.** The records of the directory are unmixed in every state of a run if
and only if every write of the run is in order: by a process of the chain whose processes alone have
written since one of them checked or founded the directory. -/
theorem unmixed_iff (network : JsString) (events : List Event) :
    (∀ k, Unmixed (Trace.exec (System.step network) .new (events.take k)).directory) ↔
      ∀ k e, events[k]? = some e → InOrder network (events.take k) e := by
  refine Trace.invariant_history_iff (I := fun s : System => Unmixed s.directory) Unmixed.empty ?_ events
  intro history e hall
  rw [Trace.exec_concat, step_unmixed_iff network _ e hall.last]
  exact mayHappen_iff_inOrder hall

/-! ## A remembered check -/

def chainA : NetworkConfig := ⟨.http, ⟨js "testnet", js "https://a.example"⟩, none⟩

def chainB : NetworkConfig := ⟨.http, ⟨js "testnet", js "https://b.example"⟩, none⟩

/-- **Chains are mixed** when the process that checked an empty directory records after another process
with another endpoint has done so. -/
theorem remembered_check_mixes :
    ¬∀ (network : JsString) (events : List Event) (k : Nat),
      Unmixed (Trace.exec (System.step network) .new (events.take k)).directory := by
  intro h
  have hmixed := h (js "testnet") [.start 0 chainA, .validate 0, .start 1 chainB, .validate 1,
    .record 1 (js "b.aleo") false, .record 0 (js "a.aleo") false] 6
  have ha := (hmixed (js "a.aleo", ⟨chainA, some ⟨.http, chainB.identity⟩⟩) List.mem_cons_self).1
  exact absurd ha (by decide)

end Lionden.Deploy.Metadata
