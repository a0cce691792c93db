import Lionden.Lib.Interrupt
import Lionden.Lib.Paths
import Lionden.Network.KeyCache

/-!
# Keys beside a program (`key-artifacts.ts`, `execution-key-cache.ts`)

The metadata of a program's artifacts say in which files its keys are, by paths that are relative to
the directory of the artifacts. A path is compared as it is written: where a link leads is not looked at.

* `PathModule`, `PathModule.posix`: what is relied on of `node:path`.
* `resolveKeyFileRef`, `readSidecarKeys`: which file a reference is, and what is read for a transition.
* `sidecarKeys_contained`: what is accepted, and what is read, is in the directory.
-/

namespace Lionden.Network.KeyCache

open Interrupt Paths

/-! ## Paths -/

/-- `node:path` of a platform. A resolved path is absolute and normalized: names after a root. -/
structure PathModule where
  sep : CodeUnit
  isAbsolute : JsString → Bool
  resolve : List JsString → JsString
  /-- What is before the names of an absolute path: `/`, or a drive or a share with a separator. -/
  IsRoot : JsString → Prop
  eq_of_prefix : ∀ root root', IsRoot root → IsRoot root' → root <+: root' → root = root'
  resolve_normal : ∀ paths, ∃ root names, IsRoot root ∧
    (∀ name ∈ names, IsName sep (unit '.') name) ∧ resolve paths = root ++ text sep names

/-- `file` is `dir`, or is in it: its names are those of `dir`, and more. -/
def PathModule.Contains (path : PathModule) (dir file : JsString) : Prop :=
  ∃ root names rest, path.IsRoot root ∧
    (∀ name ∈ names ++ rest, IsName path.sep (unit '.') name) ∧
    dir = root ++ text path.sep names ∧ file = root ++ text path.sep (names ++ rest)

/-- `path.posix.isAbsolute`. -/
def isAbsolutePosix (path : JsString) : Bool := decide (path.head? = some (unit '/'))

/-- The segments that are followed from the root: of the last path that is absolute and those after
it, or of the current directory and all of them. The last path comes first. -/
def segmentsPosix (cwd : JsString) : List JsString → List JsString
  | [] => cwd.splitOn (unit '/')
  | path :: before =>
    if isAbsolutePosix path then path.splitOn (unit '/')
    else segmentsPosix cwd before ++ path.splitOn (unit '/')

/-- `path.posix.resolve`. -/
def resolvePosix (cwd : JsString) (paths : List JsString) : JsString :=
  js "/" ++ text (unit '/') (normalize (unit '.') (segmentsPosix cwd paths.reverse))

theorem sep_notMem_of_mem_segmentsPosix {cwd segment : JsString} {paths : List JsString}
    (h : segment ∈ segmentsPosix cwd paths) : unit '/' ∉ segment := by
  induction paths with
  | nil => exact sep_notMem_of_mem_splitOn h
  | cons path before ih =>
    unfold segmentsPosix at h
    by_cases habsolute : isAbsolutePosix path = true
    · rw [if_pos habsolute] at h
      exact sep_notMem_of_mem_splitOn h
    · rw [if_neg habsolute] at h
      rcases List.mem_append.mp h with h | h
      · exact ih h
      · exact sep_notMem_of_mem_splitOn h

/-- `path.posix`. -/
def PathModule.posix (cwd : JsString) : PathModule where
  sep := unit '/'
  isAbsolute := isAbsolutePosix
  resolve := resolvePosix cwd
  IsRoot root := root = js "/"
  eq_of_prefix _ _ h h' _ := h.trans h'.symm
  resolve_normal _ := ⟨_, _, rfl,
    isName_of_mem_normalize fun _ h => sep_notMem_of_mem_segmentsPosix h, rfl⟩

example : resolvePosix (js "/home") [js "app", js "../lib//./a/.."] = js "/home/lib" := by
  decide +kernel

/-! ## References -/

structure KeyFileRef where
  path : JsString
  fingerprint : KeyFingerprint

structure KeyArtifactFunctionRef where
  transition : JsString
  prover : Option KeyFileRef
  verifier : Option KeyFileRef

structure KeyArtifactsMetadata where
  sourceHash : JsString
  importsHash : JsString
  functions : Option (List KeyArtifactFunctionRef)

structure ProgramExecutionArtifacts where
  sourceHash : JsString
  importsHash : JsString
  artifactDir : Option JsString
  sidecar : Option KeyArtifactsMetadata

/-- What is at a path. -/
inductive Entry where
  | file (bytes : Bytes)
  | directory

/-- What reads files. Its state are the paths of the files that it has read. -/
abbrev Reading (α : Type) : Type := Prog JsString (List JsString) JsString α

section Reading

variable (platform : Platform) (path : PathModule) (entries : JsString → Option Entry)

def resolveKeyFileRef (baseDir : JsString) (ref : KeyFileRef) : Except JsString JsString :=
  if path.isAbsolute ref.path then .error (js "Key file references must be relative paths.")
  else
  let resolved := path.resolve [baseDir, ref.path]
  let root := path.resolve [baseDir]
  if resolved ≠ root ∧ ¬(root ++ [path.sep]).isPrefixOf resolved then
    .error (js "Key file reference escapes artifact directory: " ++ ref.path)
  else .ok resolved

/-- `fs.readFileSync`. -/
def readFileSync (file : JsString) : Reading Bytes := do
  Prog.perform (fun file read => read ++ [file]) file
  match entries file with
  | some (.file bytes) => pure bytes
  | some .directory => Prog.fail (js "EISDIR: illegal operation on a directory, read")
  | none => Prog.fail (js "ENOENT: no such file or directory, open '" ++ file ++ js "'")

/-- The file of a reference; its error is thrown. -/
def keyFileOf (baseDir : JsString) (ref : KeyFileRef) : Reading JsString :=
  match resolveKeyFileRef path baseDir ref with
  | .ok file => pure file
  | .error message => Prog.fail message

def verifyKeyFileRef (baseDir : JsString) (ref : KeyFileRef) : Reading Bool := do
  let file ← keyFileOf path baseDir ref
  if (entries file).isNone then pure false
  else
  let bytes ← readFileSync entries file
  pure (decide (fingerprintBytes platform bytes = ref.fingerprint))

def readKeyFile (baseDir : JsString) (ref : KeyFileRef) : Reading Bytes := do
  let file ← keyFileOf path baseDir ref
  readFileSync entries file

/-- The keys of a transition in the directory of the artifacts. -/
def readEntryKeys (artifactDir : JsString) (prover verifier : KeyFileRef) :
    Reading (Option RuntimeKeyCacheHit) := do
  if !(← verifyKeyFileRef platform path entries artifactDir prover) then pure none
  else
  if !(← verifyKeyFileRef platform path entries artifactDir verifier) then pure none
  else
  let provingKeyBytes ← readKeyFile path entries artifactDir prover
  let verifyingKeyBytes ← readKeyFile path entries artifactDir verifier
  pure (some { source := .sidecar, provingKeyBytes, verifyingKeyBytes })

def readSidecarKeys (artifacts : Option ProgramExecutionArtifacts) (transition : JsString) :
    Reading (Option RuntimeKeyCacheHit) :=
  match artifacts with
  | none => pure none
  | some artifacts =>
    match artifacts.sidecar, artifacts.artifactDir with
    | some sidecar, some artifactDir =>
      -- An empty string is falsy.
      if artifactDir = [] then pure none
      else if sidecar.sourceHash ≠ artifacts.sourceHash then pure none
      else if sidecar.importsHash ≠ artifacts.importsHash then pure none
      else
      match (sidecar.functions.getD []).find? (·.transition = transition) with
      | some { prover := some prover, verifier := some verifier, .. } =>
        readEntryKeys platform path entries artifactDir prover verifier
      | _ => pure none
    | _, _ => pure none

end Reading

/-! ## Containment -/

section Containment

variable {platform : Platform} {path : PathModule} {entries : JsString → Option Entry}

theorem contains_self (paths : List JsString) :
    path.Contains (path.resolve paths) (path.resolve paths) := by
  obtain ⟨root, names, hroot, hnames, htext⟩ := path.resolve_normal paths
  exact ⟨root, names, [], hroot, by rwa [List.append_nil], htext, by rwa [List.append_nil]⟩

/-- What begins with a directory and a separator is in it. -/
theorem contains_of_prefix {paths paths' : List JsString}
    (h : path.resolve paths ++ [path.sep] <+: path.resolve paths') :
    path.Contains (path.resolve paths) (path.resolve paths') := by
  obtain ⟨root, names, hroot, hnames, htext⟩ := path.resolve_normal paths
  obtain ⟨root', names', hroot', hnames', htext'⟩ := path.resolve_normal paths'
  rw [htext, htext', List.append_assoc] at h
  -- Both begin with their roots, so one root begins with the other.
  have hbegins : root <+: root' ++ text path.sep names' := (List.prefix_append _ _).trans h
  obtain rfl : root = root' := by
    rcases List.prefix_or_prefix_of_prefix hbegins (List.prefix_append root' _) with hle | hle
    · exact path.eq_of_prefix root root' hroot hroot' hle
    · exact (path.eq_of_prefix root' root hroot' hroot hle).symm
  obtain ⟨rest, rfl⟩ := names_prefix hnames hnames' ((List.prefix_append_right_inj root).mp h)
  exact ⟨root, names, rest, hroot, hnames', htext, htext'⟩

theorem resolveKeyFileRef_contains {baseDir file : JsString} {ref : KeyFileRef}
    (h : resolveKeyFileRef path baseDir ref = .ok file) :
    path.Contains (path.resolve [baseDir]) file := by
  unfold resolveKeyFileRef at h
  split at h
  · exact nomatch h
  dsimp only at h
  split at h
  · exact nomatch h
  · next hinside =>
    obtain rfl := Except.ok.inj h
    by_cases hself : path.resolve [baseDir, ref.path] = path.resolve [baseDir]
    · rw [hself]
      exact contains_self [baseDir]
    · have hprefix := not_and_not_right.mp hinside hself
      exact contains_of_prefix (List.isPrefixOf_iff_prefix.mp hprefix)

/-- Every file that has been read is in the directory. -/
def ReadsWithin (path : PathModule) (baseDir : JsString) (read : List JsString) : Prop :=
  ∀ file ∈ read, path.Contains (path.resolve [baseDir]) file

/-- A program that only reads in the directory, wherever it is interrupted. -/
abbrev StaysWithin {α : Type} (path : PathModule) (baseDir : JsString) (p : Reading α) : Prop :=
  Triple (fun _ _ => True) (ReadsWithin path baseDir) p (fun _ => ReadsWithin path baseDir)
    (ReadsWithin path baseDir) (ReadsWithin path baseDir)

/-- With the file of a reference, a program goes on that may read it. -/
theorem StaysWithin.keyFileOf {α : Type} {baseDir : JsString} {ref : KeyFileRef}
    {f : JsString → Reading α}
    (h : ∀ file, path.Contains (path.resolve [baseDir]) file → StaysWithin path baseDir (f file)) :
    StaysWithin path baseDir (keyFileOf path baseDir ref >>= f) := by
  unfold KeyCache.keyFileOf
  cases hfile : resolveKeyFileRef path baseDir ref with
  | error message => exact fun _ _ _ hs => hs
  | ok file => exact h file (resolveKeyFileRef_contains hfile)

theorem readFileSync_staysWithin {baseDir file : JsString}
    (h : path.Contains (path.resolve [baseDir]) file) :
    StaysWithin path baseDir (readFileSync entries file) := by
  unfold readFileSync
  have hread : ∀ read, ReadsWithin path baseDir read → ReadsWithin path baseDir (read ++ [file]) := by
    intro read hs other hother
    rcases List.mem_append.mp hother with hother | hother
    · exact hs other hother
    · rwa [List.mem_singleton.mp hother]
  refine Triple.bind (Triple.perform (Q := fun _ => ReadsWithin path baseDir)
    (fun _ hs _ => hs) hread) fun _ => ?_
  split
  · exact Triple.pure fun _ hs => hs
  · exact Triple.fail fun _ hs => hs
  · exact Triple.fail fun _ hs => hs

theorem verifyKeyFileRef_staysWithin {baseDir : JsString} {ref : KeyFileRef} :
    StaysWithin path baseDir (verifyKeyFileRef platform path entries baseDir ref) :=
  .keyFileOf fun _ hfile => Triple.ite (fun _ => Triple.pure fun _ hs => hs) fun _ =>
    Triple.bind (readFileSync_staysWithin hfile) fun _ => Triple.pure fun _ hs => hs

theorem readKeyFile_staysWithin {baseDir : JsString} {ref : KeyFileRef} :
    StaysWithin path baseDir (readKeyFile path entries baseDir ref) :=
  .keyFileOf fun _ hfile => readFileSync_staysWithin hfile

theorem readEntryKeys_staysWithin {artifactDir : JsString} {prover verifier : KeyFileRef} :
    StaysWithin path artifactDir
      (readEntryKeys platform path entries artifactDir prover verifier) := by
  refine Triple.bind verifyKeyFileRef_staysWithin fun proverMatches => ?_
  refine Triple.ite (fun _ => Triple.pure fun _ hs => hs) fun _ => ?_
  refine Triple.bind verifyKeyFileRef_staysWithin fun verifierMatches => ?_
  refine Triple.ite (fun _ => Triple.pure fun _ hs => hs) fun _ => ?_
  refine Triple.bind readKeyFile_staysWithin fun provingKeyBytes => ?_
  refine Triple.bind readKeyFile_staysWithin fun verifyingKeyBytes => ?_
  exact Triple.pure fun _ hs => hs

theorem StaysWithin.reads {α : Type} {baseDir : JsString} {p : Reading α}
    (h : StaysWithin path baseDir p) (crash : JsString → List JsString → Bool) :
    ReadsWithin path baseDir (p crash []).state := by
  have hrun := h crash [] (fun _ _ _ => trivial) nofun
  cases hp : p crash [] <;> rw [hp] at hrun <;> exact hrun

theorem readSidecarKeys_staysWithin {artifacts : ProgramExecutionArtifacts}
    {artifactDir transition : JsString} (hdir : artifacts.artifactDir = some artifactDir) :
    StaysWithin path artifactDir
      (readSidecarKeys platform path entries (some artifacts) transition) := by
  obtain ⟨sourceHash, importsHash, dir, sidecar⟩ := artifacts
  obtain rfl : dir = some artifactDir := hdir
  cases sidecar with
  | none => exact Triple.pure fun _ hs => hs
  | some sidecar =>
    refine Triple.ite (fun _ => Triple.pure fun _ hs => hs) fun _ => ?_
    refine Triple.ite (fun _ => Triple.pure fun _ hs => hs) fun _ => ?_
    refine Triple.ite (fun _ => Triple.pure fun _ hs => hs) fun _ => ?_
    split
    · exact readEntryKeys_staysWithin
    · exact Triple.pure fun _ hs => hs

/-- Nothing is read unless there is a directory, and then in it. -/
theorem readSidecarKeys_reads {artifacts : Option ProgramExecutionArtifacts} {transition : JsString}
    (crash : JsString → List JsString → Bool) {file : JsString}
    (h : file ∈ (readSidecarKeys platform path entries artifacts transition crash []).state) :
    ∃ artifactDir, artifacts.bind (·.artifactDir) = some artifactDir ∧
      path.Contains (path.resolve [artifactDir]) file := by
  cases artifacts with
  | none => exact nomatch h
  | some artifacts =>
    cases hdir : artifacts.artifactDir with
    | none =>
      obtain ⟨sourceHash, importsHash, dir, sidecar⟩ := artifacts
      obtain rfl : dir = none := hdir
      cases sidecar <;> exact nomatch h
    | some artifactDir =>
      exact ⟨artifactDir, hdir, (readSidecarKeys_staysWithin hdir).reads crash file h⟩

/-- **Key files are in their directory**: those of references that are accepted, and those that are
read for a transition, wherever it is interrupted. -/
theorem sidecarKeys_contained (path : PathModule) :
    (∀ baseDir ref file, resolveKeyFileRef path baseDir ref = .ok file →
      path.Contains (path.resolve [baseDir]) file) ∧
    ∀ platform entries artifacts transition crash,
      ∀ file ∈ (readSidecarKeys platform path entries artifacts transition crash []).state,
        ∃ artifactDir, artifacts.bind (·.artifactDir) = some artifactDir ∧
          path.Contains (path.resolve [artifactDir]) file :=
  ⟨fun _ _ _ h => resolveKeyFileRef_contains h, fun _ _ _ _ crash _ h =>
    readSidecarKeys_reads crash h⟩

theorem sidecarKeys_contained_posix :
    (PathModule.posix (js "/home")).Contains (js "/home/app") (js "/home/app/transfer.prover") :=
  (sidecarKeys_contained (.posix (js "/home"))).1 (js "app")
    ⟨js "keys/../transfer.prover", ⟨[], 0⟩⟩ (js "/home/app/transfer.prover") (by rfl)

end Containment

end Lionden.Network.KeyCache
