import Lionden.Js.Indented
import Lionden.Network.KeyMetadata

/-!
# Key metadata files (`key-artifacts.ts`)

Metadata are checked before they are written, and again when they are read.

* `MetadataFormat`: what the kinds of metadata have in common; `keyArtifacts`, `runtimeKeyCache`,
  `creditsKeyCache`.
* `Write.run`, `read_writeAll`: after any writes a file is read as what was written there last.
-/

namespace Lionden.Network.KeyArtifacts

open KeyCache hiding Platform Files Writer
open CreditsCache (File CreditsKeyCacheMetadata CREDITS_KEY_CACHE_FORMAT parseCreditsKeyCacheMetadata
  format_creditsKeyCache)

/-! ## Kinds of metadata -/

/-- A kind of metadata: what is checked and what is written. What is written is accepted if it is
valid, and what is accepted is valid. -/
structure MetadataFormat (M : Type) where
  format : JsString
  parse : JsString → JsValue → Except JsString M
  value : M → JsValue
  Valid : M → Prop
  /-- The numbers of the metadata. -/
  numbers : M → List Nat
  format_value : ∀ metadata, (value metadata).property (js "format") = .string format
  format_of_parse : ∀ {filePath v metadata}, parse filePath v = .ok metadata →
    v.property (js "format") = .string format
  valid_of_parse : ∀ {filePath v metadata}, parse filePath v = .ok metadata → Valid metadata
  parse_value : ∀ {metadata}, Valid metadata → ∀ filePath,
    parse filePath (value metadata) = .ok metadata
  eq_of_parse : ∀ {filePath metadata parsed}, parse filePath (value metadata) = .ok parsed →
    parsed = metadata
  isData : ∀ {metadata}, (∀ n ∈ numbers metadata, IsDouble (n : ℚ)) →
    IsData JsNumber.Writable (value metadata)

def keyArtifacts : MetadataFormat KeyArtifactsFile where
  format := KEY_ARTIFACTS_FORMAT
  parse := parseKeyArtifactsMetadata
  value := KeyArtifactsFile.value
  Valid := KeyArtifactsFile.Valid
  numbers := KeyArtifactsFile.numbers
  format_value _ := rfl
  format_of_parse := format_keyArtifacts
  valid_of_parse := KeyArtifactsFile.valid
  parse_value h _ := h.parse
  eq_of_parse := KeyArtifactsFile.eq_of_parse
  isData := KeyArtifactsFile.isData

/-- The message of a format that is not known is that of `JSON.stringify`. -/
def runtimeKeyCache (platform : KeyCache.Platform) : MetadataFormat RuntimeKeyCacheMetadata where
  format := RUNTIME_KEY_CACHE_FORMAT
  parse := parseRuntimeKeyCacheMetadata platform
  value := RuntimeKeyCacheMetadata.value
  Valid := RuntimeKeyCacheMetadata.Valid
  numbers := RuntimeKeyCacheMetadata.numbers
  format_value _ := rfl
  format_of_parse := format_runtimeKeyCache
  valid_of_parse := RuntimeKeyCacheMetadata.valid
  parse_value h _ := h.parse
  eq_of_parse := RuntimeKeyCacheMetadata.eq_of_parse
  isData := RuntimeKeyCacheMetadata.isData

def creditsKeyCache : MetadataFormat CreditsKeyCacheMetadata where
  format := CREDITS_KEY_CACHE_FORMAT
  parse := parseCreditsKeyCacheMetadata
  value := CreditsKeyCacheMetadata.value
  Valid := CreditsKeyCacheMetadata.Valid
  numbers metadata := [metadata.prover.size]
  format_value _ := rfl
  format_of_parse := format_creditsKeyCache
  valid_of_parse := CreditsKeyCacheMetadata.valid
  parse_value h _ := h.parse
  eq_of_parse := CreditsCache.parse_value
  isData h := CreditsKeyCacheMetadata.isData (h _ List.mem_cons_self)

/-! ## Files -/

abbrev Files := JsString → File JsString

section Files

variable {M : Type} (f : MetadataFormat M)
-- The message of what `JSON.parse` throws at a text.
variable (syntaxError : JsString → JsString) (filePath : JsString)

def readJson (file : File JsString) : Except JsString JsValue :=
  let failed (message : JsString) : JsString :=
    js "Failed to read key metadata at " ++ filePath ++ js ": " ++ message
  match file.read filePath with
  | .error message => .error (failed message)
  | .ok text =>
    match JSON.parse text with
    | some v => .ok v
    | none => .error (failed (syntaxError text))

/-- `read…Metadata`: nothing, if there is no file. -/
def MetadataFormat.read (files : Files) : Except JsString (Option M) :=
  if !(files filePath).exists then .ok none
  else do
    let v ← readJson syntaxError filePath (files filePath)
    some <$> f.parse filePath v

/-- `JSON.stringify(v, null, 2) + "\n"`, of an object. -/
def jsonText (v : JsValue) : JsString := (JSON.stringifyIndented 0 v).getD [] ++ js "\n"

/-- The file is replaced as a whole. -/
def writeJsonAtomic (v : JsValue) (files : Files) : Files :=
  Function.update files filePath (.contents (jsonText v))

/-- `write…Metadata`. -/
def MetadataFormat.write (metadata : M) (files : Files) : Except JsString Files := do
  let _ ← f.parse filePath (f.value metadata)
  .ok (writeJsonAtomic filePath (f.value metadata) files)

end Files

inductive Format where
  | keyArtifacts
  | runtimeKeyCache
  | creditsKeyCache
  deriving DecidableEq

abbrev Format.Data : Format → Type
  | keyArtifacts => KeyArtifactsFile
  | runtimeKeyCache => RuntimeKeyCacheMetadata
  | creditsKeyCache => CreditsKeyCacheMetadata

section Runs

variable (platform : KeyCache.Platform)

def Format.metadata : (format : Format) → MetadataFormat format.Data
  | keyArtifacts => KeyArtifacts.keyArtifacts
  | runtimeKeyCache => KeyArtifacts.runtimeKeyCache platform
  | creditsKeyCache => KeyArtifacts.creditsKeyCache

def Format.text : Format → JsString
  | keyArtifacts => KEY_ARTIFACTS_FORMAT
  | runtimeKeyCache => RUNTIME_KEY_CACHE_FORMAT
  | creditsKeyCache => CREDITS_KEY_CACHE_FORMAT

structure Write where
  filePath : JsString
  format : Format
  metadata : format.Data

/-- Metadata that are refused are not written. -/
def Write.run (files : Files) (write : Write) : Files :=
  match (write.format.metadata platform).write write.filePath write.metadata files with
  | .ok files => files
  | .error _ => files

def writeAll (writes : List Write) (files : Files) : Files := writes.foldl (Write.run platform) files

def Write.Valid (write : Write) : Prop := (write.format.metadata platform).Valid write.metadata

/-- The numbers of the metadata are those of the language. -/
def Write.Doubles (write : Write) : Prop :=
  ∀ n ∈ (write.format.metadata platform).numbers write.metadata, IsDouble (n : ℚ)

end Runs

/-! ## Reading what was written -/

section Kept

variable {M : Type} {f : MetadataFormat M} {syntaxError : JsString → JsString} {filePath : JsString}
  {files : Files}

@[simp] theorem writeJsonAtomic_self {v : JsValue} :
    writeJsonAtomic filePath v files filePath = .contents (jsonText v) :=
  Function.update_self ..

theorem write_valid {metadata : M} (h : f.Valid metadata) :
    f.write filePath metadata files =
      .ok (writeJsonAtomic filePath (f.value metadata) files) := by
  unfold MetadataFormat.write
  rw [f.parse_value h]
  rfl

/-- Metadata that are not valid are refused. -/
theorem write_refused {metadata : M} (h : ¬f.Valid metadata) :
    ∃ message, f.write filePath metadata files = .error message := by
  unfold MetadataFormat.write
  cases hparse : f.parse filePath (f.value metadata) with
  | error message => exact ⟨message, rfl⟩
  | ok parsed =>
    have hvalid := f.valid_of_parse hparse
    rw [f.eq_of_parse hparse] at hvalid
    exact absurd hvalid h

/-- The value of a file that was written. -/
theorem readJson_written {metadata : M} (hnumbers : ∀ n ∈ f.numbers metadata, IsDouble (n : ℚ)) :
    readJson syntaxError filePath (writeJsonAtomic filePath (f.value metadata) files filePath) =
      .ok (f.value metadata) := by
  obtain ⟨text, htext, hparse⟩ := JSON.parse_stringifyIndented (f.isData hnumbers)
  unfold readJson
  rw [writeJsonAtomic_self, jsonText, htext, Option.getD_some]
  dsimp only [File.read]
  rw [hparse]

/-- Reading a file that was written, as any kind. -/
theorem read_writeJsonAtomic {N : Type} {g : MetadataFormat N} {metadata : M}
    (hnumbers : ∀ n ∈ f.numbers metadata, IsDouble (n : ℚ)) :
    g.read syntaxError filePath (writeJsonAtomic filePath (f.value metadata) files) =
      some <$> g.parse filePath (f.value metadata) := by
  have hexists : (writeJsonAtomic filePath (f.value metadata) files filePath).exists = true := by
    rw [writeJsonAtomic_self]
    rfl
  unfold MetadataFormat.read
  rw [hexists, if_neg (by decide), readJson_written hnumbers]
  rfl

theorem read_written {metadata : M} (hnumbers : ∀ n ∈ f.numbers metadata, IsDouble (n : ℚ))
    (h : f.Valid metadata) :
    f.read syntaxError filePath (writeJsonAtomic filePath (f.value metadata) files) =
      .ok (some metadata) := by
  rw [read_writeJsonAtomic hnumbers, f.parse_value h]
  rfl

/-- Another kind of metadata is refused. -/
theorem read_other {N : Type} {g : MetadataFormat N} (hformat : f.format ≠ g.format) {metadata : M}
    (hnumbers : ∀ n ∈ f.numbers metadata, IsDouble (n : ℚ)) :
    ∃ message, g.read syntaxError filePath
      (writeJsonAtomic filePath (f.value metadata) files) = .error message := by
  rw [read_writeJsonAtomic hnumbers]
  cases hparse : g.parse filePath (f.value metadata) with
  | error message => exact ⟨message, rfl⟩
  | ok parsed =>
    have hvalue := (f.format_value metadata).symm.trans (g.format_of_parse hparse)
    exact absurd (JsValue.string.inj hvalue) hformat

end Kept

section Runs

variable {platform : KeyCache.Platform} {syntaxError : JsString → JsString} {filePath : JsString}
  {files : Files}

theorem Format.metadata_format (format : Format) :
    (format.metadata platform).format = format.text := by
  cases format <;> rfl

theorem Format.text_ne {format format' : Format} (hne : format ≠ format') :
    format.text ≠ format'.text := by
  cases format <;> cases format' <;> first | exact absurd rfl hne | decide

/-- A write changes its own file, and only if the metadata are valid. -/
theorem Write.run_other {write : Write}
    (h : write.filePath = filePath → ¬write.Valid platform) :
    write.run platform files filePath = files filePath := by
  unfold Write.run
  by_cases hvalid : write.Valid platform
  · rw [write_valid hvalid]
    exact Function.update_of_ne (fun hpath => h hpath.symm hvalid) _ _
  · obtain ⟨message, hrefused⟩ := write_refused hvalid
    rw [hrefused]

theorem writeAll_other {writes : List Write}
    (h : ∀ write ∈ writes, write.filePath = filePath → ¬write.Valid platform) :
    writeAll platform writes files filePath = files filePath := by
  unfold writeAll
  induction writes generalizing files with
  | nil => rfl
  | cons write writes ih =>
    obtain ⟨hwrite, hwrites⟩ := List.forall_mem_cons.mp h
    rw [List.foldl_cons, ih hwrites, Write.run_other hwrite]

/-- What is read depends on nothing but the file. -/
theorem read_congr {M : Type} {f : MetadataFormat M} {files' : Files}
    (h : files filePath = files' filePath) :
    f.read syntaxError filePath files = f.read syntaxError filePath files' := by
  unfold MetadataFormat.read
  rw [h]

/-- After the last write to a file that was accepted. -/
theorem writeAll_last {earlier later : List Write} {write : Write} (hvalid : write.Valid platform)
    (hlater : ∀ other ∈ later, other.filePath = write.filePath → ¬other.Valid platform) :
    writeAll platform (earlier ++ write :: later) files write.filePath =
      writeJsonAtomic write.filePath ((write.format.metadata platform).value write.metadata)
        (writeAll platform earlier files) write.filePath := by
  have hsplit : writeAll platform (earlier ++ write :: later) files =
      writeAll platform later (write.run platform (writeAll platform earlier files)) := by
    unfold writeAll
    rw [List.foldl_append, List.foldl_cons]
  rw [hsplit, writeAll_other hlater]
  unfold Write.run
  rw [write_valid hvalid]

/-- After any writes, of any kinds and to any files, a file is as it was if none to it was valid. Else
reading it as the kind that was last written there gives these metadata, and as any other kind an
error. -/
theorem read_writeAll (platform : KeyCache.Platform) (syntaxError : JsString → JsString)
    (files : Files) (writes : List Write) (hnumbers : ∀ write ∈ writes, write.Doubles platform)
    (filePath : JsString) :
    ((∀ write ∈ writes, write.filePath = filePath → ¬write.Valid platform) →
      writeAll platform writes files filePath = files filePath) ∧
    ∀ earlier write later, writes = earlier ++ write :: later → write.filePath = filePath →
      write.Valid platform →
      (∀ other ∈ later, other.filePath = filePath → ¬other.Valid platform) →
      (write.format.metadata platform).read syntaxError filePath
          (writeAll platform writes files) = .ok (some write.metadata) ∧
        ∀ format, format ≠ write.format → ∃ message,
          (format.metadata platform).read syntaxError filePath (writeAll platform writes files) =
            .error message := by
  refine ⟨writeAll_other, ?_⟩
  rintro earlier write later rfl rfl hvalid hlater
  have hwrite : write.Doubles platform :=
    hnumbers write (List.mem_append_right _ List.mem_cons_self)
  have hlast := @writeAll_last platform files earlier later write hvalid hlater
  refine ⟨(read_congr hlast).trans (read_written hwrite hvalid), fun format hne => ?_⟩
  rw [read_congr hlast]
  have hformat : (write.format.metadata platform).format ≠ (format.metadata platform).format := by
    rw [Format.metadata_format, Format.metadata_format]
    exact Format.text_ne hne.symm
  exact read_other hformat hwrite

/-- The metadata of a program under another name, with the key of one function. -/
def renamedToken : KeyArtifactsFile where
  programId := js "shop.aleo"
  sourceProgramId := js "token.aleo"
  sourceHash := js "1"
  importsHash := js "2"
  functions := some [
    { transition := js "mint"
      prover := some
        { path := js "mint.prover"
          fingerprint := { sha256 := List.replicate 64 (unit 'a'), size := 5 } }
      verifier := none }]

theorem renamedToken_valid : renamedToken.Valid where
  programId := by decide
  sourceProgramId := by decide
  sourceHash := by decide
  importsHash := by decide
  functions := by
    rintro refs ⟨⟩ ref href
    obtain rfl := List.mem_singleton.mp href
    refine ⟨by decide, ?_, nofun⟩
    rintro prover ⟨⟩
    exact ⟨by decide, (by decide : isDigest (List.replicate 64 (unit 'a')) = true)⟩

theorem renamedToken_doubles : ∀ n ∈ renamedToken.numbers, IsDouble (n : ℚ) := by
  intro n hn
  obtain rfl : n = 5 := List.mem_singleton.mp hn
  exact CreditsCache.isDouble_natCast (by decide)

/-- Metadata that do not name their program. -/
def unnamedToken : KeyArtifactsFile := { renamedToken with programId := [] }

/-- A write that is refused does not change what is read. -/
theorem read_writeAll_refused :
    keyArtifacts.read id (js "keys.json") (writeAll KeyCache.firstByte
      [⟨js "keys.json", .keyArtifacts, renamedToken⟩, ⟨js "keys.json", .keyArtifacts, unnamedToken⟩]
      fun _ => .missing) = .ok (some renamedToken) := by
  refine ((read_writeAll KeyCache.firstByte id _ _ ?_ _).2 [] ⟨js "keys.json", .keyArtifacts,
    renamedToken⟩ [_] rfl rfl renamedToken_valid ?_).1
  · exact List.forall_mem_cons.mpr ⟨renamedToken_doubles,
      List.forall_mem_singleton.mpr renamedToken_doubles⟩
  · exact List.forall_mem_singleton.mpr fun _ hvalid => hvalid.programId rfl

end Runs

end Lionden.Network.KeyArtifacts
