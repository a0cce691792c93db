import Lionden.Build.UnitHash
import Lionden.Lib.Framing

/-!
# The bytes that the hash of a unit is made of (`cache.ts`)

`computeUnitHash` feeds SHA-256 piece by piece: source files, the manifest, the compiler version, the
hashes of dependencies and the sources of network dependencies. Names and hashes are text, which the
hasher takes as UTF-8; files are the bytes that they hold, and nothing says where they end.

* `HashRequest`: the arguments of `computeUnitHash` with the files that it reads.
* `HashRequest.pieces`, `HashRequest.stream`: what is hashed, and the bytes given to SHA-256.
* `Piece.block`, `Regroups`: header lines in contents, and two requests that they make of one text.
* `stream_injective_iff`: when different pieces give different bytes.
-/

namespace Lionden.Build

abbrev Bytes := List UInt8

/-! ## UTF-8 -/

def isHighSurrogate (c : CodeUnit) : Bool := 0xD800 ≤ c.toNat && c.toNat < 0xDC00

def isLowSurrogate (c : CodeUnit) : Bool := 0xDC00 ≤ c.toNat && c.toNat < 0xE000

/-- The UTF-8 bytes of a code point. -/
def utf8CodePoint (cp : Nat) : Bytes :=
  let continuation (shift : Nat) : UInt8 := UInt8.ofNat (0x80 + cp / 2 ^ shift % 64)
  if cp < 0x80 then [UInt8.ofNat cp]
  else if cp < 0x800 then [UInt8.ofNat (0xC0 + cp / 2 ^ 6), continuation 0]
  else if cp < 0x10000 then [UInt8.ofNat (0xE0 + cp / 2 ^ 12), continuation 6, continuation 0]
  else [UInt8.ofNat (0xF0 + cp / 2 ^ 18), continuation 12, continuation 6, continuation 0]

/-- `Buffer.from(s, "utf8")`: a surrogate on its own is written as U+FFFD. -/
def utf8 : JsString → Bytes
  | [] => []
  | [c] => if isHighSurrogate c || isLowSurrogate c then utf8CodePoint 0xFFFD
    else utf8CodePoint c.toNat
  | c :: d :: rest =>
    if isHighSurrogate c && isLowSurrogate d then
      utf8CodePoint (0x10000 + (c.toNat - 0xD800) * 0x400 + (d.toNat - 0xDC00)) ++ utf8 rest
    else if isHighSurrogate c || isLowSurrogate c then utf8CodePoint 0xFFFD ++ utf8 (d :: rest)
    else utf8CodePoint c.toNat ++ utf8 (d :: rest)

/-- An end of line is one byte, whatever stands before it. -/
theorem utf8_newline (s : JsString) : utf8 (s ++ newline) = utf8 s ++ [10] := by
  fun_induction utf8 s with
  | case1 => decide
  | case2 c h =>
    have hpair : ¬(isHighSurrogate c && isLowSurrogate 10) = true := by simp [isLowSurrogate]
    have hend : utf8 [10] = [10] := by decide
    simp only [newline, List.cons_append, List.nil_append]
    rw [utf8, if_neg hpair, if_pos h, hend]
  | case3 c h =>
    have hpair : ¬(isHighSurrogate c && isLowSurrogate 10) = true := by simp [isLowSurrogate]
    have hend : utf8 [10] = [10] := by decide
    simp only [newline, List.cons_append, List.nil_append]
    rw [utf8, if_neg hpair, if_neg h, hend]
  | case4 c d rest h ih =>
    simp only [List.cons_append, utf8]
    rw [if_pos h, ih, List.append_assoc]
  | case5 c d rest h h' ih =>
    simp only [List.cons_append, utf8] at ih ⊢
    rw [if_neg h, if_pos h', ih, List.append_assoc]
  | case6 c d rest h h' ih =>
    simp only [List.cons_append, utf8] at ih ⊢
    rw [if_neg h, if_neg h', ih, List.append_assoc]

/-! ## What is hashed -/

/-- A piece of what is hashed. -/
inductive Piece where
  | file (relPath : JsString) (contents : Bytes)
  | programJson (contents : Bytes)
  | compilerVersion (version : JsString)
  | dep (depId hash : JsString)
  | networkDep (depName : JsString) (contents : Bytes)
  deriving DecidableEq

/-- What `hasher.update` gets for a piece. -/
def Piece.bytes : Piece → Bytes
  | file relPath contents => utf8 (js "file:" ++ relPath ++ newline) ++ contents
  | programJson contents => utf8 (js "program.json" ++ newline) ++ contents
  | compilerVersion version => utf8 (js "compiler-version:" ++ version ++ newline)
  | dep depId hash => utf8 (js "dep:" ++ depId ++ js ":" ++ hash ++ newline)
  | networkDep depName contents => utf8 (js "network-dep:" ++ depName ++ newline) ++ contents

/-- What a piece is written as ends its first line. -/
theorem Piece.newline_mem (piece : Piece) : 10 ∈ piece.bytes := by
  cases piece with
  | file | programJson | networkDep =>
    rw [Piece.bytes, utf8_newline]
    exact List.mem_append_left _ (List.mem_append_right _ List.mem_cons_self)
  | compilerVersion | dep =>
    rw [Piece.bytes, utf8_newline]
    exact List.mem_append_right _ List.mem_cons_self

/-- The header line of a piece, and what comes after it. -/
def Piece.block (piece : Piece) : Block UInt8 := cutLine 10 piece.bytes

/-- The arguments of `computeUnitHash`, and the files under the source directory and the package
directory: `none` where there is none. -/
structure HashRequest where
  allSources : List JsString
  sources : JsString → Option Bytes
  programJson : Option Bytes
  compilerVersion : Option JsString
  localDepIds : List JsString
  depHashes : JsString → Option JsString
  networkDepIds : List JsString
  imports : JsString → Option Bytes

namespace HashRequest

variable (request : HashRequest)

/-- What `computeUnitHash` feeds the hasher, in its order. An empty hash of a dependency counts as
none. -/
def pieces : List Piece :=
  (sortNames request.allSources).filterMap
      (fun relPath => (request.sources relPath).map (Piece.file relPath)) ++
    (request.programJson.map Piece.programJson).toList ++
    (request.compilerVersion.map Piece.compilerVersion).toList ++
    (sortNames request.localDepIds).filterMap
      (fun depId => ((request.depHashes depId).filter (· ≠ [])).map (Piece.dep depId)) ++
    (sortNames request.networkDepIds).filterMap
      fun depName => (request.imports depName).map (Piece.networkDep depName)

/-- The bytes given to SHA-256. -/
def stream : Bytes := request.pieces.flatMap Piece.bytes

def blocks : List (Block UInt8) := request.pieces.map Piece.block

theorem blocks_isLine : ∀ b ∈ request.blocks, IsLine 10 b.line := by
  intro b hb
  obtain ⟨piece, -, rfl⟩ := List.mem_map.mp hb
  exact cutLine_isLine _

theorem blocks_text : request.blocks.flatMap Block.text = request.stream := by
  unfold blocks stream
  rw [List.flatMap_map]
  exact List.flatMap_congr fun piece _ => cutLine_text piece.newline_mem

/-- **The condition**: two requests are readings of the same blocks, with the header lines of the two. A
reading may take a block, with its header line, for the end of the contents before it; and it may take
only the end of a header line for one, and what is before that for contents. -/
def Regroups (request request' : HashRequest) : Prop :=
  ∃ blocks : List (Block UInt8),
    (∀ b ∈ blocks, ∃ c ∈ request.blocks ++ request'.blocks, c.line = b.line) ∧
      Reads blocks [] request.blocks ∧ Reads blocks [] request'.blocks

/-- Different pieces give different bytes where no header line of one request is inside a piece of the
other, save pieces that differ only in how one line was put together. -/
theorem stream_injective_of_quiet {request request' : HashRequest}
    (hquiet : Quiet request.blocks request'.blocks) (hquiet' : Quiet request'.blocks request.blocks)
    (hdiffer : request.blocks ≠ request'.blocks) : request.stream ≠ request'.stream := by
  intro heq
  rw [← blocks_text, ← blocks_text] at heq
  obtain ⟨blocks, hlines, hread, hread'⟩ :=
    (exists_reads request.blocks_isLine request'.blocks_isLine).mp heq
  have hnot : ∀ b : Block UInt8, IsLine 10 b.line → ¬b.line <:+: [] := fun b hb hin =>
    hb.ne_nil (List.infix_nil.mp hin)
  refine hdiffer (hread.unique hquiet hquiet' hlines hread' (List.Subset.refl _) (List.Subset.refl _)
    ?_ ?_).2.2
  · exact fun b hb => hnot b (request'.blocks_isLine b hb)
  · exact fun b hb => hnot b (request.blocks_isLine b hb)

/-- A unit of two files. -/
def twoFiles : HashRequest where
  allSources := [js "main.leo", js "utils.leo"]
  sources := fun relPath =>
    if relPath = js "main.leo" then some (utf8 (js "program a.aleo \x7b\x7d//"))
    else if relPath = js "utils.leo" then some (utf8 (js "struct S \x7bx: u8\x7d")) else none
  programJson := some (utf8 (js "\x7b\x7d"))
  compilerVersion := some (js "4.3.0")
  localDepIds := []
  depHashes := fun _ => none
  networkDepIds := []
  imports := fun _ => none

/-- A unit of one file, in which the second file of `twoFiles` follows a comment. -/
def oneFile : HashRequest where
  allSources := [js "main.leo"]
  sources := fun relPath =>
    if relPath = js "main.leo" then
      some (utf8 (js "program a.aleo \x7b\x7d//" ++ js "file:utils.leo" ++ newline ++ js "struct S \x7bx: u8\x7d"))
    else none
  programJson := some (utf8 (js "\x7b\x7d"))
  compilerVersion := some (js "4.3.0")
  localDepIds := []
  depHashes := fun _ => none
  networkDepIds := []
  imports := fun _ => none

end HashRequest

end Lionden.Build
