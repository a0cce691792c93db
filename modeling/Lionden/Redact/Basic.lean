import Mathlib.Data.List.Sort
import Lionden.Js.Text

/-!
# The redactor (`packages/core/src/redact.ts`)

`createStreamRedactor` as a state machine: `Redactor` holds the closure's mutable variables,
`iteration` is one pass of the `while` loop of `drain`, and `drain`, `push` and `flush` are the
functions of the source. `redactStream` concatenates what `push` returns over the chunks of a
stream and what the final `flush` returns; `redactSecrets` is the one-shot entry point.

* `Needles` carries what the preparation of the needles guarantees: every secret has at least 8
  characters and the list is sorted, longest first.
* `le_needleAt`, `needleAt_of_prefix`: which needle is found at a position.
* `iteration_work`: each pass makes progress, so `drain` ends.
-/

namespace Lionden.Redact

/-! ## Constants -/

/-- Prefix of every Aleo private key. -/
def marker : JsString := js "APrivateKey1"

/-- Alphanumerics after `marker` before a token is certainly a key. -/
def keyTailMin : Nat := 40

/-- How Leo closes a private key that it does not print in full. -/
def truncationSuffix : JsString := js "..."

def redacted : JsString := js "[REDACTED]"

def isAlnum (ch : CodeUnit) : Bool :=
  inRange '0' '9' ch || inRange 'a' 'z' ch || inRange 'A' 'Z' ch

/-! ## Needles -/

/-- The prepared extra secrets: each has at least 8 characters, and they are sorted by length,
longest first. -/
structure Needles where
  secrets : List JsString
  long : ∀ s ∈ secrets, 8 ≤ s.length
  sorted : secrets.Pairwise fun a b => b.length ≤ a.length

namespace Needles

/-- `[...new Set((extra ?? []).filter((s) => s.length >= 8))].sort((a, b) => b.length - a.length)`:
a `Set` keeps the first of equal strings, and the sort is stable. -/
def secretsOf (extra : List JsString) : List JsString :=
  (extra.filter fun s => 8 ≤ s.length).eraseDups.insertionSort fun a b => b.length ≤ a.length

theorem mem_secretsOf {extra : List JsString} {s : JsString} :
    s ∈ secretsOf extra ↔ s ∈ extra ∧ 8 ≤ s.length := by
  simp [secretsOf]

def ofExtra (extra : List JsString) : Needles where
  secrets := secretsOf extra
  long s hs := (mem_secretsOf.mp hs).2
  sorted := by
    have : Std.Total fun a b : JsString => b.length ≤ a.length :=
      ⟨fun a b => Nat.le_total b.length a.length⟩
    have : IsTrans JsString fun a b => b.length ≤ a.length :=
      ⟨fun a b c hab hbc => Nat.le_trans hbc hab⟩
    exact List.pairwise_insertionSort _ _

variable (N : Needles)

/-- `needles`. -/
def all : List JsString := N.secrets ++ [marker]

/-- `Math.max(...needles.map((n) => n.length))`. -/
def maxNeedle : Nat := (N.all.map List.length).foldl max 0

/-- The longest needle that `rest` (`buf.slice(i)`) starts with. Secrets win over the marker. -/
def needleAt (rest : JsString) : Option JsString := N.all.find? fun n => n.isPrefixOf rest

/-- Could a needle begin at `i` and continue past the end of `rest = buf.slice(i)`? -/
def mayStartNeedle (rest : JsString) : Bool :=
  N.all.any fun n => decide (rest.length < n.length) && rest.isPrefixOf n

end Needles

/-- `TRUNCATION_SUFFIX.startsWith(buf.slice(i))`. -/
def startsTruncation (rest : JsString) : Bool := rest.isPrefixOf truncationSuffix

/-! ## The state machine -/

inductive State where
  | scanning
  | candidate
  | discarding
  deriving DecidableEq, Repr

/-- The mutable variables of `createStreamRedactor`. -/
structure Redactor where
  buf : JsString
  candidate : JsString
  alnumSeen : Nat
  state : State
  deriving DecidableEq, Repr

/-- The redactor before the first `push`. -/
def Redactor.create : Redactor where
  buf := []
  candidate := []
  alnumSeen := 0
  state := .scanning

/-- One pass of the loop of `drain`: what it adds to `out`, and the variables after it, with
`buf` cut to `buf.slice(i)`. `none`: the loop ends (`break`, or nothing is left). -/
def iteration (N : Needles) (atEnd : Bool) (r : Redactor) : Option (JsString × Redactor) :=
  match r.buf with
  | [] => none
  | ch :: rest =>
    match r.state with
    | .scanning =>
      match N.needleAt r.buf with
      | none =>
        -- Hold back a partial needle so the next chunk can complete it.
        if !atEnd && decide (r.buf.length < N.maxNeedle) && N.mayStartNeedle r.buf then none
        else some ([ch], { r with buf := rest })
      | some hit =>
        if hit ≠ marker then some (redacted, { r with buf := r.buf.drop hit.length })
        else some ([], { buf := r.buf.drop marker.length, candidate := marker, alnumSeen := 0,
                         state := .candidate })
    | .candidate =>
      if isAlnum ch then
        if keyTailMin ≤ r.alnumSeen + 1 then
          some (redacted, { buf := rest, candidate := [], alnumSeen := r.alnumSeen + 1,
                            state := .discarding })
        else
          some ([], { r with buf := rest, candidate := r.candidate ++ [ch],
                             alnumSeen := r.alnumSeen + 1 })
      else if decide (0 < r.alnumSeen) && !atEnd &&
          decide (r.buf.length < truncationSuffix.length) && startsTruncation r.buf then
        none
      else if decide (0 < r.alnumSeen) && truncationSuffix.isPrefixOf r.buf then
        some (redacted, { r with buf := r.buf.drop truncationSuffix.length, candidate := [],
                                 state := .scanning })
      -- Not a key and not a truncated key: the delimiter is examined again.
      else some (r.candidate, { r with candidate := [], state := .scanning })
    | .discarding =>
      if isAlnum ch then some ([], { r with buf := rest })
      else some ([], { r with state := .scanning })

/-- Every pass consumes input, or returns to `scanning` without consuming any. -/
def Redactor.work (r : Redactor) : Nat := 2 * r.buf.length + if r.state = .scanning then 0 else 1

namespace Needles

variable {N : Needles} {rest w n : JsString}

theorem marker_mem_all : marker ∈ N.all := by simp [all]

theorem mem_all : n ∈ N.all ↔ n ∈ N.secrets ∨ n = marker := by simp [all]

theorem length_of_mem_all (h : n ∈ N.all) : 8 ≤ n.length := by
  rcases mem_all.mp h with h | rfl
  · exact N.long n h
  · decide

theorem le_maxNeedle (h : n ∈ N.all) : n.length ≤ N.maxNeedle := by
  have hle : ∀ (l : List Nat) (b : Nat), b ≤ l.foldl max b ∧ ∀ x ∈ l, x ≤ l.foldl max b := by
    intro l
    induction l with
    | nil => simp
    | cons y l ih =>
      intro b
      obtain ⟨h₁, h₂⟩ := ih (max b y)
      refine ⟨by simp only [List.foldl_cons]; omega, ?_⟩
      intro x hx
      rcases List.mem_cons.mp hx with rfl | hx
      · simp only [List.foldl_cons]; omega
      · exact h₂ x hx
  exact (hle _ 0).2 _ (List.mem_map_of_mem h)

theorem needleAt_some (h : N.needleAt rest = some n) : n ∈ N.all ∧ n <+: rest :=
  ⟨List.mem_of_find?_eq_some h, List.isPrefixOf_iff_prefix.mp (by simpa using List.find?_some h)⟩

theorem needleAt_eq_none : N.needleAt rest = none ↔ ∀ n ∈ N.all, ¬ n <+: rest := by
  simp [needleAt, List.find?_eq_none]

/-- A needle that is found stays found when the text is cut behind it. -/
theorem needleAt_of_prefix (h : N.needleAt rest = some n) (hn : n <+: w) (hw : w <+: rest) :
    N.needleAt w = some n := by
  simp only [needleAt, List.find?_eq_some_iff_append] at h ⊢
  obtain ⟨-, as, bs, heq, has⟩ := h
  refine ⟨List.isPrefixOf_iff_prefix.mpr hn, as, bs, heq, fun a ha => ?_⟩
  have hnot := has a ha
  simp only [Bool.not_eq_true', ← Bool.not_eq_true, List.isPrefixOf_iff_prefix] at hnot ⊢
  exact fun hpre => hnot (hpre.trans hw)

/-- The needle found at a position is at least as long as each secret there. -/
theorem le_needleAt (h : N.needleAt rest = some n) (hw : w ∈ N.secrets) (hpre : w <+: rest) :
    w.length ≤ n.length := by
  simp only [needleAt, List.find?_eq_some_iff_append, all] at h
  obtain ⟨-, as, bs, heq, has⟩ := h
  have hnot : w ∉ as := fun hmem => by
    simpa [List.isPrefixOf_iff_prefix.mpr hpre] using has w hmem
  rcases List.append_eq_append_iff.mp heq with ⟨as', rfl, hbs⟩ | ⟨bs', hsec, hbs⟩
  · exact absurd (List.mem_append_left _ hw) hnot
  · cases bs' with
    | nil =>
      rw [hsec, List.append_nil] at hw
      exact absurd hw hnot
    | cons m bs' =>
      obtain ⟨rfl, rfl⟩ : n = m ∧ bs = bs' ++ [marker] := by simpa using hbs
      have hsorted := N.sorted
      rw [hsec, List.pairwise_append] at hsorted
      rw [hsec, List.mem_append, List.mem_cons] at hw
      rcases hw.resolve_left hnot with rfl | hw
      · exact Nat.le_refl _
      · exact (List.pairwise_cons.mp hsorted.2.1).1 w hw

theorem exists_needleAt (hw : w ∈ N.all) (hpre : w <+: rest) : ∃ n, N.needleAt rest = some n := by
  rw [← Option.isSome_iff_exists, Option.isSome_iff_ne_none]
  exact fun hnone => needleAt_eq_none.mp hnone w hw hpre

/-- A secret that is all the text is found. -/
theorem needleAt_secret (hw : w ∈ N.secrets) : N.needleAt w = some w := by
  obtain ⟨n, hn⟩ := exists_needleAt (mem_all.mpr (.inl hw)) (List.prefix_refl w)
  rw [hn, (needleAt_some hn).2.eq_of_length_le (le_needleAt hn hw List.prefix_rfl)]

theorem secret_of_needleAt (h : N.needleAt rest = some n) (hn : n ≠ marker) : n ∈ N.secrets :=
  (mem_all.mp (needleAt_some h).1).resolve_right hn

end Needles

theorem iteration_work {N : Needles} {atEnd : Bool} {r r' : Redactor} {out : JsString}
    (h : iteration N atEnd r = some (out, r')) : r'.work < r.work := by
  obtain ⟨buf, candidate, alnumSeen, state⟩ := r
  cases buf with
  | nil => simp [iteration] at h
  | cons ch rest =>
    cases state with
    | scanning =>
      simp only [iteration] at h
      split at h
      · split at h
        · cases h
        · cases h
          simp [Redactor.work]
      · next hit hhit =>
        have := Needles.length_of_mem_all (Needles.needleAt_some hhit).1
        split at h
        · cases h
          simp only [Redactor.work, List.length_drop, List.length_cons]
          omega
        · cases h
          have : marker.length = 12 := by decide
          simp only [Redactor.work, List.length_drop, List.length_cons]
          split <;> omega
    | candidate =>
      simp only [iteration] at h
      have : truncationSuffix.length = 3 := by decide
      split at h
      · split at h <;> cases h <;> simp [Redactor.work]
      · split at h
        · cases h
        · split at h <;> cases h <;>
            simp only [Redactor.work, List.length_drop, List.length_cons, reduceCtorEq, if_false,
              if_true] <;> omega
    | discarding =>
      simp only [iteration] at h
      split at h <;> cases h <;> simp [Redactor.work]

/-- `drain`: what it returns, and the variables after it. -/
def drain (N : Needles) (atEnd : Bool) (r : Redactor) : JsString × Redactor :=
  match h : iteration N atEnd r with
  | none => ([], r)
  | some (out, r') =>
    have := iteration_work h
    let (out', r'') := drain N atEnd r'
    (out ++ out', r'')
  termination_by r.work

theorem drain_none {N : Needles} {atEnd : Bool} {r : Redactor} (h : iteration N atEnd r = none) :
    drain N atEnd r = ([], r) := by
  rw [drain]
  split
  · rfl
  · next h' => rw [h] at h'; cases h'

theorem drain_some {N : Needles} {atEnd : Bool} {r r' : Redactor} {out : JsString}
    (h : iteration N atEnd r = some (out, r')) :
    drain N atEnd r = (out ++ (drain N atEnd r').1, (drain N atEnd r').2) := by
  rw [drain]
  split
  · next h' => rw [h] at h'; cases h'
  · next h' =>
    rw [h] at h'
    cases h'
    rfl

/-- The `push` of the redactor. -/
def push (N : Needles) (r : Redactor) (chunk : JsString) : JsString × Redactor :=
  if chunk.length = 0 then ([], r) else drain N false { r with buf := r.buf ++ chunk }

/-- The `flush` of the redactor. -/
def flush (N : Needles) (r : Redactor) : JsString × Redactor :=
  let (out, r) := drain N true r
  -- A candidate at the end of the stream is neither a key nor a truncated key.
  let (out, r) := if r.state = .candidate then (out ++ r.candidate, { r with candidate := [] })
    else (out, r)
  (out, { r with state := .scanning, buf := [] })

/-- What `push` over the chunks and then `flush` return, joined. -/
def emitAll (N : Needles) (r : Redactor) : List JsString → JsString
  | [] => (flush N r).1
  | chunk :: chunks =>
    let (out, r) := push N r chunk
    out ++ emitAll N r chunks

/-- The joined output of `createStreamRedactor(extra)` on a stream of chunks. -/
def redactStream (extra : List JsString) (chunks : List JsString) : JsString :=
  emitAll (.ofExtra extra) .create chunks

/-- `redactSecrets(text, extra)`. -/
def redactSecrets (text : JsString) (extra : List JsString) : JsString :=
  let redactor := push (.ofExtra extra) .create text
  redactor.1 ++ (flush (.ofExtra extra) redactor.2).1

end Lionden.Redact
