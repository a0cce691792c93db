import Lionden.Lib.Word
import Lionden.Redact.Basic

/-!
# What the redactor may emit

`Emits H mode rest out` reads the remaining text `rest` at once, without chunks and without
hold-back: from `mode` it may be emitted as `out`. The parameter `H` says which needle may be found
at a position. A redactor that holds all the text finds `needleAt` of it (`Whole`); one that
receives the text in chunks finds `needleAt` of the part that has arrived, and finds nothing only
where no needle begins (`Windowed`).

* `iteration_emits`, `drain_emits`: one pass, and the whole loop, emit what `Emits` allows.
* `redactStream_emits`, `redactSecrets_emits`: so do the two entry points.
* `Emits.scanning_cases`, `Emits.candidate_cases`, `Emits.discarding_cases`: inversion.
* `Whole.windowed`, `Emits.mono`: holding all the text is one way to receive it.
-/

namespace Lionden.Redact

/-- The state of the redactor, with the alphanumerics read since the marker. -/
inductive Mode where
  | scanning
  | candidate (run : JsString)
  | discarding

/-- The text that is read, but neither emitted nor dropped yet. -/
def Mode.held : Mode → JsString
  | candidate run => marker ++ run
  | _ => []

inductive Emits (H : JsString → Option JsString → Prop) : Mode → JsString → JsString → Prop
  | scanEnd : Emits H .scanning [] []
  | candidateEnd {run} : Emits H (.candidate run) [] (marker ++ run)
  | discardEnd : Emits H .discarding [] []
  | mask {rest hit out} : H rest (some hit) → hit ≠ marker →
      Emits H .scanning (rest.drop hit.length) out → Emits H .scanning rest (redacted ++ out)
  | mark {rest out} : H rest (some marker) →
      Emits H (.candidate []) (rest.drop marker.length) out → Emits H .scanning rest out
  | plain {c rest out} : H (c :: rest) none → Emits H .scanning rest out →
      Emits H .scanning (c :: rest) (c :: out)
  | grow {run c rest out} : isAlnum c = true → run.length + 1 < keyTailMin →
      Emits H (.candidate (run ++ [c])) rest out → Emits H (.candidate run) (c :: rest) out
  | key {run c rest out} : isAlnum c = true → keyTailMin ≤ run.length + 1 →
      Emits H .discarding rest out → Emits H (.candidate run) (c :: rest) (redacted ++ out)
  | truncated {run rest out} : run ≠ [] → Emits H .scanning rest out →
      Emits H (.candidate run) (truncationSuffix ++ rest) (redacted ++ out)
  | release {run c rest out} : isAlnum c = false →
      (run ≠ [] → ¬ truncationSuffix <+: c :: rest) → Emits H .scanning (c :: rest) out →
      Emits H (.candidate run) (c :: rest) (marker ++ run ++ out)
  | discard {c rest out} : isAlnum c = true → Emits H .discarding rest out →
      Emits H .discarding (c :: rest) out
  | resume {c rest out} : isAlnum c = false → Emits H .scanning (c :: rest) out →
      Emits H .discarding (c :: rest) out

section Inversion

variable {H : JsString → Option JsString → Prop}

theorem Emits.scanning_cases {rest out : JsString} (h : Emits H .scanning rest out) :
    (rest = [] ∧ out = []) ∨
    (∃ hit out', H rest (some hit) ∧ hit ≠ marker ∧ out = redacted ++ out' ∧
      Emits H .scanning (rest.drop hit.length) out') ∨
    (H rest (some marker) ∧ Emits H (.candidate []) (rest.drop marker.length) out) ∨
    (∃ c rest' out', rest = c :: rest' ∧ out = c :: out' ∧ H rest none ∧
      Emits H .scanning rest' out') := by
  cases h with
  | scanEnd => exact .inl ⟨rfl, rfl⟩
  | mask hit hne h => exact .inr (.inl ⟨_, _, hit, hne, rfl, h⟩)
  | mark hit h => exact .inr (.inr (.inl ⟨hit, h⟩))
  | plain hit h => exact .inr (.inr (.inr ⟨_, _, _, rfl, rfl, hit, h⟩))

theorem Emits.discarding_end {out : JsString} (h : Emits H .discarding [] out) : out = [] := by
  cases h
  rfl

theorem Emits.candidate_end {run out : JsString} (h : Emits H (.candidate run) [] out) :
    out = marker ++ run := by
  generalize hw : ([] : JsString) = w at h
  cases h with
  | candidateEnd => rfl
  | grow => cases hw
  | key => cases hw
  | truncated => cases hw
  | release => cases hw

theorem Emits.candidate_cases {run rest out : JsString} {c : CodeUnit}
    (h : Emits H (.candidate run) (c :: rest) out) :
    (isAlnum c = true ∧ run.length + 1 < keyTailMin ∧
      Emits H (.candidate (run ++ [c])) rest out) ∨
    (isAlnum c = true ∧ keyTailMin ≤ run.length + 1 ∧
      ∃ out', out = redacted ++ out' ∧ Emits H .discarding rest out') ∨
    (run ≠ [] ∧ ∃ rest' out', c :: rest = truncationSuffix ++ rest' ∧ out = redacted ++ out' ∧
      Emits H .scanning rest' out') ∨
    (isAlnum c = false ∧ (run ≠ [] → ¬ truncationSuffix <+: c :: rest) ∧
      ∃ out', out = marker ++ run ++ out' ∧ Emits H .scanning (c :: rest) out') := by
  generalize hw : c :: rest = w at h
  cases h with
  | candidateEnd => cases hw
  | grow ha hl h => cases hw; exact .inl ⟨ha, hl, h⟩
  | key ha hl h => cases hw; exact .inr (.inl ⟨ha, hl, _, rfl, h⟩)
  | truncated hne h => exact .inr (.inr (.inl ⟨hne, _, _, rfl, rfl, h⟩))
  | release ha ht h => cases hw; exact .inr (.inr (.inr ⟨ha, ht, _, rfl, h⟩))

theorem Emits.discarding_cases {rest out : JsString} {c : CodeUnit}
    (h : Emits H .discarding (c :: rest) out) :
    (isAlnum c = true ∧ Emits H .discarding rest out) ∨
    (isAlnum c = false ∧ Emits H .scanning (c :: rest) out) := by
  cases h with
  | discard ha h => exact .inl ⟨ha, h⟩
  | resume ha h => exact .inr ⟨ha, h⟩

end Inversion

/-- The whole text is there: `needleAt` decides. -/
def Whole (N : Needles) (rest : JsString) (o : Option JsString) : Prop := N.needleAt rest = o

/-- A prefix `w` of the text is there; that nothing is found is never decided too early. -/
def Windowed (N : Needles) (rest : JsString) (o : Option JsString) : Prop :=
  ∃ w, w <+: rest ∧ N.needleAt w = o ∧ (o = none → N.needleAt rest = none)

/-! ## The mode of a redactor -/

/-- `mode` is the mode of the redactor `r`. -/
inductive Models : Redactor → Mode → Prop
  | scanning {buf candidate alnumSeen} : Models ⟨buf, candidate, alnumSeen, .scanning⟩ .scanning
  | candidate {buf run} : (∀ c ∈ run, isAlnum c = true) → run.length < keyTailMin →
      Models ⟨buf, marker ++ run, run.length, .candidate⟩ (.candidate run)
  | discarding {buf candidate alnumSeen} :
      Models ⟨buf, candidate, alnumSeen, .discarding⟩ .discarding

theorem Models.push {r : Redactor} {mode : Mode} (h : Models r mode) (buf : JsString) :
    Models { r with buf := buf } mode := by
  cases h with
  | scanning => exact .scanning
  | candidate hrun hlen => exact .candidate hrun hlen
  | discarding => exact .discarding

section Soundness

variable {N : Needles} {H : JsString → Option JsString → Prop} {atEnd : Bool} {future : JsString}

/-- Without a hit, text is emitted only where the text to come cannot complete a needle. -/
theorem needleAt_append_none {w : JsString} (hw : N.needleAt w = none)
    (hold : ¬ (w.length < N.maxNeedle ∧ N.mayStartNeedle w = true) ∨ future = []) :
    N.needleAt (w ++ future) = none := by
  rcases hold with hold | rfl
  · rw [Needles.needleAt_eq_none] at hw ⊢
    intro n hn hpre
    rcases Word.prefix_append_split hpre with h | ⟨y, rfl, hy⟩
    · exact hw n hn h
    · by_cases hy0 : y = []
      · subst hy0
        exact hw _ hn (by simp)
      · have hlen : w.length < (w ++ y).length := by
          have := List.length_pos_of_ne_nil hy0
          simp only [List.length_append]
          omega
        refine hold ⟨Nat.lt_of_lt_of_le hlen (Needles.le_maxNeedle hn), ?_⟩
        simp only [Needles.mayStartNeedle, List.any_eq_true, Bool.and_eq_true, decide_eq_true_eq]
        exact ⟨_, hn, hlen, List.isPrefixOf_iff_prefix.mpr (List.prefix_append w y)⟩
  · simpa using hw

/-- A delimiter is passed over only where the text to come cannot make it an ellipsis. -/
theorem not_truncation_append {w : JsString} (hw : ¬ truncationSuffix <+: w)
    (hold : ¬ (w.length < truncationSuffix.length ∧ startsTruncation w = true) ∨ future = []) :
    ¬ truncationSuffix <+: w ++ future := by
  rcases hold with hold | rfl
  · intro hpre
    rcases Word.prefix_append_split hpre with h | ⟨y, hy, -⟩
    · exact hw h
    · by_cases hy0 : y = []
      · exact hw (by simp [hy, hy0])
      · refine hold ⟨?_, List.isPrefixOf_iff_prefix.mpr (hy ▸ List.prefix_append w y)⟩
        have := List.length_pos_of_ne_nil hy0
        rw [hy, List.length_append]
        omega
  · simpa using hw

/-- **One pass of the loop.** What it adds to the output, and what is emitted after it, is what
`Emits` allows before it. At the end of the stream there is no text to come. -/
theorem iteration_emits {r r' : Redactor} {mode : Mode} {out : JsString}
    (hH : ∀ w, (N.needleAt w = none → N.needleAt (w ++ future) = none) →
      H (w ++ future) (N.needleAt w))
    (hend : atEnd = true → future = []) (hm : Models r mode)
    (h : iteration N atEnd r = some (out, r')) :
    ∃ mode', Models r' mode' ∧ ∀ out', Emits H mode' (r'.buf ++ future) out' →
      Emits H mode (r.buf ++ future) (out ++ out') := by
  have hfuture : ∀ p : Prop, ¬ (atEnd = false ∧ p) → ¬ p ∨ future = [] := by
    intro p hp
    cases atEnd with
    | false => exact .inl fun hp' => hp ⟨rfl, hp'⟩
    | true => exact .inr (hend rfl)
  cases hm with
  | @scanning buf candidate alnumSeen =>
    cases buf with
    | nil => simp [iteration] at h
    | cons ch rest =>
      simp only [iteration] at h
      split at h
      · next hnone =>
        split at h
        · cases h
        · next hhold =>
          cases h
          have hnone' : N.needleAt (ch :: rest ++ future) = none := needleAt_append_none hnone
            (hfuture _ fun hp => hhold (by simp only [hp.1, hp.2.1, hp.2.2, Bool.not_false,
              decide_true, Bool.and_self]))
          have hhit := hH (ch :: rest) fun _ => hnone'
          rw [hnone] at hhit
          exact ⟨.scanning, .scanning, fun out' hout => .plain hhit hout⟩
      · next hit hhit =>
        have hpre := (Needles.needleAt_some hhit).2
        have hhit' := hH (ch :: rest) fun hnone => by simp [hnone] at hhit
        rw [hhit] at hhit'
        have hdrop : (ch :: rest ++ future).drop hit.length =
            (ch :: rest).drop hit.length ++ future :=
          List.drop_append_of_le_length hpre.length_le
        split at h
        · next hne =>
          cases h
          refine ⟨.scanning, .scanning, fun out' hout => .mask hhit' hne ?_⟩
          rw [hdrop]
          exact hout
        · next heq =>
          simp only [ne_eq, not_not] at heq
          subst heq
          cases h
          refine ⟨.candidate [], .candidate (by simp) (by decide), fun out' hout => .mark hhit' ?_⟩
          rw [hdrop]
          exact hout
  | @candidate buf run hrun hlen =>
    cases buf with
    | nil => simp [iteration] at h
    | cons ch rest =>
      simp only [iteration] at h
      split at h
      · next halnum =>
        split at h
        · next hkey =>
          cases h
          exact ⟨.discarding, .discarding, fun out' hout => .key halnum hkey hout⟩
        · next hkey =>
          cases h
          have hm' : Models ⟨rest, marker ++ (run ++ [ch]), (run ++ [ch]).length, .candidate⟩
              (.candidate (run ++ [ch])) :=
            .candidate (by simpa [or_imp, forall_and, halnum] using hrun) (by simp; omega)
          refine ⟨.candidate (run ++ [ch]), by simpa using hm', fun out' hout => ?_⟩
          exact .grow halnum (by omega) hout
      · next halnum =>
        simp only [Bool.not_eq_true] at halnum
        have hpos : 0 < run.length ↔ run ≠ [] := List.length_pos_iff
        split at h
        · cases h
        · next hhold =>
          split at h
          · next htrunc =>
            cases h
            simp only [Bool.and_eq_true, decide_eq_true_eq, hpos, List.isPrefixOf_iff_prefix]
              at htrunc
            obtain ⟨hne, t, ht⟩ := htrunc
            refine ⟨.scanning, .scanning, fun out' hout => ?_⟩
            simp only [← ht, List.drop_left] at hout
            simp only [← ht, List.append_assoc]
            exact .truncated hne hout
          · next htrunc =>
            cases h
            simp only [Bool.and_eq_true, decide_eq_true_eq, hpos, List.isPrefixOf_iff_prefix,
              not_and] at htrunc
            refine ⟨.scanning, .scanning, fun out' hout => .release halnum (fun hne => ?_) hout⟩
            refine not_truncation_append (htrunc hne) (hfuture _ fun hp => hhold ?_)
            simp only [hpos.mpr hne, hp.1, hp.2.1, hp.2.2, Bool.not_false, decide_true,
              Bool.and_self]
  | @discarding buf candidate alnumSeen =>
    cases buf with
    | nil => simp [iteration] at h
    | cons ch rest =>
      simp only [iteration] at h
      split at h
      · next halnum =>
        cases h
        exact ⟨.discarding, .discarding, fun out' hout => .discard halnum hout⟩
      · next halnum =>
        cases h
        exact ⟨.scanning, .scanning, fun out' hout => .resume (by simpa using halnum) hout⟩

/-- The loop of `drain`. -/
theorem drain_emits {r : Redactor} {mode : Mode}
    (hH : ∀ w, (N.needleAt w = none → N.needleAt (w ++ future) = none) →
      H (w ++ future) (N.needleAt w))
    (hend : atEnd = true → future = []) (hm : Models r mode) :
    ∃ mode', Models (drain N atEnd r).2 mode' ∧
      ∀ out', Emits H mode' ((drain N atEnd r).2.buf ++ future) out' →
        Emits H mode (r.buf ++ future) ((drain N atEnd r).1 ++ out') := by
  fun_induction drain N atEnd r generalizing mode with
  | case1 r hnone => exact ⟨mode, hm, fun out' hout => hout⟩
  | case2 r out r' h hwork out' r'' hdrain ih =>
    obtain ⟨mode₁, hm₁, h₁⟩ := iteration_emits hH hend hm h
    obtain ⟨mode₂, hm₂, h₂⟩ := ih hm₁
    rw [hdrain] at hm₂ h₂
    refine ⟨mode₂, hm₂, fun out₂ hout => ?_⟩
    rw [List.append_assoc]
    exact h₁ _ (h₂ _ hout)

/-- At the end of the stream the loop reads all of the buffer. -/
theorem drain_true_buf {r : Redactor} : (drain N true r).2.buf = [] := by
  fun_induction drain N true r with
  | case1 r hnone =>
    obtain ⟨buf, candidate, alnumSeen, state⟩ := r
    cases buf with
    | nil => rfl
    | cons ch rest =>
      exfalso
      cases state with
      | scanning =>
        simp only [iteration] at hnone
        split at hnone
        · simp at hnone
        · split at hnone <;> cases hnone
      | candidate =>
        simp only [iteration] at hnone
        split at hnone
        · split at hnone <;> cases hnone
        · simp only [Bool.not_true, Bool.and_false, Bool.false_and, Bool.false_eq_true,
            if_false] at hnone
          split at hnone <;> cases hnone
      | discarding =>
        simp only [iteration] at hnone
        split at hnone <;> cases hnone
  | case2 r out r' h hwork out' r'' hdrain ih => rw [hdrain] at ih; exact ih

theorem flush_emits {r : Redactor} {mode : Mode}
    (hH : ∀ w, H w (N.needleAt w)) (hm : Models r mode) : Emits H mode r.buf (flush N r).1 := by
  have hend : true = true → ([] : JsString) = [] := fun _ => rfl
  obtain ⟨mode', hm', h⟩ := drain_emits (N := N) (H := H) (fun w _ => by simpa using hH w) hend hm
  have hbuf : (drain N true r).2.buf = [] := drain_true_buf
  simp only [hbuf, List.append_nil] at h
  generalize hd : drain N true r = d at hm' h
  obtain ⟨out, r'⟩ := d
  simp only [flush, hd]
  cases hm' with
  | scanning => simpa using h _ .scanEnd
  | candidate => simpa using h _ .candidateEnd
  | discarding => simpa using h _ .discardEnd

/-- **A stream.** From any state, the chunks to come are emitted as one text. -/
theorem emitAll_emits {r : Redactor} {mode : Mode} {chunks : List JsString} (hm : Models r mode) :
    Emits (Windowed N) mode (r.buf ++ chunks.flatten) (emitAll N r chunks) := by
  induction chunks generalizing r mode with
  | nil =>
    simpa [emitAll] using flush_emits (fun w => ⟨w, List.prefix_rfl, rfl, id⟩) hm
  | cons chunk chunks ih =>
    simp only [emitAll, push]
    split
    · next hempty =>
      rw [List.length_eq_zero_iff] at hempty
      simpa [hempty] using ih hm
    · have hH : ∀ w, (N.needleAt w = none → N.needleAt (w ++ chunks.flatten) = none) →
          Windowed N (w ++ chunks.flatten) (N.needleAt w) :=
        fun w hw => ⟨w, List.prefix_append _ _, rfl, hw⟩
      have hend : false = true → chunks.flatten = [] := by simp
      obtain ⟨mode', hm', h⟩ := drain_emits hH hend (hm.push (r.buf ++ chunk))
      simpa using h _ (ih hm')

/-- One `push` from an empty buffer and a `flush` find the needles of the whole text. -/
theorem push_flush_emits {r : Redactor} {mode : Mode} {text : JsString} (hbuf : r.buf = [])
    (hm : Models r mode) :
    Emits (Whole N) mode text ((push N r text).1 ++ (flush N (push N r text).2).1) := by
  simp only [push]
  split
  · next hempty =>
    rw [List.length_eq_zero_iff] at hempty
    have h := flush_emits (H := Whole N) (fun _ => rfl) hm
    rw [hbuf] at h
    simpa [hempty] using h
  · have hend : false = true → ([] : JsString) = [] := fun _ => rfl
    obtain ⟨mode', hm', h⟩ := drain_emits (N := N) (H := Whole N) (fun w _ => by simp [Whole]) hend
      (hm.push (r.buf ++ text))
    have := h _ (by simpa using flush_emits (H := Whole N) (fun _ => rfl) hm')
    simpa [hbuf] using this

theorem redactStream_emits (extra chunks : List JsString) :
    Emits (Windowed (.ofExtra extra)) .scanning chunks.flatten (redactStream extra chunks) :=
  emitAll_emits (r := .create) .scanning

theorem redactSecrets_emits (text : JsString) (extra : List JsString) :
    Emits (Whole (.ofExtra extra)) .scanning text (redactSecrets text extra) :=
  push_flush_emits rfl .scanning

/-- The one-shot entry point is the stream of one chunk. -/
theorem redactSecrets_eq_redactStream (text : JsString) (extra : List JsString) :
    redactSecrets text extra = redactStream extra [text] := rfl

end Soundness

/-! ## Streams whose first chunk is a needle -/

theorem models_marker : Models ⟨[], marker, 0, .candidate⟩ (.candidate []) := by
  have := @Models.candidate [] [] (by simp) (by decide)
  simpa using this

/-- After just the marker the redactor holds a candidate. -/
theorem push_marker {N : Needles} (hmark : N.needleAt marker = some marker) :
    push N .create marker = ([], ⟨[], marker, 0, .candidate⟩) := by
  have h₁ : iteration N false ⟨marker, [], 0, .scanning⟩ =
      some ([], ⟨[], marker, 0, .candidate⟩) := by
    have : marker = 65 :: js "PrivateKey1" := by decide
    rw [this] at hmark ⊢
    simp only [iteration, hmark]
    rw [this]
    simp
  have h₂ : iteration N false ⟨[], marker, 0, .candidate⟩ = none := rfl
  simp only [push, Redactor.create]
  rw [if_neg (by decide), List.nil_append, drain_some h₁, drain_none h₂]
  rfl

/-- A secret that is the first chunk is replaced at once. -/
theorem push_secret {N : Needles} {s : JsString} (hs : s ∈ N.secrets) (hne : s ≠ marker) :
    push N .create s = (redacted, .create) := by
  have hit := Needles.needleAt_secret hs
  have hlen := N.long s hs
  cases s with
  | nil => simp at hlen
  | cons c s =>
    have h₁ : iteration N false ⟨c :: s, [], 0, .scanning⟩ = some (redacted, .create) := by
      simp only [iteration, hit]
      simp [hne, Redactor.create]
    have h₂ : iteration N false .create = none := rfl
    simp only [push, Redactor.create, List.nil_append]
    rw [if_neg (by simp), drain_some h₁, drain_none h₂]
    rfl

theorem redactStream_marker {extra : List JsString} {rest : JsString}
    (hmark : (Needles.ofExtra extra).needleAt marker = some marker) :
    redactStream extra [marker, rest] =
      (push (.ofExtra extra) ⟨[], marker, 0, .candidate⟩ rest).1 ++
        (flush (.ofExtra extra) (push (.ofExtra extra) ⟨[], marker, 0, .candidate⟩ rest).2).1 := by
  simp only [redactStream, emitAll, push_marker hmark, List.nil_append]

theorem redactStream_secret {extra chunks : List JsString} {s : JsString}
    (hs : s ∈ (Needles.ofExtra extra).secrets) (hne : s ≠ marker) :
    redactStream extra (s :: chunks) = redacted ++ redactStream extra chunks := by
  simp only [redactStream, emitAll, push_secret hs hne]

/-! ## What stands in the output -/

theorem Windowed.some_prefix {N : Needles} {rest n : JsString} (h : Windowed N rest (some n)) :
    n ∈ N.all ∧ n <+: rest := by
  obtain ⟨w, hw, hn, -⟩ := h
  exact ⟨(Needles.needleAt_some hn).1, (Needles.needleAt_some hn).2.trans hw⟩

theorem Windowed.none {N : Needles} {rest : JsString} (h : Windowed N rest none) :
    N.needleAt rest = none := by
  obtain ⟨w, -, -, h⟩ := h
  exact h rfl

theorem Whole.windowed {N : Needles} {rest : JsString} {o : Option JsString} (h : Whole N rest o) :
    Windowed N rest o := ⟨rest, List.prefix_rfl, h, fun ho => by rw [← ho]; exact h⟩

theorem Emits.mono {H H' : JsString → Option JsString → Prop} (hH : ∀ rest o, H rest o → H' rest o)
    {mode : Mode} {rest out : JsString} (h : Emits H mode rest out) : Emits H' mode rest out := by
  induction h with
  | scanEnd => exact .scanEnd
  | candidateEnd => exact .candidateEnd
  | discardEnd => exact .discardEnd
  | mask hit hne _ ih => exact .mask (hH _ _ hit) hne ih
  | mark hit _ ih => exact .mark (hH _ _ hit) ih
  | plain hit _ ih => exact .plain (hH _ _ hit) ih
  | grow ha hl _ ih => exact .grow ha hl ih
  | key ha hl _ ih => exact .key ha hl ih
  | truncated hne _ ih => exact .truncated hne ih
  | release ha ht _ ih => exact .release ha ht ih
  | discard ha _ ih => exact .discard ha ih
  | resume ha _ ih => exact .resume ha ih

end Lionden.Redact
