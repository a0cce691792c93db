import Lionden.Redact.Emission

/-!
# Streaming and batch redaction

The chunks of a stream matter where one needle is a proper prefix of another: a redactor that has
received just the shorter one replaces it at once. Without such needles every stream is redacted
like the joined text.

* `Emits.unique`: without such needles `Emits` is a function of the text.
* `stream_eq_batch_iff`: the two entry points agree on every stream exactly then.
-/

namespace Lionden.Redact

open Needles

/-- `APrivateKey1`, 1 to 39 alphanumerics and `...`: replaced whole, also without being a needle. -/
def IsTruncated (q : JsString) : Prop :=
  ∃ run, q = marker ++ run ++ truncationSuffix ∧ (∀ c ∈ run, isAlnum c = true) ∧
    0 < run.length ∧ run.length < keyTailMin

/-- No needle is a proper prefix of a secret, unless it is the marker and the secret looks like a
truncated key. -/
def Needles.PrefixFree (N : Needles) : Prop :=
  ∀ q ∈ N.secrets, ∀ p ∈ N.all, p <+: q → p = q ∨ (p = marker ∧ IsTruncated q)

variable {N : Needles} {H : JsString → Option JsString → Prop}

theorem isAlnum_dot {c : CodeUnit} {rest rest' : JsString}
    (h : c :: rest = truncationSuffix ++ rest') : isAlnum c = false := by
  obtain rfl : c = 46 := (List.cons.inj h).1
  decide

theorem Emits.candidate_ellipsis {run rest out : JsString} (hne : run ≠ [])
    (h : Emits H (.candidate run) (truncationSuffix ++ rest) out) :
    ∃ out', out = redacted ++ out' ∧ Emits H .scanning rest out' := by
  have hsuffix : truncationSuffix = [46, 46, 46] := by decide
  have hdot : isAlnum 46 = false := by decide
  have hcons : truncationSuffix ++ rest = 46 :: ([46, 46] ++ rest) := by simp [hsuffix]
  rw [hcons] at h
  rcases h.candidate_cases with ⟨ha, -⟩ | ⟨ha, -⟩ | ⟨-, rest', out', ht, rfl, h'⟩ | ⟨-, ht, -⟩
  · rw [hdot] at ha
    cases ha
  · rw [hdot] at ha
    cases ha
  · rw [← hcons, List.append_right_inj] at ht
    exact ⟨out', rfl, ht ▸ h'⟩
  · rw [← hcons] at ht
    exact absurd (List.prefix_append _ _) (ht hne)

/-- A run and an ellipsis are read as a truncated key. -/
theorem Emits.truncated_iff {r run rest out : JsString} (hrun : ∀ c ∈ run, isAlnum c = true)
    (hne : r ++ run ≠ []) (hlen : r.length + run.length < keyTailMin) :
    Emits H (.candidate r) (run ++ (truncationSuffix ++ rest)) out ↔
      ∃ out', out = redacted ++ out' ∧ Emits H .scanning rest out' := by
  induction run generalizing r with
  | nil =>
    simp only [List.append_nil] at hne
    constructor
    · exact fun h => h.candidate_ellipsis hne
    · rintro ⟨out', rfl, h⟩
      exact .truncated hne h
  | cons d run ih =>
    have hd : isAlnum d = true := hrun d (by simp)
    simp only [List.length_cons] at hlen
    have ih := @ih (r ++ [d]) (fun c hc => hrun c (by simp [hc])) (by simp) (by simp; omega)
    rw [← ih, List.cons_append]
    constructor
    · intro h
      rcases h.candidate_cases with ⟨-, -, h⟩ | ⟨-, hl, -⟩ | ⟨-, rest', out', ht, -⟩ | ⟨ha, -⟩
      · exact h
      · omega
      · simp [isAlnum_dot ht] at hd
      · simp [hd] at ha
    · exact .grow hd (by omega)

/-! ## Prefix-free needles -/

/-- Two needles that are found at one position are the same, but for a truncated key. -/
theorem Needles.PrefixFree.eq_of_prefix (hfree : N.PrefixFree) {rest p q : JsString}
    (hp : Windowed N rest (some p)) (hq : Windowed N rest (some q)) (hpq : p <+: q) :
    p = q ∨ (p = marker ∧ IsTruncated q) := by
  by_cases hqs : q ∈ N.secrets
  · exact hfree q hqs p hp.some_prefix.1 hpq
  · obtain rfl := (mem_all.mp hq.some_prefix.1).resolve_left hqs
    refine (mem_all.mp hp.some_prefix.1).elim (fun hps => ?_) .inl
    -- A secret that begins the marker is found before it.
    obtain ⟨w, -, hw, -⟩ := hq
    have hsome : (N.secrets.find? fun n => n.isPrefixOf w).isSome = true := by
      rw [List.find?_isSome]
      exact ⟨p, hps, List.isPrefixOf_iff_prefix.mpr (hpq.trans (needleAt_some hw).2)⟩
    obtain ⟨n, hn⟩ := Option.isSome_iff_exists.mp hsome
    rw [needleAt, all, List.find?_append, hn] at hw
    cases hw
    exact absurd (List.mem_of_find?_eq_some hn) hqs

/-- What is emitted when the marker is read where a truncated key is a secret. -/
theorem Emits.marker_of_truncated {rest q out : JsString} (hq : IsTruncated q) (hpre : q <+: rest) :
    Emits H (.candidate []) (rest.drop marker.length) out ↔
      ∃ out', out = redacted ++ out' ∧ Emits H .scanning (rest.drop q.length) out' := by
  obtain ⟨run, rfl, hrun, hpos, hlen⟩ := hq
  obtain ⟨t, rfl⟩ := hpre
  have h : Emits H (.candidate []) (run ++ (truncationSuffix ++ t)) out ↔ _ :=
    Emits.truncated_iff hrun (by simpa [List.length_pos_iff] using hpos) (by simpa using hlen)
  rw [List.drop_left, ← h]
  simp

/-- **Prefix-free needles make the output a function of the text.** -/
theorem Emits.unique (hfree : N.PrefixFree) {mode : Mode} {rest o₁ o₂ : JsString}
    (h₁ : Emits (Windowed N) mode rest o₁) (h₂ : Emits (Windowed N) mode rest o₂) : o₁ = o₂ := by
  have hnil : ∀ {hit}, ¬ Windowed N [] (some hit) := fun {hit} h => by
    have hl := length_of_mem_all h.some_prefix.1
    rw [List.prefix_nil.mp h.some_prefix.2] at hl
    simp at hl
  have hnone : ∀ {rest hit}, Windowed N rest none → ¬ Windowed N rest (some hit) :=
    fun h h' => needleAt_eq_none.mp h.none _ h'.some_prefix.1 h'.some_prefix.2
  have hsame : ∀ {rest p q}, Windowed N rest (some p) → Windowed N rest (some q) →
      p = q ∨ (p = marker ∧ IsTruncated q) ∨ (q = marker ∧ IsTruncated p) := fun hp hq => by
    rcases List.prefix_or_prefix_of_prefix hp.some_prefix.2 hq.some_prefix.2 with hpq | hqp
    · exact (hfree.eq_of_prefix hp hq hpq).imp_right .inl
    · exact (hfree.eq_of_prefix hq hp hqp).imp Eq.symm .inr
  induction h₁ generalizing o₂ with
  | scanEnd =>
    rcases h₂.scanning_cases with ⟨-, h⟩ | ⟨hit, out', hh, -⟩ | ⟨hh, -⟩ | ⟨c, r, o, h, -⟩
    · exact h.symm
    · exact absurd hh hnil
    · exact absurd hh hnil
    · cases h
  | candidateEnd => exact h₂.candidate_end.symm
  | discardEnd => exact h₂.discarding_end.symm
  | @mask rest hit out hh hne _ ih =>
    rcases h₂.scanning_cases with ⟨rfl, -⟩ | ⟨hit', out', hh', hne', rfl, h'⟩ | ⟨hh', h'⟩ |
      ⟨c, r, o, rfl, -, hh', -⟩
    · exact absurd hh hnil
    · obtain rfl : hit = hit' := (hsame hh hh').resolve_right fun h =>
        h.elim (fun h => hne h.1) fun h => hne' h.1
      rw [ih h']
    · have ht : IsTruncated hit := (hsame hh hh').elim (fun h => absurd h hne) fun h =>
        h.elim (fun h => absurd h.1 hne) (·.2)
      obtain ⟨out', rfl, h''⟩ := (marker_of_truncated ht hh.some_prefix.2).mp h'
      rw [ih h'']
    · exact absurd hh (hnone hh')
  | @mark rest out hh _ ih =>
    rcases h₂.scanning_cases with ⟨rfl, -⟩ | ⟨hit', out', hh', hne', rfl, h'⟩ | ⟨-, h'⟩ |
      ⟨c, r, o, rfl, -, hh', -⟩
    · exact absurd hh hnil
    · have ht : IsTruncated hit' := (hsame hh hh').elim (fun h => absurd h.symm hne') fun h =>
        h.elim (·.2) fun h => absurd h.1 hne'
      exact ih ((marker_of_truncated ht hh'.some_prefix.2).mpr ⟨out', rfl, h'⟩)
    · exact ih h'
    · exact absurd hh (hnone hh')
  | @plain c rest out hh _ ih =>
    rcases h₂.scanning_cases with ⟨h, -⟩ | ⟨hit', out', hh', -⟩ | ⟨hh', -⟩ | ⟨d, r, o, h, rfl, -, h'⟩
    · cases h
    · exact absurd hh' (hnone hh)
    · exact absurd hh' (hnone hh)
    · cases h
      rw [ih h']
  | @grow run c rest out ha hl _ ih =>
    rcases h₂.candidate_cases with ⟨-, -, h'⟩ | ⟨-, hl', -⟩ | ⟨-, r, o, ht, -⟩ | ⟨ha', -⟩
    · exact ih h'
    · omega
    · simp [isAlnum_dot ht] at ha
    · simp [ha] at ha'
  | @key run c rest out ha hl _ ih =>
    rcases h₂.candidate_cases with ⟨-, hl', -⟩ | ⟨-, -, o, rfl, h'⟩ | ⟨-, r, o, ht, -⟩ | ⟨ha', -⟩
    · omega
    · rw [ih h']
    · simp [isAlnum_dot ht] at ha
    · simp [ha] at ha'
  | @truncated run rest out hne _ ih =>
    obtain ⟨out', rfl, h'⟩ := h₂.candidate_ellipsis hne
    rw [ih h']
  | @release run c rest out ha ht _ ih =>
    rcases h₂.candidate_cases with ⟨ha', -⟩ | ⟨ha', -⟩ | ⟨hne, r, o, ht', -⟩ | ⟨-, -, o, rfl, h'⟩
    · simp [ha] at ha'
    · simp [ha] at ha'
    · exact absurd (ht' ▸ List.prefix_append truncationSuffix r) (ht hne)
    · rw [ih h']
  | @discard c rest out ha _ ih =>
    rcases h₂.discarding_cases with ⟨-, h'⟩ | ⟨ha', -⟩
    · exact ih h'
    · simp [ha] at ha'
  | @resume c rest out ha _ ih =>
    rcases h₂.discarding_cases with ⟨ha', -⟩ | ⟨-, h'⟩
    · simp [ha] at ha'
    · exact ih h'

/-! ## Needles that are proper prefixes of secrets -/

/-- The mask and the marker begin differently. -/
theorem redacted_ne_marker {a b : JsString} : redacted ++ a ≠ marker ++ b := by
  have h₁ : redacted = 91 :: js "REDACTED]" := by decide
  have h₂ : marker = 65 :: js "PrivateKey1" := by decide
  simp [h₁, h₂]

theorem Emits.candidate_ne_nil {run rest out : JsString} (h : Emits H (.candidate run) rest out) :
    out ≠ [] := by
  have hmarker : marker ≠ [] := by decide
  have hredacted : redacted ≠ [] := by decide
  induction rest generalizing run with
  | nil => simp [h.candidate_end, hmarker]
  | cons c rest ih =>
    rcases h.candidate_cases with ⟨-, -, h⟩ | ⟨-, -, o, rfl, -⟩ | ⟨-, r, o, -, rfl, -⟩ |
      ⟨-, -, o, rfl, -⟩
    · exact ih h
    · simp [hredacted]
    · simp [hredacted]
    · simp [hmarker]

theorem Emits.scanning_end {out : JsString} (h : Emits (Windowed N) .scanning [] out) :
    out = [] := by
  have hempty : ∀ {hit}, ¬ Windowed N [] (some hit) := fun {hit} hh => by
    have hl := length_of_mem_all hh.some_prefix.1
    rw [List.prefix_nil.mp hh.some_prefix.2] at hl
    simp at hl
  rcases h.scanning_cases with ⟨-, h⟩ | ⟨hit, o, hh, -⟩ | ⟨hh, -⟩ | ⟨c, r, o, hr, -⟩
  · exact h
  · exact absurd hh hempty
  · exact absurd hh hempty
  · cases hr

/-- The scanner emits something for every text. -/
theorem Emits.eq_nil_of_scanning {rest : JsString} (h : Emits H .scanning rest []) : rest = [] := by
  have hredacted : redacted ≠ [] := by decide
  rcases h.scanning_cases with ⟨h, -⟩ | ⟨hit, o, -, -, ho, -⟩ | ⟨-, h⟩ | ⟨c, r, o, -, ho, -⟩
  · exact h
  · simp [hredacted] at ho
  · exact absurd rfl h.candidate_ne_nil
  · cases ho

/-- Nothing is emitted after a key exactly while its alphanumerics go on. -/
theorem Emits.discarding_iff {rest out : JsString} (h : Emits H .discarding rest out) :
    out = [] ↔ ∀ c ∈ rest, isAlnum c = true := by
  induction rest with
  | nil => simp [h.discarding_end]
  | cons c rest ih =>
    rcases h.discarding_cases with ⟨ha, h⟩ | ⟨ha, h⟩
    · simpa [ha] using ih h
    · simp only [List.forall_mem_cons, ha, Bool.false_eq_true, false_and, iff_false]
      rintro rfl
      exact absurd h.eq_nil_of_scanning (by simp)

/-- A candidate ends as a single mask only as a truncated key or as a key to the end. -/
theorem Emits.candidate_redacted {r rest : JsString} (h : Emits H (.candidate r) rest redacted)
    (hr : r.length < keyTailMin) :
    (∃ run, rest = run ++ truncationSuffix ∧ (∀ c ∈ run, isAlnum c = true) ∧ r ++ run ≠ [] ∧
      (r ++ run).length < keyTailMin) ∨
    ((∀ c ∈ rest, isAlnum c = true) ∧ keyTailMin ≤ (r ++ rest).length) := by
  have hnil : ∀ {o : JsString}, redacted = redacted ++ o → o = [] := fun ho => by simpa using ho
  induction rest generalizing r with
  | nil => exact absurd h.candidate_end (by simpa using redacted_ne_marker (a := []) (b := r))
  | cons c rest ih =>
    rcases h.candidate_cases with ⟨ha, hl, h⟩ | ⟨ha, hl, o, ho, h⟩ | ⟨hne, rest', o, ht, ho, h⟩ |
      ⟨-, -, o, ho, -⟩
    · rcases ih h (by simpa using hl) with ⟨run, rfl, hrun, -, hlen⟩ | ⟨hrest, hlen⟩
      · refine .inl ⟨c :: run, rfl, ?_, by simp, by simpa using hlen⟩
        simpa [ha] using hrun
      · exact .inr ⟨by simpa [ha] using hrest, by simpa using hlen⟩
    · obtain rfl := hnil ho
      refine .inr ⟨by simpa [ha] using h.discarding_iff.mp rfl, ?_⟩
      simp only [List.length_append, List.length_cons]
      omega
    · obtain rfl := hnil ho
      obtain rfl := h.eq_nil_of_scanning
      exact .inl ⟨[], by simpa using ht, by simp, by simpa using hne, by simpa using hr⟩
    · exact absurd ho (by simpa using redacted_ne_marker (a := []) (b := r ++ o))

/-- A long run of alphanumerics is a single mask. -/
theorem Emits.candidate_key {r rest out : JsString} (h : Emits H (.candidate r) rest out)
    (hrest : ∀ c ∈ rest, isAlnum c = true) (hr : r.length < keyTailMin)
    (hlen : keyTailMin ≤ (r ++ rest).length) : out = redacted := by
  induction rest generalizing r with
  | nil =>
    simp only [List.append_nil] at hlen
    omega
  | cons c rest ih =>
    obtain ⟨hc, hrest⟩ := List.forall_mem_cons.mp hrest
    rcases h.candidate_cases with ⟨-, hl, h⟩ | ⟨-, -, o, rfl, h'⟩ | ⟨-, rest', o, ht, -⟩ | ⟨ha, -⟩
    · exact ih h hrest (by simpa using hl) (by simpa using hlen)
    · rw [h'.discarding_iff.mpr hrest, List.append_nil]
    · simp [isAlnum_dot ht] at hc
    · simp [hc] at ha

section Disagreement

variable {extra : List JsString}

/-- The two entry points agree on every stream. -/
def Agree (extra : List JsString) : Prop :=
  ∀ chunks, redactStream extra chunks = redactSecrets chunks.flatten extra

/-- A secret that begins another one is replaced before the other one has arrived. -/
theorem Agree.secret_prefix (h : Agree extra) {p q : JsString}
    (hp : p ∈ (Needles.ofExtra extra).secrets) (hne : p ≠ marker)
    (hq : q ∈ (Needles.ofExtra extra).secrets) (hpq : p <+: q) : p = q := by
  obtain ⟨r, rfl⟩ := hpq
  have hagree := h [p, r]
  rw [redactStream_secret hp hne] at hagree
  simp only [List.flatten_cons, List.flatten_nil, List.append_nil] at hagree
  have hstream := redactStream_emits extra [r]
  have hbatch := redactSecrets_emits (p ++ r) extra
  rw [← hagree] at hbatch
  rcases hbatch.scanning_cases with ⟨hnil, -⟩ | ⟨hit, o, hh, -, ho, ht⟩ | ⟨hh, ht⟩ |
    ⟨c, t, o, -, -, hh, -⟩
  · have := (Needles.ofExtra extra).long _ hq
    rw [hnil] at this
    exact absurd this (by decide)
  · obtain rfl : p ++ r = hit := by simpa [Whole, needleAt_secret hq] using hh
    rw [List.drop_length] at ht
    obtain rfl := (ht.mono fun _ _ => Whole.windowed).scanning_end
    rw [List.append_right_inj] at ho
    rw [ho] at hstream
    have hr : r = [] := by simpa using hstream.eq_nil_of_scanning
    simp [hr]
  · have hm : p ++ r = marker := by simpa [Whole, needleAt_secret hq] using hh
    rw [hm, List.drop_length] at ht
    exact absurd ht.candidate_end redacted_ne_marker
  · simp [Whole, needleAt_secret hq] at hh

/-- So is the marker, unless the secret is read as a truncated key in any case. -/
theorem Agree.marker_prefix (h : Agree extra) {q : JsString}
    (hq : q ∈ (Needles.ofExtra extra).secrets) (hpre : marker <+: q) :
    marker = q ∨ IsTruncated q := by
  by_cases hne : q = marker
  · exact .inl hne.symm
  have hlt : marker.length < q.length :=
    Nat.lt_of_le_of_ne hpre.length_le fun hl => hne (hpre.eq_of_length hl).symm
  have hmark : (Needles.ofExtra extra).needleAt marker = some marker := by
    obtain ⟨n, hn⟩ := exists_needleAt (N := .ofExtra extra) marker_mem_all List.prefix_rfl
    by_cases hnm : n = marker
    · rw [hn, hnm]
    · have hle := (needleAt_some hn).2
      obtain rfl := h.secret_prefix (secret_of_needleAt hn hnm) hnm hq (hle.trans hpre)
      have := hle.length_le
      omega
  obtain ⟨rest, rfl⟩ := hpre
  -- The joined text is replaced up to the end of the secret.
  have hbatch : ∀ t, ∃ o, redactSecrets (marker ++ rest ++ t) extra = redacted ++ o ∧
      Emits (Whole (.ofExtra extra)) .scanning t o := fun t => by
    have hit : (Needles.ofExtra extra).needleAt (marker ++ rest ++ t) = some (marker ++ rest) := by
      obtain ⟨n, hn⟩ := exists_needleAt (N := .ofExtra extra) (mem_all.mpr (.inl hq))
        (List.prefix_append _ t)
      have hle := le_needleAt hn hq (List.prefix_append _ t)
      have hnm : n ≠ marker := by
        rintro rfl
        omega
      have hqn := List.prefix_of_prefix_length_le (List.prefix_append _ t) (needleAt_some hn).2 hle
      rw [hn, h.secret_prefix hq hne (secret_of_needleAt hn hnm) hqn]
    rcases (redactSecrets_emits (marker ++ rest ++ t) extra).scanning_cases with
      ⟨hnil, -⟩ | ⟨n, o, hh, -, ho, ht⟩ | ⟨hh, -⟩ | ⟨c, t', o, -, -, hh, -⟩
    · rw [hnil] at hit
      have := (needleAt_some hit).2.length_le
      simp only [List.length_nil] at this
      omega
    · rw [Whole, hit] at hh
      obtain rfl := Option.some.inj hh
      rw [List.drop_left] at ht
      exact ⟨o, ho, ht⟩
    · rw [Whole, hit] at hh
      exact absurd (Option.some.inj hh) hne
    · rw [Whole, hit] at hh
      cases hh
  -- The stream with the marker as first chunk holds a candidate.
  have hstream : ∀ t, Emits (Whole (.ofExtra extra)) (.candidate []) (rest ++ t)
      (redactSecrets (marker ++ rest ++ t) extra) := fun t => by
    have hagree : redactStream extra [marker, rest ++ t] =
        redactSecrets (marker ++ rest ++ t) extra := by simpa using h [marker, rest ++ t]
    rw [← hagree, redactStream_marker hmark]
    exact push_flush_emits rfl models_marker
  obtain ⟨o, ho, hnil⟩ := hbatch []
  obtain rfl := (hnil.mono fun _ _ => Whole.windowed).scanning_end
  have hemit := hstream []
  rw [ho, List.append_nil, List.append_nil] at hemit
  rcases hemit.candidate_redacted (by decide) with ⟨run, rfl, hrun, hrun0, hlen⟩ | ⟨hrest, hlen⟩
  · exact .inr ⟨run, by simp, hrun, List.length_pos_of_ne_nil hrun0, hlen⟩
  · -- One more alphanumeric is dropped with the key, and is plain text after the secret.
    exfalso
    obtain ⟨o, ho, hplain⟩ := hbatch [65]
    have hall : ∀ c ∈ rest ++ [65], isAlnum c = true := by
      intro c hc
      rcases List.mem_append.mp hc with hc | hc
      · exact hrest c hc
      · obtain rfl := List.mem_singleton.mp hc
        decide
    have hkey := (hstream [65]).candidate_key hall (by decide)
      (by simp only [List.nil_append, List.length_append] at hlen ⊢; omega)
    rw [ho] at hkey
    obtain rfl : o = [] := by simpa using hkey
    exact absurd hplain.eq_nil_of_scanning (by simp)

end Disagreement

/-- **Streaming equals batch redaction** on every text and every partition of it into chunks exactly
for the lists of secrets whose needles are prefix-free. -/
theorem stream_eq_batch_iff (extra : List JsString) :
    (∀ chunks, redactStream extra chunks = redactSecrets chunks.flatten extra) ↔
      (Needles.ofExtra extra).PrefixFree := by
  constructor
  · intro h q hq p hp hpq
    by_cases hpm : p = marker
    · subst hpm
      exact (Agree.marker_prefix h hq hpq).imp_right fun ht => ⟨rfl, ht⟩
    · exact .inl (Agree.secret_prefix h ((mem_all.mp hp).resolve_right hpm) hpm hq hpq)
  · intro hfree chunks
    have hbatch := (redactSecrets_emits chunks.flatten extra).mono fun _ _ => Whole.windowed
    exact (redactStream_emits extra chunks).unique hfree hbatch

/-- A short secret that begins a longer one: the longer one, cut behind the short one, is redacted
differently by the two entry points. -/
theorem stream_ne_batch_password :
    redactStream [js "password", js "password1234"] [js "password", js "1234"] ≠
      redactSecrets [js "password", js "1234"].flatten [js "password", js "password1234"] := by
  decide +kernel

end Lionden.Redact
