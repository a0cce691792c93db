import Lionden.Redact.Emission

/-!
# What survives redaction

Outside the masks the output is inert text: plain characters where no needle begins, and tokens
that begin like a private key but are too short to be one (`Inert`). Both properties of the
redactor follow from this.

* `Emits.inert`: a prefix of the output without an opening bracket is a prefix of the text, and
  completed to the next token boundary it is inert.
* `no_key_survives`: no private key and no truncated private key occurs in the output.
* `secrets_survive_iff`: a listed secret can occur in the output exactly when it is `Exposed`, that
  is, when it fits into an inert text and begins inside a token of that text.
-/

namespace Lionden.Redact

open Needles

/-- Text that passes the redactor unchanged: characters where no needle begins, and tokens of the
marker and fewer than `keyTailMin` alphanumerics that no ellipsis closes. -/
inductive Inert (N : Needles) : JsString → Prop
  | nil : Inert N []
  | plain {c rest} : N.needleAt (c :: rest) = none → Inert N rest → Inert N (c :: rest)
  | token {run rest} : N.needleAt marker = some marker → (∀ c ∈ run, isAlnum c = true) →
      run.length < keyTailMin → (∀ c t, rest = c :: t → isAlnum c = false) →
      (run ≠ [] → ¬ truncationSuffix <+: rest) → Inert N rest → Inert N (marker ++ run ++ rest)

/-- What a mode that was entered by reading text guarantees, outside a key. -/
def Mode.Live (N : Needles) : Mode → Prop
  | scanning => True
  | candidate run => N.needleAt marker = some marker ∧ (∀ c ∈ run, isAlnum c = true) ∧
      run.length < keyTailMin
  | discarding => False

/-- The symbol that opens the mask. -/
def openBracket : CodeUnit := 91

/-- The symbol that closes the mask. -/
def closeBracket : CodeUnit := 93

theorem redacted_eq : redacted = openBracket :: js "REDACTED" ++ [closeBracket] := by decide

/-- Only the empty prefix of a masked text has no opening bracket. -/
theorem eq_nil_of_prefix_redacted {x out : JsString} (hopen : openBracket ∉ x)
    (h : x <+: redacted ++ out) : x = [] :=
  Word.eq_nil_of_prefix_cons hopen h

theorem isAlnum_marker : ∀ c ∈ marker, isAlnum c = true := by decide

theorem marker_ne_nil : marker ≠ [] := by decide

variable {N : Needles}

/-- A window in which the marker is found is no better than the marker itself. -/
theorem Windowed.marker_found {rest : JsString} (h : Windowed N rest (some marker)) :
    N.needleAt marker = some marker := by
  obtain ⟨w, -, hw, -⟩ := h
  exact needleAt_of_prefix hw List.prefix_rfl (needleAt_some hw).2

/-- A prefix of a token ends inside the marker, which then completes it, or is a shorter token. -/
theorem inert_of_prefix_token {x run : JsString} (hmark : N.needleAt marker = some marker)
    (hrun : ∀ c ∈ run, isAlnum c = true) (hlen : run.length < keyTailMin)
    (hx : x <+: marker ++ run) :
    ∃ q, q <:+ marker ∧ x ++ q <+: marker ++ run ∧ Inert N (x ++ q) := by
  have token : ∀ y : JsString, y <+: run → Inert N (marker ++ y) := fun y hy => by
    have := Inert.token hmark (fun c hc => hrun c (hy.subset hc))
      (Nat.lt_of_le_of_lt hy.length_le hlen) (fun c t h => by simp at h)
      (fun _ => by decide) .nil
    simpa using this
  rcases Word.prefix_append_split hx with ⟨q, hq⟩ | ⟨y, rfl, hy⟩
  · refine ⟨q, ⟨x, hq⟩, ?_, ?_⟩
    · rw [hq]
      exact List.prefix_append _ _
    · rw [hq]
      simpa using token [] List.nil_prefix
  · exact ⟨[], List.nil_suffix, by simpa using hx, by simpa using token y hy⟩

/-- **Outside the masks the output is inert text.** A prefix of the output without an opening
bracket stood in the text, and it is inert once the marker in which it may end is completed. -/
theorem Emits.inert {mode : Mode} {rest out x : JsString} (h : Emits (Windowed N) mode rest out)
    (hmode : mode.Live N) (hx : x <+: out) (hopen : openBracket ∉ x) :
    ∃ q, q <:+ marker ∧ x ++ q <+: mode.held ++ rest ∧ Inert N (x ++ q) := by
  have empty : ∀ text : JsString,
      ∃ q, q <:+ marker ∧ [] ++ q <+: text ∧ Inert N ([] ++ q) := fun text =>
    ⟨[], List.nil_suffix, by simp, .nil⟩
  induction h generalizing x with
  | scanEnd =>
    obtain rfl := List.prefix_nil.mp hx
    exact empty _
  | candidateEnd =>
    simpa [Mode.held] using inert_of_prefix_token hmode.1 hmode.2.1 hmode.2.2 hx
  | discardEnd => exact hmode.elim
  | mask =>
    obtain rfl := eq_nil_of_prefix_redacted hopen hx
    exact empty _
  | @mark rest out hit _ ih =>
    obtain ⟨t, rfl⟩ := hit.some_prefix.2
    have := ih ⟨hit.marker_found, by simp, by decide⟩ hx hopen
    simpa [Mode.held] using this
  | @plain c rest out hit _ ih =>
    cases x with
    | nil => exact empty _
    | cons d x =>
      obtain ⟨rfl, hx'⟩ := List.cons_prefix_cons.mp hx
      obtain ⟨q, hq, hpre, hin⟩ := ih trivial hx' (fun h => hopen (by simp [h]))
      have hpre' : d :: (x ++ q) <+: d :: rest := List.cons_prefix_cons.mpr ⟨rfl, hpre⟩
      refine ⟨q, hq, hpre', .plain ?_ hin⟩
      rw [needleAt_eq_none]
      exact fun n hn hpn => needleAt_eq_none.mp hit.none n hn (hpn.trans hpre')
  | @grow run c rest out ha hl _ ih =>
    obtain ⟨hmark, hrun, -⟩ := hmode
    have := ih ⟨hmark, by simpa [or_imp, forall_and, ha] using hrun, by simpa using hl⟩ hx hopen
    simpa [Mode.held] using this
  | key =>
    obtain rfl := eq_nil_of_prefix_redacted hopen hx
    exact empty _
  | truncated =>
    obtain rfl := eq_nil_of_prefix_redacted hopen hx
    exact empty _
  | @release run c rest out ha ht _ ih =>
    obtain ⟨hmark, hrun, hlen⟩ := hmode
    rcases Word.prefix_append_split hx with hx | ⟨y, rfl, hy⟩
    · obtain ⟨q, hq, hpre, hin⟩ := inert_of_prefix_token hmark hrun hlen hx
      exact ⟨q, hq, hpre.trans (List.prefix_append _ _), hin⟩
    · obtain ⟨q, hq, hpre, hin⟩ := ih trivial hy (fun h => hopen (by simp [h]))
      simp only [Mode.held, List.nil_append] at hpre
      refine ⟨q, hq, ?_, ?_⟩
      · simpa [Mode.held] using hpre
      · rw [List.append_assoc]
        refine .token hmark hrun hlen (fun d t hd => ?_) (fun hne htr => ht hne (htr.trans hpre)) hin
        rw [hd] at hpre
        obtain ⟨rfl, -⟩ := List.cons_prefix_cons.mp hpre
        exact ha
  | discard => exact hmode.elim
  | resume => exact hmode.elim

/-! ## What occurs in the output -/

/-- `s` fits into an inert text and begins inside a token of it, or at its start; it may end in a
marker, which is then completed. -/
def Exposed (N : Needles) (s : JsString) : Prop :=
  ∃ p q, p <+: marker ∧ q <:+ marker ∧ Inert N (p ++ s ++ q)

theorem openBracket_not_mem_marker : openBracket ∉ marker := by decide

/-- `s` begins in a token that is released. -/
theorem exposed_of_release {run rest out a s : JsString}
    (hmode : (Mode.candidate run).Live N)
    (hout : ∀ r, r <:+ run → Emits (Windowed N) (.candidate r) rest (marker ++ r ++ out))
    (hopen : openBracket ∉ s) (ha : a <:+ marker ++ run) (hs : s <+: a ++ out) : Exposed N s := by
  obtain ⟨hmark, hrun, hlen⟩ := hmode
  rcases List.suffix_or_suffix_of_suffix ha (List.suffix_append marker run) with ha | ⟨m, rfl⟩
  · -- Inside the run: what precedes `s` in it can be left out.
    have hlive : (Mode.candidate a).Live N :=
      ⟨hmark, fun c hc => hrun c (ha.subset hc), Nat.lt_of_le_of_lt ha.length_le hlen⟩
    have hx : marker ++ s <+: marker ++ a ++ out := by
      rw [List.append_assoc]
      exact (List.prefix_append_right_inj _).mpr hs
    obtain ⟨q, hq, -, hin⟩ := (hout a ha).inert hlive hx
      (by simp [hopen, openBracket_not_mem_marker])
    exact ⟨marker, q, List.prefix_rfl, hq, hin⟩
  · obtain ⟨p, hp⟩ := ha
    rw [← List.append_assoc, List.append_left_inj] at hp
    have hx : p ++ s <+: marker ++ run ++ out := by
      rw [← hp, List.append_assoc, List.append_assoc, List.prefix_append_right_inj, ← List.append_assoc]
      exact hs
    have hp' : p <+: marker := ⟨m, hp⟩
    obtain ⟨q, hq, -, hin⟩ := (hout run List.suffix_rfl).inert ⟨hmark, hrun, hlen⟩ hx
      (by simp only [List.mem_append, not_or]
          exact ⟨fun h => openBracket_not_mem_marker (hp'.subset h), hopen⟩)
    exact ⟨p, q, hp', hq, hin⟩

/-- A text that begins with a needle and occurs in the output outside the masks is exposed. -/
theorem Emits.exposed {mode : Mode} {rest out s n : JsString}
    (h : Emits (Windowed N) mode rest out) (hmode : mode = .discarding ∨ mode.Live N)
    (hopen : openBracket ∉ s) (hclose : closeBracket ∉ s) (hred : ¬ s <:+: redacted)
    (hn : n ∈ N.all) (hns : n <+: s) (hs : s <:+: out) : Exposed N s := by
  have hne : s ≠ [] := by
    rintro rfl
    exact hred List.nil_infix
  have unmask : ∀ {out}, s <:+: redacted ++ out → s <:+: out := fun h =>
    Word.infix_of_infix_mask hclose (redacted_eq ▸ hred) (redacted_eq ▸ h)
  induction h with
  | scanEnd => exact absurd (List.infix_nil.mp hs) hne
  | @candidateEnd run =>
    have hlive := hmode.resolve_left (by simp)
    have hs' : ∃ a, a <:+ marker ++ run ∧ s <+: a ++ [] := by
      obtain ⟨a, b, hab⟩ := hs
      exact ⟨s ++ b, ⟨a, by simpa using hab⟩, by simp⟩
    obtain ⟨a, ha, hsa⟩ := hs'
    exact exposed_of_release hlive (fun r _ => by simpa using .candidateEnd) hopen ha hsa
  | discardEnd => exact absurd (List.infix_nil.mp hs) hne
  | mask _ _ _ ih => exact ih (.inr trivial) (unmask hs)
  | mark hit _ ih => exact ih (.inr ⟨hit.marker_found, by simp, by decide⟩) hs
  | @plain c rest out hit hrest ih =>
    rcases Word.infix_cons_split hs with hs | hs
    · exact ih (.inr trivial) hs
    · obtain ⟨q, -, hpre, -⟩ := (Emits.plain hit hrest).inert trivial hs hopen
      have hpre' : n <+: c :: rest := hns.trans ((List.prefix_append _ _).trans hpre)
      exact absurd hpre' (needleAt_eq_none.mp hit.none n hn)
  | @grow run c rest out ha hl _ ih =>
    obtain ⟨hmark, hrun, -⟩ := hmode.resolve_left (by simp)
    exact ih (.inr ⟨hmark, by simpa [or_imp, forall_and, ha] using hrun, by simpa using hl⟩) hs
  | key _ _ _ ih => exact ih (.inl rfl) (unmask hs)
  | truncated _ _ ih => exact ih (.inr trivial) (unmask hs)
  | @release run c rest out ha ht hrest ih =>
    have hlive := hmode.resolve_left (by simp)
    rcases Word.infix_append_split hs with hs | ⟨a, -, hsuf, hs⟩
    · exact ih (.inr trivial) hs
    · refine exposed_of_release hlive (fun r hr => .release ha (fun hr0 => ht ?_) hrest) hopen
        hsuf hs
      rintro rfl
      exact hr0 (List.suffix_nil.mp hr)
  | discard _ _ ih => exact ih (.inl rfl) hs
  | resume _ _ ih => exact ih (.inr trivial) hs

/-! ## Private keys -/

/-- `APrivateKey1` and at least 40 alphanumerics, or `APrivateKey1`, 1 to 39 alphanumerics and
`...`. -/
def IsKey (tok : JsString) : Prop :=
  ∃ run tail, tok = marker ++ run ++ tail ∧ (∀ c ∈ run, isAlnum c = true) ∧
    (keyTailMin ≤ run.length ∧ tail = [] ∨
      0 < run.length ∧ run.length < keyTailMin ∧ tail = truncationSuffix)

theorem isAlnum_append_marker {run : JsString} (hrun : ∀ c ∈ run, isAlnum c = true) :
    ∀ c ∈ marker ++ run, isAlnum c = true := fun c hc =>
  (List.mem_append.mp hc).elim (isAlnum_marker c) (hrun c)

theorem IsKey.shape {tok : JsString} (h : IsKey tok) :
    marker <+: tok ∧ 12 < tok.length ∧ openBracket ∉ tok ∧ closeBracket ∉ tok := by
  obtain ⟨run, tail, rfl, hrun, htail⟩ := h
  have hrun' := isAlnum_append_marker hrun
  have hmarker : marker.length = 12 := by decide
  have hpos : 0 < run.length := htail.elim (fun h => Nat.lt_of_lt_of_le (by decide) h.1) (·.1)
  have bracket : ∀ b, isAlnum b = false → b ∉ truncationSuffix → b ∉ marker ++ run ++ tail := by
    intro b hb hdot hmem
    rcases List.mem_append.mp hmem with hmem | hmem
    · simp [hrun' b hmem] at hb
    · rcases htail with ⟨-, rfl⟩ | ⟨-, -, rfl⟩
      · simp at hmem
      · exact hdot hmem
  refine ⟨?_, ?_, bracket _ (by decide) (by decide), bracket _ (by decide) (by decide)⟩
  · rw [List.append_assoc]
    exact List.prefix_append _ _
  · simp only [List.length_append]
    omega

/-- Inert text contains no key. -/
theorem Inert.no_key {t tok : JsString} (h : Inert N t) (htok : IsKey tok) : ¬ tok <:+: t := by
  obtain ⟨key, tail, rfl, hkey, htail⟩ := htok
  intro hs
  have hmarker : marker.length = 12 := by decide
  induction h with
  | nil =>
    have := hs.length_le
    simp only [List.length_append, List.length_nil] at this
    omega
  | @plain c rest hnone _ ih =>
    rcases Word.infix_cons_split hs with hs | hs
    · exact ih hs
    · rw [List.append_assoc] at hs
      exact needleAt_eq_none.mp hnone marker marker_mem_all ((List.prefix_append _ _).trans hs)
  | @token run rest hmark hrun hlen hrest htrunc _ ih =>
    rcases Word.infix_append_split hs with hs | ⟨a, -, ⟨p, hp⟩, z, hz⟩
    · exact ih hs
    · have hkey' := isAlnum_append_marker hkey
      have ha : ∀ c ∈ a, isAlnum c = true := fun c hc =>
        isAlnum_append_marker hrun c (hp ▸ List.mem_append_right p hc)
      have halen : a.length ≤ marker.length + run.length := by
        have := congrArg List.length hp
        simp only [List.length_append] at this
        omega
      rcases htail with ⟨hmin, rfl⟩ | ⟨hpos, hmax, rfl⟩
      · -- The key is longer than the part of the token that is left for it.
        have hpre : marker ++ key <+: a ++ rest := ⟨z, by simpa using hz⟩
        rcases Word.prefix_append_split hpre with hpre | ⟨y, hy, hyrest⟩
        · have := hpre.length_le
          simp only [List.length_append] at this
          omega
        · cases y with
          | nil =>
            have := congrArg List.length hy
            simp only [List.length_append, List.length_nil] at this
            omega
          | cons c y =>
            obtain ⟨t, ht⟩ := hyrest
            have := hrest c _ ht.symm
            rw [hkey' c (by simp [hy])] at this
            cases this
      · -- The run of the key is that of the token, and the ellipsis closes it.
        have hdot : ∀ c t, truncationSuffix ++ z = c :: t → isAlnum c = false := by
          rintro c t ht
          obtain rfl : (46 : CodeUnit) = c := (List.cons.inj ht).1
          decide
        rw [List.append_assoc] at hz
        obtain ⟨hrun', htr⟩ := Word.run_unique hz hkey' ha hdot hrest
        have hrun0 : run = [] := by
          by_contra hne
          exact htrunc hne ⟨z, htr⟩
        subst hrun0
        have := congrArg List.length hrun'
        simp only [List.length_append, List.length_nil] at this halen
        omega

/-- **Private keys never survive redaction.** -/
theorem no_key_survives (extra chunks : List JsString) (tok : JsString) (htok : IsKey tok) :
    ¬ tok <:+: redactStream extra chunks := by
  intro hs
  obtain ⟨hmarker, hlong, hopen, hclose⟩ := htok.shape
  have hred : ¬ tok <:+: redacted := fun h => by
    have := h.length_le
    have : redacted.length = 10 := by decide
    omega
  obtain ⟨p, q, -, -, hin⟩ := (redactStream_emits extra chunks).exposed (.inr trivial) hopen hclose
    hred marker_mem_all hmarker hs
  exact hin.no_key htok ⟨p, q, rfl⟩

theorem no_key_survives_split : ¬ js "APrivateKey1zkp8CZNn3yeC..." <:+:
    redactStream [] [js "key: APriv", js "ateKey1zkp8CZNn3yeC..", js ". ok"] :=
  no_key_survives _ _ _ ⟨js "zkp8CZNn3yeC", truncationSuffix, by decide, by decide,
    .inr ⟨by decide, by decide, rfl⟩⟩

/-! ## Listed secrets -/

/-- Redaction is expected of secrets of at least 8 characters that contain neither bracket and do
not occur in the mask itself. -/
def Qualifies (s : JsString) : Prop :=
  8 ≤ s.length ∧ openBracket ∉ s ∧ closeBracket ∉ s ∧ ¬ s <:+: redacted

instance : DecidablePred Qualifies := fun _ => inferInstanceAs (Decidable (_ ∧ _ ∧ _ ∧ _))

/-- A token that is too short for a key is released, and the text after it is read anew. -/
theorem Emits.token {r run rest out : JsString} (h : Emits (Whole N) (.candidate r) (run ++ rest) out)
    (hrun : ∀ c ∈ run, isAlnum c = true) (hlen : r.length + run.length < keyTailMin)
    (hrest : ∀ c t, rest = c :: t → isAlnum c = false)
    (htrunc : r ++ run ≠ [] → ¬ truncationSuffix <+: rest)
    (hcalm : ∀ out, Emits (Whole N) .scanning rest out → out = rest) :
    out = marker ++ (r ++ run ++ rest) := by
  induction run generalizing r with
  | nil =>
    simp only [List.append_nil, List.nil_append] at h htrunc ⊢
    cases rest with
    | nil => simpa using h.candidate_end
    | cons c rest =>
      have hc := hrest c rest rfl
      rcases h.candidate_cases with ⟨ha, -⟩ | ⟨ha, -⟩ | ⟨hne, rest', out', ht, -⟩ |
        ⟨-, -, out', rfl, h'⟩
      · simp [hc] at ha
      · simp [hc] at ha
      · exact absurd (ht ▸ List.prefix_append _ _) (htrunc hne)
      · rw [hcalm out' h', List.append_assoc]
  | cons d run ih =>
    have hd : isAlnum d = true := hrun d (by simp)
    simp only [List.length_cons] at hlen
    rcases h.candidate_cases with ⟨-, -, h⟩ | ⟨-, hl, -⟩ | ⟨-, rest', out', ht, -⟩ | ⟨ha, -⟩
    · have := ih h (fun c hc => hrun c (by simp [hc])) (by simp; omega)
        (fun hne => htrunc (by simp))
      simpa using this
    · omega
    · obtain rfl : d = 46 := (List.cons.inj ht).1
      exact absurd hd (by decide)
    · simp [hd] at ha

/-- **Inert text is emitted verbatim**, by a redactor that holds all of it; or it contains a longer
secret that begins with the marker, and is emitted verbatim from there on by a redactor that has
received just the marker. -/
theorem Inert.verbatim {t : JsString} (h : Inert N t) :
    (∀ out, Emits (Whole N) .scanning t out → out = t) ∨
    ∃ u s, marker ++ u <:+ t ∧ s ∈ N.secrets ∧ marker <+: s ∧ s <+: marker ++ u ∧
      N.needleAt marker = some marker ∧
      ∀ out, Emits (Whole N) (.candidate []) u out → out = marker ++ u := by
  induction h with
  | nil =>
    refine .inl fun out hout => ?_
    rcases hout.scanning_cases with ⟨-, h⟩ | ⟨hit, out', hh, -⟩ | ⟨hh, -⟩ | ⟨c, r, o, h, -⟩
    · exact h
    · have := (needleAt_some hh)
      have hl := length_of_mem_all this.1
      rw [List.prefix_nil.mp this.2] at hl
      simp at hl
    · exact absurd (List.prefix_nil.mp (needleAt_some hh).2) marker_ne_nil
    · cases h
  | @plain c rest hnone _ ih =>
    rcases ih with hcalm | ⟨u, s, hu, hs⟩
    · refine .inl fun out hout => ?_
      rcases hout.scanning_cases with ⟨h, -⟩ | ⟨hit, out', hh, -⟩ | ⟨hh, -⟩ | ⟨d, r, o, h, rfl, -, ho⟩
      · cases h
      · simp [Whole, hnone] at hh
      · simp [Whole, hnone] at hh
      · cases h
        rw [hcalm o ho]
    · exact .inr ⟨u, s, hu.trans (List.suffix_cons _ _), hs⟩
  | @token run rest hmark hrun hlen hrest htrunc _ ih =>
    rcases ih with hcalm | ⟨u, s, hu, hs⟩
    · have htoken : ∀ out, Emits (Whole N) (.candidate []) (run ++ rest) out →
          out = marker ++ (run ++ rest) := fun out hout => by
        have := hout.token hrun (by simpa using hlen) hrest (by simpa using htrunc) hcalm
        simpa using this
      by_cases hhit : N.needleAt (marker ++ run ++ rest) = some marker
      · refine .inl fun out hout => ?_
        rcases hout.scanning_cases with ⟨h, -⟩ | ⟨hit, out', hh, hne, -⟩ | ⟨-, h⟩ |
          ⟨d, r, o, h, rfl, hh, -⟩
        · simp [marker_ne_nil] at h
        · simp only [Whole, hhit, Option.some.injEq] at hh
          exact absurd hh.symm hne
        · rw [List.append_assoc, List.drop_left] at h
          rw [htoken out h, List.append_assoc]
        · rw [Whole, hhit] at hh
          cases hh
      · -- A secret is found at the token, and the marker alone does not show it.
        have hpre : marker <+: marker ++ run ++ rest := by
          rw [List.append_assoc]
          exact List.prefix_append _ _
        obtain ⟨n, hn⟩ := exists_needleAt marker_mem_all hpre
        have hne : n ≠ marker := fun h => hhit (by rw [hn, h])
        have hnpre := (needleAt_some hn).2
        have hmn : marker <+: n := by
          refine (List.prefix_or_prefix_of_prefix hpre hnpre).resolve_right fun h => hne ?_
          have := needleAt_of_prefix hn h hpre
          rw [hmark] at this
          exact (Option.some.inj this).symm
        rw [List.append_assoc] at hnpre ⊢
        exact .inr ⟨run ++ rest, n, List.suffix_rfl, secret_of_needleAt hn hne, hmn, hnpre, hmark,
          htoken⟩
    · exact .inr ⟨u, s, hu.trans (List.suffix_append _ _), hs⟩

/-- **Listed secrets.** No stream over the list leaks a secret for which redaction is expected
exactly when none of them is exposed. -/
theorem secrets_survive_iff (extra : List JsString) :
    (∀ chunks, ∀ s ∈ extra, Qualifies s → ¬ s <:+: redactStream extra chunks) ↔
      ∀ s ∈ extra, Qualifies s → ¬ Exposed (.ofExtra extra) s := by
  constructor
  · rintro hsafe s hs ⟨hlen, hopen, hclose, hred⟩ ⟨p, q, hp, hq, hin⟩
    have hbracket : ∀ b, b ∉ marker → b ∉ s → b ∉ p ++ s ++ q := fun b hbm hbs => by
      simp only [List.mem_append, not_or]
      exact ⟨⟨fun h => hbm (hp.subset h), hbs⟩, fun h => hbm (hq.subset h)⟩
    rcases hin.verbatim with hcalm | ⟨u, n, hu, hn, hmn, hnu, hmark, hout⟩
    · refine hsafe [p ++ s ++ q] s hs ⟨hlen, hopen, hclose, hred⟩ ?_
      rw [← redactSecrets_eq_redactStream, hcalm _ (redactSecrets_emits _ _)]
      exact ⟨p, q, rfl⟩
    · have hsub : ∀ b, b ∉ p ++ s ++ q → b ∉ n := fun b hb h => hb (hu.subset (hnu.subset h))
      obtain ⟨hnextra, hnlen⟩ := mem_secretsOf.mp hn
      refine hsafe [marker, u] n hnextra ⟨hnlen, hsub _ (hbracket _ openBracket_not_mem_marker hopen),
        hsub _ (hbracket _ (by decide) hclose), fun h => ?_⟩ ?_
      · have := (hmn.isInfix.trans h).length_le
        exact absurd this (by decide)
      · rw [redactStream_marker hmark, hout _ (push_flush_emits rfl models_marker)]
        exact hnu.isInfix
  · intro hsafe chunks s hs hq hout
    have hsN : s ∈ (Needles.ofExtra extra).all :=
      mem_all.mpr (.inl (mem_secretsOf.mpr ⟨hs, hq.1⟩))
    exact hsafe s hs hq ((redactStream_emits extra chunks).exposed (.inr trivial) hq.2.1 hq.2.2.1
      hq.2.2.2 hsN List.prefix_rfl hout)

/-- The text of a candidate is not scanned for secrets when it is released. -/
theorem secret_in_candidate_leaks : Qualifies (js "zkp8CZNn") ∧
    js "zkp8CZNn" <:+: redactStream [js "zkp8CZNn"] [js "APrivateKey1zkp8CZNn"] := by
  decide +kernel

end Lionden.Redact
