import Lionden.Redact.Chunking

/-!
# What the redactor leaves alone, and what it keeps

* `stream_unchanged`: a text without needles is emitted as it is, in any chunks.
* `Bounded`, `pushAll_bounded`: how much the redactor holds after a `push`.
* `transparent_bounded`: both.
-/

namespace Lionden.Redact

/-! ## Text without needles -/

/-- No needle stands in the text. -/
def Needles.Free (N : Needles) (text : JsString) : Prop := ∀ n ∈ N.all, ¬n <:+: text

theorem Needles.Free.windowed {N : Needles} {rest n : JsString} (hfree : N.Free rest) :
    ¬Windowed N rest (some n) := fun h =>
  hfree n h.some_prefix.1 h.some_prefix.2.isInfix

theorem Emits.unchanged {N : Needles} {rest out : JsString} (hfree : N.Free rest)
    (h : Emits (Windowed N) .scanning rest out) : out = rest := by
  induction rest generalizing out with
  | nil => exact h.scanning_end
  | cons c rest ih =>
    have hrest : N.Free rest := fun n hn hin => hfree n hn (hin.trans (List.suffix_cons c rest).isInfix)
    rcases h.scanning_cases with ⟨hnil, -⟩ | ⟨hit, _, hhit, -⟩ | ⟨hhit, -⟩ | ⟨c', rest', out', heq, rfl, -, h⟩
    · cases hnil
    · exact absurd hhit hfree.windowed
    · exact absurd hhit hfree.windowed
    · cases heq
      rw [ih hrest h]

theorem stream_unchanged {extra chunks : List JsString}
    (hfree : (Needles.ofExtra extra).Free chunks.flatten) :
    redactStream extra chunks = chunks.flatten :=
  (redactStream_emits extra chunks).unchanged hfree

/-! ## What is kept -/

/-- How much a redactor may hold: a partial needle; a candidate and a partial ellipsis; nothing. -/
structure Bounded (N : Needles) (r : Redactor) : Prop where
  scanning : r.state = .scanning → r.buf.length ≤ N.maxNeedle - 1 ∧ r.candidate = []
  candidate : r.state = .candidate → r.candidate.length ≤ 51 ∧ r.buf.length ≤ 2
  discarding : r.state = .discarding → r.buf = [] ∧ r.candidate = []

variable {N : Needles} {atEnd : Bool}

/-- Only a candidate is buffered apart from the text. -/
def Redactor.Tidy (r : Redactor) : Prop := r.state ≠ .candidate → r.candidate = []

theorem iteration_tidy {r r' : Redactor} {out : JsString} (htidy : r.Tidy)
    (h : iteration N atEnd r = some (out, r')) : r'.Tidy := by
  obtain ⟨buf, candidate, alnumSeen, state⟩ := r
  cases buf with
  | nil => cases h
  | cons ch rest =>
    cases state with
    | scanning =>
      obtain rfl : candidate = [] := htidy nofun
      simp only [iteration] at h
      split at h
      · split at h
        · cases h
        · cases h
          exact fun _ => rfl
      · split at h
        · cases h
          exact fun _ => rfl
        · cases h
          exact fun hne => absurd rfl hne
    | candidate =>
      simp only [iteration] at h
      split at h
      · split at h
        · cases h
          exact fun _ => rfl
        · cases h
          exact fun hne => absurd rfl hne
      · split at h
        · cases h
        · split at h <;> cases h <;> exact fun _ => rfl
    | discarding =>
      obtain rfl : candidate = [] := htidy nofun
      simp only [iteration] at h
      split at h <;> cases h <;> exact fun _ => rfl

theorem drain_tidy {r : Redactor} (htidy : r.Tidy) : (drain N atEnd r).2.Tidy := by
  fun_induction drain N atEnd r with
  | case1 r hnone => exact htidy
  | case2 r out r' h hwork out' r'' hdrain ih =>
    have hrest := ih (iteration_tidy htidy h)
    rwa [hdrain] at hrest

/-- The loop ends where no pass is left. -/
theorem drain_stops {r : Redactor} : iteration N atEnd (drain N atEnd r).2 = none := by
  fun_induction drain N atEnd r with
  | case1 r hnone => exact hnone
  | case2 r out r' h hwork out' r'' hdrain ih => rwa [hdrain] at ih

theorem iteration_none_scanning {buf candidate : JsString} {alnumSeen : Nat}
    (h : iteration N false ⟨buf, candidate, alnumSeen, .scanning⟩ = none) :
    buf.length ≤ N.maxNeedle - 1 := by
  cases buf with
  | nil => exact Nat.zero_le _
  | cons ch rest =>
    simp only [iteration] at h
    split at h
    · split at h
      · next hheld =>
        have hlt : (ch :: rest).length < N.maxNeedle := by
          simp only [Bool.not_false, Bool.true_and, Bool.and_eq_true, decide_eq_true_eq] at hheld
          exact hheld.1
        exact Nat.le_sub_one_of_lt hlt
      · cases h
    · split at h <;> cases h

theorem iteration_none_candidate {buf candidate : JsString} {alnumSeen : Nat}
    (h : iteration N false ⟨buf, candidate, alnumSeen, .candidate⟩ = none) : buf.length ≤ 2 := by
  cases buf with
  | nil => exact Nat.zero_le _
  | cons ch rest =>
    simp only [iteration] at h
    split at h
    · split at h <;> cases h
    · split at h
      · next hheld =>
        simp only [Bool.and_eq_true, decide_eq_true_eq] at hheld
        exact Nat.le_of_lt_succ hheld.1.2
      · split at h <;> cases h

theorem iteration_none_discarding {buf candidate : JsString} {alnumSeen : Nat}
    (h : iteration N atEnd ⟨buf, candidate, alnumSeen, .discarding⟩ = none) : buf = [] := by
  cases buf with
  | nil => rfl
  | cons ch rest =>
    simp only [iteration] at h
    split at h <;> cases h

/-- A redactor in which the loop has nothing left to do holds little. -/
theorem bounded_of_none {r : Redactor} {mode : Mode} (hmode : Models r mode) (htidy : r.Tidy)
    (h : iteration N false r = none) : Bounded N r := by
  cases hmode with
  | scanning => exact ⟨fun _ => ⟨iteration_none_scanning h, htidy nofun⟩, nofun, nofun⟩
  | @candidate buf run _ hlen =>
    refine ⟨nofun, fun _ => ⟨?_, iteration_none_candidate h⟩, nofun⟩
    have hmarker : marker.length = 12 := by decide
    rw [List.length_append, hmarker]
    have hmin : keyTailMin = 40 := rfl
    omega
  | discarding => exact ⟨nofun, nofun, fun _ => ⟨iteration_none_discarding h, htidy nofun⟩⟩

/-! ## Pushes -/

/-- The redactor after `push` of each chunk. -/
def pushAll (N : Needles) (r : Redactor) (chunks : List JsString) : Redactor :=
  chunks.foldl (fun r chunk => (push N r chunk).2) r

/-- What holds of the redactor between two pushes. -/
structure Settled (N : Needles) (r : Redactor) : Prop where
  models : ∃ mode, Models r mode
  tidy : r.Tidy
  stopped : iteration N false r = none

theorem Settled.create : Settled N .create := ⟨⟨_, .scanning⟩, fun _ => rfl, rfl⟩

theorem Settled.push {r : Redactor} (h : Settled N r) (chunk : JsString) :
    Settled N (push N r chunk).2 := by
  unfold Redact.push
  split
  · exact h
  · obtain ⟨mode, hmode⟩ := h.models
    have hdrain := @drain_emits N (Windowed N) false [] _ _
      (fun w hw => ⟨w, List.prefix_append _ _, rfl, hw⟩) nofun (hmode.push (r.buf ++ chunk))
    exact ⟨hdrain.imp fun _ => And.left, drain_tidy h.tidy, drain_stops⟩

theorem pushAll_settled (chunks : List JsString) : Settled N (pushAll N .create chunks) := by
  induction chunks using List.reverseRecOn with
  | nil => exact Settled.create
  | append_singleton chunks chunk ih =>
    rw [pushAll, List.foldl_append, List.foldl_cons, List.foldl_nil]
    exact ih.push chunk

theorem Settled.bounded {r : Redactor} (h : Settled N r) : Bounded N r :=
  h.models.elim fun _ hmode => bounded_of_none hmode h.tidy h.stopped

/-- Whatever the secrets and the chunks: a text without needles passes through, and after every
`push` the redactor holds little. -/
theorem transparent_bounded (extra chunks : List JsString) :
    ((Needles.ofExtra extra).Free chunks.flatten →
      redactStream extra chunks = chunks.flatten) ∧
      Bounded (.ofExtra extra) (pushAll (.ofExtra extra) .create chunks) :=
  ⟨stream_unchanged, (pushAll_settled chunks).bounded⟩

theorem transparent_bounded_example :
    redactStream [js "password"] [js "no pass", js "ward APrivate"] = js "no passward APrivate" ∧
      Bounded (.ofExtra [js "password"])
        (pushAll (.ofExtra [js "password"]) .create [js "no pass", js "ward APrivate"]) := by
  obtain ⟨htransparent, hbounded⟩ :=
    transparent_bounded [js "password"] [js "no pass", js "ward APrivate"]
  refine ⟨htransparent fun n hn => ?_, hbounded⟩
  have hn : n = js "password" ∧ 8 ≤ n.length ∨ n = marker := by
    simpa [Needles.mem_all, Needles.ofExtra, Needles.mem_secretsOf] using hn
  obtain ⟨rfl, -⟩ | rfl := hn <;> decide

end Lionden.Redact
