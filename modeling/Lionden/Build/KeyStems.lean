import Lionden.Build.Artifacts

/-!
# The transition of a key file (`compiler.ts`)

What `leo build` leaves in `<stem>.prover` and `<stem>.verifier` are the keys of a transition, and
`collectKeyArtifactFunctionRefs` finds out of which. Each transition looks for a pair of its own,
under four stems that are made of the names of the program and of the transition.

* `IsPair`, `keyStems`: the pairs that are there, and the stems that name a transition.
* `FirstStem`, `mem_collectKeyArtifactFunctionRefs`: the stem that is found.
* `Misread`: the pair that is named after a transition is read as that of another.
* `attributed_iff`: a pair is of one transition unless one is misread.
-/

namespace Lionden.Build

open Compiler Targets

/-- Both files of a stem are there. -/
def IsPair (files : Directory) (stem : JsString) : Prop :=
  stem ++ js ".prover" ∈ files.map (·.1) ∧ stem ++ js ".verifier" ∈ files.map (·.1)

instance (files : Directory) (stem : JsString) : Decidable (IsPair files stem) :=
  inferInstanceAs (Decidable (_ ∧ _))

theorem mem_stemsOf {suffix stem : JsString} {files : Directory} :
    stem ∈ stemsOf suffix files ↔ stem ++ suffix ∈ files.map (·.1) := by
  unfold stemsOf
  simp only [List.mem_map, List.mem_filter, endsWith, decide_eq_true_eq]
  constructor
  · rintro ⟨⟨name, text⟩, ⟨hmem, front, rfl⟩, rfl⟩
    refine ⟨_, hmem, ?_⟩
    simp
  · rintro ⟨⟨name, text⟩, hmem, rfl⟩
    exact ⟨_, ⟨hmem, stem, rfl⟩, by simp⟩

theorem mem_pairedStems {stem : JsString} {files : Directory} :
    stem ∈ ((stemsOf (js ".prover") files).filter (· ∈ stemsOf (js ".verifier") files)).eraseDups ↔
      IsPair files stem := by
  rw [List.mem_eraseDups, List.mem_filter, decide_eq_true_eq, mem_stemsOf, mem_stemsOf]
  rfl

/-! ## Stems -/

/-- The stems that name a transition, in the order in which they are tried. -/
def keyStems (programId transition : JsString) : List JsString :=
  [transition, bareProgramName programId ++ js "." ++ transition,
    programId ++ js "." ++ transition, bareProgramName programId ++ js "_" ++ transition]

/-- The first of its stems of which there is a pair. -/
inductive FirstStem (files : Directory) (programId transition stem : JsString) : Prop
  | own (heq : stem = transition) (hpair : IsPair files transition)
  | dotted (heq : stem = bareProgramName programId ++ js "." ++ transition)
      (hpair : IsPair files (bareProgramName programId ++ js "." ++ transition))
      (hown : ¬IsPair files transition)
  | full (heq : stem = programId ++ js "." ++ transition)
      (hpair : IsPair files (programId ++ js "." ++ transition))
      (hown : ¬IsPair files transition)
      (hdotted : ¬IsPair files (bareProgramName programId ++ js "." ++ transition))
  | underscored (heq : stem = bareProgramName programId ++ js "_" ++ transition)
      (hpair : IsPair files (bareProgramName programId ++ js "_" ++ transition))
      (hown : ¬IsPair files transition)
      (hdotted : ¬IsPair files (bareProgramName programId ++ js "." ++ transition))
      (hfull : ¬IsPair files (programId ++ js "." ++ transition))

theorem find?_keyStems {files : Directory} {programId transition stem : JsString} :
    (keyStems programId transition).find? (fun stem => decide (IsPair files stem)) = some stem ↔
      FirstStem files programId transition stem := by
  unfold keyStems
  constructor
  · intro h
    by_cases hown : IsPair files transition
    · simp only [List.find?_cons, hown, decide_true, Option.some.injEq] at h
      exact .own h.symm hown
    by_cases hdotted : IsPair files (bareProgramName programId ++ js "." ++ transition)
    · simp only [List.find?_cons, hown, hdotted, decide_true, decide_false, Option.some.injEq] at h
      exact .dotted h.symm hdotted hown
    by_cases hfull : IsPair files (programId ++ js "." ++ transition)
    · simp only [List.find?_cons, hown, hdotted, hfull, decide_true, decide_false,
        Option.some.injEq] at h
      exact .full h.symm hfull hown hdotted
    by_cases hunderscored : IsPair files (bareProgramName programId ++ js "_" ++ transition)
    · simp only [List.find?_cons, hown, hdotted, hfull, hunderscored, decide_true, decide_false,
        Option.some.injEq] at h
      exact .underscored h.symm hunderscored hown hdotted hfull
    · simp only [List.find?_cons, hown, hdotted, hfull, hunderscored, decide_false,
        List.find?_nil, reduceCtorEq] at h
  · rintro (⟨rfl, hpair⟩ | ⟨rfl, hpair, hown⟩ | ⟨rfl, hpair, hown, hdotted⟩ |
      ⟨rfl, hpair, hown, hdotted, hfull⟩) <;>
    simp only [List.find?_cons, *, decide_true, decide_false]

theorem FirstStem.mem_keyStems {files : Directory} {programId transition stem : JsString}
    (h : FirstStem files programId transition stem) :
    IsPair files stem ∧ stem ∈ keyStems programId transition := by
  rcases h with ⟨rfl, hpair⟩ | ⟨rfl, hpair, -⟩ | ⟨rfl, hpair, -, -⟩ | ⟨rfl, hpair, -, -, -⟩ <;>
    exact ⟨hpair, by simp [keyStems]⟩

theorem find?_pairedStems {files : Directory} {pairedStems : List JsString}
    (hpaired : ∀ stem, stem ∈ pairedStems ↔ IsPair files stem) {programId transition stem : JsString} :
    (keyStems programId transition).find? (· ∈ pairedStems) = some stem ↔
      FirstStem files programId transition stem := by
  rw [← find?_keyStems]
  have hsame : (fun stem => decide (stem ∈ pairedStems)) =
      fun stem => decide (IsPair files stem) := by
    funext stem
    simp only [hpaired stem]
  rw [hsame]

/-- What is found for a transition: the pair of its first stem, or the only one there is. -/
theorem findUnambiguousKeyStem_eq_some {files : Directory} {pairedStems : List JsString}
    (hpaired : ∀ stem, stem ∈ pairedStems ↔ IsPair files stem) {programId transition stem : JsString}
    {transitionCount : Nat}
    (h : findUnambiguousKeyStem pairedStems programId transition transitionCount = some stem) :
    FirstStem files programId transition stem ∨
      transitionCount = 1 ∧ IsPair files stem ∧ ∀ other, IsPair files other → other = stem := by
  unfold findUnambiguousKeyStem at h
  dsimp only at h
  split at h
  · next first hfirst =>
    obtain rfl := Option.some.inj h
    exact .inl ((find?_pairedStems hpaired).mp hfirst)
  · next only hnone =>
    split at h
    · next hcount =>
      obtain rfl := Option.some.inj h
      refine .inr ⟨hcount, (hpaired only).mp (List.mem_singleton_self only), fun other hother => ?_⟩
      exact List.mem_singleton.mp ((hpaired other).mpr hother)
    · exact nomatch h
  · exact nomatch h

theorem FirstStem.findUnambiguousKeyStem {files : Directory} {pairedStems : List JsString}
    (hpaired : ∀ stem, stem ∈ pairedStems ↔ IsPair files stem) {programId transition stem : JsString}
    (h : FirstStem files programId transition stem) (transitionCount : Nat) :
    findUnambiguousKeyStem pairedStems programId transition transitionCount = some stem := by
  have hfind := (find?_pairedStems hpaired).mpr h
  unfold keyStems at hfind
  simp only [Build.findUnambiguousKeyStem, hfind]

/-! ## The files of a transition -/

section Refs

variable {sha256 : JsString → JsString} {files : Directory} {programId : JsString} {abi : JsValue}

theorem path_of_keyFileRef {file : JsString} {ref : KeyFileRef}
    (h : keyFileRef sha256 files file = some ref) : ref.path = file := by
  obtain ⟨bytes, -, rfl⟩ := Option.map_eq_some_iff.mp h
  rfl

theorem exists_keyFileRef {file : JsString} (h : file ∈ files.map (·.1)) :
    ∃ ref, keyFileRef sha256 files file = some ref := by
  obtain ⟨entry, hmem, rfl⟩ := List.mem_map.mp h
  obtain ⟨bytes, hbytes⟩ := Option.isSome_iff_exists.mp
    (List.lookup_isSome_iff.mpr ⟨entry, hmem, beq_self_eq_true _⟩)
  exact ⟨_, Option.map_eq_some_iff.mpr ⟨bytes, hbytes, rfl⟩⟩

/-- The files of a ref are those of a stem that was found for its transition. -/
theorem mem_collectKeyArtifactFunctionRefs {ref : KeyArtifactFunctionRef} :
    ref ∈ collectKeyArtifactFunctionRefs sha256 files programId abi ↔
      ref.transition ∈ transitionNames abi ∧ ∃ stem ≠ [],
        findUnambiguousKeyStem ((stemsOf (js ".prover") files).filter
          (· ∈ stemsOf (js ".verifier") files)).eraseDups programId ref.transition
            (transitionNames abi).length = some stem ∧
        keyFileRef sha256 files (stem ++ js ".prover") = some ref.prover ∧
        keyFileRef sha256 files (stem ++ js ".verifier") = some ref.verifier := by
  unfold collectKeyArtifactFunctionRefs
  simp only [List.mem_filterMap, Option.bind_eq_bind, Option.bind_eq_some_iff, guard]
  constructor
  · rintro ⟨transition, hmem, stem, hstem, ⟨⟩, hguard, prover, hprover, verifier, hverifier, href⟩
    obtain rfl := Option.some.inj href
    refine ⟨hmem, stem, ?_, hstem, hprover, hverifier⟩
    rintro rfl
    exact nomatch hguard
  · rintro ⟨hmem, stem, hne, hstem, hprover, hverifier⟩
    refine ⟨ref.transition, hmem, stem, hstem, ⟨⟩, ?_, _, hprover, _, hverifier, rfl⟩
    rw [if_pos hne]
    rfl

end Refs

/-! ## Stems of two transitions -/

/-- The pair that is found for `transition` is found for `other` too: for want of a pair of an
earlier stem, `other` takes one of which the stem can be read as the name of `transition`. -/
inductive Misread (files : Directory) (programId transition other : JsString) : Prop
  | dotted (heq : transition = bareProgramName programId ++ js "." ++ other)
      (hpair : IsPair files transition) (hown : ¬IsPair files other)
  | full (heq : transition = programId ++ js "." ++ other)
      (hpair : IsPair files transition) (hown : ¬IsPair files other)
      (hdotted : ¬IsPair files (bareProgramName programId ++ js "." ++ other))
  | underscored (heq : transition = bareProgramName programId ++ js "_" ++ other)
      (hpair : IsPair files transition) (hown : ¬IsPair files other)
      (hdotted : ¬IsPair files (bareProgramName programId ++ js "." ++ other))
      (hfull : ¬IsPair files (programId ++ js "." ++ other))
  | extension (hprogram : endsWith programId (js ".aleo") = true)
      (heq : transition = js "aleo." ++ other)
      (hpair : IsPair files (programId ++ js "." ++ other)) (hown : ¬IsPair files transition)
      (hother : ¬IsPair files other)
      (hdotted : ¬IsPair files (bareProgramName programId ++ js "." ++ other))

theorem bareProgramName_append {programId : JsString}
    (h : endsWith programId (js ".aleo") = true) :
    bareProgramName programId ++ js ".aleo" = programId := by
  unfold bareProgramName
  rw [if_pos h]
  obtain ⟨front, rfl⟩ := of_decide_eq_true h
  have hlength : (front ++ js ".aleo").length - 5 = front.length := by
    rw [List.length_append]
    show front.length + 5 - 5 = front.length
    omega
  rw [hlength, List.take_left]

theorem bareProgramName_of_not {programId : JsString}
    (h : ¬endsWith programId (js ".aleo") = true) : bareProgramName programId = programId := by
  unfold bareProgramName
  rw [if_neg h]

theorem dotted_ne_underscored {base transition other : JsString} :
    base ++ js "." ++ transition ≠ base ++ js "_" ++ other := by
  intro h
  rw [List.append_assoc, List.append_assoc] at h
  exact absurd (List.head_eq_of_cons_eq (List.append_cancel_left h)) (by decide)

theorem full_ne_underscored {programId transition other : JsString} :
    programId ++ js "." ++ transition ≠ bareProgramName programId ++ js "_" ++ other := by
  by_cases hprogram : endsWith programId (js ".aleo") = true
  · intro h
    have hfront : programId ++ js "." ++ transition =
        bareProgramName programId ++ js "." ++ (js "aleo." ++ transition) := by
      conv_lhs => rw [← bareProgramName_append hprogram]
      simp only [List.append_assoc]
      rfl
    exact dotted_ne_underscored (hfront.symm.trans h)
  · rw [bareProgramName_of_not hprogram]
    exact dotted_ne_underscored

/-- The second stem of a transition is the third of another only if the name of the program ends
with its extension, and that of the transition begins with it. -/
theorem dotted_eq_full {programId transition other : JsString} (hne : transition ≠ other)
    (h : bareProgramName programId ++ js "." ++ transition = programId ++ js "." ++ other) :
    endsWith programId (js ".aleo") = true ∧ transition = js "aleo." ++ other := by
  by_cases hprogram : endsWith programId (js ".aleo") = true
  · refine ⟨hprogram, ?_⟩
    have hfront : programId ++ js "." ++ other =
        bareProgramName programId ++ (js "." ++ (js "aleo." ++ other)) := by
      conv_lhs => rw [← bareProgramName_append hprogram]
      simp only [List.append_assoc]
      rfl
    rw [hfront, List.append_assoc] at h
    exact List.append_cancel_left (List.append_cancel_left h)
  · rw [bareProgramName_of_not hprogram] at h
    exact absurd (List.append_cancel_left h) hne

/-- **Two transitions have one stem only where one of them is misread.** -/
theorem FirstStem.misread {files : Directory} {programId transition other stem : JsString}
    (h : FirstStem files programId transition stem) (h' : FirstStem files programId other stem)
    (hne : transition ≠ other) :
    Misread files programId transition other ∨ Misread files programId other transition := by
  rcases h with ⟨rfl, hpair⟩ | ⟨rfl, hpair, hown⟩ | ⟨rfl, hpair, hown, hdotted⟩ |
    ⟨rfl, hpair, hown, hdotted, hfull⟩ <;>
  rcases h' with ⟨heq, hpair'⟩ | ⟨heq, hpair', hown'⟩ | ⟨heq, hpair', hown', hdotted'⟩ |
    ⟨heq, hpair', hown', hdotted', hfull'⟩
  -- The pair of the first is that of its name.
  · exact absurd heq hne
  · exact .inl (.dotted heq hpair hown')
  · exact .inl (.full heq hpair hown' hdotted')
  · exact .inl (.underscored heq hpair hown' hdotted' hfull')
  -- The name of the program stands in front of that of the first.
  · exact .inr (.dotted heq.symm hpair' hown)
  · exact absurd (List.append_cancel_left heq) hne
  · obtain ⟨hprogram, hname⟩ := dotted_eq_full hne heq
    exact .inl (.extension hprogram hname hpair' hown hown' hdotted')
  · exact absurd heq dotted_ne_underscored
  -- And with its extension.
  · exact .inr (.full heq.symm hpair' hown hdotted)
  · obtain ⟨hprogram, hname⟩ := dotted_eq_full (Ne.symm hne) heq.symm
    exact .inr (.extension hprogram hname hpair hown' hown hdotted)
  · exact absurd (List.append_cancel_left heq) hne
  · exact absurd heq full_ne_underscored
  -- And with an underscore.
  · exact .inr (.underscored heq.symm hpair' hown hdotted hfull)
  · exact absurd heq.symm dotted_ne_underscored
  · exact absurd heq.symm full_ne_underscored
  · exact absurd (List.append_cancel_left heq) hne

theorem append_ne_self {front name : JsString} (h : front ≠ []) : front ++ name ≠ name := by
  intro heq
  have hlength := congrArg List.length heq
  rw [List.length_append] at hlength
  have := List.length_pos_of_ne_nil h
  omega

theorem Misread.firstStem {files : Directory} {programId transition other : JsString}
    (h : Misread files programId transition other) : transition ≠ other ∧ ∃ stem ≠ [],
      FirstStem files programId transition stem ∧ FirstStem files programId other stem := by
  rcases h with ⟨rfl, hpair, hown⟩ | ⟨rfl, hpair, hown, hdotted⟩ |
    ⟨rfl, hpair, hown, hdotted, hfull⟩ | ⟨hprogram, rfl, hpair, hown, hother, hdotted⟩
  · exact ⟨append_ne_self (by simp [js]), _, by simp [js], .own rfl hpair, .dotted rfl hpair hown⟩
  · exact ⟨append_ne_self (by simp [js]), _, by simp [js], .own rfl hpair, .full rfl hpair hown hdotted⟩
  · exact ⟨append_ne_self (by simp [js]), _, by simp [js], .own rfl hpair,
      .underscored rfl hpair hown hdotted hfull⟩
  · have hstem : bareProgramName programId ++ js "." ++ (js "aleo." ++ other) =
        programId ++ js "." ++ other := by
      conv_rhs => rw [← bareProgramName_append hprogram]
      simp only [List.append_assoc]
      rfl
    refine ⟨append_ne_self (by simp [js]), programId ++ js "." ++ other, by simp [js], ?_,
      .full rfl hpair hother hdotted⟩
    rw [← hstem] at hpair
    exact .dotted hstem.symm hpair hown

/-! ## Attribution -/

section Attribution

variable (sha256 : JsString → JsString) (files : Directory) (programId : JsString) (abi : JsValue)

/-- The files of a ref are a pair that names its transition, or the only pair of the only
transition. -/
def IsNamed (ref : KeyArtifactFunctionRef) : Prop :=
  ∃ stem, IsPair files stem ∧
    keyFileRef sha256 files (stem ++ js ".prover") = some ref.prover ∧
    keyFileRef sha256 files (stem ++ js ".verifier") = some ref.verifier ∧
    (stem ∈ keyStems programId ref.transition ∨
      transitionNames abi = [ref.transition] ∧ ∀ other, IsPair files other → other = stem)

/-- A pair is of one transition, and of one that it is named after. -/
structure Attributed : Prop where
  one : ∀ ref ∈ collectKeyArtifactFunctionRefs sha256 files programId abi,
    ∀ ref' ∈ collectKeyArtifactFunctionRefs sha256 files programId abi,
      ref.prover.path = ref'.prover.path → ref.verifier.path = ref'.verifier.path →
        ref.transition = ref'.transition
  named : ∀ ref ∈ collectKeyArtifactFunctionRefs sha256 files programId abi,
    IsNamed sha256 files programId abi ref

theorem isNamed_of_mem : ∀ ref ∈ collectKeyArtifactFunctionRefs sha256 files programId abi,
    IsNamed sha256 files programId abi ref := by
  intro ref href
  obtain ⟨hmem, stem, -, hstem, hprover, hverifier⟩ := mem_collectKeyArtifactFunctionRefs.mp href
  rcases findUnambiguousKeyStem_eq_some (fun _ => mem_pairedStems) hstem with
    hfirst | ⟨hcount, hpair, honly⟩
  · obtain ⟨hpair, hstems⟩ := hfirst.mem_keyStems
    exact ⟨stem, hpair, hprover, hverifier, .inl hstems⟩
  · obtain ⟨only, hlist⟩ := List.length_eq_one_iff.mp hcount
    rw [hlist, List.mem_singleton] at hmem
    exact ⟨stem, hpair, hprover, hverifier, .inr ⟨by rw [hlist, hmem], honly⟩⟩

/-- **A pair is of one transition unless it is misread for another.** -/
theorem attributed_iff : Attributed sha256 files programId abi ↔
    ¬∃ transition ∈ transitionNames abi, ∃ other ∈ transitionNames abi,
      Misread files programId transition other := by
  constructor
  · rintro ⟨hone, -⟩ ⟨transition, hmem, other, hmem', hmisread⟩
    obtain ⟨hne, stem, hstem, hfirst, hfirst'⟩ := hmisread.firstStem
    obtain ⟨hpair, -⟩ := hfirst.mem_keyStems
    obtain ⟨prover, hprover⟩ := @exists_keyFileRef sha256 _ _ hpair.1
    obtain ⟨verifier, hverifier⟩ := @exists_keyFileRef sha256 _ _ hpair.2
    have href (name : JsString) (hname : name ∈ transitionNames abi)
        (hfirst : FirstStem files programId name stem) :
        ⟨name, prover, verifier⟩ ∈ collectKeyArtifactFunctionRefs sha256 files programId abi :=
      mem_collectKeyArtifactFunctionRefs.mpr ⟨hname, stem, hstem,
        hfirst.findUnambiguousKeyStem (fun _ => mem_pairedStems) _, hprover, hverifier⟩
    exact hne (hone _ (href transition hmem hfirst) _ (href other hmem' hfirst') rfl rfl)
  · intro hclear
    refine ⟨?_, isNamed_of_mem sha256 files programId abi⟩
    intro ref href ref' href' hpath _
    obtain ⟨hmem, stem, -, hstem, hprover, -⟩ := mem_collectKeyArtifactFunctionRefs.mp href
    obtain ⟨hmem', stem', -, hstem', hprover', -⟩ := mem_collectKeyArtifactFunctionRefs.mp href'
    rw [path_of_keyFileRef hprover, path_of_keyFileRef hprover'] at hpath
    obtain rfl := List.append_cancel_right hpath
    by_contra hne
    have hsingle (hcount : (transitionNames abi).length = 1) : False := by
      obtain ⟨only, hlist⟩ := List.length_eq_one_iff.mp hcount
      rw [hlist, List.mem_singleton] at hmem hmem'
      exact hne (hmem.trans hmem'.symm)
    rcases findUnambiguousKeyStem_eq_some (fun _ => mem_pairedStems) hstem with
      hfirst | ⟨hcount, -, -⟩
    · rcases findUnambiguousKeyStem_eq_some (fun _ => mem_pairedStems) hstem' with
        hfirst' | ⟨hcount, -, -⟩
      · rcases hfirst.misread hfirst' hne with hmisread | hmisread
        · exact hclear ⟨_, hmem, _, hmem', hmisread⟩
        · exact hclear ⟨_, hmem', _, hmem, hmisread⟩
      · exact hsingle hcount
    · exact hsingle hcount

end Attribution

/-- `foo.aleo` has the transitions `bar` and `foo_bar`, and there are keys of one of them. -/
theorem attributed_twice : ¬∀ (sha256 : JsString → JsString) (files : Directory)
    (programId : JsString) (abi : JsValue), (transitionNames abi).Nodup →
      Attributed sha256 files programId abi := by
  intro h
  let transition (name : String) : JsValue := .object [(js "name", .string (js name))] none
  let abi : JsValue := .object [(js "transitions",
    .array [some (transition "bar"), some (transition "foo_bar")])] none
  have hone := (h id [(js "foo_bar.prover", js "p"), (js "foo_bar.verifier", js "v")]
    (js "foo.aleo") abi (by decide +kernel)).one
  have hrefs : ∀ name ∈ [js "bar", js "foo_bar"],
      (⟨name, ⟨js "foo_bar.prover", js "p", 1⟩, ⟨js "foo_bar.verifier", js "v", 1⟩⟩ :
        KeyArtifactFunctionRef) ∈ collectKeyArtifactFunctionRefs id
          [(js "foo_bar.prover", js "p"), (js "foo_bar.verifier", js "v")] (js "foo.aleo") abi := by
    decide +kernel
  exact absurd (hone _ (hrefs (js "bar") (by decide)) _ (hrefs (js "foo_bar") (by decide)) rfl rfl)
    (by decide)

end Lionden.Build
