import Lionden.Build.Prepared

/-!
# The effects of the units

* `Effect.Concerns`: the effects that the compilation of one unit may have.
* `compileUnit_preserves`: what these effects preserve is preserved, also when the unit fails.
* `runLeoBuild_spec`, `collectOutput_spec`: what is built, and what is read of it.
-/

namespace Lionden.Build

open Compiler Interrupt

/-- An effect of the unit that is compiled under `id` and has the entry `cacheId`. -/
def Effect.Concerns (cacheId id : JsString) : Effect → Prop
  | hashUnit _ | askCache .. => True
  | build built _ => built = id
  | replaceArtifacts built _ => built = id
  | writeMetadata built _ => built = id
  | writeCache written _ => written = cacheId
  | _ => False

theorem packages_of_concerns {cacheId id : JsString} {k : Effect} (hk : k.Concerns cacheId id)
    (disk : Disk) : (k.change disk).packages = disk.packages := by
  cases k <;> first | rfl | exact hk.elim

section

variable {platform : Platform} {config : Config} {env : Environment} {options : CompileOptions}
  {plan : Plan}

/-! ## What is preserved -/

section Preserved

variable {I : World → Prop} {cacheId id : JsString}
  (hI : ∀ k w, Effect.Concerns cacheId id k → I w → I (k.apply w))

include hI

theorem runLeoBuild_preserves : Ends I (runLeoBuild platform config env id) (fun _ => I) I := by
  have hbuild (output : Option BuildDir) : Ends I (perform (.build id output)) (fun _ => I) I :=
    Ends.perform fun w => hI _ w rfl
  unfold runLeoBuild
  cases env.buildEnd id with
  | succeeds =>
    refine Triple.read fun w hw => ?_
    exact Triple.weaken (P := I) (hbuild _) (fun _ h => h ▸ hw) (fun _ _ h => h) (fun _ h => h)
      fun _ h => h
  | fails message => exact Triple.fail fun _ h => h
  | breaks message leftover => exact Triple.bind (hbuild leftover) fun _ => Triple.fail fun _ h => h

theorem collectOutput_preserves (programId : JsString) :
    Ends I (collectOutput platform config programId id) (fun _ => I) I := by
  have hattempt {α : Type} (x : Except JsString α) : Ends I (attempt x) (fun _ => I) I :=
    Ends.attempt (fun _ _ _ h => h) fun _ _ _ h => h
  unfold collectOutput
  refine Triple.read fun w hw => ?_
  refine Triple.weaken (P := I) ?_ (fun _ h => h ▸ hw) (fun _ _ h => h) (fun _ h => h) fun _ h => h
  refine Triple.bind (hattempt _) fun abi => ?_
  refine Triple.bind (hattempt _) fun artifacts => ?_
  refine Triple.bind (M := fun _ => I) (Ends.perform fun w => hI _ w rfl) fun _ => ?_
  refine Triple.bind (hattempt _) fun metadata => ?_
  exact Triple.bind (M := fun _ => I) (Ends.perform fun w => hI _ w rfl) fun _ =>
    Triple.pure fun _ h => h

end Preserved

/-- What is done only if a condition does not hold, and the rest. -/
theorem ends_skip {α : Type} {c : Bool} {op : Op Unit} {f : Unit → Op α} {I F : World → Prop}
    {Q : α → World → Prop} (hop : c = false → Ends I op (fun _ => I) F) (hf : Ends I (f ()) Q F) :
    Ends I (if c then f () else op >>= f) Q F := by
  cases c with
  | true => exact hf
  | false => exact Triple.bind (hop rfl) fun _ => hf

theorem compileUnit_preserves {I : World → Prop} (depHashes : List (JsString × JsString))
    (unit : DiscoveredUnit)
    (hI : ∀ k w, Effect.Concerns (plan.cacheId unit) (plan.effectiveId unit) k → I w →
      I (k.apply w)) :
    Ends I (compileUnit platform config env options plan depHashes unit)
      (fun result w => result.1.unit = unit ∧ I w) I := by
  have hperform (k : Effect) (hk : k.Concerns (plan.cacheId unit) (plan.effectiveId unit)) :
      Ends I (perform k) (fun _ => I) I := Ends.perform fun w => hI k w hk
  unfold compileUnit
  refine Triple.read fun w hw => ?_
  refine Triple.weaken (P := I) ?_ (fun _ h => h ▸ hw) (fun _ _ h => h) (fun _ h => h) fun _ h => h
  refine Triple.bind (hperform (.hashUnit _) trivial) fun _ => ?_
  refine ends_skip (fun _ => hperform (.askCache ..) trivial) ?_
  refine ends_skip (fun _ => runLeoBuild_preserves hI) ?_
  cases unit.kind with
  | program programId =>
    refine Triple.bind (collectOutput_preserves hI _) fun output => ?_
    exact ends_skip (fun _ => hperform (.writeCache ..) rfl) (Triple.pure fun _ h => ⟨rfl, h⟩)
  | library name =>
    exact ends_skip (fun _ => hperform (.writeCache ..) rfl) (Triple.pure fun _ h => ⟨rfl, h⟩)

/-- The units are compiled in their order, and what all their effects preserve is preserved, also when
a unit fails. -/
theorem compileUnits_preserves {I : World → Prop} (depHashes : List (JsString × JsString))
    (units : List DiscoveredUnit)
    (hI : ∀ unit ∈ units, ∀ k w, Effect.Concerns (plan.cacheId unit) (plan.effectiveId unit) k →
      I w → I (k.apply w)) :
    Ends I (compileUnits platform config env options plan depHashes units)
      (fun results w => results.map (·.unit) = units ∧ I w) I := by
  induction units generalizing depHashes with
  | nil => exact Triple.pure fun _ h => ⟨rfl, h⟩
  | cons unit rest ih =>
    obtain ⟨hunit, hrest⟩ := List.forall_mem_cons.mp hI
    refine Triple.bind (compileUnit_preserves depHashes unit hunit) fun result => ?_
    refine Triple.bind (M := fun results w => (result.1.unit = unit ∧
      results.map (·.unit) = rest) ∧ I w) ?_ fun results => ?_
    · refine Triple.known fun w₀ hw₀ => ?_
      exact Triple.weaken (ih _ hrest) (fun _ h => h ▸ hw₀.2) (fun _ _ h => ⟨⟨hw₀.1, h.1⟩, h.2⟩)
        (fun _ h => h) fun _ h => h
    · refine Triple.pure fun w h => ⟨?_, h.2⟩
      rw [List.map_cons, h.1.1, h.1.2]

/-! ## What is built and read -/

/-- A build that succeeds leaves the output of the packages, and one that fails leaves anything. -/
theorem runLeoBuild_spec (w₀ : World) (id : JsString) :
    Ends (· = w₀) (runLeoBuild platform config env id)
      (fun _ w => w = (Effect.build id (some (platform.output config w₀.disk id))).apply w₀)
      (fun w => w = w₀ ∨ ∃ leftover, w = (Effect.build id leftover).apply w₀) := by
  unfold runLeoBuild
  cases env.buildEnd id with
  | succeeds =>
    refine Triple.read fun w hw => ?_
    subst hw
    exact Ends.perform fun w hw => hw ▸ rfl
  | fails message => exact Triple.fail fun w hw => .inl hw
  | breaks message leftover =>
    exact Triple.bind (M := fun _ w => w = (Effect.build id leftover).apply w₀)
      (Ends.perform fun w hw => hw ▸ rfl) fun _ => Triple.fail fun w hw => .inr ⟨leftover, hw⟩

/-- Nothing has been hashed, built or cached since `w₀`. -/
structure Calm (w₀ w : World) : Prop where
  builds : w.disk.builds = w₀.disk.builds
  hashes : w.disk.hashes = w₀.disk.hashes
  log : ∃ new, w.log = new ++ w₀.log ∧ ∀ k ∈ new, k.IsPreparation

theorem Frame.calm {w₀ w : World} (h : Frame w₀ w) : Calm w₀ w := ⟨h.builds, h.hashes, h.log⟩

theorem Calm.refl (w : World) : Calm w w := (Frame.refl w).calm

theorem Calm.apply {w₀ w : World} {k : Effect} (h : Calm w₀ w) (hk : k.IsPreparation) :
    Calm w₀ (k.apply w) := by
  have hsame : (k.change w.disk).builds = w.disk.builds ∧
      (k.change w.disk).hashes = w.disk.hashes := by
    cases k <;> first | exact ⟨rfl, rfl⟩ | exact hk.elim
  obtain ⟨new, hlog, hnew⟩ := h.log
  exact ⟨hsame.1.trans h.builds, hsame.2.trans h.hashes, k :: new, congrArg _ hlog,
    List.forall_mem_cons.mpr ⟨hk, hnew⟩⟩

/-- The ABI is the one in the output. -/
theorem collectOutput_spec (w₀ : World) (programId id : JsString) :
    Ends (Calm w₀) (collectOutput platform config programId id)
      (fun output w => Calm w₀ w ∧
        readProgramAbi platform.stringOf config (w₀.disk.builds id) id = .ok output.abi)
      (Calm w₀) := by
  have hattempt {α : Type} (x : Except JsString α) :
      Ends (Calm w₀) (attempt x) (fun a w => x = .ok a ∧ Calm w₀ w) (Calm w₀) :=
    Ends.attempt (fun _ ha _ hw => ⟨ha, hw⟩) fun _ _ _ hw => hw
  have hperform {k : Effect} (hk : k.IsPreparation) :
      Ends (Calm w₀) (perform k) (fun _ => Calm w₀) (Calm w₀) :=
    Ends.perform fun _ hw => hw.apply hk
  unfold collectOutput
  refine Triple.read fun w hw => ?_
  rw [hw.builds]
  refine Triple.weaken (P := Calm w₀) ?_ (fun _ h => h ▸ hw) (fun _ _ h => h) (fun _ h => h)
    fun _ h => h
  refine Triple.bind (hattempt _) fun abi => ?_
  refine Triple.known fun w₁ ⟨habi, hw₁⟩ => ?_
  refine Triple.weaken (P := Calm w₀) ?_ (fun _ h => h ▸ hw₁) (fun _ _ h => h) (fun _ h => h)
    fun _ h => h
  refine Triple.bind (M := fun _ => Calm w₀) (Triple.weaken (hattempt _) (fun _ h => h)
    (fun _ _ h => h.2) (fun _ h => h) fun _ h => h) fun artifacts => ?_
  refine Triple.bind (hperform trivial) fun _ => ?_
  refine Triple.bind (M := fun _ => Calm w₀) (Triple.weaken (hattempt _) (fun _ h => h)
    (fun _ _ h => h.2) (fun _ h => h) fun _ h => h) fun metadata => ?_
  exact Triple.bind (hperform trivial) fun _ => Triple.pure fun _ h => ⟨h, habi⟩

end

end Lionden.Build
