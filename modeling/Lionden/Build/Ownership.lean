import Lionden.Build.Inputs
import Lionden.Build.UnitEffects

/-!
# Cache entries and the builds that they are for

The output of a unit is in the directory of the id that it is compiled under; its entry in the cache
is for the unit and that id.

* `isOwned`: an entry was written for the latest build in a directory.
* `Sound`: the output in a directory is the one that the entry that owns it says.
* `compileUnit_spec`: this is preserved; what a unit that is not built is read of is what was there.
-/

namespace Lionden.Build

open Compiler Interrupt

/-! ## What the log says -/

def hashedInputs (log : List Effect) : List HashInput :=
  log.filterMap fun
    | .hashUnit input => some input
    | _ => none

/-- The latest build is in the directory `id`, and no entry has been written since. -/
def isPending (id : JsString) : List Effect → Bool
  | [] => false
  | .build built _ :: _ => built == id
  | .writeCache .. :: _ => false
  | _ :: log => isPending id log

/-- The entry was written for the latest build in the directory `id`. -/
def isOwned (cacheId id : JsString) : List Effect → Bool
  | [] => false
  | .build built _ :: log => built != id && isOwned cacheId id log
  | .writeCache written _ :: log =>
    if written = cacheId then isPending id log else isOwned cacheId id log
  | _ :: log => isOwned cacheId id log

section Log

variable {cacheId id : JsString}

theorem hashedInputs_append_preparations {new log : List Effect}
    (h : ∀ k ∈ new, k.IsPreparation) : hashedInputs (new ++ log) = hashedInputs log := by
  induction new with
  | nil => rfl
  | cons k new ih =>
    obtain ⟨hk, hnew⟩ := List.forall_mem_cons.mp h
    rw [← ih hnew]
    cases k <;> first | rfl | exact hk.elim

theorem isPending_append_preparations {new log : List Effect}
    (h : ∀ k ∈ new, k.IsPreparation) : isPending id (new ++ log) = isPending id log := by
  induction new with
  | nil => rfl
  | cons k new ih =>
    obtain ⟨hk, hnew⟩ := List.forall_mem_cons.mp h
    rw [← ih hnew]
    cases k <;> first | rfl | exact hk.elim

theorem isOwned_append_preparations {new log : List Effect}
    (h : ∀ k ∈ new, k.IsPreparation) : isOwned cacheId id (new ++ log) = isOwned cacheId id log := by
  induction new with
  | nil => rfl
  | cons k new ih =>
    obtain ⟨hk, hnew⟩ := List.forall_mem_cons.mp h
    rw [← ih hnew]
    cases k <;> first | rfl | exact hk.elim

theorem isPending_unique {id' : JsString} {log : List Effect} (h : isPending id log = true)
    (h' : isPending id' log = true) : id = id' := by
  induction log with
  | nil => exact nomatch h
  | cons k log ih =>
    cases k with
    | build built output => exact (beq_iff_eq.mp h).symm.trans (beq_iff_eq.mp h')
    | writeCache written hash => exact nomatch h
    | _ => exact ih h h'

end Log

/-! ## Entries -/

/-- The entry of the unit `id` that is compiled under `effectiveId`. -/
def entryId (id effectiveId : JsString) : JsString :=
  if effectiveId = id then id else id ++ js "__as__" ++ effectiveId

theorem cacheId_eq (plan : Plan) (unit : DiscoveredUnit) :
    plan.cacheId unit = entryId (unitId unit) (plan.effectiveId unit) := rfl

theorem ne_entry {id other : JsString} : other ≠ id ++ js "__as__" ++ other := by
  intro h
  have hlength := congrArg List.length h
  have hsix : (js "__as__").length = 6 := by decide
  rw [List.length_append, List.length_append, hsix] at hlength
  omega

/-- A directory and an entry are those of one unit at most. -/
theorem entryId_injective {id id' effectiveId : JsString}
    (h : entryId id effectiveId = entryId id' effectiveId) : id = id' := by
  unfold entryId at h
  by_cases hid : effectiveId = id
  · subst hid
    by_cases hid' : effectiveId = id'
    · exact hid'
    · rw [if_pos rfl, if_neg hid'] at h
      exact absurd h ne_entry
  · by_cases hid' : effectiveId = id'
    · subst hid'
      rw [if_neg hid, if_pos rfl] at h
      exact absurd h.symm ne_entry
    · rw [if_neg hid, if_neg hid', List.append_assoc, List.append_assoc] at h
      exact List.append_cancel_right h

/-- A directory that an entry owns has the output of packages that an input describes, and the entry
is the hash of this input. -/
def Sound (platform : Platform) (settings : Config) (network : JsString) (w : World) : Prop :=
  ∀ id effectiveId, isOwned (entryId id effectiveId) effectiveId w.log = true →
    ∃ input packages,
      w.disk.hashes (entryId id effectiveId) =
        some (platform.sha256 (input.text settings) ++ newline) ∧
      Merkle.Describes (scheme platform settings network) (· ∈ hashedInputs w.log) packages id
        effectiveId input ∧
      w.disk.builds effectiveId = some (platform.leoBuild input.compilerVersion
        (buildFlags (settings.withLeo input.compilerVersion)) packages effectiveId)

section Sound

variable {platform : Platform} {settings : Config} {network : JsString} {w₀ w : World}

/-- Where less is owned and what is owned has not changed, the outputs are sound again. -/
theorem Sound.of_owned (h : Sound platform settings network w₀)
    (howned : ∀ cacheId id, isOwned cacheId id w.log = true → isOwned cacheId id w₀.log = true ∧
      w.disk.hashes cacheId = w₀.disk.hashes cacheId ∧ w.disk.builds id = w₀.disk.builds id)
    (hhashed : ∀ input ∈ hashedInputs w₀.log, input ∈ hashedInputs w.log) :
    Sound platform settings network w := by
  intro id effectiveId h'
  obtain ⟨hbefore, hhashes, hbuilds⟩ := howned _ _ h'
  obtain ⟨input, packages, hentry, hdescribes, houtput⟩ := h id effectiveId hbefore
  exact ⟨input, packages, hhashes.trans hentry, hdescribes.mono hhashed, hbuilds.trans houtput⟩

theorem Sound.calm (h : Sound platform settings network w₀) (hcalm : Calm w₀ w) :
    Sound platform settings network w := by
  obtain ⟨new, hlog, hnew⟩ := hcalm.log
  refine h.of_owned (fun cacheId id howned => ?_) fun input hinput => ?_
  · rw [hlog, isOwned_append_preparations hnew] at howned
    exact ⟨howned, by rw [hcalm.hashes], by rw [hcalm.builds]⟩
  · rwa [hlog, hashedInputs_append_preparations hnew]

theorem Sound.hashUnit (h : Sound platform settings network w) (input : HashInput) :
    Sound platform settings network ((Effect.hashUnit input).apply w) :=
  h.of_owned (fun _ _ howned => ⟨howned, rfl, rfl⟩) fun _ => List.mem_cons_of_mem _

theorem Sound.askCache (h : Sound platform settings network w) (cacheId id hash : JsString) :
    Sound platform settings network ((Effect.askCache cacheId id hash).apply w) :=
  h.of_owned (fun _ _ howned => ⟨howned, rfl, rfl⟩) fun _ h => h

/-- After a build no entry owns the directory. -/
theorem Sound.build (h : Sound platform settings network w) (built : JsString)
    (output : Option BuildDir) :
    Sound platform settings network ((Effect.build built output).apply w) := by
  refine h.of_owned (fun cacheId id howned => ?_) fun _ h => h
  obtain ⟨hne, howned⟩ := Bool.and_eq_true_iff.mp
    (show (built != id && isOwned cacheId id w.log) = true from howned)
  exact ⟨howned, rfl, Function.update_of_ne (Ne.symm (bne_iff_ne.mp hne)) _ _⟩

/-- The entry of a unit that has just been built owns its directory. -/
theorem Sound.writeCache {unit built : JsString} {input : HashInput}
    {packages : JsString → Option PackageContents} (h : Sound platform settings network w)
    (hpending : isPending built w.log = true)
    (hdescribes : Merkle.Describes (scheme platform settings network) (· ∈ hashedInputs w.log)
      packages unit built input)
    (houtput : w.disk.builds built = some (platform.leoBuild input.compilerVersion
      (buildFlags (settings.withLeo input.compilerVersion)) packages built)) :
    Sound platform settings network ((Effect.writeCache (entryId unit built)
      (platform.sha256 (input.text settings))).apply w) := by
  intro id effectiveId howned
  have howned : (if entryId unit built = entryId id effectiveId then isPending effectiveId w.log
      else isOwned (entryId id effectiveId) effectiveId w.log) = true := howned
  by_cases hentry : entryId unit built = entryId id effectiveId
  · rw [if_pos hentry] at howned
    obtain rfl : built = effectiveId := isPending_unique hpending howned
    obtain rfl := entryId_injective hentry
    exact ⟨input, packages, Function.update_self .., hdescribes, houtput⟩
  · rw [if_neg hentry] at howned
    obtain ⟨input', packages', hhash, hdescribes', houtput'⟩ := h id effectiveId howned
    exact ⟨input', packages', (Function.update_of_ne (Ne.symm hentry) _ _).trans hhash,
      hdescribes', houtput'⟩

end Sound

/-! ## One unit -/

section Unit

variable {platform : Platform} {settings config : Config} {network leoVersion : JsString}
  {env : Environment} {options : CompileOptions} {plan : Plan} {unit : DiscoveredUnit}
  {depHashes : List (JsString × JsString)} {input : HashInput} {w₀ : World}

/-- The sound world `w` has the directory as it was, and the input of the unit has been hashed. -/
structure Asked (platform : Platform) (settings : Config) (network : JsString) (input : HashInput)
    (w₀ w : World) : Prop where
  disk : w.disk = w₀.disk
  hashed : hashedInputs w.log = input :: hashedInputs w₀.log
  sound : Sound platform settings network w

/-- The sound world `w` has in the directory `id` a new output of the packages of `w₀`. -/
structure Built (platform : Platform) (settings : Config) (network : JsString) (input : HashInput)
    (id : JsString) (w₀ w : World) : Prop where
  hashed : hashedInputs w.log = input :: hashedInputs w₀.log
  sound : Sound platform settings network w
  pending : isPending id w.log = true
  output : w.disk.builds id = some (platform.leoBuild input.compilerVersion
    (buildFlags (settings.withLeo input.compilerVersion)) w₀.disk.contents id)

theorem Built.calm {id : JsString} {w w' : World}
    (h : Built platform settings network input id w₀ w) (hcalm : Calm w w') :
    Built platform settings network input id w₀ w' := by
  obtain ⟨new, hlog, hnew⟩ := hcalm.log
  refine ⟨?_, h.sound.calm hcalm, ?_, by rw [hcalm.builds]; exact h.output⟩
  · rw [hlog, hashedInputs_append_preparations hnew]
    exact h.hashed
  · rw [hlog, isPending_append_preparations hnew]
    exact h.pending

/-- What a unit leaves. If it is not built, it is read of what was there. -/
structure Compiled (platform : Platform) (settings config : Config) (network : JsString)
    (options : CompileOptions) (plan : Plan) (unit : DiscoveredUnit) (input : HashInput) (w₀ : World)
    (result : CompilationResult × JsString) (w : World) : Prop where
  hashed : hashedInputs w.log = input :: hashedInputs w₀.log
  sound : Sound platform settings network w
  hash : result.2 = platform.sha256 (input.text settings)
  upToDate : result.1.cached = true → isUpToDate options plan w₀.disk unit result.2 = true
  builds : result.1.cached = true →
    w.disk.builds (plan.effectiveId unit) = w₀.disk.builds (plan.effectiveId unit)
  abi : result.1.cached = true → ∀ output, result.1.program = some output →
    readProgramAbi platform.stringOf config (w₀.disk.builds (plan.effectiveId unit))
      (plan.effectiveId unit) = .ok output.abi

/-- **One unit keeps the outputs sound**, whether it fails or not, if its input describes its
package. -/
theorem compileUnit_spec (hconfig : config = settings.withLeo leoVersion)
    (hinput : plan.hashInput config env w₀.disk depHashes unit = input)
    (hsound : Sound platform settings network w₀)
    (hdescribes : Merkle.Describes (scheme platform settings network)
      (· ∈ input :: hashedInputs w₀.log) w₀.disk.contents (unitId unit) (plan.effectiveId unit)
      input) :
    Ends (· = w₀) (compileUnit platform config env options plan depHashes unit)
      (Compiled platform settings config network options plan unit input w₀)
      (fun w => hashedInputs w.log = input :: hashedInputs w₀.log ∧
        Sound platform settings network w) := by
  have htext : input.text config = input.text settings := by
    subst hconfig
    rfl
  have hversion : input.compilerVersion = leoVersion := by
    subst hconfig hinput
    rfl
  generalize hid : plan.effectiveId unit = id at *
  have hash : Asked platform settings network input w₀ ((Effect.hashUnit input).apply w₀) :=
    ⟨rfl, rfl, hsound.hashUnit input⟩
  have hask (cacheId hash : JsString) (w : World) (hw : Asked platform settings network input w₀ w) :
      Asked platform settings network input w₀ ((Effect.askCache cacheId id hash).apply w) :=
    ⟨hw.disk, hw.hashed, hw.sound.askCache cacheId id hash⟩
  -- A build, and one that fails.
  have hbuild : Ends (Asked platform settings network input w₀) (runLeoBuild platform config env id)
      (fun _ => Built platform settings network input id w₀)
      (fun w => hashedInputs w.log = input :: hashedInputs w₀.log ∧
        Sound platform settings network w) := by
    refine Triple.known fun w hw => ?_
    refine Triple.weaken (runLeoBuild_spec w id) (fun _ h => h) ?_ ?_ fun _ h => h
    · rintro _ _ rfl
      refine ⟨hw.hashed, hw.sound.build id _, beq_self_eq_true id, ?_⟩
      show Function.update _ id _ id = _
      rw [Function.update_self, hversion, hw.disk, hconfig]
      rfl
    · rintro _ (rfl | ⟨leftover, rfl⟩)
      · exact ⟨hw.hashed, hw.sound⟩
      · exact ⟨hw.hashed, hw.sound.build id leftover⟩
  have hcache (w : World) (hw : Built platform settings network input id w₀ w) :
      hashedInputs ((Effect.writeCache (plan.cacheId unit) (platform.sha256 (input.text settings))).apply
          w).log = input :: hashedInputs w₀.log ∧
        Sound platform settings network ((Effect.writeCache (plan.cacheId unit)
          (platform.sha256 (input.text settings))).apply w) := by
    refine ⟨hw.hashed, ?_⟩
    rw [cacheId_eq, hid]
    exact hw.sound.writeCache hw.pending (hdescribes.mono fun i hi => hw.hashed ▸ hi) hw.output
  unfold compileUnit
  refine Triple.read fun w hw => ?_
  subst hw
  dsimp only
  rw [hinput, htext, hid]
  refine Triple.bind (M := fun _ => Asked platform settings network input w)
    (Ends.perform fun _ hw => hw ▸ hash) fun _ => ?_
  refine ends_skip (fun _ => Ends.perform fun _ => hask _ _ _) ?_
  generalize hcached : isUpToDate options plan w.disk unit (platform.sha256 (input.text settings)) =
    cached
  cases cached with
  | false =>
    simp only [if_neg Bool.false_ne_true]
    refine Triple.bind hbuild fun _ => ?_
    have hwrite (result : CompilationResult) (hresult : result.cached = false) :
        Ends (Built platform settings network input id w)
          (perform (.writeCache (plan.cacheId unit) (platform.sha256 (input.text settings))) >>= fun _ =>
            pure (result, platform.sha256 (input.text settings)))
          (Compiled platform settings config network options plan unit input w)
          (fun w' => hashedInputs w'.log = input :: hashedInputs w.log ∧
            Sound platform settings network w') := by
      have hnot : ¬result.cached = true := hresult ▸ Bool.false_ne_true
      refine Triple.bind (M := fun _ w' => hashedInputs w'.log = input :: hashedInputs w.log ∧
        Sound platform settings network w') (Ends.perform hcache) fun _ => Triple.pure fun w' h => ?_
      exact ⟨h.1, h.2, rfl, fun hc => absurd hc hnot, fun hc => absurd hc hnot,
        fun hc => absurd hc hnot⟩
    cases unit.kind with
    | program programId =>
      refine Triple.bind (M := fun _ => Built platform settings network input id w) ?_
        fun output => hwrite _ rfl
      refine Triple.known fun w₁ hw₁ => Triple.weaken (collectOutput_spec w₁ programId id)
        (fun _ h => h ▸ Calm.refl w₁) (fun _ _ h => hw₁.calm h.1) (fun _ h => ?_) fun _ h => h
      exact ⟨(hw₁.calm h).hashed, (hw₁.calm h).sound⟩
    | library name => exact hwrite _ rfl
  | true =>
    simp only [if_true]
    cases unit.kind with
    | program programId =>
      refine Triple.known fun w₁ hw₁ => ?_
      have hcalm (w' : World) (h : Calm w₁ w') :
          hashedInputs w'.log = input :: hashedInputs w.log ∧ Sound platform settings network w' := by
        obtain ⟨new, hlog, hnew⟩ := h.log
        refine ⟨?_, hw₁.sound.calm h⟩
        rw [hlog, hashedInputs_append_preparations hnew]
        exact hw₁.hashed
      refine Triple.bind (Triple.weaken (collectOutput_spec w₁ programId id)
        (fun _ h => h ▸ Calm.refl w₁) (fun _ _ h => h) hcalm fun _ h => h) fun output => ?_
      refine Triple.pure fun w' ⟨h, habi⟩ => ⟨(hcalm w' h).1, (hcalm w' h).2, rfl, fun _ => hcached,
        fun _ => ?_, fun _ => ?_⟩
      · rw [hid, h.builds, hw₁.disk]
      · rintro _ ⟨⟩
        rw [hid, ← hw₁.disk]
        exact habi
    | library name =>
      exact Triple.pure fun w' h => ⟨h.hashed, h.sound, rfl, fun _ => hcached,
        fun _ => by rw [h.disk], fun _ _ h => nomatch h⟩

end Unit

/-! ## A unit that is not built -/

/-- **Where the entry of a unit owns its directory and is its hash, the output is that of a build** of
any packages that its input describes. -/
theorem Sound.fresh {platform : Platform} {settings : Config} {network id effectiveId : JsString}
    {input : HashInput} {w : World} {known : HashInput → Prop}
    {fresh : JsString → Option PackageContents} (hreliable : platform.Reliable)
    (hunambiguous : Merkle.Unambiguous (scheme platform settings network) known)
    (hknown : ∀ input ∈ hashedInputs w.log, known input) (h : Sound platform settings network w)
    (howned : isOwned (entryId id effectiveId) effectiveId w.log = true)
    (hcached : isCached w.disk (entryId id effectiveId) (platform.sha256 (input.text settings)) = true)
    (hdescribes : Merkle.Describes (scheme platform settings network) known fresh id effectiveId
      input) :
    w.disk.builds effectiveId = some (platform.leoBuild input.compilerVersion
      (buildFlags (settings.withLeo input.compilerVersion)) fresh effectiveId) := by
  obtain ⟨stored, packages, hhash, hstored, houtput⟩ := h id effectiveId howned
  unfold isCached at hcached
  rw [hhash, Option.any_some, hreliable.sha256_trimmed, decide_eq_true_eq] at hcached
  have hstored := hstored.mono hknown
  obtain rfl : stored = input :=
    hunambiguous _ _ hstored.known hdescribes.known hcached
  rw [houtput, hreliable.leoBuild_local _ _ _ _ _ (hstored.same hunambiguous hdescribes)]

end Lionden.Build
