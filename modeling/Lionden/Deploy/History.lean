import Mathlib.Algebra.Group.Nat.Defs
import Lionden.Deploy.Runs

/-!
# History counts

Each operation that records computes the history count by itself, and the names of the history files
order the entries by that count.

* `historyFilename_lt`: names are ordered as the counts are, up to 999999 entries.
* `Counted`, `Filed.readHistory`: the count, the files and the entries recorded so far agree.
* `CountedStep`: the conditions under which an operation counts right.
* `history_counted`: in a run of such steps the stored record counts the entries of the history, and
  the history is read in the order in which it was recorded.
-/

namespace Lionden.Deploy

open Interrupt (Triple)

/-! ## The names of the files -/

/-- The last `k` decimal digits of `n`. -/
def fixedDigits : Nat → Nat → JsString
  | 0, _ => []
  | k + 1, n => fixedDigits k (n / 10) ++ [digitUnit (n % 10)]

theorem length_fixedDigits (k n : Nat) : (fixedDigits k n).length = k := by
  induction k generalizing n with
  | zero => rfl
  | succ k ih => simp [fixedDigits, ih]

theorem fixedDigits_zero (k : Nat) : fixedDigits k 0 = List.replicate k (unit '0') := by
  induction k with
  | zero => rfl
  | succ k ih =>
    rw [fixedDigits, Nat.zero_div, ih, List.replicate_succ']
    rfl

theorem pad_decimal {k n : Nat} (hk : 0 < k) (hn : n < 10 ^ k) :
    List.replicate (k - (decimal n).length) (unit '0') ++ decimal n = fixedDigits k n := by
  induction k generalizing n with
  | zero => omega
  | succ k ih =>
    by_cases hlt : n < 10
    · rw [decimal, if_pos hlt, fixedDigits, Nat.div_eq_of_lt hlt, fixedDigits_zero,
        Nat.mod_eq_of_lt hlt]
      rfl
    · have hdiv : n / 10 < 10 ^ k := Nat.div_lt_of_lt_mul (by rwa [Nat.pow_succ, Nat.mul_comm] at hn)
      have hpos : 0 < k := by
        by_contra h0
        obtain rfl : k = 0 := by omega
        omega
      rw [decimal, if_neg hlt, fixedDigits, ← ih hpos hdiv, List.length_append, List.length_singleton,
        Nat.add_sub_add_right, List.append_assoc]

theorem append_lt_append {a b : JsString} (hab : a < b) (hlen : a.length = b.length)
    (u v : JsString) : a ++ u < b ++ v := by
  induction a generalizing b with
  | nil =>
    obtain rfl : b = [] := List.length_eq_zero_iff.mp hlen.symm
    exact absurd hab (List.lt_irrefl [])
  | cons x a ih =>
    cases b with
    | nil => exact absurd hlen (by simp)
    | cons y b =>
      rw [List.cons_append, List.cons_append, List.cons_lt_cons_iff]
      rcases List.cons_lt_cons_iff.mp hab with hxy | ⟨rfl, htail⟩
      · exact Or.inl hxy
      · exact Or.inr ⟨rfl, ih htail (by simpa using hlen)⟩

theorem digitUnit_lt {m n : Nat} (h : m < n) (hn : n < 10) : digitUnit m < digitUnit n := by
  rw [UInt16.lt_iff_toNat_lt, digitUnit_toNat (by omega), digitUnit_toNat hn]
  omega

theorem fixedDigits_lt {k m n : Nat} (h : m < n) (hn : n < 10 ^ k) :
    fixedDigits k m < fixedDigits k n := by
  induction k generalizing m n with
  | zero => simp at hn; omega
  | succ k ih =>
    have hdiv : n / 10 < 10 ^ k := Nat.div_lt_of_lt_mul (by rwa [Nat.pow_succ, Nat.mul_comm] at hn)
    have hlen (i j : Nat) : (fixedDigits k i).length = (fixedDigits k j).length := by
      rw [length_fixedDigits, length_fixedDigits]
    rw [fixedDigits, fixedDigits]
    by_cases hlt : m / 10 < n / 10
    · exact append_lt_append (ih hlt hdiv) (hlen _ _) _ _
    · have heq : m / 10 = n / 10 := by omega
      rw [heq]
      refine List.append_left_lt (List.cons_lt_cons_iff.mpr (Or.inl (digitUnit_lt ?_ ?_)))
      · omega
      · omega

/-- Six digits hold the counts up to 999999. -/
theorem historyFilename_lt {i j : Nat} {now now' : JsString} (hij : i < j) (hj : j ≤ 999999) :
    historyFilename i now < historyFilename j now' := by
  have hpad (n : Nat) (hn : n ≤ 999999) : padStart6 (decimal n) = fixedDigits 6 n :=
    pad_decimal (by decide) (by omega)
  unfold historyFilename
  rw [hpad i (by omega), hpad j hj]
  simp only [List.append_assoc]
  refine append_lt_append (fixedDigits_lt hij (by omega)) ?_ _ _
  rw [length_fixedDigits, length_fixedDigits]

/-! ## The invariant -/

/-- The history file of the `i`-th entry carries the number `i`. -/
structure Filed (s : ProgramState) : Prop where
  named : ∀ i f, s.history[i]? = some f → ∃ now, f.1 = historyFilename (i + 1) now
  logged : s.history.map (·.2) = s.log
  bounded : s.log.length ≤ 999999

/-- **The invariant**: the record on disk counts the history files. -/
structure Counted (s : ProgramState) : Prop where
  filed : Filed s
  recorded : ∀ r, s.record = some r → r.value.historyCount = s.log.length
  unrecorded : s.record = none → s.log = []

/-- The record in the memory of the manager counts the entries. -/
def CachedCount (s : ProgramState) : Prop := ∀ r, s.cache = some r → r.historyCount = s.log.length

/-- History files are read in the order of their numbers, which is the order of recording. -/
theorem Filed.readHistory {s : ProgramState} (h : Filed s) : s.readHistory = s.log := by
  have hlen : s.history.length ≤ 999999 := by
    rw [← List.length_map (f := (·.2)), h.logged]
    exact h.bounded
  have hsorted : s.history.Pairwise (fun a b => decide (a.1 ≤ b.1) = true) := by
    rw [List.pairwise_iff_getElem]
    intro i j hi hj hij
    obtain ⟨now, hname⟩ := h.named i _ (List.getElem?_eq_getElem hi)
    obtain ⟨now', hname'⟩ := h.named j _ (List.getElem?_eq_getElem hj)
    rw [hname, hname', decide_eq_true_eq]
    exact List.le_of_lt (historyFilename_lt (by omega) (by omega))
  rw [ProgramState.readHistory, List.mergeSort_of_pairwise hsorted, h.logged]

/-- What the manager knows is what the history has. -/
theorem Counted.known {s : ProgramState} (h : Counted s) (hcache : CachedCount s) :
    (∀ r, s.known = some r → r.historyCount = s.log.length) ∧ (s.known = none → s.log = []) := by
  unfold ProgramState.known
  cases hc : s.cache with
  | some c =>
    refine ⟨?_, nofun⟩
    rintro _ ⟨rfl⟩
    exact hcache c hc
  | none =>
    rw [Option.none_or]
    cases hr : s.record with
    | some r =>
      refine ⟨?_, nofun⟩
      rintro _ ⟨rfl⟩
      exact h.recorded r hr
    | none => exact ⟨nofun, fun _ => h.unrecorded hr⟩

theorem Counted.knownCount {s : ProgramState} (h : Counted s) (hcache : CachedCount s) :
    s.knownCount = s.log.length := by
  obtain ⟨hsome, hnone⟩ := h.known hcache
  unfold ProgramState.knownCount
  cases hk : s.known with
  | some r => exact hsome r hk
  | none =>
    rw [hnone hk]
    rfl

/-! ## Operations -/

/-- Where the process may end: not between the record and its history entry. -/
def BetweenWrites (k : Effect) (_ : ProgramState) : Prop := ∀ now e, k ≠ .appendHistory now e

/-- The state of a program whose history has `n` entries, between two operations. -/
structure Steady (n : Nat) (s : ProgramState) : Prop where
  counted : Counted s
  cached : CachedCount s
  length : s.log.length = n

/-- The state between two operations. -/
def Between (s : ProgramState) : Prop := Counted s ∧ CachedCount s

theorem Steady.between {n : Nat} {s : ProgramState} (h : Steady n s) : Between s :=
  ⟨h.counted, h.cached⟩

theorem Steady.bookkeeping {n : Nat} (k : Effect) (s : ProgramState) (hk : Bookkeeping k)
    (h : Steady n s) : Steady n (k.apply s) := by
  obtain ⟨⟨⟨hnamed, hlogged, hbounded⟩, hrecorded, hunrecorded⟩, hcached, hlength⟩ := h
  cases k with
  | writePendingMarker | deletePendingMarker | broadcastTransaction | chain =>
    exact ⟨⟨⟨hnamed, hlogged, hbounded⟩, hrecorded, hunrecorded⟩, hcached, hlength⟩
  | writeAbiSnapshot | writeDeploymentRecord | appendHistory | setAbiCache | setCache =>
    exact hk.elim

/-- A new entry gets a new file. -/
theorem Filed.fresh {s : ProgramState} (h : Filed s) (hlt : s.log.length < 999999)
    (now : JsString) : historyFilename (s.log.length + 1) now ∉ s.history.map (·.1) := by
  intro hmem
  obtain ⟨f, hf, hname⟩ := List.mem_map.mp hmem
  obtain ⟨i, hi, rfl⟩ := List.mem_iff_getElem.mp hf
  obtain ⟨now', hname'⟩ := h.named i _ (List.getElem?_eq_getElem hi)
  have hlen : s.history.length = s.log.length := by rw [← h.logged, List.length_map]
  have hneq : historyFilename (i + 1) now' < historyFilename (s.log.length + 1) now :=
    historyFilename_lt (by omega) (by omega)
  rw [← hname', hname] at hneq
  exact List.lt_irrefl _ hneq

/-- The file of the new entry comes behind the others. -/
theorem Filed.append {s : ProgramState} {r : DeploymentRecord} {now : JsString} {op : Option TxId}
    {action : Action} (h : Filed s) (hlt : s.log.length < 999999)
    (hcount : r.historyCount = s.log.length + 1) :
    Filed ((Effect.appendHistory now ⟨⟨r, action⟩, op⟩).apply s) := by
  have hlen : s.history.length = s.log.length := by rw [← h.logged, List.length_map]
  have hwrite : writeFile (historyFilename r.historyCount now) ⟨⟨r, action⟩, op⟩ s.history =
      s.history ++ [(historyFilename r.historyCount now, ⟨⟨r, action⟩, op⟩)] := by
    rw [hcount]
    exact writeFile_new (h.fresh hlt now)
  refine ⟨fun i f hf => ?_, ?_, ?_⟩
  · change (writeFile (historyFilename r.historyCount now) _ s.history)[i]? = some f at hf
    rw [hwrite, List.getElem?_append] at hf
    split at hf
    · exact h.named i f hf
    · next hge =>
      have hi : i = s.log.length := by
        have := (List.getElem?_eq_some_iff.mp hf).1
        simp at this
        omega
      subst hi
      rw [hlen, Nat.sub_self] at hf
      obtain rfl := Option.some.inj hf
      exact ⟨now, by rw [hcount]⟩
  · show (writeFile (historyFilename r.historyCount now) _ s.history).map (·.2) = s.log ++ _
    rw [hwrite, List.map_append, h.logged]
    rfl
  · show (s.log ++ [_]).length ≤ 999999
    rw [List.length_append, List.length_singleton]
    omega

/-- The state between the record and its history entry. -/
structure Unfiled (r : DeploymentRecord) (s : ProgramState) : Prop where
  filed : Filed s
  room : s.log.length < 999999
  record : ∃ r', s.record = some r' ∧ r'.value = r
  count : r.historyCount = s.log.length + 1

/-- The state between the history entry and the cache. -/
structure Appended (r : DeploymentRecord) (s : ProgramState) : Prop where
  counted : Counted s
  count : r.historyCount = s.log.length

theorem Unfiled.append {r : DeploymentRecord} {s : ProgramState} (h : Unfiled r s) (now : JsString)
    (op : Option TxId) (action : Action) :
    Appended r ((Effect.appendHistory now ⟨⟨r, action⟩, op⟩).apply s) := by
  obtain ⟨r', hr', rfl⟩ := h.record
  have hlen : (s.log ++ [(⟨⟨r'.value, action⟩, op⟩ : Stamped DeploymentHistoryEntry)]).length =
      s.log.length + 1 := by simp
  refine ⟨⟨h.filed.append h.room h.count, ?_, ?_⟩, h.count.trans hlen.symm⟩
  · intro r'' hr''
    obtain rfl : r' = r'' := Option.some.inj (hr'.symm.trans hr'')
    exact h.count.trans hlen.symm
  · intro hnone
    rw [show s.record = none from hnone] at hr'
    exact nomatch hr'

/-- **`record()`** of the next entry. -/
theorem record_counted {p : ProgramId} {now : JsString} {op : Option TxId} {r : DeploymentRecord}
    {action : Action} {abi : Option JsString} {n : Nat} (hn : n < 999999)
    (hcount : r.historyCount = n + 1) :
    Triple BetweenWrites (Steady n) (record p now op r action abi)
      (fun _ s => Between s ∧ s.pending = none) Between Counted := by
  refine Triple.ite (fun _ => Triple.fail fun _ h => h.between) (fun _ => ?_)
  refine Triple.bind (M := fun _ => Steady n) ?_ fun _ => ?_
  · cases abi with
    | none => exact Triple.pure fun _ h => h
    | some abi =>
      refine Triple.perform (fun _ h _ => h.counted) fun s h => ?_
      obtain ⟨⟨⟨hnamed, hlogged, hbounded⟩, hrecorded, hunrecorded⟩, hcached, hlength⟩ := h
      exact ⟨⟨⟨hnamed, hlogged, hbounded⟩, hrecorded, hunrecorded⟩, hcached, hlength⟩
  refine Triple.step (M := Unfiled r) (fun _ h _ => h.counted) (fun s h => ?_) ?_
  · obtain ⟨⟨⟨hnamed, hlogged, hbounded⟩, -, -⟩, -, rfl⟩ := h
    exact ⟨⟨hnamed, hlogged, hbounded⟩, hn, ⟨_, rfl, rfl⟩, hcount⟩
  refine Triple.step (fun _ _ hsafe => absurd rfl (hsafe now _)) (fun _ h => h.append now op action) ?_
  have hkeep {s s' : ProgramState} (h : Appended r s) (hhistory : s'.history = s.history)
      (hlog : s'.log = s.log) (hrecord : s'.record = s.record) : Appended r s' := by
    obtain ⟨⟨⟨hnamed, hlogged, hbounded⟩, hrecorded, hunrecorded⟩, hcount⟩ := h
    rw [← hhistory] at hnamed hlogged
    rw [← hlog] at hlogged hbounded hrecorded hunrecorded hcount
    rw [← hrecord] at hrecorded hunrecorded
    exact ⟨⟨⟨hnamed, hlogged, hbounded⟩, hrecorded, hunrecorded⟩, hcount⟩
  refine Triple.bind (M := fun _ => Appended r) ?_ fun _ => ?_
  · cases abi with
    | none => exact Triple.pure fun _ h => h
    | some abi => exact Triple.perform (fun _ h _ => h.counted) fun s h => hkeep h rfl rfl rfl
  refine Triple.step (M := fun s => Appended r s ∧ s.cache = some r) (fun _ h _ => h.counted)
    (fun s h => ⟨hkeep h rfl rfl rfl, rfl⟩) ?_
  refine Triple.perform (fun _ h _ => h.1.counted) fun s h => ?_
  have hdone : Appended r (Effect.deletePendingMarker.apply s) := hkeep h.1 rfl rfl rfl
  refine ⟨⟨hdone.counted, fun c hc => ?_⟩, rfl⟩
  obtain rfl : r = c := Option.some.inj (h.2.symm.trans hc)
  exact h.1.count

/-- `getDeployment` caches a record that counts the entries. -/
theorem getDeployment_counted {p : ProgramId} {env : Environment} {s₀ : ProgramState}
    (h : Between s₀) :
    Triple BetweenWrites (· = s₀) (getDeployment p env)
      (fun r s => Found env s₀ r ∧ s.chain = s₀.chain ∧ Steady s₀.log.length s) Between Counted := by
  obtain ⟨hc, hcached⟩ := h
  refine (getDeployment_spec s₀).weaken (fun _ h => h) ?_ ?_ ?_
  · rintro r _ ⟨hfound, rfl⟩
    refine ⟨hfound, rfl, ⟨⟨hc.filed.named, hc.filed.logged, hc.filed.bounded⟩, hc.recorded,
      hc.unrecorded⟩, fun c hr => ?_, rfl⟩
    subst hr
    exact hfound.count.trans (hc.knownCount hcached)
  · rintro _ rfl
    exact ⟨hc, hcached⟩
  · rintro _ rfl
    exact hc

/-- **The condition of a deploy**: a program that is not on the chain has no history yet, and no
program is adopted with a record. -/
structure CountedDeploy (env : Environment) (s : ProgramState) : Prop where
  deployed : s.chain.visible = none → s.log = []
  adopted : Adopts env s → env.observed = false ∧ env.readable = false

/-- **The condition of an upgrade**: six digits hold the number of its entry. -/
def CountedUpgrade (_ : Environment) (s : ProgramState) : Prop := s.log.length < 999999

/-- **The condition of a recovery** that records: there is a record to count from, and six digits hold
the number of its entry. -/
def CountedRecovery (env : Environment) (s : ProgramState) : Prop :=
  ∀ m edition, s.pending = some m →
    resolve m.value (checkProgramOnChain env s.chain) = .recover edition →
      s.known ≠ none ∧ s.log.length < 999999

theorem CountedRecovery.of_pending {env : Environment} {s : ProgramState} (h : s.pending = none) :
    CountedRecovery env s := by
  intro m edition hm
  rw [h] at hm
  exact nomatch hm

section Operations

variable {p : ProgramId} {env : Environment}

theorem deployAction_counted :
    Triple BetweenWrites (fun s => Between s ∧ CountedDeploy env s) (deployAction p env)
      (fun _ => Between) Between Counted := by
  refine Triple.known fun s₀ h => ?_
  obtain ⟨⟨hc, hcached⟩, hdeployed, hadopted⟩ := h
  refine Triple.bind (M := fun r s => Steady s₀.log.length s ∧ s.chain = s₀.chain ∧
    (s₀.chain.visible ≠ none → env.skipDeployed = true → r = none →
      env.observed = false ∧ env.readable = false)) ?_ fun existing => Triple.read fun s h => ?_
  · refine Triple.ite (fun hcache => ?_) (fun hcache => ?_)
    · refine Triple.read fun s hs => Triple.pure ?_
      subst hs
      rintro s rfl
      refine ⟨⟨hc, hcached, rfl⟩, rfl, fun hvisible hskip hnone => ?_⟩
      exact hadopted ⟨hvisible, hskip, by rwa [if_pos hcache]⟩
    · refine (getDeployment_counted ⟨hc, hcached⟩).weaken (fun _ h => h) ?_ (fun _ h => h)
        (fun _ h => h)
      rintro existing s ⟨hfound, hchain, hsteady⟩
      refine ⟨hsteady, hchain, fun hvisible hskip hnone => ?_⟩
      subst hnone
      obtain ⟨hknown, hdev⟩ := hfound.resolve_left hvisible
      exact hadopted ⟨hvisible, hskip, by rw [if_neg hcache]; exact ⟨hdev, hknown⟩⟩
  · obtain ⟨hsteady, hchain, hadopt⟩ := h
    cases hvisible : s.chain.visible with
    | none =>
      have hnone : checkProgramOnChain env s.chain = none := by
        rw [checkProgramOnChain, hvisible]
        rfl
      have hempty : s₀.log.length = 0 := by
        rw [hdeployed (hchain ▸ hvisible)]
        rfl
      rw [hnone]
      rw [hempty] at hsteady
      refine (deployProgram_frame Steady.bookkeeping (fun _ h => h.between)
        (fun _ h => h.counted) fun tx blockHeight abi =>
          record_counted (by decide) rfl).weaken ?_ (fun _ _ h => h.1) (fun _ h => h) (fun _ h => h)
      rintro _ rfl
      exact hsteady
    | some e =>
      have hsome : checkProgramOnChain env s.chain =
          some (if env.observed then some e else none) := by
        rw [checkProgramOnChain, hvisible]
        rfl
      rw [hsome]
      refine Triple.ite (fun hskip => Triple.ite (fun hexisting => ?_) (fun _ => ?_)) (fun _ => ?_)
      · obtain ⟨hobserved, hreadable⟩ := hadopt (by rw [← hchain, hvisible]; simp) hskip
          (Option.isNone_iff_eq_none.mp hexisting)
        refine Triple.read ?_
        rintro s rfl
        have hedition : observedEdition env s.chain (if env.observed then some e else none) = none := by
          simp [observedEdition, getProgramEdition, hobserved, hreadable]
        rw [hedition]
        exact Triple.fail (by rintro _ rfl; exact hsteady.between)
      · exact Triple.pure (by rintro _ rfl; exact hsteady.between)
      · exact Triple.fail (by rintro _ rfl; exact hsteady.between)

theorem upgradeAction_counted :
    Triple BetweenWrites (fun s => Between s ∧ CountedUpgrade env s) (upgradeAction p env)
      (fun _ => Between) Between Counted := by
  refine Triple.known fun s₀ h => ?_
  obtain ⟨hbetween, hroom⟩ := h
  have hprogram {existing : DeploymentRecord} {fallback : Option Nat}
      (hcount : existing.historyCount = s₀.log.length) :
      Triple BetweenWrites (Steady s₀.log.length) (upgradeProgram p env existing fallback)
        (fun _ => Between) Between Counted :=
    (upgradeProgram_frame Steady.bookkeeping (fun _ h => h.between) (fun _ h => h.counted)
      fun tx blockHeight edition abi => record_counted hroom (congrArg (· + 1) hcount)).weaken
      (fun _ h => h) (fun _ _ h => h.1) (fun _ h => h) (fun _ h => h)
  refine Triple.bind (getDeployment_counted hbetween) fun existing => ?_
  cases existing with
  | some r =>
    refine Triple.known fun s h => (hprogram ?_).weaken ?_ (fun _ _ h => h) (fun _ h => h)
      (fun _ h => h)
    · exact h.1.count.trans (hbetween.1.knownCount hbetween.2)
    · rintro _ rfl
      exact h.2.2
  | none =>
    refine Triple.read fun s h => ?_
    obtain ⟨hfound, hchain, hsteady⟩ := h
    have hfail (message : JsString) : Triple BetweenWrites (· = s) (throw message : Op Unit)
        (fun _ => Between) Between Counted :=
      Triple.fail (by rintro _ rfl; exact hsteady.between)
    cases honchain : checkProgramOnChain env s.chain with
    | none => exact hfail _
    | some edition =>
      dsimp only
      cases observedEdition env s.chain edition with
      | none => exact hfail _
      | some e =>
        have hvisible : s₀.chain.visible ≠ none := by
          intro hnone
          rw [hchain] at honchain
          simp [checkProgramOnChain, hnone] at honchain
        have hempty : s₀.log.length = 0 := by
          rw [(hbetween.1.known hbetween.2).2 (hfound.resolve_left hvisible).1]
          rfl
        refine (hprogram hempty.symm).weaken ?_ (fun _ _ h => h) (fun _ h => h) (fun _ h => h)
        rintro _ rfl
        exact hsteady

theorem recoverPending_counted :
    Triple BetweenWrites (fun s => Between s ∧ CountedRecovery env s) (recoverPending p env)
      (fun _ s => Between s ∧ CountedRecovery env s) Between Counted := by
  refine Triple.read fun s h => ?_
  obtain ⟨⟨hc, hcached⟩, hrecovery⟩ := h
  have hsame : ∀ s', s' = s → Between s' ∧ CountedRecovery env s' := by
    rintro _ rfl
    exact ⟨⟨hc, hcached⟩, hrecovery⟩
  cases hm : s.pending with
  | none => exact Triple.pure hsame
  | some m =>
    dsimp only
    cases hres : resolve m.value (checkProgramOnChain env s.chain) with
    | recover edition =>
      obtain ⟨hknown, hroom⟩ := hrecovery m edition hm hres
      obtain ⟨existing, hexisting⟩ := Option.ne_none_iff_exists'.mp hknown
      have hcount : s.recoveredCount = s.log.length + 1 := by
        unfold ProgramState.recoveredCount
        rw [hexisting, ← (hc.known hcached).1 existing hexisting]
      refine Triple.bind ((record_counted hroom hcount).weaken ?_ (fun _ _ h => h) (fun _ h => h)
        (fun _ h => h)) fun _ => Triple.pure fun s h => ⟨h.1, .of_pending h.2⟩
      rintro _ rfl
      exact ⟨hc, hcached, rfl⟩
    | discard =>
      refine Triple.step (M := fun s => Between s ∧ s.pending = none) ?_ ?_
        (Triple.pure fun s h => ⟨h.1, .of_pending h.2⟩)
      · rintro _ rfl -
        exact hc
      · rintro _ rfl
        exact ⟨(Steady.bookkeeping .deletePendingMarker _ trivial ⟨hc, hcached, rfl⟩).between, rfl⟩
    | keep => exact Triple.pure hsame
    | unreadable => exact Triple.fail fun s hs => (hsame s hs).1

end Operations

/-! ## Runs -/

/-- The conditions under which operations count right. -/
def counting : Conditions where
  safe := BetweenWrites
  deploy := CountedDeploy
  upgrade := CountedUpgrade
  recovery := CountedRecovery
  chain _ _ := True

theorem Counted.new : Counted .new where
  filed := ⟨fun i f hf => by simp [ProgramState.new] at hf, rfl, Nat.zero_le _⟩
  recorded := nofun
  unrecorded _ := rfl

theorem counting_keeps : Keeps counting Between Counted where
  interrupted _ h := h.1
  forget _ h := ⟨⟨⟨h.filed.named, h.filed.logged, h.filed.bounded⟩, h.recorded, h.unrecorded⟩,
    nofun⟩
  deploy _ _ := deployAction_counted
  upgrade _ _ := upgradeAction_counted
  recovery _ _ := recoverPending_counted
  chain ev s h _ :=
    (Steady.bookkeeping (.chain ev) s trivial ⟨h.1, h.2, rfl⟩).between

end Lionden.Deploy
