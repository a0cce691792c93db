import Lionden.Deploy.Runs

/-!
# ABI snapshots and editions

A record names an edition; the ABI snapshot and the ABI in the memory of the manager are taken for the
ABI of that edition.

* `AbiOf`: the transaction of the ABI made the edition, and no other.
* `Suits`, `Attributed`: each stored ABI is that of the edition of each stored record.
* `Unadvanced`, `AttributedRecovery`, `AttributedChain`: in which order the chain makes editions,
  operations write ABIs and the process ends.
* `attributing`: the conditions under which an operation keeps that.
* `abi_follows_edition`: it holds in every state of a run of such steps.
-/

namespace Lionden.Deploy

open Interrupt (Triple)

/-! ## The invariant -/

/-- As far as the chain has the edition, the transaction of the ABI made it, and made no other. -/
def AbiOf (c : Chain) (edition : Nat) (abi : Stamped JsString) : Prop :=
  ∀ i tx, c.editions[i]? = some tx → (tx = abi.op ↔ i = edition)

/-- The record is on disk or in memory. -/
def StoredRecord (r : DeploymentRecord) (s : ProgramState) : Prop :=
  s.cache = some r ∨ s.record.map (·.value) = some r

/-- The ABI is on disk or in memory. -/
def StoredAbi (abi : Stamped JsString) (s : ProgramState) : Prop :=
  s.abi = some abi ∨ s.abiCache = some abi

/-- What the chain has of the transactions started here. -/
structure Charted (c : Chain) (sent : Nat) : Prop where
  editions_lt : ∀ x, some x ∈ c.editions → x < sent
  once : ∀ (i j : Nat) (x : TxId), c.editions[i]? = some (some x) → c.editions[j]? = some (some x) →
    i = j
  executed_lt : ∀ x, x ∈ c.executed → x < sent
  inFlight_lt : ∀ t ∈ c.inFlight, t.1 < sent
  landed : ∀ x, some x ∈ c.editions → ∀ t ∈ c.inFlight, t.1 ≠ x
  visible_lt : ∀ e, c.visible = some e → e < c.editions.length

/-- An ABI and a record that may be stored together: the ABI is that of the edition which the record
names; it is the complete record's own, and another record's is of no transaction still to come. -/
structure Suits (c : Chain) (r : DeploymentRecord) (abi : Stamped JsString) : Prop where
  abiOf : AbiOf c r.edition abi
  own : r.status = .complete → r.txId = abi.op
  landed : r.status ≠ .complete → ∀ t ∈ c.inFlight, abi.op ≠ some t.1

/-- **The invariant**: a stored ABI is that of the edition that a stored record names. -/
structure Attributed (s : ProgramState) : Prop where
  charted : Charted s.chain s.sent
  abi_lt : ∀ abi, StoredAbi abi s → ∃ x, abi.op = some x ∧ x < s.sent
  suits : ∀ r abi, StoredRecord r s → StoredAbi abi s → Suits s.chain r abi

/-- The state after an interruption: what it left on disk is attributed. -/
def AttributedOnDisk (s : ProgramState) : Prop :=
  Attributed { s with cache := none, abiCache := none }

theorem Attributed.onDisk {s : ProgramState} (h : Attributed s) : AttributedOnDisk s where
  charted := h.charted
  abi_lt abi habi := h.abi_lt abi (Or.inl (habi.resolve_right nofun))
  suits r abi hr habi := h.suits r abi (Or.inr (hr.resolve_left nofun))
    (Or.inl (habi.resolve_right nofun))

theorem Attributed.new : Attributed .new where
  charted := ⟨by simp [ProgramState.new], by simp [ProgramState.new], by simp [ProgramState.new],
    by simp [ProgramState.new], by simp [ProgramState.new], nofun⟩
  abi_lt _ h := h.elim nofun nofun
  suits _ _ _ h := h.elim nofun nofun

/-! ## The chain -/

/-- The chain with one more edition, made by `x`. -/
def Chain.land (c : Chain) (x : TxId) : Chain :=
  { c with editions := c.editions ++ [some x], executed := x :: c.executed }

theorem getElem?_append_singleton {α : Type} {l : List α} {a b : α} {i : Nat} :
    (l ++ [a])[i]? = some b ↔ l[i]? = some b ∨ i = l.length ∧ a = b := by
  rw [List.getElem?_append]
  split
  · next hlt =>
    refine ⟨Or.inl, ?_⟩
    rintro (h | ⟨rfl, -⟩)
    · exact h
    · omega
  · next hge =>
    constructor
    · intro h
      have hi := (List.getElem?_eq_some_iff.mp h).1
      rw [List.length_singleton] at hi
      obtain rfl : i = l.length := by omega
      rw [Nat.sub_self] at h
      exact Or.inr ⟨rfl, Option.some.inj h⟩
    · rintro (h | ⟨rfl, rfl⟩)
      · have := (List.getElem?_eq_some_iff.mp h).1
        omega
      · rw [Nat.sub_self]
        rfl

/-- A new edition does not disturb an ABI, if it is not the edition that the record names. -/
theorem AbiOf.append {c c' : Chain} {edition : Nat} {abi : Stamped JsString} {tx : Option TxId}
    (h : AbiOf c edition abi) (hc : c'.editions = c.editions ++ [tx])
    (hnext : tx = abi.op ↔ c.editions.length = edition) : AbiOf c' edition abi := by
  intro i tx' htx'
  rw [hc, getElem?_append_singleton] at htx'
  rcases htx' with htx' | ⟨rfl, rfl⟩
  · exact h i tx' htx'
  · exact hnext

/-- The newest edition is that of the transaction that made it. -/
theorem abiOf_land {c : Chain} {x sent : TxId} (h : Charted c sent) (hx : sent ≤ x)
    (content : JsString) : AbiOf (c.land x) c.editions.length ⟨content, some x⟩ := by
  intro i tx htx
  rw [show (c.land x).editions = c.editions ++ [some x] from rfl, getElem?_append_singleton] at htx
  rcases htx with htx | ⟨rfl, rfl⟩
  · have hi := (List.getElem?_eq_some_iff.mp htx).1
    refine ⟨?_, fun h => by omega⟩
    rintro rfl
    exact absurd (h.editions_lt x (List.mem_of_getElem? htx)) (Nat.not_lt_of_le hx)
  · exact ⟨fun _ => rfl, fun _ => rfl⟩

/-- An edition that the chain does not have yet may be that of a new transaction. -/
theorem abiOf_ahead {c : Chain} {x sent edition : TxId} (h : Charted c sent) (hx : sent ≤ x)
    (hlen : c.editions.length ≤ edition) (content : JsString) :
    AbiOf c edition ⟨content, some x⟩ := by
  intro i tx htx
  have hi := (List.getElem?_eq_some_iff.mp htx).1
  refine ⟨?_, fun h => ?_⟩
  · rintro rfl
    exact absurd (h.editions_lt x (List.mem_of_getElem? htx)) (Nat.not_lt_of_le hx)
  · subst h
    exact absurd hlen (Nat.not_le_of_lt hi)

/-- What the chain does with a transaction that is its only new one. -/
theorem execute_broadcast {c : Chain} {x sent : TxId} (h : Charted c sent) (hx : sent ≤ x)
    (action : Action) :
    (ChainEvent.execute x).apply (c.broadcast x action) = if c.accepts action then c.land x else c := by
  have hother : ∀ t ∈ c.inFlight, t.1 ≠ x := fun t ht heq =>
    absurd (heq ▸ h.inFlight_lt t ht) (Nat.not_lt_of_le hx)
  have hfind : (c.inFlight ++ [(x, action)]).find? (fun t => decide (t.1 = x)) = some (x, action) := by
    rw [List.find?_append, List.find?_eq_none.mpr (by simpa using hother)]
    simp
  have hfilter : (c.inFlight ++ [(x, action)]).filter (fun t => decide (t.1 ≠ x)) = c.inFlight := by
    rw [List.filter_append, List.filter_eq_self.mpr (by simpa using hother)]
    simp
  simp only [ChainEvent.apply, Chain.broadcast, hfind, hfilter]
  rfl

namespace Charted

variable {c : Chain} {x sent : TxId}

theorem mono (h : Charted c sent) {sent' : TxId} (hle : sent ≤ sent') : Charted c sent' :=
  ⟨fun x hx => Nat.lt_of_lt_of_le (h.editions_lt x hx) hle, h.once,
    fun x hx => Nat.lt_of_lt_of_le (h.executed_lt x hx) hle,
    fun t ht => Nat.lt_of_lt_of_le (h.inFlight_lt t ht) hle, h.landed, h.visible_lt⟩

theorem broadcast (h : Charted c sent) (action : Action) :
    Charted (c.broadcast sent action) (sent + 1) := by
  have h' := h.mono (Nat.le_succ sent)
  refine ⟨h'.editions_lt, h.once, h'.executed_lt, fun t ht => ?_, fun x hx t ht => ?_,
    h.visible_lt⟩
  · rcases List.mem_append.mp ht with ht | ht
    · exact h'.inFlight_lt t ht
    · rw [List.mem_singleton.mp ht]
      exact Nat.lt_succ_self sent
  · rcases List.mem_append.mp ht with ht | ht
    · exact h.landed x hx t ht
    · rw [List.mem_singleton.mp ht]
      exact fun heq => Nat.lt_irrefl x (heq ▸ h.editions_lt x hx)

/-- A transaction that has made no edition makes the next one. -/
theorem once_append (h : Charted c sent) {tx : Option TxId}
    (htx : ∀ x, tx = some x → some x ∉ c.editions) (i j : Nat) (x : TxId)
    (hi : (c.editions ++ [tx])[i]? = some (some x)) (hj : (c.editions ++ [tx])[j]? = some (some x)) :
    i = j := by
  rw [getElem?_append_singleton] at hi hj
  rcases hi with hi | ⟨rfl, hi⟩ <;> rcases hj with hj | ⟨rfl, hj⟩
  · exact h.once i j x hi hj
  · exact absurd (List.mem_of_getElem? hi) (htx x hj)
  · exact absurd (List.mem_of_getElem? hj) (htx x hi)
  · rfl

theorem land (h : Charted c sent) : Charted (c.land sent) (sent + 1) := by
  have h' := h.mono (Nat.le_succ sent)
  have hnew : ∀ x, some sent = some x → some x ∉ c.editions := by
    rintro _ ⟨rfl⟩ hmem
    exact Nat.lt_irrefl sent (h.editions_lt sent hmem)
  refine ⟨fun x hx => ?_, h.once_append hnew, fun x hx => ?_, h'.inFlight_lt,
    fun x hx t ht => ?_, fun e he => ?_⟩
  · rcases List.mem_append.mp hx with hx | hx
    · exact h'.editions_lt x hx
    · obtain rfl : x = sent := by simpa using hx
      exact Nat.lt_succ_self x
  · rcases List.mem_cons.mp hx with rfl | hx
    · exact Nat.lt_succ_self x
    · exact h'.executed_lt x hx
  · rcases List.mem_append.mp hx with hx | hx
    · exact h.landed x hx t ht
    · obtain rfl : x = sent := by simpa using hx
      exact fun heq => Nat.lt_irrefl x (heq ▸ h.inFlight_lt t ht)
  · have hlt := h.visible_lt e he
    show e < (c.editions ++ [some sent]).length
    rw [List.length_append]
    exact Nat.lt_of_lt_of_le hlt (Nat.le_add_right _ _)

theorem edition_lt {e : Nat} (he : c.edition = some e) : e + 1 = c.editions.length := by
  unfold Chain.edition at he
  split at he
  · exact nomatch he
  · next n hn =>
    obtain rfl := Option.some.inj he
    exact hn.symm

theorem chain (h : Charted c sent) (ev : ChainEvent) : Charted (ev.apply c) sent := by
  have hfilter {tx : TxId} : Charted { c with inFlight := c.inFlight.filter (fun t => t.1 ≠ tx) } sent :=
    ⟨h.editions_lt, h.once, h.executed_lt, fun t ht => h.inFlight_lt t (List.mem_of_mem_filter ht),
      fun x hx t ht => h.landed x hx t (List.mem_of_mem_filter ht), h.visible_lt⟩
  have hgrow {tx : Option TxId} {e : Nat} (he : e < c.editions.length) :
      e < (c.editions ++ [tx]).length := by
    rw [List.length_append]
    exact Nat.lt_of_lt_of_le he (Nat.le_add_right _ _)
  cases ev with
  | execute tx =>
    simp only [ChainEvent.apply]
    split
    · exact h
    · next t hfind =>
      have ht : t ∈ c.inFlight := List.mem_of_find?_eq_some hfind
      obtain rfl : t.1 = tx := by simpa using List.find?_some hfind
      split
      · have hnew : ∀ x, some t.1 = some x → some x ∉ c.editions := by
          rintro _ ⟨rfl⟩ hmem
          exact h.landed t.1 hmem t ht rfl
        refine ⟨fun x hx => ?_, h.once_append hnew, fun x hx => ?_, fun t' ht' => h.inFlight_lt t' ?_,
          fun x hx t' ht' => ?_, fun e he => hgrow (h.visible_lt e he)⟩
        · rcases List.mem_append.mp hx with hx | hx
          · exact h.editions_lt x hx
          · obtain rfl : x = t.1 := by simpa using hx
            exact h.inFlight_lt t ht
        · rcases List.mem_cons.mp hx with rfl | hx
          · exact h.inFlight_lt t ht
          · exact h.executed_lt x hx
        · exact List.mem_of_mem_filter ht'
        · rcases List.mem_append.mp hx with hx | hx
          · exact h.landed x hx t' (List.mem_of_mem_filter ht')
          · obtain rfl : x = t.1 := by simpa using hx
            simpa using (List.mem_filter.mp ht').2
      · exact hfilter
  | reject tx => exact hfilter
  | propagate =>
    refine ⟨h.editions_lt, h.once, h.executed_lt, h.inFlight_lt, h.landed, fun e he => ?_⟩
    have := edition_lt he
    show e < c.editions.length
    omega
  | foreign =>
    refine ⟨fun x hx => ?_, h.once_append (by simp), h.executed_lt, h.inFlight_lt, fun x hx => ?_,
      fun e he => hgrow (h.visible_lt e he)⟩
    · exact h.editions_lt x (by simpa using List.mem_append.mp hx)
    · exact h.landed x (by simpa using List.mem_append.mp hx)
  | reset => exact ⟨nofun, by simp [ChainEvent.apply], h.executed_lt, nofun, nofun, nofun⟩

/-- The edition that a transaction has made is that of its ABI. -/
theorem abiOf (h : Charted c sent) {edition : Nat} {abi : Stamped JsString}
    (hop : abi.op = some x) (hmade : c.editions[edition]? = some abi.op) : AbiOf c edition abi := by
  intro i tx htx
  refine ⟨?_, ?_⟩
  · rintro rfl
    rw [hop] at htx hmade
    exact h.once i edition x htx hmade
  · rintro rfl
    exact Option.some.inj (htx.symm.trans hmade)

end Charted

/-! ## Where a task stands -/

/-- The state of a task that has started the transaction `s₀.sent` and not recorded it: the files
about records are those of `s₀`, and the chain is `c`. -/
structure At (s₀ : ProgramState) (c : Chain) (s : ProgramState) : Prop where
  record : s.record = s₀.record
  cache : s.cache = s₀.cache
  abi : s.abi = s₀.abi
  abiCache : s.abiCache = s₀.abiCache
  sent : s.sent = s₀.sent + 1
  chain : s.chain = c

/-- The records do not name the edition that comes next. -/
def NotNext (s : ProgramState) : Prop :=
  ∀ r abi, StoredRecord r s → StoredAbi abi s → r.edition ≠ s.chain.editions.length

/-- The chain on which the transaction has landed. -/
structure Landing (s₀ : ProgramState) (c : Chain) : Prop where
  charted : Charted c (s₀.sent + 1)
  editions : c.editions = s₀.chain.editions ++ [some s₀.sent]
  inFlight : c.inFlight = s₀.chain.inFlight

theorem Attributed.landing {s₀ : ProgramState} (h : Attributed s₀) :
    Landing s₀ (s₀.chain.land s₀.sent) :=
  ⟨h.charted.land, rfl, rfl⟩

namespace At

variable {s₀ s : ProgramState} {c : Chain} {action : Action}

theorem attributed (hat : At s₀ c s) (h : Attributed s₀) (hc : Charted c (s₀.sent + 1))
    (hflight : ∀ t ∈ c.inFlight, t ∈ s₀.chain.inFlight ∨ t.1 = s₀.sent)
    (habi : ∀ r abi, StoredRecord r s₀ → StoredAbi abi s₀ → AbiOf c r.edition abi) :
    Attributed s := by
  obtain ⟨hrecord, hcache, hsnapshot, hmemory, hsent, rfl⟩ := hat
  have hr {r : DeploymentRecord} (hr : StoredRecord r s) : StoredRecord r s₀ := by
    unfold StoredRecord at hr
    rwa [hrecord, hcache] at hr
  have ha {abi : Stamped JsString} (ha : StoredAbi abi s) : StoredAbi abi s₀ := by
    unfold StoredAbi at ha
    rwa [hsnapshot, hmemory] at ha
  refine ⟨hsent ▸ hc, fun abi habi => ?_, fun r abi hr' ha' => ⟨habi r abi (hr hr') (ha ha'),
    (h.suits r abi (hr hr') (ha ha')).own, fun hstatus t ht => ?_⟩⟩
  · obtain ⟨x, hx, hlt⟩ := h.abi_lt abi (ha habi)
    exact ⟨x, hx, hsent ▸ Nat.lt_succ_of_lt hlt⟩
  · rcases hflight t ht with ht | ht
    · exact (h.suits r abi (hr hr') (ha ha')).landed hstatus t ht
    · -- The new transaction is not that of a stored ABI.
      obtain ⟨x, hx, hlt⟩ := h.abi_lt abi (ha ha')
      rw [hx, ht]
      exact fun heq => Nat.ne_of_lt hlt (Option.some.inj heq)

/-- Before the transaction is broadcast, or if it is rejected. -/
theorem same (hat : At s₀ s₀.chain s) (h : Attributed s₀) : Attributed s :=
  hat.attributed h (h.charted.mono (Nat.le_succ _)) (fun _ ht => Or.inl ht)
    fun r abi hr ha => (h.suits r abi hr ha).abiOf

/-- Before the transaction has landed. -/
theorem inFlight (hat : At s₀ (s₀.chain.broadcast s₀.sent action) s) (h : Attributed s₀) :
    Attributed s := by
  refine hat.attributed h (h.charted.broadcast action) (fun t ht => ?_)
    fun r abi hr ha => (h.suits r abi hr ha).abiOf
  exact (List.mem_append.mp ht).imp_right fun ht => congrArg Prod.fst (List.mem_singleton.mp ht)

/-- After it has landed. -/
theorem landed (hat : At s₀ c s) (h : Attributed s₀) (hc : Landing s₀ c) (hnext : NotNext s₀) :
    Attributed s := by
  refine hat.attributed h hc.charted (fun t ht => Or.inl (hc.inFlight ▸ ht))
    fun r abi hr ha => (h.suits r abi hr ha).abiOf.append hc.editions ?_
  obtain ⟨x, hx, hlt⟩ := h.abi_lt abi ha
  refine ⟨fun heq => ?_, fun heq => absurd heq.symm (hnext r abi hr ha)⟩
  rw [hx] at heq
  exact absurd hlt (Nat.not_lt_of_le (Nat.le_of_eq (Option.some.inj heq)))

theorem chainStep (hat : At s₀ c s) (ev : ChainEvent) :
    At s₀ (ev.apply c) ((Effect.chain ev).apply s) :=
  ⟨hat.record, hat.cache, hat.abi, hat.abiCache, hat.sent, congrArg ev.apply hat.chain⟩

end At

/-! ## `record()` -/

/-- Where the process may end: with a new ABI on disk and no complete record of it, only if no record
is on disk. -/
def BeforeRecord (k : Effect) (s : ProgramState) : Prop :=
  ∀ r, k = .writeDeploymentRecord r → r.value.status = .complete → s.record = none

/-- Every stored ABI suits the record. -/
def AbisSuit (r : DeploymentRecord) (s : ProgramState) : Prop :=
  ∀ abi, StoredAbi abi s → Suits s.chain r abi

/-- **`record()` without an ABI**, of a record that the stored ABI suits. -/
theorem record_attributed {p : ProgramId} {now : JsString} {op : Option TxId} {r : DeploymentRecord}
    {action : Action} (hstatus : r.status ≠ .complete) :
    Triple BeforeRecord (fun s => Attributed s ∧ AbisSuit r s) (record p now op r action none)
      (fun _ s => Attributed s ∧ s.pending = none) Attributed AttributedOnDisk := by
  refine Triple.ite (fun h => absurd h.1 hstatus) (fun _ => ?_)
  refine Triple.bind (M := fun _ s => Attributed s ∧ AbisSuit r s)
    (Triple.pure fun _ h => h) fun _ => ?_
  refine Triple.step (M := fun s => Attributed s ∧ AbisSuit r s) (fun _ h _ => h.1.onDisk)
    (fun s h => ⟨⟨h.1.charted, h.1.abi_lt, fun r' abi hr' habi => ?_⟩, h.2⟩) ?_
  · rcases hr' with hr' | hr'
    · exact h.1.suits r' abi (Or.inl hr') habi
    · obtain rfl := Option.some.inj hr'
      exact h.2 abi habi
  refine Triple.step (M := fun s => Attributed s ∧ AbisSuit r s) (fun _ h _ => h.1.onDisk)
    (fun s h => ⟨⟨h.1.charted, h.1.abi_lt, h.1.suits⟩, h.2⟩) ?_
  refine Triple.bind (M := fun _ s => Attributed s ∧ AbisSuit r s)
    (Triple.pure fun _ h => h) fun _ => ?_
  refine Triple.step (M := Attributed) (fun _ h _ => h.1.onDisk)
    (fun s h => ⟨h.1.charted, h.1.abi_lt, fun r' abi hr' habi => ?_⟩) ?_
  · rcases hr' with hr' | hr'
    · obtain rfl := Option.some.inj hr'
      exact h.2 abi habi
    · exact h.1.suits r' abi (Or.inr hr') habi
  exact Triple.perform (fun _ h _ => h.onDisk) fun s h => ⟨⟨h.charted, h.abi_lt, h.suits⟩, rfl⟩

/-- The ABI on disk is that of the record to be written. -/
structure Snapshotted (abi : Stamped JsString) (r : DeploymentRecord) (s : ProgramState) :
    Prop where
  charted : Charted s.chain s.sent
  abi_lt : ∃ x, abi.op = some x ∧ x < s.sent
  suits : Suits s.chain r abi
  snapshot : s.abi = some abi

theorem Snapshotted.onDisk {abi : Stamped JsString} {r : DeploymentRecord} {s : ProgramState}
    (h : Snapshotted abi r s) (hrecord : ∀ r', s.record.map (·.value) = some r' → r' = r) :
    AttributedOnDisk s := by
  have heq {abi' : Stamped JsString} (habi : StoredAbi abi' { s with cache := none, abiCache := none }) :
      abi' = abi := (Option.some.inj (h.snapshot.symm.trans (habi.resolve_right nofun))).symm
  refine ⟨h.charted, fun abi' habi => ?_, fun r' abi' hr' habi => ?_⟩
  · rw [heq habi]
    exact h.abi_lt
  · rw [heq habi, hrecord r' (hr'.resolve_left nofun)]
    exact h.suits

/-- **`record()` with an ABI**, of the edition that the transaction of the ABI made or will make. -/
theorem record_snapshotted {p : ProgramId} {now : JsString} {x : TxId} {r : DeploymentRecord}
    {action : Action} {abi : JsString} (hstatus : r.status = .complete) (htx : r.txId = some x) :
    Triple BeforeRecord
      (fun s => Attributed s ∧ x < s.sent ∧ AbiOf s.chain r.edition ⟨abi, some x⟩)
      (record p now (some x) r action (some abi)) (fun _ => Attributed) Attributed
      AttributedOnDisk := by
  refine Triple.ite (fun h => absurd h.2 nofun) (fun _ => ?_)
  refine Triple.bind (M := fun _ => Snapshotted ⟨abi, some x⟩ r) ?_ fun _ => ?_
  · refine Triple.perform (fun _ h _ => h.1.onDisk) fun s h => ?_
    exact ⟨h.1.charted, ⟨x, rfl, h.2.1⟩, ⟨h.2.2, fun _ => htx, fun hne => absurd hstatus hne⟩, rfl⟩
  refine Triple.step (M := fun s => Snapshotted ⟨abi, some x⟩ r s ∧
    s.record.map (·.value) = some r) (fun s h hsafe => h.onDisk fun r' hr' => ?_)
    (fun s h => ⟨⟨h.charted, h.abi_lt, h.suits, h.snapshot⟩, rfl⟩) ?_
  · rw [hsafe ⟨r, some x⟩ rfl hstatus] at hr'
    exact nomatch hr'
  have hdisk {s : ProgramState} (h : Snapshotted ⟨abi, some x⟩ r s ∧
      s.record.map (·.value) = some r) : AttributedOnDisk s :=
    h.1.onDisk fun r' hr' => (Option.some.inj (h.2.symm.trans hr')).symm
  refine Triple.step (M := fun s => Snapshotted ⟨abi, some x⟩ r s ∧
    s.record.map (·.value) = some r) (fun _ h _ => hdisk h)
    (fun s h => ⟨⟨h.1.charted, h.1.abi_lt, h.1.suits, h.1.snapshot⟩, h.2⟩) ?_
  refine Triple.bind (M := fun _ s => (Snapshotted ⟨abi, some x⟩ r s ∧
    s.record.map (·.value) = some r) ∧ s.abiCache = some ⟨abi, some x⟩) ?_ fun _ => ?_
  · refine Triple.perform (fun _ h _ => hdisk h) fun s h => ?_
    exact ⟨⟨⟨h.1.charted, h.1.abi_lt, h.1.suits, h.1.snapshot⟩, h.2⟩, rfl⟩
  have hall {s : ProgramState} (h : (Snapshotted ⟨abi, some x⟩ r s ∧
      s.record.map (·.value) = some r) ∧ s.abiCache = some ⟨abi, some x⟩)
      (hcache : s.cache = some r) : Attributed s := by
    have heq {abi' : Stamped JsString} (habi : StoredAbi abi' s) : abi' = ⟨abi, some x⟩ :=
      habi.elim (fun habi => (Option.some.inj (h.1.1.snapshot.symm.trans habi)).symm)
        (fun habi => (Option.some.inj (h.2.symm.trans habi)).symm)
    refine ⟨h.1.1.charted, fun abi' habi => heq habi ▸ h.1.1.abi_lt, fun r' abi' hr' habi => ?_⟩
    have hr : r' = r := hr'.elim (fun hr' => (Option.some.inj (hcache.symm.trans hr')).symm)
      (fun hr' => (Option.some.inj (h.1.2.symm.trans hr')).symm)
    rw [heq habi, hr]
    exact h.1.1.suits
  refine Triple.step (M := Attributed) (fun _ h _ => hdisk h.1) (fun s h => ?_) ?_
  · exact hall ⟨⟨⟨h.1.1.charted, h.1.1.abi_lt, h.1.1.suits, h.1.1.snapshot⟩, h.1.2⟩, h.2⟩ rfl
  exact Triple.perform (fun _ h _ => h.onDisk) fun s h => ⟨h.charted, h.abi_lt, h.suits⟩

/-! ## Transactions -/

section Tasks

variable {p : ProgramId} {env : Environment} {s₀ : ProgramState} {action : Action}

theorem buildAndBroadcast_at (h : Attributed s₀) :
    Triple BeforeRecord (At s₀ s₀.chain) (buildAndBroadcast env s₀.sent action)
      (fun _ => At s₀ (s₀.chain.broadcast s₀.sent action)) Attributed AttributedOnDisk := by
  unfold buildAndBroadcast
  cases env.buildError with
  | some message => exact Triple.fail fun _ hat => hat.same h
  | none =>
    refine Triple.perform (fun _ hat _ => (hat.same h).onDisk) fun s hat => ?_
    exact ⟨hat.record, hat.cache, hat.abi, hat.abiCache, hat.sent,
      congrArg (Chain.broadcast · s₀.sent action) hat.chain⟩

/-- An accepted transaction has made the next edition; a rejected one has changed nothing. -/
theorem waitForConfirmation_at (h : Attributed s₀) :
    Triple BeforeRecord (At s₀ (s₀.chain.broadcast s₀.sent action))
      (waitForConfirmation env s₀.sent)
      (fun accepted s => if accepted then
          s₀.chain.accepts action = true ∧ At s₀ (s₀.chain.land s₀.sent) s
        else At s₀ s₀.chain s) Attributed AttributedOnDisk := by
  unfold waitForConfirmation
  cases env.confirmationError with
  | some message => exact Triple.fail fun _ hat => hat.inFlight h
  | none =>
    refine Triple.step (M := At s₀ (if s₀.chain.accepts action then s₀.chain.land s₀.sent
      else s₀.chain)) (fun _ hat _ => (hat.inFlight h).onDisk) (fun s hat => ?_) ?_
    · rw [← execute_broadcast h.charted (Nat.le_refl _)]
      exact hat.chainStep _
    · refine Triple.read fun s hat => Triple.pure ?_
      rintro s rfl
      rw [hat.chain]
      by_cases haccepts : s₀.chain.accepts action = true
      · rw [if_pos haccepts] at hat ⊢
        have hmem : s₀.sent ∈ (s₀.chain.land s₀.sent).executed := List.mem_cons_self
        rw [if_pos (decide_eq_true hmem)]
        exact ⟨haccepts, hat⟩
      · rw [if_neg haccepts] at hat ⊢
        have hnot : s₀.sent ∉ s₀.chain.executed := fun hmem =>
          Nat.lt_irrefl _ (h.charted.executed_lt _ hmem)
        rw [decide_eq_false hnot]
        exact hat

/-- Where a task stands before its record: the transaction has landed, or the task has not waited for
it. -/
def Concluded (env : Environment) (action : Action) (s₀ : ProgramState) (edition : Nat)
    (s : ProgramState) : Prop :=
  (env.shouldConfirm = true ∧ ∃ c, At s₀ c s ∧ Landing s₀ c ∧ edition = s₀.chain.editions.length) ∨
    env.shouldConfirm = false ∧ At s₀ (s₀.chain.broadcast s₀.sent action) s

/-- The record of the transaction may be written with its ABI. -/
theorem Concluded.writable {edition : Nat} {s : ProgramState}
    (hs : Concluded env action s₀ edition s) (h : Attributed s₀)
    (hnext : env.shouldConfirm = true → NotNext s₀)
    (hahead : env.shouldConfirm = false → s₀.chain.editions.length ≤ edition) (abi : JsString) :
    Attributed s ∧ s₀.sent < s.sent ∧ AbiOf s.chain edition ⟨abi, some s₀.sent⟩ := by
  rcases hs with ⟨hconfirm, c, hat, hc, rfl⟩ | ⟨hconfirm, hat⟩
  · refine ⟨hat.landed h hc (hnext hconfirm), hat.sent ▸ Nat.lt_succ_self _, ?_⟩
    rw [hat.chain]
    have hland := abiOf_land h.charted (Nat.le_refl s₀.sent) abi
    exact fun i tx htx => hland i tx (by rw [← htx, hc.editions]; rfl)
  · refine ⟨hat.inFlight h, hat.sent ▸ Nat.lt_succ_self _, ?_⟩
    rw [hat.chain]
    exact abiOf_ahead h.charted (Nat.le_refl s₀.sent) (hahead hconfirm) abi

theorem confirmDeploy_at (h : Attributed s₀) :
    Triple BeforeRecord (At s₀ (s₀.chain.broadcast s₀.sent .deploy)) (confirmDeploy env s₀.sent)
      (fun _ => Concluded env .deploy s₀ 0) Attributed AttributedOnDisk := by
  refine Triple.ite (fun hconfirm => ?_) (fun hconfirm => ?_)
  · refine Triple.bind (waitForConfirmation_at h) fun accepted => ?_
    refine Triple.ite (fun haccepted => Triple.pure fun s hs => Or.inl ⟨hconfirm, ?_⟩)
      (fun haccepted => Triple.fail fun s hs => ?_)
    · rw [if_pos haccepted] at hs
      refine ⟨_, hs.2, h.landing, ?_⟩
      have hempty : s₀.chain.editions.isEmpty = true := hs.1
      rw [List.isEmpty_iff.mp hempty]
      rfl
    · rw [if_neg haccepted] at hs
      exact hs.same h
  · exact Triple.pure fun _ hs => Or.inr ⟨by simpa using hconfirm, hs⟩

theorem deployProgram_attributed (h : Attributed s₀)
    (hnext : env.shouldConfirm = true → NotNext s₀)
    (hempty : env.shouldConfirm = false → s₀.chain.editions = []) :
    Triple BeforeRecord (· = s₀) (deployProgram p env) (fun _ => Attributed) Attributed
      AttributedOnDisk := by
  unfold deployProgram
  cases env.abi with
  | none => exact Triple.fail (by rintro _ rfl; exact h)
  | some abi =>
    refine Triple.read ?_
    rintro s rfl
    refine Triple.step (M := At s s.chain) ?_ ?_ ?_
    · rintro _ rfl -
      exact h.onDisk
    · rintro _ rfl
      exact ⟨rfl, rfl, rfl, rfl, Nat.max_eq_right (Nat.le_succ _), rfl⟩
    refine Triple.bind (buildAndBroadcast_at h) fun _ => ?_
    refine Triple.bind (confirmDeploy_at h) fun blockHeight => ?_
    refine (record_snapshotted rfl rfl).weaken (fun s' hs => ?_) (fun _ _ h => h) (fun _ h => h)
      (fun _ h => h)
    exact hs.writable h hnext (fun hconfirm => by rw [hempty hconfirm]; exact Nat.le_refl 0) abi

theorem waitForProgramEditionAdvance_at {previous : Nat} (h : Attributed s₀) (hnext : NotNext s₀)
    (hprevious : ∀ e, s₀.chain.visible = some e → e ≤ previous) :
    Triple BeforeRecord (At s₀ (s₀.chain.land s₀.sent)) (waitForProgramEditionAdvance p env previous)
      (fun edition s => ∃ c, At s₀ c s ∧ Landing s₀ c ∧ edition = s₀.chain.editions.length)
      Attributed AttributedOnDisk := by
  refine Triple.bind (M := fun _ s => ∃ c, At s₀ c s ∧ Landing s₀ c ∧
      ∀ e, c.visible = some e → previous < e → e = s₀.chain.editions.length) ?_
    fun _ => Triple.read fun s hs => ?_
  · refine Triple.ite (fun _ => ?_) (fun _ => Triple.pure fun s hat => ?_)
    · refine Triple.perform (fun _ hat _ => (hat.landed h h.landing hnext).onDisk) fun s hat => ?_
      refine ⟨_, hat.chainStep .propagate, ⟨h.charted.land.chain .propagate, rfl, rfl⟩,
        fun e he _ => ?_⟩
      have hlen := Charted.edition_lt he
      rw [show (s₀.chain.land s₀.sent).editions = s₀.chain.editions ++ [some s₀.sent] from rfl,
        List.length_append, List.length_singleton] at hlen
      omega
    · exact ⟨_, hat, h.landing, fun e he hlt => absurd (hprevious e he) (Nat.not_le_of_lt hlt)⟩
  · obtain ⟨c, hat, hc, hedition⟩ := hs
    have htimeout : Triple BeforeRecord (· = s) (waitForProgramEditionAdvance.timedOut p previous)
        (fun edition s => ∃ c, At s₀ c s ∧ Landing s₀ c ∧ edition = s₀.chain.editions.length)
        Attributed AttributedOnDisk :=
      Triple.fail (by rintro _ rfl; exact hat.landed h hc hnext)
    cases hread : getProgramEdition env s.chain with
    | none => exact htimeout
    | some edition =>
      refine Triple.ite (fun hlt => Triple.pure ?_) (fun _ => htimeout)
      rintro _ rfl
      refine ⟨c, hat, hc, hedition edition ?_ hlt⟩
      rw [hat.chain] at hread
      unfold getProgramEdition at hread
      split at hread
      · exact hread
      · exact nomatch hread

theorem confirmUpgrade_at {previous : Nat} (h : Attributed s₀)
    (hnext : env.shouldConfirm = true → NotNext s₀)
    (hprevious : env.shouldConfirm = true → ∀ e, s₀.chain.visible = some e → e ≤ previous) :
    Triple BeforeRecord (At s₀ (s₀.chain.broadcast s₀.sent .upgrade))
      (confirmUpgrade p env s₀.sent previous)
      (fun heights s => Concluded env .upgrade s₀ heights.2 s ∧
        (env.shouldConfirm = false → heights.2 = previous + 1)) Attributed AttributedOnDisk := by
  have hmarker {c : Chain} {s : ProgramState} {m : PendingDeployment} (hat : At s₀ c s) :
      At s₀ c ((Effect.writePendingMarker ⟨m, some s₀.sent⟩).apply s) := by
    refine ⟨hat.record, hat.cache, hat.abi, hat.abiCache, ?_, hat.chain⟩
    show max s.sent (s₀.sent + 1) = s₀.sent + 1
    rw [hat.sent, Nat.max_self]
  refine Triple.ite (fun hconfirm => ?_) (fun hconfirm => ?_)
  · refine Triple.bind (waitForConfirmation_at h) fun accepted => ?_
    refine Triple.ite (fun haccepted => ?_) (fun haccepted => ?_)
    · subst haccepted
      refine Triple.step (M := At s₀ (s₀.chain.land s₀.sent)) (fun s hs _ => ?_)
        (fun s hs => hmarker hs.2) ?_
      · exact (At.landed hs.2 h h.landing (hnext hconfirm)).onDisk
      · refine Triple.bind (waitForProgramEditionAdvance_at h (hnext hconfirm) (hprevious hconfirm))
          fun edition => Triple.pure fun s hs => ?_
        exact ⟨Or.inl ⟨hconfirm, hs⟩, fun hf => by rw [hconfirm] at hf; exact nomatch hf⟩
    · rw [Bool.not_eq_true] at haccepted
      subst haccepted
      refine Triple.step (M := At s₀ s₀.chain) (fun s hs _ => (At.same hs h).onDisk) (fun s hs => ?_)
        (Triple.fail fun s hs => hs.same h)
      exact ⟨hs.record, hs.cache, hs.abi, hs.abiCache, hs.sent, hs.chain⟩
  · rw [Bool.not_eq_true] at hconfirm
    exact Triple.pure fun s hat => ⟨Or.inr ⟨hconfirm, hat⟩, fun _ => rfl⟩

theorem upgradeProgram_attributed {existing : DeploymentRecord} {fallback : Option Nat}
    (h : Attributed s₀) (hnext : env.shouldConfirm = true → NotNext s₀)
    (hfallback : ∀ e, fallback = some e → s₀.chain.visible = some e)
    (hahead : env.shouldConfirm = false → ∀ previous,
      previousEdition env s₀.chain existing fallback = some previous →
        s₀.chain.editions.length ≤ previous + 1) :
    Triple BeforeRecord (· = s₀) (upgradeProgram p env existing fallback) (fun _ => Attributed)
      Attributed AttributedOnDisk := by
  unfold upgradeProgram
  cases env.abi with
  | none => exact Triple.fail (by rintro _ rfl; exact h)
  | some abi =>
    refine Triple.read ?_
    rintro s rfl
    cases hprevious : previousEdition env s.chain existing fallback with
    | none => exact Triple.fail (by rintro _ rfl; exact h)
    | some previous =>
      -- A task that waits has read the edition that it then compares with.
      have hread : env.shouldConfirm = true → ∀ e, s.chain.visible = some e → e ≤ previous := by
        intro hconfirm e he
        unfold previousEdition at hprevious
        cases fallback with
        | some f =>
          obtain rfl := Option.some.inj hprevious
          exact Nat.le_of_eq (Option.some.inj (he.symm.trans (hfallback f rfl)))
        | none =>
          simp only [hconfirm, if_true, getProgramEdition, he] at hprevious
          split at hprevious
          · exact Nat.le_of_eq (Option.some.inj hprevious)
          · exact nomatch hprevious
      have hmarker {c : Chain} {s' : ProgramState} {m : PendingDeployment} (hat : At s c s') :
          At s c ((Effect.writePendingMarker ⟨m, some s.sent⟩).apply s') := by
        refine ⟨hat.record, hat.cache, hat.abi, hat.abiCache, ?_, hat.chain⟩
        show max s'.sent (s.sent + 1) = s.sent + 1
        rw [hat.sent, Nat.max_self]
      refine Triple.step (M := At s s.chain) ?_ ?_ ?_
      · rintro _ rfl -
        exact h.onDisk
      · rintro _ rfl
        exact ⟨rfl, rfl, rfl, rfl, Nat.max_eq_right (Nat.le_succ _), rfl⟩
      refine Triple.bind (buildAndBroadcast_at h) fun _ => ?_
      refine Triple.step (M := At s (s.chain.broadcast s.sent .upgrade)) (fun s' hat _ => ?_)
        (fun s' hat => hmarker hat) ?_
      · exact (hat.inFlight h).onDisk
      refine Triple.bind (confirmUpgrade_at h hnext hread) fun heights => ?_
      refine (record_snapshotted rfl rfl).weaken (fun s' hs => ?_) (fun _ _ h => h) (fun _ h => h)
        (fun _ h => h)
      exact hs.1.writable h hnext (fun hconfirm => hs.2 hconfirm ▸ hahead hconfirm previous hprevious)
        abi

end Tasks

/-! ## The operations and their conditions -/

/-- Of the editions that the reads of the chain have seen, the last is of this transaction. -/
def LastSeen (op : Option TxId) (c : Chain) : Prop :=
  ∃ e, c.visible = some e ∧ (c.editions.take (e + 1)).getLast? = some op

/-- **When a record may be made of a program that is there**: the chain has made no edition since that
of the transaction whose ABI was written, as far as the reads have seen. -/
def Unadvanced (s : ProgramState) : Prop :=
  s.chain.visible ≠ none → ∀ abi, StoredAbi abi s → LastSeen abi.op s.chain

/-- A program on the chain that the deploy task gives a degraded record: by adoption, or in
`getDeployment`, which it asks for a renamed program. -/
def Degrades (env : Environment) (s : ProgramState) : Prop :=
  Adopts env s ∨ env.devnode = true ∧ env.renamed = true ∧ s.known = none

/-- **The condition of a deploy**: a program gets a degraded record only when the chain has made no
edition since the stored ABI was written; a deployment that is waited for does not make an edition
that a record names already, and one that is not waited for is the first. -/
structure AttributedDeploy (env : Environment) (s : ProgramState) : Prop where
  degraded : Degrades env s → Unadvanced s
  confirmed : s.chain.visible = none → env.shouldConfirm = true → NotNext s
  unconfirmed : s.chain.visible = none → env.shouldConfirm = false → s.chain.editions = []

/-- The edition that an upgrade takes for the present one when it does not wait. -/
def ProgramState.presentEdition (env : Environment) (s : ProgramState) : Option Nat :=
  if env.readable then s.chain.visible
  else match s.known with
    | some r => some r.edition
    | none => s.chain.visible

/-- **The condition of an upgrade**: a program gets a degraded record only when the chain has made no
edition since the stored ABI was written; an upgrade that is waited for does not make an edition that
a record names already, and one that is not waited for names an edition that the chain does not
have. -/
structure AttributedUpgrade (env : Environment) (s : ProgramState) : Prop where
  degraded : env.devnode = true → s.known = none → Unadvanced s
  confirmed : env.shouldConfirm = true → NotNext s
  unconfirmed : env.shouldConfirm = false → ∀ e, s.presentEdition env = some e →
    s.chain.editions.length ≤ e + 1

/-- **The condition of a recovery** of an operation that the reads show: no ABI is stored, or it was
interrupted after it had written its ABI, and the chain has made no edition since its own. The edition
of a deployment is read, or is the first. -/
def AttributedRecovery (env : Environment) (s : ProgramState) : Prop :=
  ∀ m, s.pending = some m → Shows env m.value s.chain → ∀ abi, StoredAbi abi s →
    (abi.op = m.op ∧ LastSeen m.op s.chain) ∧ (env.observed = true ∨ s.chain.visible = some 0)

/-- Who makes the edition that the chain gets by an event. -/
def ChainEvent.maker (ev : ChainEvent) (c : Chain) : Option (Option TxId) :=
  match ev with
  | .execute tx =>
    match c.inFlight.find? (fun t => t.1 = tx) with
    | none => none
    | some t => if c.accepts t.2 then some (some tx) else none
  | .foreign => some none
  | .reject _ | .propagate | .reset => none

/-- **The condition of an event of the chain** that makes an edition while an ABI is stored: it is one
that a stored record names if and only if the record is the complete one of the transaction that makes
it. -/
def AttributedChain (ev : ChainEvent) (s : ProgramState) : Prop :=
  ∀ tx, ev.maker s.chain = some tx → (∃ abi, StoredAbi abi s) → ∀ r, StoredRecord r s →
    (r.edition = s.chain.editions.length ↔ r.status = .complete ∧ ∃ x, r.txId = some x ∧ tx = some x)

theorem ChainEvent.editions_apply (ev : ChainEvent) (c : Chain) :
    (∃ tx, ev.maker c = some tx ∧ (ev.apply c).editions = c.editions ++ [tx]) ∨
      (ev.apply c).editions = c.editions ∨ (ev.apply c).editions = [] := by
  cases ev with
  | execute tx =>
    cases hfind : c.inFlight.find? (fun t => t.1 = tx) with
    | none => exact Or.inr (Or.inl (by simp only [ChainEvent.apply, hfind]))
    | some t =>
      by_cases haccepts : c.accepts t.2 = true
      · refine Or.inl ⟨some tx, ?_, ?_⟩
        · simp only [ChainEvent.maker, hfind, haccepts, if_true]
        · simp only [ChainEvent.apply, hfind, haccepts, if_true]
      · exact Or.inr (Or.inl (by simp only [ChainEvent.apply, hfind, if_neg haccepts]))
  | foreign => exact Or.inl ⟨none, rfl, rfl⟩
  | reject | propagate => exact Or.inr (Or.inl rfl)
  | reset => exact Or.inr (Or.inr rfl)

/-- The maker of an edition is in flight. -/
theorem ChainEvent.inFlight_of_maker {ev : ChainEvent} {c : Chain} {x : TxId}
    (h : ev.maker c = some (some x)) : ∃ t ∈ c.inFlight, t.1 = x := by
  cases ev with
  | execute tx =>
    unfold maker at h
    cases hfind : c.inFlight.find? (fun t => t.1 = tx) with
    | none => simp [hfind] at h
    | some t =>
      have hx : tx = x := by
        simp only [hfind] at h
        split at h
        · exact Option.some.inj (Option.some.inj h)
        · exact nomatch h
      exact ⟨t, List.mem_of_find?_eq_some hfind, by simpa [hx] using List.find?_some hfind⟩
  | foreign => exact nomatch h
  | reject | propagate | reset => exact nomatch h

theorem ChainEvent.inFlight_apply {ev : ChainEvent} {c : Chain} {t : TxId × Action}
    (h : t ∈ (ev.apply c).inFlight) : t ∈ c.inFlight := by
  cases ev with
  | execute tx =>
    simp only [apply] at h
    split at h
    · exact h
    · split at h <;> exact List.mem_of_mem_filter h
  | reject tx => exact List.mem_of_mem_filter h
  | propagate | foreign => exact h
  | reset => exact nomatch h

theorem Attributed.chain {s : ProgramState} (h : Attributed s) (ev : ChainEvent)
    (hev : AttributedChain ev s) : Attributed { s with chain := ev.apply s.chain } := by
  refine ⟨h.charted.chain ev, h.abi_lt, fun r abi hr habi => ?_⟩
  have hold := h.suits r abi hr habi
  refine ⟨?_, hold.own, fun hstatus t ht => hold.landed hstatus t (ChainEvent.inFlight_apply ht)⟩
  rcases ev.editions_apply s.chain with ⟨tx, htx, heditions⟩ | heditions | heditions
  · refine hold.abiOf.append heditions ?_
    have hmaker := hev tx htx ⟨abi, habi⟩ r hr
    obtain ⟨x, hx, -⟩ := h.abi_lt abi habi
    rw [eq_comm (a := s.chain.editions.length), hmaker]
    by_cases hstatus : r.status = .complete
    · -- The ABI is the complete record's own.
      rw [hold.own hstatus, hx]
      exact ⟨fun heq => ⟨hstatus, x, rfl, heq⟩, fun ⟨_, y, hy, heq⟩ => heq.trans hy.symm⟩
    · refine ⟨fun heq => ?_, fun heq => absurd heq.1 hstatus⟩
      subst heq
      rw [hx] at htx
      obtain ⟨t, ht, rfl⟩ := ChainEvent.inFlight_of_maker htx
      exact absurd hx (hold.landed hstatus t ht)
  · exact fun i tx htx => hold.abiOf i tx (heditions ▸ htx)
  · intro i tx htx
    rw [show ({ s with chain := ev.apply s.chain } : ProgramState).chain.editions = [] from
      heditions] at htx
    exact nomatch htx

section Operations

variable {p : ProgramId} {env : Environment}

/-- A record without an ABI of the edition that the reads see suits the ABI of the transaction that
made it. -/
theorem Attributed.suits_of_lastSeen {s : ProgramState} (h : Attributed s) {abi : Stamped JsString}
    (habi : StoredAbi abi s) (hseen : LastSeen abi.op s.chain) {r : DeploymentRecord}
    (hstatus : r.status ≠ .complete) (hr : s.chain.visible = some r.edition) :
    Suits s.chain r abi := by
  obtain ⟨x, hx, -⟩ := h.abi_lt abi habi
  obtain ⟨e, he, hlast⟩ := hseen
  obtain rfl : r.edition = e := Option.some.inj (hr.symm.trans he)
  have hlt := h.charted.visible_lt _ he
  have hmade : s.chain.editions[r.edition]? = some abi.op := by
    rw [← hlast, List.getLast?_take, if_neg (Nat.succ_ne_zero _), Nat.add_sub_cancel,
      List.getElem?_eq_getElem hlt]
    rfl
  refine ⟨h.charted.abiOf hx hmade, fun hcomplete => absurd hcomplete hstatus, fun _ t ht => ?_⟩
  rw [hx] at hmade ⊢
  exact fun heq => h.charted.landed x (List.mem_of_getElem? hmade) t ht (Option.some.inj heq).symm

/-- `getDeployment` caches a record that is stored, or that the stored ABI suits. -/
theorem Attributed.cached {s : ProgramState} {r : Option DeploymentRecord} (h : Attributed s)
    (hr : ∀ r', r = some r' → StoredRecord r' s ∨ AbisSuit r' s) :
    Attributed { s with cache := r } := by
  refine ⟨h.charted, h.abi_lt, fun r' abi hr' habi => ?_⟩
  rcases hr' with hr' | hr'
  · rcases hr r' hr' with hstored | habis
    · exact h.suits r' abi hstored habi
    · exact habis abi habi
  · exact h.suits r' abi (Or.inr hr') habi

theorem stored_of_known {s : ProgramState} {r : DeploymentRecord} (h : s.known = some r) :
    StoredRecord r s := by
  unfold ProgramState.known at h
  cases hc : s.cache with
  | some c =>
    rw [hc] at h
    exact Or.inl (hc.trans h)
  | none =>
    rw [hc] at h
    exact Or.inr h

/-- The state after `getDeployment`. -/
theorem getDeployment_attributed {s : ProgramState} (h : Attributed s)
    (hdegraded : env.devnode = true → s.known = none → Unadvanced s) :
    Triple BeforeRecord (· = s) (getDeployment p env)
      (fun r s' => Found env s r ∧ s' = { s with cache := r } ∧ Attributed s') Attributed
      AttributedOnDisk := by
  refine (getDeployment_spec s).weaken (fun _ h => h) ?_ (by rintro _ rfl; exact h)
    (by rintro _ rfl; exact h.onDisk)
  rintro r _ ⟨hfound, rfl⟩
  refine ⟨hfound, rfl, h.cached ?_⟩
  rintro r' rfl
  rcases hfound with ⟨hknown, -⟩ | ⟨⟨hknown, hdev⟩, e, hvisible, rfl⟩
  · exact Or.inl (stored_of_known hknown)
  · exact Or.inr fun abi habi => h.suits_of_lastSeen habi
      (hdegraded hdev hknown (by rw [hvisible]; exact nofun) abi habi) nofun hvisible

/-- The records do not name the next edition after `getDeployment` either. -/
theorem NotNext.cached {s : ProgramState} {r : Option DeploymentRecord} (h : NotNext s)
    (hc : Charted s.chain s.sent) (hfound : Found env s r) : NotNext { s with cache := r } := by
  intro r' abi hr' habi
  rcases hr' with hr' | hr'
  · obtain rfl : r = some r' := hr'
    rcases hfound with ⟨hknown, -⟩ | ⟨-, e, hvisible, rfl⟩
    · exact h r' abi (stored_of_known hknown) habi
    · exact Nat.ne_of_lt (hc.visible_lt e hvisible)
  · exact h r' abi (Or.inr hr') habi

theorem reconcile_attributed {s : ProgramState} {edition : Option Nat} (h : Attributed s)
    (hedition : ∀ e, observedEdition env s.chain edition = some e →
      AbisSuit (createDegradedRecord e) s) :
    Triple BeforeRecord (· = s) (reconcile p env edition) (fun _ => Attributed) Attributed
      AttributedOnDisk := by
  refine Triple.read ?_
  rintro s rfl
  cases hobserved : observedEdition env s.chain edition with
  | none => exact Triple.fail (by rintro _ rfl; exact h)
  | some e =>
    refine (record_attributed (r := createDegradedRecord e) nofun).weaken ?_ (fun _ _ h => h.1)
      (fun _ h => h) (fun _ h => h)
    rintro _ rfl
    exact ⟨h, hedition e hobserved⟩

theorem observedEdition_visible {c : Chain} {e e' : Nat} (hvisible : c.visible = some e)
    (h : observedEdition env c (if env.observed then some e else none) = some e') : e' = e := by
  unfold observedEdition getProgramEdition at h
  rw [hvisible] at h
  by_cases hobserved : env.observed = true
  · simpa [hobserved] using h.symm
  · by_cases hreadable : env.readable = true
    · simpa [hobserved, hreadable] using h.symm
    · simp [hobserved, hreadable] at h

theorem deployAction_attributed :
    Triple BeforeRecord (fun s => Attributed s ∧ AttributedDeploy env s) (deployAction p env)
      (fun _ => Attributed) Attributed AttributedOnDisk := by
  refine Triple.known fun s₀ h => ?_
  obtain ⟨h, hdegraded, hconfirmed, hunconfirmed⟩ := h
  refine Triple.bind (M := fun r s => s = { s₀ with cache := s.cache } ∧ Attributed s ∧
    (s₀.chain.visible = none → env.shouldConfirm = true → NotNext s) ∧
    (r = none → env.skipDeployed = true → Unadvanced s₀)) ?_
    fun existing => Triple.read fun s hs => ?_
  · refine Triple.ite (fun hcache => ?_) (fun hcache => ?_)
    · refine Triple.read ?_
      rintro s rfl
      refine Triple.pure ?_
      rintro s rfl
      refine ⟨rfl, h, hconfirmed, fun hnone hskip hvisible => hdegraded (Or.inl ?_) hvisible⟩
      exact ⟨hvisible, hskip, by rwa [if_pos hcache]⟩
    · have hrenamed : env.devnode = true → env.renamed = true := by
        intro hdev
        by_contra hnot
        exact hcache ⟨hdev, by simpa using hnot⟩
      refine (getDeployment_attributed h fun hdev hknown => hdegraded
        (Or.inr ⟨hdev, hrenamed hdev, hknown⟩)).weaken (fun _ h => h) ?_ (fun _ h => h)
        (fun _ h => h)
      rintro existing _ ⟨hfound, rfl, hattributed⟩
      refine ⟨rfl, hattributed,
        fun hvisible hconfirm => (hconfirmed hvisible hconfirm).cached h.charted hfound,
        fun hnone hskip hvisible => hdegraded (Or.inl ?_) hvisible⟩
      subst hnone
      obtain ⟨hknown, hdev⟩ := hfound.resolve_left hvisible
      exact ⟨hvisible, hskip, by rw [if_neg hcache]; exact ⟨hdev, hknown⟩⟩
  · obtain ⟨hcached, hattributed, hnext, hadopts⟩ := hs
    have hchain : s.chain = s₀.chain := by rw [hcached]
    cases hvisible : s.chain.visible with
    | none =>
      have hnone : checkProgramOnChain env s.chain = none := by
        rw [checkProgramOnChain, hvisible]
        rfl
      rw [hnone]
      have hvisible₀ : s₀.chain.visible = none := hchain ▸ hvisible
      exact deployProgram_attributed hattributed (hnext hvisible₀)
        (fun hconfirm => hchain ▸ hunconfirmed hvisible₀ hconfirm)
    | some e =>
      have hsome : checkProgramOnChain env s.chain =
          some (if env.observed then some e else none) := by
        rw [checkProgramOnChain, hvisible]
        rfl
      rw [hsome]
      refine Triple.ite (fun hskip => Triple.ite (fun hexisting => ?_) (fun _ => ?_)) (fun _ => ?_)
      · refine reconcile_attributed hattributed fun e' he' abi habi => ?_
        obtain rfl := observedEdition_visible hvisible he'
        have hseen := hadopts (Option.isNone_iff_eq_none.mp hexisting) hskip
          (by rw [← hchain, hvisible]; exact Option.some_ne_none _) abi (by rwa [hcached] at habi)
        exact hattributed.suits_of_lastSeen habi (hchain ▸ hseen) (fun h => by cases h) hvisible
      · exact Triple.pure (by rintro _ rfl; exact hattributed)
      · exact Triple.fail (by rintro _ rfl; exact hattributed)

theorem upgradeAction_attributed :
    Triple BeforeRecord (fun s => Attributed s ∧ AttributedUpgrade env s) (upgradeAction p env)
      (fun _ => Attributed) Attributed AttributedOnDisk := by
  refine Triple.known fun s₀ h => ?_
  obtain ⟨h, hdegraded, hconfirmed, hunconfirmed⟩ := h
  refine Triple.bind (getDeployment_attributed h hdegraded) fun existing => ?_
  refine Triple.known fun s hs => ?_
  obtain ⟨hfound, rfl, hattributed⟩ := hs
  have hnext : env.shouldConfirm = true → NotNext { s₀ with cache := existing } :=
    fun hconfirm => (hconfirmed hconfirm).cached h.charted hfound
  cases existing with
  | some r =>
    refine upgradeProgram_attributed hattributed hnext (by simp) fun hconfirm previous hprevious => ?_
    obtain ⟨e, hvisible⟩ : ∃ e, s₀.chain.visible = some e := by
      rcases hfound with ⟨-, hvisible⟩ | ⟨-, e, hvisible, -⟩
      · exact Option.ne_none_iff_exists'.mp hvisible
      · exact ⟨e, hvisible⟩
    refine hunconfirmed hconfirm previous (Eq.trans ?_ hprevious)
    -- What the upgrade reads, or else takes from the record.
    unfold previousEdition getProgramEdition ProgramState.presentEdition
    by_cases hreadable : env.readable = true
    · simp [hconfirm, hreadable, hvisible]
    · rcases hfound with ⟨hknown, -⟩ | ⟨⟨hknown, -⟩, e', hvisible', rfl⟩
      · simp [hconfirm, hreadable, hknown]
      · simp [hconfirm, hreadable, hknown, hvisible', createDegradedRecord]
  | none =>
    refine Triple.read ?_
    rintro _ rfl
    have hfail (message : JsString) :
        Triple BeforeRecord (· = { s₀ with cache := none }) (throw message : Op Unit)
          (fun _ => Attributed) Attributed AttributedOnDisk :=
      Triple.fail (by rintro _ rfl; exact hattributed)
    cases hvisible : s₀.chain.visible with
    | none =>
      have hnone : checkProgramOnChain env s₀.chain = none := by
        rw [checkProgramOnChain, hvisible]
        rfl
      rw [hnone]
      exact hfail _
    | some e =>
      have hsome : checkProgramOnChain env s₀.chain =
          some (if env.observed then some e else none) := by
        rw [checkProgramOnChain, hvisible]
        rfl
      rw [hsome]
      dsimp only
      cases hobserved : observedEdition env s₀.chain (if env.observed then some e else none) with
      | none => exact hfail _
      | some e' =>
        obtain rfl := observedEdition_visible hvisible hobserved
        have hknown : s₀.known = none :=
          (hfound.resolve_left (by rw [hvisible]; simp)).1
        refine upgradeProgram_attributed hattributed hnext (fun f hf => ?_)
          fun hconfirm previous hprevious => hunconfirmed hconfirm previous (Eq.trans ?_ hprevious)
        · exact hvisible.trans hf
        · unfold ProgramState.presentEdition
          rw [hvisible, hknown]
          simp [previousEdition]

/-- Recovery records the edition that the reads see. -/
theorem visible_of_recover {m : PendingDeployment} {c : Chain} {edition : Nat}
    (hres : resolve m (checkProgramOnChain env c) = .recover edition)
    (hread : env.observed = true ∨ c.visible = some 0) : c.visible = some edition := by
  unfold checkProgramOnChain at hres
  cases hvisible : c.visible with
  | none =>
    rw [hvisible] at hres
    exact nomatch hres
  | some e =>
    rw [hvisible, Option.map_some] at hres
    cases haction : m.action with
    | deploy =>
      simp only [resolve, haction] at hres
      obtain rfl := Resolution.recover.inj hres
      rcases hread with hobserved | hzero
      · rw [if_pos hobserved]
        rfl
      · obtain rfl : e = 0 := Option.some.inj (hvisible.symm.trans hzero)
        split <;> rfl
    | upgrade =>
      by_cases hobserved : env.observed = true
      · cases hprevious : m.previousEdition with
        | none => simp [resolve, haction, hobserved, hprevious] at hres
        | some previous =>
          by_cases hle : e ≤ previous
          · cases hblock : m.blockHeight <;>
              simp [resolve, haction, hobserved, hprevious, hle, hblock] at hres
          · simpa [resolve, haction, hobserved, hprevious, hle] using hres
      · simp [resolve, haction, hobserved] at hres

theorem recoverPending_attributed :
    Triple BeforeRecord (fun s => Attributed s ∧ AttributedRecovery env s) (recoverPending p env)
      (fun _ s => Attributed s ∧ AttributedRecovery env s) Attributed AttributedOnDisk := by
  have hsettled {s : ProgramState} (h : s.pending = none) : AttributedRecovery env s := by
    intro m hm
    rw [h] at hm
    cases hm
  refine Triple.read fun s h => ?_
  obtain ⟨h, hrecovery⟩ := h
  have hsame : ∀ s', s' = s → Attributed s' ∧ AttributedRecovery env s' := by
    rintro _ rfl
    exact ⟨h, hrecovery⟩
  cases hm : s.pending with
  | none => exact Triple.pure hsame
  | some m =>
    dsimp only
    rcases resolve_cases env m.value s.chain with
      ⟨edition, hres, hshows⟩ | ⟨hres, -⟩ | ⟨hres, -⟩ | hres <;> rw [hres]
    · refine Triple.bind ((record_attributed
        (r := recoveredRecord m.value edition s.recoveredCount) fun h => by cases h).weaken ?_
        (fun _ _ h => h) (fun _ h => h) (fun _ h => h)) fun _ => Triple.pure fun s h => ⟨h.1, hsettled h.2⟩
      rintro _ rfl
      refine ⟨h, fun abi habi => ?_⟩
      obtain ⟨⟨hop, hseen⟩, hread⟩ := hrecovery m hm hshows abi habi
      exact h.suits_of_lastSeen habi (hop ▸ hseen) (fun h => by cases h) (visible_of_recover hres hread)
    · refine Triple.step (M := fun s => Attributed s ∧ s.pending = none) ?_ ?_
        (Triple.pure fun s h => ⟨h.1, hsettled h.2⟩)
      · rintro _ rfl -
        exact h.onDisk
      · rintro _ rfl
        exact ⟨⟨h.charted, h.abi_lt, h.suits⟩, rfl⟩
    · exact Triple.pure hsame
    · exact Triple.fail fun s hs => (hsame s hs).1

end Operations

/-! ## Runs -/

/-- The conditions under which ABIs follow editions. -/
def attributing : Conditions where
  safe := BeforeRecord
  deploy := AttributedDeploy
  upgrade := AttributedUpgrade
  recovery := AttributedRecovery
  chain := AttributedChain

theorem attributing_keeps : Keeps attributing Attributed AttributedOnDisk where
  interrupted _ h := h.onDisk
  forget _ h := h
  deploy _ _ := deployAction_attributed
  upgrade _ _ := upgradeAction_attributed
  recovery _ _ := recoverPending_attributed
  chain ev _ h hev := h.chain ev hev

/-- The process ends before it writes a first record. -/
def crashBeforeFirst : Crash := fun k w =>
  match k.2 with
  | .writeDeploymentRecord _ => (w k.1).record.isNone
  | _ => false

theorem crashBeforeFirst_safe : attributing.Safe crashBeforeFirst := by
  rintro ⟨p, k⟩ w hcrash r rfl -
  exact Option.isNone_iff_eq_none.mp hcrash

/-- A first deployment ends after its ABI and before its record, and is recovered. -/
def recoveredFirst : List Event :=
  [.deploy token .smooth crashBeforeFirst, .chain token .propagate,
    .recover [token] (fun _ => .smooth) neverCrash]

/-- The process ends before it writes the ABI snapshot. -/
def crashBeforeSnapshot : Crash := fun k _ =>
  match k.2 with
  | .writeAbiSnapshot _ => true
  | _ => false

end Lionden.Deploy
