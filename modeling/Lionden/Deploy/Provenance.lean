import Lionden.Deploy.Runs

/-!
# Provenance across crashes

Deploys and upgrades write a pending marker, the record, a history entry, and delete the marker; a
crash may fall between any two of these. Recovery decides from the marker and from reads of the
chain.

* `Consistent`: what every effect of an operation keeps; `Intact`: and no recorded transaction has a
  marker.
* `Interruptible`: where a crash leaves a marker only of a transaction that is not recorded.
* `deployAction_spec`, `upgradeAction_spec`, `recoverPending_spec`: an operation keeps `Intact`.
* `sound`: the marker, the chain and the crashes with which a recovery is right.
* `recovery_keeps_provenance`: in a run of such steps, a complete record stays, and each executed
  transaction is in the history once.
-/

namespace Lionden.Deploy

open Interrupt (Triple)

/-! ## What recovery is to keep -/

/-- How many history entries a transaction has. -/
def entries (x : TxId) (s : ProgramState) : Nat := s.readHistory.countP (fun e => e.op = some x)

/-- The record is the complete one of the transaction `x`. -/
def IsComplete (x : TxId) (r : Stamped DeploymentRecord) : Prop :=
  r.op = some x ∧ r.value.status = .complete ∧ r.value.txId = some x

/-- The complete record that was written last is there, unless a later transaction that the chain
executed was recovered since. -/
def Provenance (s : ProgramState) : Prop :=
  ∀ z, s.lastComplete = some z → ∃ r, s.record = some r ∧
    (IsComplete z r ∨ r.value.status = .recovered ∧ ∃ y ∈ s.chain.executed, z < y ∧ r.op = some y)

/-- The chain has executed the transaction or may still do so. -/
def Landed (x : TxId) (c : Chain) : Prop := x ∈ c.executed ∨ ∃ t ∈ c.inFlight, t.1 = x

/-- The pending marker is that of the transaction `x`. -/
def Owns (x : TxId) (s : ProgramState) : Prop := ∃ m, s.pending = some m ∧ m.op = some x

/-- No history file has the name that an entry of this count would get now. -/
def Fresh (historyCount : Nat) (now : JsString) (s : ProgramState) : Prop :=
  historyFilename historyCount now ∉ s.history.map (·.1)

/-- **The invariant.** A transaction that has landed is in the history or has the marker. -/
structure Consistent (s : ProgramState) : Prop where
  landed_lt : ∀ x, Landed x s.chain → x < s.sent
  entries_lt : ∀ x, entries x s ≠ 0 → x < s.sent
  lastComplete_lt : ∀ x, s.lastComplete = some x → x < s.sent
  record_lt : ∀ r x, s.record = some r → r.op = some x → x < s.sent
  marker : ∀ m, s.pending = some m → ∃ x, m.op = some x ∧ x + 1 = s.sent
  once : ∀ x, entries x s ≤ 1
  present : ∀ x, Landed x s.chain → entries x s = 1 ∨ Owns x s
  provenance : Provenance s

/-- No record of the marker's transaction is complete, and its history entry is not written. -/
def Unrecorded (s : ProgramState) : Prop :=
  ∀ x, Owns x s → entries x s = 0 ∧ ∀ r, s.record = some r → ¬IsComplete x r

/-- The invariant between operations, and where they may be interrupted. -/
structure Intact (s : ProgramState) : Prop where
  consistent : Consistent s
  unrecorded : Unrecorded s

theorem not_owns {s : ProgramState} {x : TxId} (h : s.pending = none) : ¬Owns x s := by
  rintro ⟨m, hm, -⟩
  rw [h] at hm
  exact nomatch hm

theorem Consistent.intact {s : ProgramState} (h : Consistent s) (hpending : s.pending = none) :
    Intact s :=
  ⟨h, fun _ howns => absurd howns (not_owns hpending)⟩

/-- **Where an operation may be interrupted.** `record()` runs on to the end of the marker once it
has written a complete record, and once it has written the history entry. -/
def Interruptible : Effect → ProgramState → Prop
  | .appendHistory _ entry, _ => entry.value.record.status ≠ .complete
  | .setAbiCache _, s | .setCache _, s => s.pending = none
  -- A marker that is discarded is not of the transaction of the record on disk.
  | .deletePendingMarker, s => ∀ m r, s.pending = some m → s.record = some r → r.op ≠ m.op
  | .writePendingMarker _, _ | .writeAbiSnapshot _, _ | .writeDeploymentRecord _, _
  | .broadcastTransaction _ _, _ | .chain _, _ => True

/-! ## Effects -/

theorem entries_eq (x : TxId) (s : ProgramState) :
    entries x s = s.history.countP (fun f => f.2.op = some x) := by
  unfold entries ProgramState.readHistory
  rw [List.countP_map, (List.mergeSort_perm _ _).countP_eq]
  rfl

theorem entries_appendHistory {now : JsString} {e : Stamped DeploymentHistoryEntry}
    {s : ProgramState} (hfresh : Fresh e.value.record.historyCount now s) (x : TxId) :
    entries x ((Effect.appendHistory now e).apply s) =
      entries x s + if e.op = some x then 1 else 0 := by
  rw [entries_eq, entries_eq]
  show List.countP _ (writeFile _ e s.history) = _
  rw [writeFile_new hfresh, List.countP_append, List.countP_singleton]
  simp

theorem Landed.of_chain {x : TxId} {c : Chain} (ev : ChainEvent) (h : Landed x (ev.apply c)) :
    Landed x c := by
  have hfilter {tx : TxId} : (∃ t ∈ c.inFlight.filter (fun t => t.1 ≠ tx), t.1 = x) →
      ∃ t ∈ c.inFlight, t.1 = x := fun ⟨t, ht, hx⟩ => ⟨t, List.mem_of_mem_filter ht, hx⟩
  cases ev with
  | execute tx =>
    simp only [ChainEvent.apply] at h
    split at h
    · exact h
    · next t hfind =>
      split at h
      · rcases h with h | h
        · rcases List.mem_cons.mp h with rfl | h
          · exact Or.inr ⟨t, List.mem_of_find?_eq_some hfind,
              by simpa using List.find?_some hfind⟩
          · exact Or.inl h
        · exact Or.inr (hfilter h)
      · exact h.imp_right hfilter
  | reject tx => exact h.imp_right hfilter
  | propagate | foreign => exact h
  | reset => exact h.imp_right (by simp [ChainEvent.apply])

theorem executed_chain {x : TxId} {c : Chain} (ev : ChainEvent) (h : x ∈ c.executed) :
    x ∈ (ev.apply c).executed := by
  cases ev with
  | execute tx =>
    simp only [ChainEvent.apply]
    split
    · exact h
    · split
      · exact List.mem_cons_of_mem _ h
      · exact h
  | reject | propagate | foreign | reset => exact h

/-- A processed transaction is not in flight. -/
theorem Landed.of_execute {x : TxId} {c : Chain}
    (h : Landed x ((ChainEvent.execute x).apply c)) :
    x ∈ ((ChainEvent.execute x).apply c).executed := by
  rcases h with h | ⟨t, ht, hx⟩
  · exact h
  · simp only [ChainEvent.apply] at ht ⊢
    split at ht
    · next hfind => simpa [hx] using List.find?_eq_none.mp hfind t ht
    · split at ht <;> simp [hx] at ht

namespace Consistent

variable {s : ProgramState} {x : TxId}

theorem new : Consistent .new where
  landed_lt _ h := by simp [Landed, ProgramState.new] at h
  entries_lt _ h := by simp [entries_eq, ProgramState.new] at h
  lastComplete_lt _ h := nomatch h
  record_lt _ _ h := nomatch h
  marker _ h := nomatch h
  once _ := by simp [entries_eq, ProgramState.new]
  present _ h := by simp [Landed, ProgramState.new] at h
  provenance _ h := nomatch h

/-- The ABI snapshot and the memory of the manager do not matter. -/
theorem memory (h : Consistent s) (abi abiCache : Option (Stamped JsString))
    (cache : Option DeploymentRecord) :
    Consistent { s with abi := abi, abiCache := abiCache, cache := cache } :=
  ⟨h.landed_lt, h.entries_lt, h.lastComplete_lt, h.record_lt, h.marker, h.once, h.present,
    h.provenance⟩

theorem chain (h : Consistent s) (ev : ChainEvent) : Consistent ((Effect.chain ev).apply s) where
  landed_lt x hx := h.landed_lt x (hx.of_chain ev)
  entries_lt := h.entries_lt
  lastComplete_lt := h.lastComplete_lt
  record_lt := h.record_lt
  marker := h.marker
  once := h.once
  present x hx := h.present x (hx.of_chain ev)
  provenance z hz := by
    obtain ⟨r, hr, hcase⟩ := h.provenance z hz
    refine ⟨r, hr, hcase.imp_right ?_⟩
    rintro ⟨hstatus, y, hy, hlt⟩
    exact ⟨hstatus, y, executed_chain ev hy, hlt⟩

theorem lt_of_owns (h : Consistent s) (howns : Owns x s) : x < s.sent := by
  obtain ⟨m, hm, hx⟩ := howns
  obtain ⟨y, hy, hlast⟩ := h.marker m hm
  obtain rfl : y = x := Option.some.inj (hy.symm.trans hx)
  exact Nat.lt_of_lt_of_eq (Nat.lt_succ_self y) hlast

/-- A new transaction starts with its marker. -/
theorem begin (h : Consistent s) (hpending : s.pending = none) (m : PendingDeployment) :
    Consistent ((Effect.writePendingMarker ⟨m, some s.sent⟩).apply s) := by
  have hle : s.sent ≤ max s.sent (s.sent + 1) := Nat.le_max_left _ _
  refine ⟨fun x hx => Nat.lt_of_lt_of_le (h.landed_lt x hx) hle,
    fun x hx => Nat.lt_of_lt_of_le (h.entries_lt x hx) hle,
    fun x hx => Nat.lt_of_lt_of_le (h.lastComplete_lt x hx) hle,
    fun r x hr hx => Nat.lt_of_lt_of_le (h.record_lt r x hr hx) hle, ?_, h.once, fun x hx => ?_,
    h.provenance⟩
  · rintro _ ⟨rfl⟩
    exact ⟨s.sent, rfl, (Nat.max_eq_right (Nat.le_succ _)).symm⟩
  · rcases h.present x hx with hx | ⟨m', hm', -⟩
    · exact Or.inl hx
    · rw [hpending] at hm'
      exact nomatch hm'

/-- The marker of a transaction is written again. -/
theorem rewrite (h : Consistent s) (howns : Owns x s) (m : PendingDeployment) :
    Consistent ((Effect.writePendingMarker ⟨m, some x⟩).apply s) := by
  obtain ⟨m₀, hm₀, hx₀⟩ := howns
  obtain ⟨x', hx', hlast⟩ := h.marker m₀ hm₀
  obtain rfl : x' = x := Option.some.inj (hx'.symm.trans hx₀)
  have hsent : max s.sent (x' + 1) = s.sent := Nat.max_eq_left (Nat.le_of_eq hlast)
  have hle : s.sent ≤ max s.sent (x' + 1) := Nat.le_max_left _ _
  refine ⟨fun x hx => Nat.lt_of_lt_of_le (h.landed_lt x hx) hle,
    fun x hx => Nat.lt_of_lt_of_le (h.entries_lt x hx) hle,
    fun x hx => Nat.lt_of_lt_of_le (h.lastComplete_lt x hx) hle,
    fun r x hr hx => Nat.lt_of_lt_of_le (h.record_lt r x hr hx) hle, ?_, h.once, fun x hx => ?_,
    h.provenance⟩
  · rintro _ ⟨rfl⟩
    exact ⟨x', rfl, hlast.trans hsent.symm⟩
  · rcases h.present x hx with hx | ⟨m', hm', hop⟩
    · exact Or.inl hx
    · rw [hm₀] at hm'
      obtain rfl := Option.some.inj hm'
      exact Or.inr ⟨⟨m, some x'⟩, rfl, hx₀.symm.trans hop⟩

/-- A transaction is broadcast under its marker. -/
theorem broadcast (h : Consistent s) (howns : Owns x s) (action : Action) :
    Consistent ((Effect.broadcastTransaction x action).apply s) := by
  have hlanded (y : TxId) (hy : Landed y (s.chain.broadcast x action)) : Landed y s.chain ∨ y = x := by
    rcases hy with hy | ⟨t, ht, rfl⟩
    · exact Or.inl (Or.inl hy)
    · rcases List.mem_append.mp ht with ht | ht
      · exact Or.inl (Or.inr ⟨t, ht, rfl⟩)
      · rw [List.mem_singleton.mp ht]
        exact Or.inr rfl
  refine ⟨fun y hy => ?_, h.entries_lt, h.lastComplete_lt, h.record_lt, h.marker, h.once,
    fun y hy => ?_, h.provenance⟩
  · rcases hlanded y hy with hy | rfl
    · exact h.landed_lt y hy
    · exact h.lt_of_owns howns
  · rcases hlanded y hy with hy | rfl
    · exact h.present y hy
    · exact Or.inr howns

/-- The marker goes when its transaction is in the history, or has not landed and will not. -/
theorem deleteMarker (h : Consistent s)
    (hm : ∀ x, Owns x s → Landed x s.chain → entries x s = 1) :
    Consistent (Effect.deletePendingMarker.apply s) := by
  refine ⟨h.landed_lt, h.entries_lt, h.lastComplete_lt, h.record_lt, fun _ hm => (nomatch hm),
    h.once, fun x hx => Or.inl ?_, h.provenance⟩
  rcases h.present x hx with hone | howns
  · exact hone
  · exact hm x howns hx

end Consistent

/-! ## `record()` -/

/-- Why a record of the transaction `op` may be written: the transaction is its own, or executed on
the chain and still marked, or no complete record was written so far. -/
def Justified (op : Option TxId) (r : DeploymentRecord) (s : ProgramState) : Prop :=
  match r.status with
  | .complete => ∃ x, op = some x ∧ r.txId = some x ∧ x < s.sent
  | .recovered => ∃ x ∈ s.chain.executed, op = some x ∧ Owns x s
  | .degraded => s.lastComplete = none

/-- The state before `record()`. -/
structure Writable (op : Option TxId) (r : DeploymentRecord) (now : JsString) (s : ProgramState) :
    Prop where
  intact : Intact s
  justified : Justified op r s
  fresh : Fresh r.historyCount now s
  absent : ∀ x, op = some x → entries x s = 0 ∧ x < s.sent
  marker : ∀ x, Owns x s → op = some x

/-- The state between the record and the history entry. -/
structure Appendable (op : Option TxId) (r : DeploymentRecord) (now : JsString) (s : ProgramState) :
    Prop where
  consistent : Consistent s
  record : s.record = some ⟨r, op⟩
  fresh : Fresh r.historyCount now s
  absent : ∀ x, op = some x → entries x s = 0 ∧ x < s.sent
  marker : ∀ x, Owns x s → op = some x

/-- The state between the history entry and the end of the marker. -/
structure Recorded (op : Option TxId) (r : DeploymentRecord) (s : ProgramState) : Prop where
  consistent : Consistent s
  record : s.record = some ⟨r, op⟩
  marker : ∀ x, Owns x s → op = some x
  present : ∀ x, Owns x s → entries x s = 1

/-- A record that is not complete is no reason to keep the marker from a crash. -/
theorem Appendable.intact {op : Option TxId} {r : DeploymentRecord} {now : JsString}
    {s : ProgramState} (h : Appendable op r now s) (hstatus : r.status ≠ .complete) : Intact s := by
  refine ⟨h.consistent, fun x howns => ⟨(h.absent x (h.marker x howns)).1, fun r' hr' hcomplete => ?_⟩⟩
  rw [h.record] at hr'
  obtain rfl := Option.some.inj hr'
  exact hstatus hcomplete.2.1

/-- If the record on disk is not the marker's, then no marker is left. -/
theorem Recorded.intact {op : Option TxId} {r : DeploymentRecord} {s : ProgramState}
    (h : Recorded op r s)
    (hother : ∀ m r, s.pending = some m → s.record = some r → r.op ≠ m.op) : Intact s := by
  refine h.consistent.intact (Option.eq_none_iff_forall_ne_some.mpr fun m hm => ?_)
  obtain ⟨x, hx, -⟩ := h.consistent.marker m hm
  exact hother m _ hm h.record ((h.marker x ⟨m, hm, hx⟩).trans hx.symm)

theorem Consistent.last_unique {s : ProgramState} (h : Consistent s) {x y : TxId}
    (howns : Owns x s) (hy : y < s.sent) : y ≤ x := by
  obtain ⟨m, hm, hx⟩ := howns
  obtain ⟨x', hx', hlast⟩ := h.marker m hm
  obtain rfl : x' = x := Option.some.inj (hx'.symm.trans hx)
  exact Nat.le_of_lt_succ (Nat.lt_of_lt_of_eq hy hlast.symm)

/-- The new record keeps what the old one kept. -/
theorem Writable.writeRecord {op : Option TxId} {r : DeploymentRecord} {now : JsString}
    {s : ProgramState} (h : Writable op r now s) :
    Appendable op r now ((Effect.writeDeploymentRecord ⟨r, op⟩).apply s) := by
  have hc := h.intact.consistent
  have hj := h.justified
  have hlast : ∀ z, (if r.status = .complete then op else s.lastComplete) = some z →
      z < s.sent ∧ (IsComplete z ⟨r, op⟩ ∨
        r.status = .recovered ∧ ∃ y ∈ s.chain.executed, z < y ∧ op = some y) := by
    intro z hz
    unfold Justified at hj
    cases hstatus : r.status with
    | complete =>
      rw [hstatus, if_pos rfl] at hz
      rw [hstatus] at hj
      obtain ⟨x, hop, htx, hlt⟩ := hj
      obtain rfl : x = z := Option.some.inj (hop.symm.trans hz)
      exact ⟨hlt, Or.inl ⟨hop, hstatus, htx⟩⟩
    | degraded =>
      rw [hstatus, if_neg (by decide)] at hz
      rw [hstatus] at hj
      rw [hj] at hz
      exact nomatch hz
    | recovered =>
      rw [hstatus, if_neg (by decide)] at hz
      rw [hstatus] at hj
      obtain ⟨x, hx, hop, howns⟩ := hj
      have hincomplete := (h.intact.unrecorded x howns).2
      have hle := hc.last_unique howns (hc.lastComplete_lt z hz)
      obtain ⟨r₀, hr₀, hcase⟩ := hc.provenance z hz
      refine ⟨hc.lastComplete_lt z hz, Or.inr ⟨rfl, x, hx, Nat.lt_of_le_of_ne hle ?_, hop⟩⟩
      -- The record is not that of `x` itself, and nothing after `x` was started.
      rintro rfl
      rcases hcase with hcomplete | ⟨-, y, hy, hlt, -⟩
      · exact hincomplete r₀ hr₀ hcomplete
      · exact Nat.not_le_of_lt hlt (hc.last_unique howns (hc.landed_lt y (Or.inl hy)))
  refine ⟨⟨hc.landed_lt, hc.entries_lt, fun z hz => (hlast z hz).1, ?_, hc.marker, hc.once, hc.present,
    fun z hz => ⟨⟨r, op⟩, rfl, (hlast z hz).2⟩⟩, rfl, h.fresh, h.absent, h.marker⟩
  rintro _ x ⟨rfl⟩ hop
  exact (h.absent x hop).2

theorem Appendable.appendHistory {op : Option TxId} {r : DeploymentRecord} {now : JsString}
    {s : ProgramState} (h : Appendable op r now s) (action : Action) :
    Recorded op r ((Effect.appendHistory now ⟨⟨r, action⟩, op⟩).apply s) := by
  have hc := h.consistent
  have hentries (x : TxId) : entries x ((Effect.appendHistory now ⟨⟨r, action⟩, op⟩).apply s) =
      entries x s + if op = some x then 1 else 0 :=
    entries_appendHistory h.fresh x
  have hone (x : TxId) (hop : op = some x) :
      entries x ((Effect.appendHistory now ⟨⟨r, action⟩, op⟩).apply s) = 1 := by
    rw [hentries, if_pos hop, (h.absent x hop).1]
  have hsame (x : TxId) (hop : op ≠ some x) :
      entries x ((Effect.appendHistory now ⟨⟨r, action⟩, op⟩).apply s) = entries x s := by
    rw [hentries, if_neg hop, Nat.add_zero]
  refine ⟨⟨hc.landed_lt, fun x hx => ?_, hc.lastComplete_lt, hc.record_lt, hc.marker, fun x => ?_,
    fun x hx => ?_, hc.provenance⟩, h.record, h.marker, fun x hx => hone x (h.marker x hx)⟩
  · by_cases hop : op = some x
    · exact (h.absent x hop).2
    · rw [hsame x hop] at hx
      exact hc.entries_lt x hx
  · by_cases hop : op = some x
    · exact Nat.le_of_eq (hone x hop)
    · rw [hsame x hop]
      exact hc.once x
  · by_cases hop : op = some x
    · exact Or.inl (hone x hop)
    · rw [hsame x hop]
      exact hc.present x hx

/-- A crash that may fall ends in `C`: if only interruptible effects are interrupted, then `C` has
the states that are intact. -/
def Covers (safe : Effect → ProgramState → Prop) (C : ProgramState → Prop) : Prop :=
  ∀ k s, safe k s → (Interruptible k s → Intact s) → C s

theorem covers_interruptible : Covers Interruptible Intact := fun _ _ hsafe h => h hsafe

theorem covers_any : Covers (fun _ _ => True) fun _ => True := fun _ _ _ _ => trivial

/-- **`record()`**, interrupted before any of its writes. -/
theorem record_spec {safe : Effect → ProgramState → Prop} {C : ProgramState → Prop}
    (hC : Covers safe C) {p : ProgramId} {now : JsString} {op : Option TxId} {r : DeploymentRecord}
    {action : Action} {abi : Option JsString} :
    Triple safe (Writable op r now) (record p now op r action abi)
      (fun _ s => Consistent s ∧ s.pending = none) Intact C := by
  have hcovered {k : Effect} {P : ProgramState → Prop} (hP : ∀ s, P s → Interruptible k s → Intact s) :
      ∀ s, P s → safe k s → C s := fun s hs hsafe => hC k s hsafe (hP s hs)
  refine Triple.ite (fun _ => Triple.fail fun _ h => h.intact) (fun _ => ?_)
  refine Triple.bind (M := fun _ => Writable op r now) ?_ fun _ => ?_
  · cases abi with
    | none => exact Triple.pure fun _ h => h
    | some abi =>
      refine Triple.perform (hcovered fun _ h _ => h.intact) fun s h => ?_
      exact ⟨⟨h.intact.consistent.memory (some ⟨abi, op⟩) s.abiCache s.cache, h.intact.unrecorded⟩,
        h.justified, h.fresh, h.absent, h.marker⟩
  refine Triple.step (hcovered fun _ h _ => h.intact) (fun _ h => h.writeRecord) ?_
  refine Triple.step (hcovered fun _ h hstatus => h.intact hstatus)
    (fun _ h => h.appendHistory action) ?_
  refine Triple.bind (M := fun _ => Recorded op r) ?_ fun _ => ?_
  · cases abi with
    | none => exact Triple.pure fun _ h => h
    | some abi =>
      refine Triple.perform (hcovered fun _ h hpending => h.consistent.intact hpending) fun s h => ?_
      exact ⟨h.consistent.memory s.abi (some ⟨abi, op⟩) s.cache, h.record, h.marker, h.present⟩
  refine Triple.step (M := Recorded op r)
    (hcovered fun _ h hpending => h.consistent.intact hpending) (fun s h => ?_) ?_
  · exact ⟨h.consistent.memory s.abi s.abiCache (some r), h.record, h.marker, h.present⟩
  · exact Triple.perform (hcovered fun _ h hother => h.intact hother)
      fun _ h => ⟨h.consistent.deleteMarker fun x hx _ => h.present x hx, rfl⟩

/-! ## The tasks -/

/-- The state while the task works on the transaction `x`, whose entry will have this count. -/
structure Underway (x : TxId) (historyCount : Nat) (now : JsString) (s : ProgramState) :
    Prop where
  intact : Intact s
  owns : Owns x s
  fresh : Fresh historyCount now s

/-- The state in which a task may start a transaction. -/
structure Ready (historyCount : Nat) (now : JsString) (s : ProgramState) : Prop where
  consistent : Consistent s
  pending : s.pending = none
  fresh : Fresh historyCount now s

section Tasks

variable {p : ProgramId} {env : Environment} {x : TxId} {c : Nat} {s : ProgramState}

theorem Ready.intact (h : Ready c env.now s) : Intact s := h.consistent.intact h.pending

theorem Ready.begin (h : Ready c env.now s) (m : PendingDeployment) :
    Underway s.sent c env.now ((Effect.writePendingMarker ⟨m, some s.sent⟩).apply s) := by
  refine ⟨⟨h.consistent.begin h.pending m, ?_⟩, ⟨_, rfl, rfl⟩, h.fresh⟩
  -- Nothing on disk is of a transaction that was not started.
  rintro _ ⟨_, ⟨rfl⟩, ⟨rfl⟩⟩
  refine ⟨?_, fun r hr hcomplete => ?_⟩
  · by_contra hne
    exact Nat.lt_irrefl _ (h.consistent.entries_lt s.sent hne)
  · exact Nat.lt_irrefl _ (h.consistent.record_lt r s.sent hr hcomplete.1)

namespace Underway

/-- The marker is no other transaction's. -/
theorem eq_of_owns (h : Underway x c env.now s) {y : TxId} (hy : Owns y s) : x = y := by
  obtain ⟨m, hm, hx⟩ := h.owns
  obtain ⟨m', hm', hy⟩ := hy
  rw [hm] at hm'
  obtain rfl := Option.some.inj hm'
  exact Option.some.inj (hx.symm.trans hy)

theorem rewrite (h : Underway x c env.now s) (m : PendingDeployment) :
    Underway x c env.now ((Effect.writePendingMarker ⟨m, some x⟩).apply s) := by
  refine ⟨⟨h.intact.consistent.rewrite h.owns m, ?_⟩, ⟨_, rfl, rfl⟩, h.fresh⟩
  rintro _ ⟨_, ⟨rfl⟩, ⟨rfl⟩⟩
  exact h.intact.unrecorded x h.owns

theorem broadcast (h : Underway x c env.now s) (action : Action) :
    Underway x c env.now ((Effect.broadcastTransaction x action).apply s) :=
  ⟨⟨h.intact.consistent.broadcast h.owns action, h.intact.unrecorded⟩, h.owns, h.fresh⟩

theorem chain (h : Underway x c env.now s) (ev : ChainEvent) :
    Underway x c env.now ((Effect.chain ev).apply s) :=
  ⟨⟨h.intact.consistent.chain ev, h.intact.unrecorded⟩, h.owns, h.fresh⟩

/-- The task may record its transaction as complete. -/
theorem writable (h : Underway x c env.now s) {r : DeploymentRecord} (hstatus : r.status = .complete)
    (htx : r.txId = some x) (hcount : r.historyCount = c) : Writable (some x) r env.now s := by
  have hlt : x < s.sent := h.intact.consistent.lt_of_owns h.owns
  refine ⟨h.intact, ?_, hcount ▸ h.fresh, ?_, fun y hy => congrArg some (h.eq_of_owns hy)⟩
  · unfold Justified
    rw [hstatus]
    exact ⟨x, rfl, htx, hlt⟩
  · rintro _ ⟨rfl⟩
    exact ⟨(h.intact.unrecorded x h.owns).1, hlt⟩

end Underway

theorem buildAndBroadcast_spec {action : Action} :
    Triple Interruptible (Underway x c env.now) (buildAndBroadcast env x action)
      (fun _ => Underway x c env.now) Intact Intact := by
  unfold buildAndBroadcast
  cases env.buildError with
  | some message => exact Triple.fail fun _ h => h.intact
  | none => exact Triple.perform (fun _ h _ => h.intact) fun _ h => h.broadcast action

/-- A transaction that is not accepted has not landed and will not. -/
theorem waitForConfirmation_spec :
    Triple Interruptible (Underway x c env.now) (waitForConfirmation env x)
      (fun accepted s => Underway x c env.now s ∧ (accepted = false → ¬Landed x s.chain))
      Intact Intact := by
  unfold waitForConfirmation
  cases env.confirmationError with
  | some message => exact Triple.fail fun _ h => h.intact
  | none =>
    refine Triple.step
      (M := fun s => Underway x c env.now s ∧ (x ∉ s.chain.executed → ¬Landed x s.chain))
      (fun _ h _ => h.intact) (fun s h => ⟨h.chain _, fun hx hl => hx hl.of_execute⟩) ?_
    refine Triple.read fun s h => Triple.pure ?_
    rintro s rfl
    exact ⟨h.1, fun haccepted => h.2 (of_decide_eq_false haccepted)⟩

theorem confirmDeploy_spec :
    Triple Interruptible (Underway x c env.now) (confirmDeploy env x)
      (fun _ => Underway x c env.now) Intact Intact := by
  refine Triple.ite (fun _ => ?_) (fun _ => Triple.pure fun _ h => h)
  refine Triple.bind waitForConfirmation_spec fun accepted => ?_
  exact Triple.ite (fun _ => Triple.pure fun _ h => h.1)
    (fun _ => Triple.fail fun _ h => h.1.intact)

/-- After `record()` no marker is left. -/
theorem record_keeps {op : Option TxId} {r : DeploymentRecord} {action : Action}
    {abi : Option JsString} {P : ProgramState → Prop} (hP : ∀ s, P s → Writable op r env.now s) :
    Triple Interruptible P (record p env.now op r action abi) (fun _ => Intact) Intact Intact :=
  (record_spec covers_interruptible).weaken hP (fun _ _ h => h.1.intact h.2) (fun _ h => h)
    (fun _ h => h)

theorem deployProgram_spec :
    Triple Interruptible (Ready 1 env.now) (deployProgram p env) (fun _ => Intact) Intact Intact := by
  unfold deployProgram
  cases env.abi with
  | none => exact Triple.fail fun _ h => h.intact
  | some abi =>
    refine Triple.read fun s h => ?_
    refine Triple.step (M := Underway s.sent 1 env.now) ?_ ?_ ?_
    · rintro _ rfl -
      exact h.intact
    · rintro _ rfl
      exact h.begin _
    refine Triple.bind buildAndBroadcast_spec fun _ => ?_
    refine Triple.bind confirmDeploy_spec fun blockHeight => ?_
    exact record_keeps fun _ h => h.writable rfl rfl rfl

theorem readsCatchUp_spec :
    Triple Interruptible (Underway x c env.now) (readsCatchUp env)
      (fun _ => Underway x c env.now) Intact Intact :=
  Triple.ite (fun _ => Triple.perform (fun _ h _ => h.intact) fun _ h => h.chain _)
    (fun _ => Triple.pure fun _ h => h)

theorem waitForProgramEditionAdvance_spec {previous : Nat} :
    Triple Interruptible (Underway x c env.now) (waitForProgramEditionAdvance p env previous)
      (fun _ => Underway x c env.now) Intact Intact := by
  refine Triple.bind readsCatchUp_spec fun _ => Triple.read fun s h => ?_
  have htimeout : Triple Interruptible (· = s) (waitForProgramEditionAdvance.timedOut p previous)
      (fun _ => Underway x c env.now) Intact Intact :=
    Triple.fail (by rintro _ rfl; exact h.intact)
  cases getProgramEdition env s.chain with
  | none => exact htimeout
  | some edition =>
    exact Triple.ite (fun _ => Triple.pure (by rintro _ rfl; exact h)) (fun _ => htimeout)

theorem confirmUpgrade_spec {previous : Nat} :
    Triple Interruptible (Underway x c env.now) (confirmUpgrade p env x previous)
      (fun _ => Underway x c env.now) Intact Intact := by
  refine Triple.ite (fun _ => ?_) (fun _ => Triple.pure fun _ h => h)
  refine Triple.bind waitForConfirmation_spec fun accepted => ?_
  refine Triple.ite (fun _ => ?_) (fun hrejected => ?_)
  · refine Triple.step (fun _ h _ => h.1.intact) (fun _ h => h.1.rewrite _) ?_
    exact Triple.bind waitForProgramEditionAdvance_spec fun edition => Triple.pure fun _ h => h
  · refine Triple.step (M := Intact) (fun _ h _ => h.1.intact) (fun s h => ?_)
      (Triple.fail fun _ h => h)
    -- A rejected upgrade has not landed, so its marker may go.
    refine (h.1.intact.consistent.deleteMarker fun y hy hlanded => ?_).intact rfl
    obtain rfl := h.1.eq_of_owns hy
    exact absurd hlanded (h.2 (Bool.eq_false_of_not_eq_true hrejected))

theorem upgradeProgram_spec {existing : DeploymentRecord} {fallback : Option Nat} :
    Triple Interruptible (Ready (existing.historyCount + 1) env.now)
      (upgradeProgram p env existing fallback) (fun _ => Intact) Intact Intact := by
  unfold upgradeProgram
  cases env.abi with
  | none => exact Triple.fail fun _ h => h.intact
  | some abi =>
    refine Triple.read fun s h => ?_
    cases previousEdition env s.chain existing fallback with
    | none => exact Triple.fail (by rintro _ rfl; exact h.intact)
    | some previous =>
      refine Triple.step (M := Underway s.sent (existing.historyCount + 1) env.now) ?_ ?_ ?_
      · rintro _ rfl -
        exact h.intact
      · rintro _ rfl
        exact h.begin _
      refine Triple.bind buildAndBroadcast_spec fun _ => ?_
      refine Triple.step (fun _ h _ => h.intact) (fun _ h => h.rewrite _) ?_
      refine Triple.bind confirmUpgrade_spec fun heights => ?_
      exact record_keeps fun _ h => h.writable rfl rfl rfl

/-- **The condition of a deploy**: if the task deploys or adopts the program, no marker is left and
the history file is new; a program that is adopted had no complete record. -/
structure SoundDeploy (env : Environment) (s : ProgramState) : Prop where
  deployed : s.chain.visible = none → s.pending = none ∧ Fresh 1 env.now s
  adopted : Adopts env s → s.pending = none ∧ Fresh 0 env.now s ∧ s.lastComplete = none

/-- **The condition of an upgrade**: no marker is left, and the history file is new. -/
structure SoundUpgrade (env : Environment) (s : ProgramState) : Prop where
  pending : s.pending = none
  fresh : Fresh (s.knownCount + 1) env.now s

theorem reconcile_spec {edition : Option Nat} :
    Triple Interruptible (fun s => Ready 0 env.now s ∧ s.lastComplete = none)
      (reconcile p env edition) (fun _ => Intact) Intact Intact := by
  refine Triple.read fun s h => ?_
  cases observedEdition env s.chain edition with
  | none => exact Triple.fail (by rintro _ rfl; exact h.1.intact)
  | some e =>
    refine record_keeps ?_
    rintro s rfl
    exact ⟨h.1.intact, h.2, h.1.fresh, (fun x hx => nomatch hx),
      fun x howns => absurd howns (not_owns h.1.pending)⟩

/-- What the preflight leaves for the deployment. -/
structure Preflighted (env : Environment) (existing : Option DeploymentRecord) (s : ProgramState) :
    Prop where
  intact : Intact s
  deployed : s.chain.visible = none → s.pending = none ∧ Fresh 1 env.now s
  adopted : s.chain.visible ≠ none → env.skipDeployed = true → existing = none →
    s.pending = none ∧ Fresh 0 env.now s ∧ s.lastComplete = none

theorem preflightRecord_spec :
    Triple Interruptible (fun s => Intact s ∧ SoundDeploy env s) (preflightRecord p env)
      (Preflighted env) Intact Intact := by
  refine Triple.ite (fun hcache => ?_) (fun hcache => ?_)
  · refine Triple.read fun s h => Triple.pure ?_
    rintro s rfl
    refine ⟨h.1, h.2.deployed, fun hvisible hskip hnone => ?_⟩
    exact h.2.adopted ⟨hvisible, hskip, by rwa [if_pos hcache]⟩
  · refine Triple.known fun s h => (getDeployment_spec s).weaken (fun _ h => h) ?_ ?_ ?_
    · rintro existing _ ⟨hfound, rfl⟩
      refine ⟨⟨h.1.consistent.memory s.abi s.abiCache existing, h.1.unrecorded⟩, h.2.deployed,
        fun hvisible hskip hnone => ?_⟩
      subst hnone
      obtain ⟨hknown, hdev⟩ := hfound.resolve_left hvisible
      exact h.2.adopted ⟨hvisible, hskip, by rw [if_neg hcache]; exact ⟨hdev, hknown⟩⟩
    · rintro _ rfl
      exact h.1
    · rintro _ rfl
      exact h.1

theorem deployAction_spec :
    Triple Interruptible (fun s => Intact s ∧ SoundDeploy env s) (deployAction p env)
      (fun _ => Intact) Intact Intact := by
  refine Triple.bind preflightRecord_spec fun existing => Triple.read fun s h => ?_
  cases hvisible : s.chain.visible with
  | none =>
    have hnone : checkProgramOnChain env s.chain = none := by rw [checkProgramOnChain, hvisible]; rfl
    rw [hnone]
    obtain ⟨hpending, hfresh⟩ := h.deployed hvisible
    refine deployProgram_spec.weaken ?_ (fun _ _ h => h) (fun _ h => h) (fun _ h => h)
    rintro s rfl
    exact ⟨h.intact.consistent, hpending, hfresh⟩
  | some e =>
    have hsome : checkProgramOnChain env s.chain = some (if env.observed then some e else none) := by
      rw [checkProgramOnChain, hvisible]
      rfl
    rw [hsome]
    refine Triple.ite (fun hskip => Triple.ite (fun hexisting => ?_) (fun _ => ?_)) (fun _ => ?_)
    · refine reconcile_spec.weaken ?_ (fun _ _ h => h) (fun _ h => h) (fun _ h => h)
      rintro s rfl
      obtain ⟨hpending, hfresh, hlast⟩ := h.adopted (by rw [hvisible]; simp) hskip
        (Option.isNone_iff_eq_none.mp hexisting)
      exact ⟨⟨h.intact.consistent, hpending, hfresh⟩, hlast⟩
    · exact Triple.pure (by rintro _ rfl; exact h.intact)
    · exact Triple.fail (by rintro _ rfl; exact h.intact)

theorem upgradeAction_spec :
    Triple Interruptible (fun s => Intact s ∧ SoundUpgrade env s) (upgradeAction p env)
      (fun _ => Intact) Intact Intact := by
  refine Triple.known fun s₀ h => ?_
  have hready (cache : Option DeploymentRecord) :
      Ready (s₀.knownCount + 1) env.now { s₀ with cache := cache } :=
    ⟨h.1.consistent.memory s₀.abi s₀.abiCache cache, h.2.pending, h.2.fresh⟩
  refine Triple.bind ((getDeployment_spec s₀).weaken (fun _ h => h) (fun _ _ h => h) ?_ ?_) ?_
  · rintro _ rfl
    exact h.1
  · rintro _ rfl
    exact h.1
  intro existing
  cases existing with
  | some r =>
    refine upgradeProgram_spec.weaken ?_ (fun _ _ h => h) (fun _ h => h) (fun _ h => h)
    rintro _ ⟨hfound, rfl⟩
    rw [hfound.count]
    exact hready (some r)
  | none =>
    refine Triple.read ?_
    rintro s ⟨hfound, hs⟩
    have hc : Intact s := hs ▸ (hready none).intact
    cases honchain : checkProgramOnChain env s.chain with
    | none => exact Triple.fail (by rintro _ rfl; exact hc)
    | some edition =>
      dsimp only
      cases observedEdition env s.chain edition with
      | none => exact Triple.fail (by rintro _ rfl; exact hc)
      | some e =>
        refine upgradeProgram_spec.weaken ?_ (fun _ _ h => h) (fun _ h => h) (fun _ h => h)
        rintro _ rfl
        have hvisible : s₀.chain.visible ≠ none := by
          intro hnone
          rw [hs] at honchain
          simp [checkProgramOnChain, hnone] at honchain
        have hknown : s₀.known = none := (hfound.resolve_left hvisible).1
        have hcount : s₀.knownCount = 0 := by rw [ProgramState.knownCount, hknown]; rfl
        rw [hs]
        have := hready none
        rwa [hcount] at this

/-! ## Recovery -/

/-- **The condition of a recovery**: an operation that the reads show is that of the marker, as the
chain has executed its transaction; an operation that they do not show is not to come, as its
transaction is neither executed nor in flight; and the history file is new. -/
structure SoundRecovery (env : Environment) (s : ProgramState) : Prop where
  shown : ∀ m x, s.pending = some m → m.op = some x → Shows env m.value s.chain →
    x ∈ s.chain.executed
  hidden : ∀ m x, s.pending = some m → m.op = some x → Hides env m.value s.chain →
    ¬Landed x s.chain
  fresh : ∀ m, s.pending = some m → Shows env m.value s.chain → Fresh s.recoveredCount env.now s

theorem SoundRecovery.of_pending (h : s.pending = none) : SoundRecovery env s := by
  have hne (m : Stamped PendingDeployment) : s.pending ≠ some m := by simp [h]
  exact ⟨fun m _ hm => absurd hm (hne m), fun m _ hm => absurd hm (hne m),
    fun m hm => absurd hm (hne m)⟩

/-- The marker stays, since the reads have not caught up with the confirmed upgrade. -/
def Awaiting (s : ProgramState) : Prop := ∃ m, s.pending = some m ∧ Waits m.value s.chain

/-- No marker is left but one that waits for the reads of the chain. -/
def Settled (s : ProgramState) : Prop := s.pending = none ∨ Awaiting s

/-- The state after a recovery. -/
structure Recovered (env : Environment) (s : ProgramState) : Prop where
  intact : Intact s
  sound : SoundRecovery env s
  settled : Settled s

theorem recoverPending_spec {safe : Effect → ProgramState → Prop} {C : ProgramState → Prop}
    (hC : Covers safe C) :
    Triple safe (fun s => Intact s ∧ SoundRecovery env s) (recoverPending p env)
      (fun _ => Recovered env) Intact C := by
  refine Triple.read fun s h => ?_
  obtain ⟨hi, hsound⟩ := h
  have hdone (s : ProgramState) (hc : Consistent s) (hpending : s.pending = none) : Recovered env s :=
    ⟨hc.intact hpending, .of_pending hpending, Or.inl hpending⟩
  cases hm : s.pending with
  | none =>
    refine Triple.pure ?_
    rintro s rfl
    exact hdone s hi.consistent hm
  | some m =>
    dsimp only
    obtain ⟨x, hx, hlast⟩ := hi.consistent.marker m hm
    have howns : Owns x s := ⟨m, hm, hx⟩
    have hunique (y : TxId) (hy : Owns y s) : m.op = some y := by
      obtain ⟨m', hm', hy⟩ := hy
      rw [hm] at hm'
      rwa [Option.some.inj hm']
    rcases resolve_cases env m.value s.chain with
      ⟨edition, hres, hshows⟩ | ⟨hres, hhides⟩ | ⟨hres, hwaits⟩ | hres <;> rw [hres]
    · have hexecuted := hsound.shown m x hm hx hshows
      refine Triple.bind ((record_spec hC).weaken ?_ (fun _ _ h => h) (fun _ h => h) (fun _ h => h))
        fun _ => Triple.pure fun s h => hdone s h.1 h.2
      rintro s rfl
      refine ⟨hi, ⟨x, hexecuted, hx, howns⟩, hsound.fresh m hm hshows, ?_, hunique⟩
      intro y hy
      obtain rfl : x = y := Option.some.inj (hx.symm.trans hy)
      exact ⟨(hi.unrecorded x howns).1, hi.consistent.landed_lt x (Or.inl hexecuted)⟩
    · refine Triple.step (M := fun s => Consistent s ∧ s.pending = none) ?_ ?_
        (Triple.pure fun s h => hdone s h.1 h.2)
      · rintro _ rfl hsafe
        exact hC _ _ hsafe fun _ => hi
      · rintro s rfl
        refine ⟨hi.consistent.deleteMarker fun y hy hlanded => ?_, rfl⟩
        exact absurd hlanded (hsound.hidden m y hm (hunique y hy) hhides)
    · refine Triple.pure ?_
      rintro s rfl
      exact ⟨hi, hsound, Or.inr ⟨m, hm, hwaits⟩⟩
    · refine Triple.fail ?_
      rintro s rfl
      exact hi

end Tasks

/-! ## Runs -/

/-- The conditions under which recovery keeps provenance. -/
def sound : Conditions where
  safe := Interruptible
  deploy := SoundDeploy
  upgrade := SoundUpgrade
  recovery := SoundRecovery
  chain _ _ := True

theorem sound_keeps : Keeps sound Intact Intact where
  interrupted _ h := h
  forget s h := ⟨h.consistent.memory s.abi none none, h.unrecorded⟩
  deploy _ _ := deployAction_spec
  upgrade _ _ := upgradeAction_spec
  recovery _ _ := (recoverPending_spec covers_interruptible).weaken (fun _ h => h)
    (fun _ _ h => ⟨h.intact, h.sound⟩) (fun _ h => h) (fun _ h => h)
  chain ev _ h _ := ⟨h.consistent.chain ev, h.unrecorded⟩

/-- The process ends before it writes the record. -/
def crashBeforeRecord : Crash := fun k _ =>
  match k.2 with
  | .writeDeploymentRecord _ => true
  | _ => false

/-- The process ends before it deletes the marker. -/
def crashBeforeDelete : Crash := fun k _ =>
  match k.2 with
  | .deletePendingMarker => true
  | _ => false

/-- A confirmed deployment that is interrupted, and then visible on the chain. -/
def interrupted (crash : Crash) : List Event :=
  [.deploy token .smooth crash, .chain token .propagate]

theorem interrupted_pending {crash : Crash} {p : ProgramId}
    (h : (run World.new (interrupted crash) p).pending ≠ none) : p ∈ [token] := by
  by_contra hp
  rw [List.mem_singleton] at hp
  refine h ?_
  show (Function.update (Event.step World.new (.deploy token .smooth crash)) token _ p).pending =
    none
  rw [Function.update_of_ne hp]
  show (settle _ p).pending = none
  rw [settle_pending, Interrupt.Prog.within_other hp]
  rfl

theorem crashBeforeRecord_safe : sound.Safe crashBeforeRecord := by
  rintro ⟨p, k⟩ w hk
  cases k with
  | writeDeploymentRecord => exact trivial
  | _ => exact absurd hk Bool.false_ne_true

theorem interrupted_sound : AllSteps sound.Ok World.new (interrupted crashBeforeRecord) :=
  ⟨⟨crashBeforeRecord_safe, fun _ => ⟨rfl, List.not_mem_nil⟩, fun h => absurd rfl h.1⟩, trivial,
    trivial⟩

/-- The programs after an interrupted deployment and the recovery of its marker. -/
def afterRecovery (crash : Crash) : World :=
  run World.new (interrupted crash ++ [.recover [token] (fun _ => .smooth) neverCrash])

end Lionden.Deploy
