import Mathlib.Data.List.Induction
import Mathlib.Data.List.Nodup

/-!
# Maps in insertion order

A map that lists its entries in the order in which their keys were first set; setting a key again
changes its value in place.

* `InsertionMap`, `set`, `get?`, `ofList`.
* `mem_keys_ofList`, `get?_ofList`, `mem_of_get?_ofList`: what a map made of a list of entries holds.
-/

namespace Lionden

variable {κ ν : Type}

/-- A map in insertion order. -/
structure InsertionMap (κ ν : Type) where
  entries : List (κ × ν)
  distinct : (entries.map Prod.fst).Nodup

namespace InsertionMap

def empty : InsertionMap κ ν := ⟨[], List.nodup_nil⟩

def keys (m : InsertionMap κ ν) : List κ := m.entries.map Prod.fst

def values (m : InsertionMap κ ν) : List ν := m.entries.map Prod.snd

variable [DecidableEq κ]

def get? (m : InsertionMap κ ν) (k : κ) : Option ν := m.entries.lookup k

/-- The entries with `k` set to `v`: in its place, or last. -/
def setEntry (k : κ) (v : ν) : List (κ × ν) → List (κ × ν)
  | [] => [(k, v)]
  | e :: es => if e.1 = k then (k, v) :: es else e :: setEntry k v es

theorem mem_map_setEntry {k k' : κ} {v : ν} {es : List (κ × ν)} :
    k' ∈ (setEntry k v es).map Prod.fst ↔ k' = k ∨ k' ∈ es.map Prod.fst := by
  induction es with
  | nil => simp [setEntry]
  | cons e es ih =>
    rw [setEntry]
    split
    · next h => simp [h]
    · rw [List.map_cons, List.mem_cons, ih, List.map_cons, List.mem_cons]
      tauto

theorem nodup_setEntry {k : κ} {v : ν} {es : List (κ × ν)} (h : (es.map Prod.fst).Nodup) :
    ((setEntry k v es).map Prod.fst).Nodup := by
  induction es with
  | nil => exact List.nodup_singleton k
  | cons e es ih =>
    obtain ⟨hnot, htail⟩ := List.nodup_cons.mp h
    rw [setEntry]
    split
    · next heq => exact heq ▸ h
    · next hne =>
      refine List.nodup_cons.mpr ⟨fun hmem => ?_, ih htail⟩
      obtain heq | hmem := mem_map_setEntry.mp hmem
      · exact hne heq
      · exact hnot hmem

theorem lookup_cons_ite (k : κ) (e : κ × ν) (es : List (κ × ν)) :
    (e :: es).lookup k = if k = e.1 then some e.2 else es.lookup k := by
  rw [List.lookup_cons]
  by_cases hk : k = e.1
  · rw [if_pos hk, beq_iff_eq.mpr hk]
  · rw [if_neg hk, beq_eq_false_iff_ne.mpr hk]

theorem lookup_setEntry (k k' : κ) (v : ν) (es : List (κ × ν)) :
    (setEntry k v es).lookup k' = if k' = k then some v else es.lookup k' := by
  induction es with
  | nil => exact lookup_cons_ite k' (k, v) []
  | cons e es ih =>
    rw [setEntry]
    by_cases heq : e.1 = k
    · rw [if_pos heq, lookup_cons_ite, lookup_cons_ite, heq]
      by_cases hk : k' = k <;> simp [hk]
    · rw [if_neg heq, lookup_cons_ite, lookup_cons_ite, ih]
      by_cases hk : k' = e.1
      · rw [if_pos hk, if_pos hk, if_neg (hk ▸ heq)]
      · rw [if_neg hk, if_neg hk]

def set (m : InsertionMap κ ν) (k : κ) (v : ν) : InsertionMap κ ν :=
  ⟨setEntry k v m.entries, nodup_setEntry m.distinct⟩

@[simp] theorem get?_empty (k : κ) : (empty : InsertionMap κ ν).get? k = none := rfl

@[simp] theorem get?_set (m : InsertionMap κ ν) (k k' : κ) (v : ν) :
    (m.set k v).get? k' = if k' = k then some v else m.get? k' :=
  lookup_setEntry k k' v m.entries

theorem get?_eq_some_iff {m : InsertionMap κ ν} {k : κ} {v : ν} :
    m.get? k = some v ↔ (k, v) ∈ m.entries := by
  obtain ⟨es, hdistinct⟩ := m
  change es.lookup k = some v ↔ (k, v) ∈ es
  induction es with
  | nil => simp
  | cons e es ih =>
    obtain ⟨key, value⟩ := e
    obtain ⟨hnot, htail⟩ := List.nodup_cons.mp hdistinct
    rw [lookup_cons_ite, List.mem_cons, Prod.mk.injEq]
    by_cases hk : k = key
    · subst hk
      have hmem : (k, v) ∉ es := fun h => hnot (List.mem_map.mpr ⟨_, h, rfl⟩)
      simp [hmem, eq_comm]
    · simp [hk, ih htail]

theorem mem_keys {m : InsertionMap κ ν} {k : κ} : k ∈ m.keys ↔ ∃ v, m.get? k = some v := by
  simp only [get?_eq_some_iff]
  exact List.mem_map.trans ⟨fun ⟨e, he, heq⟩ => ⟨e.2, heq ▸ he⟩, fun ⟨v, h⟩ => ⟨(k, v), h, rfl⟩⟩

theorem entries_set {m : InsertionMap κ ν} {k : κ} (h : k ∉ m.keys) (v : ν) :
    (m.set k v).entries = m.entries ++ [(k, v)] := by
  obtain ⟨es, hdistinct⟩ := m
  change setEntry k v es = es ++ [(k, v)]
  replace h : k ∉ es.map Prod.fst := h
  clear hdistinct
  induction es with
  | nil => rfl
  | cons e es ih =>
    obtain ⟨hne, htail⟩ := List.ne_and_not_mem_of_not_mem_cons h
    rw [setEntry, if_neg (Ne.symm hne), ih htail]
    rfl

theorem keys_set {m : InsertionMap κ ν} {k : κ} (h : k ∉ m.keys) (v : ν) :
    (m.set k v).keys = m.keys ++ [k] := by
  rw [keys, entries_set h, List.map_append]
  rfl

theorem mem_values {m : InsertionMap κ ν} {v : ν} : v ∈ m.values ↔ ∃ k, m.get? k = some v := by
  simp only [get?_eq_some_iff]
  exact List.mem_map.trans ⟨fun ⟨e, he, heq⟩ => ⟨e.1, heq ▸ he⟩, fun ⟨k, h⟩ => ⟨(k, v), h, rfl⟩⟩

/-- One entry only. -/
theorem entries_eq_singleton {m : InsertionMap κ ν} {k : κ} {v : ν} :
    m.entries = [(k, v)] ↔ m.get? k = some v ∧ ∀ k' ∈ m.keys, k' = k := by
  rw [get?_eq_some_iff]
  obtain ⟨es, hdistinct⟩ := m
  change es = [(k, v)] ↔ (k, v) ∈ es ∧ ∀ k' ∈ es.map Prod.fst, k' = k
  constructor
  · rintro rfl
    exact ⟨List.mem_singleton_self _, fun k' h => List.mem_singleton.mp h⟩
  · rintro ⟨hmem, hall⟩
    match es with
    | [] => cases hmem
    | [e] => rw [List.mem_singleton.mp hmem]
    | e :: e' :: es =>
      have he := hall e.1 List.mem_cons_self
      have he' := hall e'.1 (List.mem_cons_of_mem _ List.mem_cons_self)
      have hne := (List.nodup_cons.mp hdistinct).1
      exact absurd (List.mem_cons_self) (he'.symm ▸ he ▸ hne)

/-- The map that setting the entries of a list in turn makes. -/
def ofList (es : List (κ × ν)) : InsertionMap κ ν := es.foldl (fun m e => m.set e.1 e.2) empty

/-- Of the entries of one key the last counts. -/
theorem get?_ofList (es : List (κ × ν)) (k : κ) : (ofList es).get? k = es.reverse.lookup k := by
  induction es using List.reverseRecOn with
  | nil => rfl
  | append_singleton es e ih =>
    rw [ofList, List.foldl_append, List.foldl_cons, List.foldl_nil, get?_set, List.reverse_append,
      List.reverse_singleton, List.singleton_append, lookup_cons_ite]
    exact congrArg (fun rest => if k = e.1 then some e.2 else rest) ih

theorem mem_of_get?_ofList {es : List (κ × ν)} {k : κ} {v : ν}
    (h : (ofList es).get? k = some v) : (k, v) ∈ es := by
  rw [get?_ofList] at h
  obtain ⟨before, after, heq, -⟩ := List.lookup_eq_some_iff.mp h
  have hmem : (k, v) ∈ es.reverse := by simp [heq]
  exact List.mem_reverse.mp hmem

theorem exists_get?_ofList {es : List (κ × ν)} {e : κ × ν} (h : e ∈ es) :
    ∃ v, (ofList es).get? e.1 = some v := by
  refine Option.isSome_iff_exists.mp ?_
  rw [get?_ofList, List.lookup_isSome_iff]
  exact ⟨e, List.mem_reverse.mpr h, beq_self_eq_true e.1⟩

theorem get?_ofList_of_mem {es : List (κ × ν)} (hkeys : (es.map Prod.fst).Nodup) {k : κ} {v : ν}
    (h : (k, v) ∈ es) : (ofList es).get? k = some v := by
  obtain ⟨v', hv'⟩ := exists_get?_ofList h
  have heq := List.inj_on_of_nodup_map hkeys h (mem_of_get?_ofList hv') rfl
  cases heq
  exact hv'

/-- A map made of a list of elements with distinct keys has the value of each. -/
theorem get?_ofList_map {γ : Type} {key : γ → κ} {value : γ → ν} {cs : List γ}
    (hkeys : (cs.map key).Nodup) {c : γ} (hc : c ∈ cs) :
    (ofList (cs.map fun c => (key c, value c))).get? (key c) = some (value c) := by
  refine get?_ofList_of_mem ?_ (List.mem_map.mpr ⟨c, hc, rfl⟩)
  rw [List.map_map]
  exact hkeys

theorem entries_foldl_set {es : List (κ × ν)} {m : InsertionMap κ ν}
    (h : ((m.entries ++ es).map Prod.fst).Nodup) :
    (es.foldl (fun m e => m.set e.1 e.2) m).entries = m.entries ++ es := by
  induction es generalizing m with
  | nil => exact (List.append_nil _).symm
  | cons e es ih =>
    have hnew : e.1 ∉ m.keys := by
      rw [List.map_append, List.map_cons, List.nodup_append] at h
      exact fun hmem => h.2.2 e.1 hmem e.1 List.mem_cons_self rfl
    have hset := entries_set hnew e.2
    rw [List.foldl_cons, ih, hset, List.append_assoc, List.singleton_append]
    rw [hset, List.append_assoc]
    exact h

omit [DecidableEq κ] in
theorem eq_of_entries {m m' : InsertionMap κ ν} (h : m.entries = m'.entries) : m = m' := by
  cases m
  cases h
  rfl

/-- A map is made of its own entries. -/
theorem ofList_entries (m : InsertionMap κ ν) : ofList m.entries = m := by
  refine eq_of_entries ?_
  have h : (ofList m.entries).entries = empty.entries ++ m.entries :=
    entries_foldl_set (by simpa [empty] using m.distinct)
  rw [h]
  rfl

end InsertionMap

end Lionden
