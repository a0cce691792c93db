import Mathlib.Data.Finset.Card
import Mathlib.Data.List.Basic

/-!
# Names that are not taken

A generator of names tries its candidates in turn and takes the first that is not reserved. Of
infinitely many candidates one is free, at the latest after as many as there are reserved names.

* `fresh`, `fresh_spec`: the first candidate that is not reserved.
* `claims`, `claims_nodup`, `claims_notMem`: names for items in turn, each reserved for the next.
-/

namespace Lionden

variable {α β : Type} [DecidableEq α]

/-- The first candidate that is not reserved. -/
def fresh (candidates : ℕ → α) (reserved : List α) : α :=
  candidates <|
    ((List.range (reserved.length + 1)).find? fun k => candidates k ∉ reserved).getD 0

/-- More candidates than reserved names: one is free. -/
theorem exists_notMem_of_injective {candidates : ℕ → α} (hinj : candidates.Injective)
    (reserved : List α) : ∃ k ∈ List.range (reserved.length + 1), candidates k ∉ reserved := by
  have hcard : reserved.toFinset.card < ((Finset.range (reserved.length + 1)).image candidates).card := by
    rw [Finset.card_image_of_injective _ hinj, Finset.card_range]
    exact Nat.lt_succ_of_le reserved.toFinset_card_le
  obtain ⟨name, hname, hfree⟩ := Finset.exists_mem_notMem_of_card_lt_card hcard
  obtain ⟨k, hk, rfl⟩ := Finset.mem_image.mp hname
  exact ⟨k, List.mem_range.mpr (Finset.mem_range.mp hk), fun h => hfree (List.mem_toFinset.mpr h)⟩

/-- The search ends at the first free candidate: those before it are reserved. -/
theorem fresh_spec {candidates : ℕ → α} (hinj : candidates.Injective) (reserved : List α) :
    ∃ k, fresh candidates reserved = candidates k ∧ candidates k ∉ reserved ∧
      ∀ j < k, candidates j ∈ reserved := by
  obtain ⟨k, hk⟩ : ∃ k, (List.range (reserved.length + 1)).find?
      (fun k => candidates k ∉ reserved) = some k := by
    obtain ⟨k, hmem, hfree⟩ := exists_notMem_of_injective hinj reserved
    exact Option.isSome_iff_exists.mp (List.find?_isSome.mpr ⟨k, hmem, by simpa using hfree⟩)
  obtain ⟨hfree, -, hbelow⟩ := List.find?_range_eq_some.mp hk
  refine ⟨k, by rw [fresh, hk, Option.getD_some], of_decide_eq_true hfree, fun j hj => ?_⟩
  simpa using hbelow j hj

theorem fresh_notMem {candidates : ℕ → α} (hinj : candidates.Injective) (reserved : List α) :
    fresh candidates reserved ∉ reserved := by
  obtain ⟨k, heq, hfree, -⟩ := fresh_spec hinj reserved
  rwa [heq]

theorem fresh_candidate (candidates : ℕ → α) (reserved : List α) :
    ∃ k, fresh candidates reserved = candidates k := ⟨_, rfl⟩

/-! ## Names for items in turn -/

/-- A name for each item in turn. `extra` is what is reserved for an item alone. -/
def claims (candidates : β → ℕ → α) (extra : β → List α) : List α → List β → List (β × α)
  | _, [] => []
  | reserved, item :: items =>
    let name := fresh (candidates item) (reserved ++ extra item)
    (item, name) :: claims candidates extra (name :: reserved) items

variable {candidates : β → ℕ → α} {extra : β → List α}

theorem map_fst_claims (reserved : List α) (items : List β) :
    (claims candidates extra reserved items).map Prod.fst = items := by
  induction items generalizing reserved with
  | nil => rfl
  | cons item items ih => exact congrArg (item :: ·) (ih _)

theorem claims_candidate {reserved : List α} {items : List β} {claim : β × α}
    (h : claim ∈ claims candidates extra reserved items) :
    ∃ k, claim.2 = candidates claim.1 k := by
  induction items generalizing reserved with
  | nil => cases h
  | cons item items ih =>
    obtain rfl | h := List.mem_cons.mp h
    · exact fresh_candidate _ _
    · exact ih h

variable (hinj : ∀ item, (candidates item).Injective)
include hinj

theorem claims_notMem {reserved : List α} {items : List β} {claim : β × α}
    (h : claim ∈ claims candidates extra reserved items) :
    claim.2 ∉ reserved ∧ claim.2 ∉ extra claim.1 := by
  induction items generalizing reserved with
  | nil => cases h
  | cons item items ih =>
    obtain rfl | h := List.mem_cons.mp h
    · have hfree := fresh_notMem (hinj item) (reserved ++ extra item)
      exact ⟨fun hmem => hfree (List.mem_append_left _ hmem),
        fun hmem => hfree (List.mem_append_right _ hmem)⟩
    · obtain ⟨hreserved, hextra⟩ := ih h
      exact ⟨fun hmem => hreserved (List.mem_cons_of_mem _ hmem), hextra⟩

/-- No two items get one name. -/
theorem claims_nodup (reserved : List α) (items : List β) :
    ((claims candidates extra reserved items).map Prod.snd).Nodup := by
  induction items generalizing reserved with
  | nil => exact List.nodup_nil
  | cons item items ih =>
    refine List.nodup_cons.mpr ⟨fun hmem => ?_, ih _⟩
    obtain ⟨claim, hclaim, heq⟩ := List.mem_map.mp hmem
    refine (claims_notMem hinj hclaim).1 ?_
    rw [heq]
    exact List.mem_cons_self

end Lionden
