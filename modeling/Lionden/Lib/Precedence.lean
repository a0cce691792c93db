import Mathlib.Data.List.Infix

/-!
# Lists in an order of need

* `Behind`: every element comes after those that it needs, apart from those that are already there.
* `Behind.filter`, `Behind.map`, `Behind.of_isPrefix`: what is left of the order in a part of the list.
-/

namespace Lionden.Precedence

variable {α β : Type} {R : α → α → Prop} {there : α → Prop} {l : List α}

/-- Every element comes after those that it needs, apart from those that are there. -/
def Behind (R : α → α → Prop) (there : α → Prop) (l : List α) : Prop :=
  ∀ earlier x later, l = earlier ++ x :: later → ∀ y, R x y → there y ∨ y ∈ earlier

theorem Behind.weaken {there' : α → Prop} (h : Behind R there l)
    (hthere : ∀ x ∈ l, ∀ y, R x y → there y → there' y) : Behind R there' l := by
  intro earlier x later heq y hxy
  exact (h earlier x later heq y hxy).imp_left (hthere x (by simp [heq]) y hxy)

theorem Behind.of_isPrefix {l' : List α} (h : Behind R there l) (hl : l' <+: l) :
    Behind R there l' := by
  obtain ⟨rest, rfl⟩ := hl
  intro earlier x later heq
  exact h earlier x (later ++ rest) (by simp [heq])

/-- Where a list is split that was filtered. -/
theorem filter_split {p : α → Bool} {earlier later : List α} {x : α}
    (h : l.filter p = earlier ++ x :: later) :
    ∃ before after, l = before ++ x :: after ∧ before.filter p = earlier := by
  obtain ⟨before, rest, rfl, hbefore, hrest⟩ := List.filter_eq_append_iff.mp h
  obtain ⟨gap, after, rfl, hgap, -, -⟩ := List.filter_eq_cons_iff.mp hrest
  refine ⟨before ++ gap, after, by simp, ?_⟩
  rw [List.filter_append, hbefore, List.filter_eq_nil_iff.mpr hgap, List.append_nil]

/-- Elements that are taken out have to be there. -/
theorem Behind.filter (h : Behind R there l) (p : α → Bool) :
    Behind R (fun y => there y ∨ y ∈ l ∧ p y = false) (l.filter p) := by
  intro earlier x later heq y hxy
  obtain ⟨before, after, rfl, hbefore⟩ := filter_split heq
  rcases h before x after rfl y hxy with hthere | hy
  · exact .inl (.inl hthere)
  cases hp : p y with
  | false => exact .inl (.inr ⟨List.mem_append_left _ hy, hp⟩)
  | true =>
    right
    rw [← hbefore]
    exact List.mem_filter.mpr ⟨hy, hp⟩

/-- Elements under other names, of which those that are needed keep theirs. -/
theorem Behind.map {f : α → β} {S : β → β → Prop} {there' : β → Prop} (h : Behind R there l)
    (hf : ∀ x ∈ l, ∀ z, S (f x) z → there' z ∨ ∃ y, f y = z ∧ R x y ∧ ¬there y) :
    Behind S there' (l.map f) := by
  intro earlier z later heq w hzw
  obtain ⟨before, rest, rfl, rfl, hrest⟩ := List.map_eq_append_iff.mp heq
  obtain ⟨x, after, rfl, rfl, rfl⟩ := List.map_eq_cons_iff.mp hrest
  rcases hf x (by simp) w hzw with hw | ⟨y, rfl, hxy, hy⟩
  · exact .inl hw
  · exact .inr (List.mem_map_of_mem ((h before x after rfl y hxy).resolve_left hy))

end Lionden.Precedence
