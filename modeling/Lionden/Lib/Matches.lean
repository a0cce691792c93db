import Mathlib.Data.List.Basic

/-!
# All matches of a pattern

A text is searched from the left. Where the pattern matches, the search goes on after the match.

* `matchAll`: what is found.
* `Uncovered`: a place that no match that begins before it covers.
* `mem_matchAll`: if a match that begins inside another one does not end after it, the search finds
  the matches that begin at uncovered places.
-/

namespace Lionden.Matches

variable {α β : Type} {pattern : List α → Option (β × Nat)}

/-- What is found in a text after `k` elements of it. A match is a value and a length. -/
def matchAll (pattern : List α → Option (β × Nat)) : Nat → List α → List β
  | _, [] => []
  | k + 1, _ :: s => matchAll pattern k s
  | 0, c :: s =>
    match pattern (c :: s) with
    | some (b, n) => b :: matchAll pattern (n - 1) s
    | none => matchAll pattern 0 s

theorem matchAll_drop (k : Nat) (s : List α) :
    matchAll pattern k s = matchAll pattern 0 (s.drop k) := by
  induction s generalizing k with
  | nil =>
    rw [List.drop_nil]
    cases k <;> rfl
  | cons c s ih =>
    cases k with
    | zero => rfl
    | succ k => exact ih k

theorem matchAll_none {c : α} {s : List α} (h : pattern (c :: s) = none) :
    matchAll pattern 0 (c :: s) = matchAll pattern 0 s := by
  rw [matchAll, h]

theorem matchAll_some {c : α} {s : List α} {b : β} {n : Nat} (h : pattern (c :: s) = some (b, n))
    (hn : 0 < n) :
    matchAll pattern 0 (c :: s) = b :: matchAll pattern 0 ((c :: s).drop n) := by
  rw [matchAll, h]
  dsimp only
  rw [matchAll_drop]
  obtain ⟨m, rfl⟩ := Nat.exists_eq_succ_of_ne_zero (Nat.pos_iff_ne_zero.mp hn)
  rfl

/-- No match that begins in `before` covers the beginning of `rest`. -/
def Uncovered (pattern : List α → Option (β × Nat)) (before rest : List α) : Prop :=
  ∀ x y b n, before = x ++ y → y ≠ [] → pattern (y ++ rest) = some (b, n) → n ≤ y.length

/-- A match that begins inside another one does not end after it. -/
def Nested (pattern : List α → Option (β × Nat)) : Prop :=
  ∀ x y b n b' n', pattern (x ++ y) = some (b, n) → x.length < n → pattern y = some (b', n') →
    x.length + n' ≤ n

theorem Uncovered.nil (rest : List α) : Uncovered pattern [] rest := by
  intro x y b n h hne _
  exact absurd (List.append_eq_nil_iff.mp h.symm).2 hne

theorem uncovered_cons {c : α} {before rest : List α} : Uncovered pattern (c :: before) rest ↔
    (∀ b n, pattern (c :: before ++ rest) = some (b, n) → n ≤ (c :: before).length) ∧
      Uncovered pattern before rest := by
  constructor
  · intro h
    refine ⟨fun b n => h [] (c :: before) b n rfl (by simp), fun x y b n hxy => ?_⟩
    exact h (c :: x) y b n (by rw [hxy]; rfl)
  · rintro ⟨hfirst, hrest⟩ x y b n hxy hne hmatch
    cases x with
    | nil =>
      obtain rfl : c :: before = y := hxy
      exact hfirst b n hmatch
    | cons d x => exact hrest x y b n (List.cons.inj hxy).2 hne hmatch

/-- **What the search finds.** -/
theorem mem_matchAll (hpos : ∀ s b n, pattern s = some (b, n) → 0 < n) (hnested : Nested pattern)
    {s : List α} {b : β} : b ∈ matchAll pattern 0 s ↔ ∃ before rest n, s = before ++ rest ∧
      rest ≠ [] ∧ pattern rest = some (b, n) ∧ Uncovered pattern before rest := by
  induction hs : s.length using Nat.strongRecOn generalizing s with
  | _ length ih =>
  subst hs
  cases s with
  | nil =>
    refine iff_of_false List.not_mem_nil ?_
    rintro ⟨before, rest, n, hsplit, hne, -⟩
    exact hne (List.append_eq_nil_iff.mp hsplit.symm).2
  | cons c s =>
    cases hfirst : pattern (c :: s) with
    | none =>
      rw [matchAll_none hfirst, ih s.length (Nat.lt_succ_self _) rfl]
      constructor
      · rintro ⟨before, rest, n, rfl, hne, hmatch, huncovered⟩
        refine ⟨c :: before, rest, n, rfl, hne, hmatch, uncovered_cons.mpr ⟨?_, huncovered⟩⟩
        intro b' n' h
        rw [List.cons_append, hfirst] at h
        cases h
      · rintro ⟨before, rest, n, hsplit, hne, hmatch, huncovered⟩
        cases before with
        | nil =>
          rw [List.nil_append] at hsplit
          rw [← hsplit, hfirst] at hmatch
          cases hmatch
        | cons d before =>
          obtain ⟨rfl, rfl⟩ := List.cons.inj hsplit
          exact ⟨before, rest, n, rfl, hne, hmatch, (uncovered_cons.mp huncovered).2⟩
    | some found =>
      obtain ⟨b₀, n₀⟩ := found
      have hn₀ := hpos _ _ _ hfirst
      have hshorter : ((c :: s).drop n₀).length < (c :: s).length := by
        rw [List.length_drop]
        have hlength : 0 < (c :: s).length := Nat.succ_pos _
        omega
      rw [matchAll_some hfirst hn₀, List.mem_cons, ih _ hshorter rfl]
      constructor
      · rintro (rfl | ⟨before, rest, n, hsplit, hne, hmatch, huncovered⟩)
        · exact ⟨[], c :: s, n₀, rfl, by simp, hfirst, .nil _⟩
        · have hall : c :: s = (c :: s).take n₀ ++ before ++ rest := by
            rw [List.append_assoc, ← hsplit, List.take_append_drop]
          refine ⟨(c :: s).take n₀ ++ before, rest, n, hall, hne, hmatch, fun x y b' n' hxy hy h => ?_⟩
          have hcovered : n₀ ≤ (c :: s).length := by
            by_contra hlong
            rw [List.drop_of_length_le (by omega)] at hsplit
            exact hne (List.append_eq_nil_iff.mp hsplit.symm).2
          have htake : ((c :: s).take n₀).length = n₀ := by
            rw [List.length_take, Nat.min_eq_left hcovered]
          rcases List.append_eq_append_iff.mp hxy with ⟨z, rfl, rfl⟩ | ⟨z, hz, rfl⟩
          · exact huncovered z y b' n' rfl hy h
          · by_cases hinside : x.length < n₀
            · have hwhole : pattern (x ++ (z ++ before ++ rest)) = some (b₀, n₀) := by
                rw [← hfirst, hall, hz]
                simp
              have hend := hnested x (z ++ before ++ rest) b₀ n₀ b' n' hwhole hinside h
              have hlength := congrArg List.length hz
              rw [htake, List.length_append] at hlength
              rw [List.length_append]
              omega
            · have hlength := congrArg List.length hz
              rw [htake, List.length_append] at hlength
              obtain rfl : z = [] := List.length_eq_zero_iff.mp (by omega)
              exact huncovered [] before b' n' rfl hy h
      · rintro ⟨before, rest, n, hsplit, hne, hmatch, huncovered⟩
        cases before with
        | nil =>
          rw [List.nil_append] at hsplit
          rw [← hsplit, hfirst] at hmatch
          exact .inl (Prod.mk.inj (Option.some.inj hmatch)).1.symm
        | cons d before =>
          have hbefore : n₀ ≤ (d :: before).length :=
            huncovered [] _ b₀ n₀ rfl (by simp) (hsplit ▸ hfirst)
          refine .inr ⟨(d :: before).drop n₀, rest, n, ?_, hne, hmatch, fun x y b' n' hxy => ?_⟩
          · rw [hsplit, List.drop_append_of_le_length hbefore]
          · refine huncovered ((d :: before).take n₀ ++ x) y b' n' ?_
            rw [List.append_assoc, ← hxy, List.take_append_drop]

end Lionden.Matches
