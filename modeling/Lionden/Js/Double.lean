import Mathlib.Algebra.Order.Field.Power
import Mathlib.Tactic.FieldSimp
import Mathlib.Tactic.Ring
import Lionden.Js.Number

/-!
# Doubles

`toDouble` rounds to the numbers that a double holds, and leaves these as they are.

* `IsDouble`: 53 significant binary digits, exponents from -1074 on, below 2^1024.
* `isDouble_toDouble`, `toDouble_isDouble`: what it rounds to is a double; a double is kept.
* `isDouble_Number`: so what `Number` reads is one, up to its sign.
-/

namespace Lionden

/-- A double that is not negative. -/
def IsDouble (q : ℚ) : Prop :=
  q < 2 ^ (1024 : ℕ) ∧ ∃ (m : Nat) (e : Int), m < 2 ^ 53 ∧ -1074 ≤ e ∧ q = m * 2 ^ e

theorem isDouble_zero : IsDouble 0 := ⟨by positivity, 0, 0, by decide, by decide, by simp⟩

theorem IsDouble.nonneg {q : ℚ} (h : IsDouble q) : 0 ≤ q := by
  obtain ⟨-, m, e, -, -, rfl⟩ := h
  positivity

/-! ## Rounding to an integer -/

theorem roundHalfEven_mul (m : Nat) {b : Nat} (hb : 0 < b) : roundHalfEven (m * b) b = m := by
  simp only [roundHalfEven, Nat.mul_div_cancel m hb, Nat.mul_mod_left, Nat.mul_zero, if_pos hb]

theorem roundHalfEven_le {a b m : Nat} (hb : 0 < b) (h : a ≤ m * b) : roundHalfEven a b ≤ m := by
  have hq : a / b ≤ m := Nat.div_le_of_le_mul (by rwa [Nat.mul_comm])
  by_cases heq : a / b = m
  · have hr : a % b = 0 := by
      have hdiv := Nat.div_add_mod a b
      rw [heq, Nat.mul_comm b m] at hdiv
      omega
    simp only [roundHalfEven, hr, Nat.mul_zero, if_pos hb]
    exact hq
  · have hlt : a / b + 1 ≤ m := by omega
    simp only [roundHalfEven]
    split_ifs <;> omega

/-! ## The leading exponent -/

theorem leadingExponent_spec {a b : Nat} (ha : a ≠ 0) (hb : b ≠ 0) :
    (2 : ℚ) ^ leadingExponent a b ≤ (a : ℚ) / b ∧
      (a : ℚ) / b < (2 : ℚ) ^ (leadingExponent a b + 1) := by
  have hb0 : (0 : ℚ) < b := by exact_mod_cast Nat.pos_of_ne_zero hb
  have halo : (2 : ℚ) ^ (a.log2 : Int) ≤ a := by
    rw [zpow_natCast]
    exact_mod_cast Nat.log2_self_le ha
  have hahi : (a : ℚ) < 2 ^ ((a.log2 : Int) + 1) := by
    rw [← Nat.cast_succ, zpow_natCast]
    exact_mod_cast Nat.lt_log2_self
  have hblo : (2 : ℚ) ^ (b.log2 : Int) ≤ b := by
    rw [zpow_natCast]
    exact_mod_cast Nat.log2_self_le hb
  have hbhi : (b : ℚ) < 2 ^ ((b.log2 : Int) + 1) := by
    rw [← Nat.cast_succ, zpow_natCast]
    exact_mod_cast Nat.lt_log2_self
  have hpow (i j : Int) : (2 : ℚ) ^ i * 2 ^ j = 2 ^ (i + j) := (zpow_add₀ two_ne_zero i j).symm
  unfold leadingExponent
  dsimp only
  split_ifs with hle
  · refine ⟨hle, ?_⟩
    rw [div_lt_iff₀ hb0]
    calc (a : ℚ) < 2 ^ ((a.log2 : Int) + 1) := hahi
      _ = 2 ^ ((a.log2 : Int) - b.log2 + 1) * 2 ^ (b.log2 : Int) := by
        rw [hpow]
        congr 1
        omega
      _ ≤ 2 ^ ((a.log2 : Int) - b.log2 + 1) * b := by gcongr
  · rw [sub_add_cancel]
    refine ⟨?_, not_le.mp hle⟩
    rw [le_div_iff₀ hb0]
    calc (2 : ℚ) ^ ((a.log2 : Int) - b.log2 - 1) * b
        ≤ 2 ^ ((a.log2 : Int) - b.log2 - 1) * 2 ^ ((b.log2 : Int) + 1) := by gcongr
      _ = 2 ^ (a.log2 : Int) := by
        rw [hpow]
        congr 1
        omega
      _ ≤ a := halo

/-! ## Rounding to a double -/

/-- The mantissa of `a / b` at an exponent. -/
def mantissa (a b : Nat) (e : Int) : Nat :=
  if 0 ≤ e then roundHalfEven a (b * 2 ^ e.toNat) else roundHalfEven (a * 2 ^ (-e).toNat) b

/-- The quotient that `mantissa` rounds. -/
theorem mantissa_parts {a b : Nat} (hb : 0 < b) (e : Int) :
    ∃ c d : Nat, 0 < d ∧ mantissa a b e = roundHalfEven c d ∧ (c : ℚ) = a / b / 2 ^ e * d := by
  have hb0 : (b : ℚ) ≠ 0 := by exact_mod_cast hb.ne'
  have he0 : (2 : ℚ) ^ e ≠ 0 := by positivity
  unfold mantissa
  split_ifs with he
  · refine ⟨a, b * 2 ^ e.toNat, by positivity, rfl, ?_⟩
    have hcast : ((2 : ℚ) ^ e.toNat) = 2 ^ e := by
      rw [← zpow_natCast, Int.toNat_of_nonneg he]
    push_cast
    rw [hcast]
    field_simp
  · refine ⟨a * 2 ^ (-e).toNat, b, hb, rfl, ?_⟩
    have hcast : ((2 : ℚ) ^ (-e).toNat) = (2 ^ e)⁻¹ := by
      rw [← zpow_natCast, Int.toNat_of_nonneg (by omega), zpow_neg]
    push_cast
    rw [hcast]
    field_simp

/-- A double has a mantissa at the exponent that `toDouble` chooses. -/
theorem IsDouble.mantissa_eq {a b : Nat} {q : ℚ} (hq : IsDouble q) (ha : a ≠ 0) (hb : 0 < b)
    (heq : (a : ℚ) / b = q) :
    (mantissa a b (max (leadingExponent a b - 52) (-1074)) : ℚ) *
      2 ^ max (leadingExponent a b - 52) (-1074) = q := by
  obtain ⟨-, m, e, hm, he, hme⟩ := hq
  have hlead : leadingExponent a b < 53 + e := by
    have hlow := (leadingExponent_spec ha hb.ne').1
    rw [heq, hme] at hlow
    have hlt : (2 : ℚ) ^ leadingExponent a b < 2 ^ (53 + e) := by
      refine hlow.trans_lt ?_
      rw [zpow_add₀ two_ne_zero]
      have hm' : (m : ℚ) < 2 ^ (53 : Int) := by exact_mod_cast hm
      gcongr
    exact (zpow_lt_zpow_iff_right₀ (by norm_num)).mp hlt
  generalize hE : max (leadingExponent a b - 52) (-1074) = E
  obtain ⟨j, hj⟩ : ∃ j : Nat, e = E + j := ⟨(e - E).toNat, by omega⟩
  obtain ⟨c, d, hd, hround, hc⟩ := mantissa_parts (a := a) hb E
  have hE0 : (2 : ℚ) ^ E ≠ 0 := by positivity
  have hcd : c = m * 2 ^ j * d := by
    rw [heq, hme, hj, zpow_add₀ two_ne_zero, zpow_natCast] at hc
    have : (c : ℚ) = ((m * 2 ^ j * d : Nat) : ℚ) := by
      rw [hc]
      push_cast
      field_simp
    exact_mod_cast this
  rw [hround, hcd, roundHalfEven_mul _ hd, hme, hj, zpow_add₀ two_ne_zero, zpow_natCast]
  push_cast
  ring

theorem toDouble_eq (negative : Bool) {a : Nat} (b : Nat) (ha : a ≠ 0) {e : Int}
    (he : max (leadingExponent a b - 52) (-1074) = e) :
    toDouble negative a b =
      if (2 : ℚ) ^ (1024 : ℕ) ≤ mantissa a b e * (2 : ℚ) ^ e then .infinity negative
      else if mantissa a b e = 0 then .ofSigned negative 0
      else .finite (if negative then -(mantissa a b e * (2 : ℚ) ^ e)
        else mantissa a b e * (2 : ℚ) ^ e) := by
  subst he
  unfold toDouble
  rw [if_neg ha]
  rfl

/-- A double is left as it is. -/
theorem toDouble_isDouble (negative : Bool) {a b : Nat} {q : ℚ} (hq : IsDouble q) (hpos : 0 < q)
    (hb : 0 < b) (heq : (a : ℚ) / b = q) :
    toDouble negative a b = .finite (if negative then -q else q) := by
  have ha : a ≠ 0 := by
    rintro rfl
    rw [Nat.cast_zero, zero_div] at heq
    exact hpos.ne heq
  have hmant := hq.mantissa_eq ha hb heq
  rw [toDouble_eq negative b ha rfl, hmant, if_neg (not_le.mpr hq.1), if_neg]
  rintro hzero
  rw [hzero, Nat.cast_zero, zero_mul] at hmant
  exact hpos.ne hmant

theorem ofSigned_zero_eq {negative : Bool} {q : ℚ}
    (h : JsNumber.ofSigned negative 0 = .finite q) : q = 0 := by
  cases negative with
  | true => cases h
  | false =>
    cases h
    exact Nat.cast_zero

theorem isDouble_mantissa {a b : Nat} (ha : a ≠ 0) (hb : 0 < b) {e : Int}
    (he : max (leadingExponent a b - 52) (-1074) = e)
    (hlt : mantissa a b e * (2 : ℚ) ^ e < 2 ^ (1024 : ℕ)) :
    IsDouble (mantissa a b e * (2 : ℚ) ^ e) := by
  refine ⟨hlt, ?_⟩
  have hle : mantissa a b e ≤ 2 ^ 53 := by
    obtain ⟨c, d, hd, hround, hc⟩ := mantissa_parts (a := a) hb e
    rw [hround]
    refine roundHalfEven_le hd ?_
    have hhigh := (leadingExponent_spec ha hb.ne').2
    have hratio : (a : ℚ) / b / 2 ^ e ≤ 2 ^ (53 : Int) := by
      rw [div_le_iff₀ (by positivity), ← zpow_add₀ two_ne_zero]
      exact hhigh.le.trans (zpow_le_zpow_right₀ (by norm_num) (by omega))
    have : (c : ℚ) ≤ ((2 ^ 53 * d : Nat) : ℚ) := by
      rw [hc]
      push_cast
      gcongr
      exact_mod_cast hratio
    exact_mod_cast this
  rcases hle.lt_or_eq with hlt53 | heq53
  · exact ⟨_, e, hlt53, by omega, rfl⟩
  · -- Rounded up to the next power of two.
    refine ⟨2 ^ 52, e + 1, by decide, by omega, ?_⟩
    rw [heq53, zpow_add₀ two_ne_zero]
    norm_num
    ring

/-- What is rounded to is a double. -/
theorem isDouble_toDouble {negative : Bool} {a b : Nat} {q : ℚ} (hb : 0 < b)
    (h : toDouble negative a b = .finite q) : IsDouble |q| := by
  by_cases ha : a = 0
  · rw [toDouble, if_pos ha] at h
    rw [ofSigned_zero_eq h, abs_zero]
    exact isDouble_zero
  rw [toDouble_eq negative b ha rfl] at h
  split_ifs at h with hbig hzero
  · rw [ofSigned_zero_eq h, abs_zero]
    exact isDouble_zero
  all_goals
    cases h
    have hdouble := isDouble_mantissa ha hb rfl (not_le.mp hbig)
    simpa only [abs_neg, abs_of_nonneg hdouble.nonneg] using hdouble

/-- The sign of what is rounded is that of the result. -/
theorem toDouble_sign {a b : Nat} {q : ℚ} (h : toDouble false a b = .finite q) (hq : q ≠ 0) :
    toDouble true a b = .finite (-q) := by
  by_cases ha : a = 0
  · rw [toDouble, if_pos ha] at h
    exact absurd (ofSigned_zero_eq h) hq
  rw [toDouble_eq _ b ha rfl] at h ⊢
  simp only [Bool.false_eq_true, if_false, if_true] at h ⊢
  split_ifs at h ⊢ with hbig hzero
  · exact absurd (ofSigned_zero_eq h) hq
  · rw [JsNumber.finite.inj h]

/-! ## What `Number` reads -/

theorem isDouble_decimalLiteral {s : JsString} {q : ℚ} (h : decimalLiteral s = .finite q) :
    IsDouble |q| := by
  unfold decimalLiteral at h
  dsimp only at h
  split_ifs at h
  split at h
  · cases h
  · split_ifs at h
    · exact isDouble_toDouble one_pos h
    · exact isDouble_toDouble (by positivity) h

theorem isDouble_Number {s : JsString} {q : ℚ} (h : Number s = .finite q) : IsDouble |q| := by
  unfold Number at h
  dsimp only at h
  split_ifs at h
  · cases h
    exact abs_zero (α := ℚ) ▸ isDouble_zero
  · split at h
    · exact isDouble_toDouble one_pos h
    · exact isDouble_decimalLiteral h

end Lionden
