import Mathlib.Data.Int.Log
import Mathlib.Data.Nat.Prime.Basic
import Mathlib.Data.Rat.Floor
import Lionden.Js.Double
import Lionden.Js.Json

/-!
# The text of a number

`x.toString()` writes the fewest digits that are read back as `x`, and among these the ones nearest
to it.

* `Literal`: a decimal literal, with its text and the number that it stands for.
* `numberString`: the text of a number.
* `Number_numberString`, `isNumber_numberString`: it is read back, and JSON allows it.
-/

namespace Lionden

/-! ## Literals -/

/-- The digits in front of the decimal point and behind it, and the exponent. -/
structure Literal where
  whole : JsString
  fraction : JsString
  exponent : Option Int

namespace Literal

def fractionText (fraction : JsString) : JsString :=
  if fraction = [] then [] else unit '.' :: fraction

def exponentText : Option Int → JsString
  | none => []
  | some e => unit 'e' :: unit (if e < 0 then '-' else '+') :: decimal e.natAbs

def text (l : Literal) : JsString := l.whole ++ (fractionText l.fraction ++ exponentText l.exponent)

def value (l : Literal) : ℚ :=
  digitsValue (l.whole ++ l.fraction) * 10 ^ (l.exponent.getD 0 - l.fraction.length)

/-- The whole part begins with a zero only if this is all of it. -/
structure Proper (l : Literal) : Prop where
  whole_ne_nil : l.whole ≠ []
  whole : ∀ c ∈ l.whole, isDigit c = true
  fraction : ∀ c ∈ l.fraction, isDigit c = true
  head : l.whole.length = 1 ∨ l.whole.head? ≠ some (unit '0')

end Literal

/-! ## The digits of a number -/

/-- The digits without the zeros at their end, with the point behind the first `n` of them. -/
def layout (digits : JsString) (n : Int) : Literal :=
  let zeros (count : Int) : JsString := List.replicate count.toNat (unit '0')
  let k : Int := digits.length
  if k ≤ n ∧ n ≤ 21 then ⟨digits ++ zeros (n - k), [], none⟩
  else if 0 < n ∧ n ≤ 21 then ⟨digits.take n.toNat, digits.drop n.toNat, none⟩
  else if -6 < n ∧ n ≤ 0 then ⟨[unit '0'], zeros (-n) ++ digits, none⟩
  else ⟨digits.take 1, digits.drop 1, some (n - 1)⟩

/-- The literal of `s * 10 ^ e`. -/
def decimalOf (s : Nat) (e : Int) : Literal :=
  layout ((decimal s).rdropWhile (· = unit '0')) ((decimal s).length + e)

/-- The literals of `k` digits next to `q`, the nearer one first and the even one in a tie. -/
def neighbours (q : ℚ) (k : Nat) : List Literal :=
  let e : Int := Int.log 10 q + 1 - k
  let x := q / 10 ^ e
  let s := ⌊x⌋₊
  let d := x - s
  if d < 1 / 2 ∨ d = 1 / 2 ∧ s % 2 = 0 then [decimalOf s e, decimalOf (s + 1) e]
  else [decimalOf (s + 1) e, decimalOf s e]

/-- The shortest literal that is read back as `q`. 17 digits are always enough for a double; all of
its digits stand in the last line so that this does not have to be known. -/
def shortest (q : ℚ) : Literal :=
  let literals := (List.range 17).flatMap fun k => neighbours q (k + 1)
  match literals.find? fun l => Number l.text = .finite q with
  | some l => l
  | none => decimalOf (q.num.toNat * 5 ^ q.den.log2) (-q.den.log2)

/-- `x.toString()`. -/
def numberString : JsNumber → JsString
  | .nan => js "NaN"
  | .infinity negative => signed negative (js "Infinity")
  | .negZero => js "0"
  | .finite q => if q = 0 then js "0" else signed (decide (q < 0)) (shortest |q|).text

/-! ## What a literal is read as -/

namespace Literal

theorem isLiteralUnit_of_isDigit {c : CodeUnit} (h : isDigit c = true) : isLiteralUnit c = true := by
  rw [isLiteralUnit, h, Bool.true_or]

theorem fractionText_literalUnit {fraction : JsString} (h : ∀ c ∈ fraction, isDigit c = true) :
    ∀ c ∈ fractionText fraction, isLiteralUnit c = true := by
  intro c hc
  unfold fractionText at hc
  split at hc
  · cases hc
  · rcases List.mem_cons.mp hc with rfl | hc
    · decide
    · exact isLiteralUnit_of_isDigit (h c hc)

theorem exponentText_literalUnit (exponent : Option Int) :
    ∀ c ∈ exponentText exponent, isLiteralUnit c = true := by
  intro c hc
  cases exponent with
  | none => cases hc
  | some e =>
    rcases List.mem_cons.mp hc with rfl | hc
    · decide
    · rcases List.mem_cons.mp hc with rfl | hc
      · split <;> decide
      · exact isLiteralUnit_of_isDigit (isDigit_of_mem_decimal c hc)

theorem exponentPart_exponentText (exponent : Option Int) :
    exponentPart (exponentText exponent) = some (exponent.getD 0) := by
  cases exponent with
  | none => rfl
  | some e =>
    have hcond (h : lowerUnit (unit 'e') = 101) : lowerUnit (unit 'e') = 101 ∧
        decimal e.natAbs ≠ [] ∧ (decimal e.natAbs).all isDigit = true :=
      ⟨h, decimal_ne_nil _, List.all_eq_true.mpr isDigit_of_mem_decimal⟩
    by_cases he : e < 0
    · have hsign : splitSign (unit '-' :: decimal e.natAbs) = (true, decimal e.natAbs) := rfl
      simp only [exponentText, if_pos he, exponentPart, hsign, if_pos (hcond (by decide)),
        digitsValue_decimal, if_true, Option.getD_some, Option.some.injEq]
      omega
    · have hsign : splitSign (unit '+' :: decimal e.natAbs) = (false, decimal e.natAbs) := rfl
      simp only [exponentText, if_neg he, exponentPart, hsign, if_pos (hcond (by decide)),
        digitsValue_decimal, Bool.false_eq_true, if_false, Option.getD_some, Option.some.injEq]
      omega

/-- The digits of the whole part end at the point, at the exponent or with the text. -/
theorem tail_head {fraction : JsString} {exponent : Option Int} {c : CodeUnit}
    (h : (fractionText fraction ++ exponentText exponent).head? = some c) : isDigit c = false := by
  unfold fractionText at h
  split at h
  · cases exponent with
    | none => cases h
    | some e =>
      cases h
      decide
  · cases h
    decide

theorem takeWhile_of_head {p : CodeUnit → Bool} {rest : JsString}
    (h : ∀ c, rest.head? = some c → p c = false) : rest.takeWhile p = [] ∧ rest.dropWhile p = rest := by
  cases rest with
  | nil => exact ⟨rfl, rfl⟩
  | cons c t =>
    have hc := h c rfl
    simp only [List.takeWhile_cons, List.dropWhile_cons, hc]
    exact ⟨rfl, rfl⟩

/-- Digits in front of a text that begins with none. -/
theorem takeWhile_digits {digits rest : JsString} (hdigits : ∀ c ∈ digits, isDigit c = true)
    (hrest : ∀ c, rest.head? = some c → isDigit c = false) :
    (digits ++ rest).takeWhile isDigit = digits ∧ (digits ++ rest).dropWhile isDigit = rest := by
  obtain ⟨htake, hdrop⟩ := takeWhile_of_head hrest
  rw [List.takeWhile_append_of_pos hdigits, List.dropWhile_append_of_pos hdigits, htake, hdrop,
    List.append_nil]
  exact ⟨rfl, rfl⟩

theorem exponentText_head {exponent : Option Int} {c : CodeUnit}
    (h : (exponentText exponent).head? = some c) : c = unit 'e' := by
  cases exponent with
  | none => cases h
  | some e => exact (Option.some.inj h).symm

variable {l : Literal}

theorem Proper.text_ne_nil (h : l.Proper) : l.text ≠ [] := by
  simp [text, h.whole_ne_nil]

theorem Proper.text_literalUnit (h : l.Proper) : ∀ c ∈ l.text, isLiteralUnit c = true := by
  intro c hc
  rcases List.mem_append.mp hc with hc | hc
  · exact isLiteralUnit_of_isDigit (h.whole c hc)
  · rcases List.mem_append.mp hc with hc | hc
    · exact fractionText_literalUnit h.fraction c hc
    · exact exponentText_literalUnit l.exponent c hc

theorem Proper.text_head (h : l.Proper) {c : CodeUnit} (hc : l.text.head? = some c) :
    isDigit c = true := by
  obtain ⟨d, t, hwhole⟩ := List.exists_cons_of_ne_nil h.whole_ne_nil
  have hd : isDigit d = true := h.whole d (hwhole ▸ List.mem_cons_self)
  rw [text, hwhole] at hc
  cases hc
  exact hd

/-- The parts of the text that `decimalLiteral` and `JSON.parse` find in it. -/
theorem Proper.takeWhile_text (h : l.Proper) :
    l.text.takeWhile isDigit = l.whole ∧
      l.text.dropWhile isDigit = fractionText l.fraction ++ exponentText l.exponent :=
  takeWhile_digits h.whole fun _ => tail_head

/-- The fraction of a literal, and what follows it. -/
def pointParts : JsString → JsString × JsString
  | 46 :: u => (u.takeWhile isDigit, u.dropWhile isDigit)
  | u => ([], u)

theorem pointParts_text {fraction : JsString} (exponent : Option Int)
    (h : ∀ c ∈ fraction, isDigit c = true) :
    pointParts (fractionText fraction ++ exponentText exponent) =
      (fraction, exponentText exponent) := by
  unfold fractionText
  split_ifs with hnil
  · rw [hnil, List.nil_append]
    cases exponent <;> rfl
  · have hparts := takeWhile_digits h fun c hc => by
      rw [@exponentText_head exponent _ hc]
      decide
    exact Prod.ext hparts.1 hparts.2

theorem decimalLiteral_eq {s t : JsString} {negative : Bool} (hsign : splitSign s = (negative, t))
    (hinf : t ≠ js "Infinity") (hwhole : t.takeWhile isDigit ≠ []) {fraction rest : JsString}
    (hpoint : pointParts (t.dropWhile isDigit) = (fraction, rest)) {e : Int}
    (hexp : exponentPart rest = some e) :
    decimalLiteral s =
      if 0 ≤ e - fraction.length then
        toDouble negative
          (digitsValue (t.takeWhile isDigit ++ fraction) * 10 ^ (e - fraction.length).toNat) 1
      else toDouble negative (digitsValue (t.takeWhile isDigit ++ fraction))
        (10 ^ (-(e - fraction.length)).toNat) := by
  have hpair : decimalLiteral s =
      if t = js "Infinity" then .infinity negative
      else if t.takeWhile isDigit = [] ∧ (pointParts (t.dropWhile isDigit)).1 = [] then .nan
      else match exponentPart (pointParts (t.dropWhile isDigit)).2 with
        | none => .nan
        | some e =>
          let d := digitsValue (t.takeWhile isDigit ++ (pointParts (t.dropWhile isDigit)).1)
          let x : Int := e - (pointParts (t.dropWhile isDigit)).1.length
          if 0 ≤ x then toDouble negative (d * 10 ^ x.toNat) 1
          else toDouble negative d (10 ^ (-x).toNat) := by
    unfold decimalLiteral
    rw [hsign]
    rfl
  rw [hpair, if_neg hinf, hpoint, if_neg fun hnil => hwhole hnil.1]
  simp only [hexp]

/-- A proper literal is rounded, whatever its sign. -/
theorem Proper.Number_text (h : l.Proper) :
    ∃ a b : Nat, 0 < b ∧ (a : ℚ) / b = l.value ∧
      ∀ negative, Number (signed negative l.text) = toDouble negative a b := by
  obtain ⟨hwhole, hrest⟩ := h.takeWhile_text
  have hinf : l.text ≠ js "Infinity" := by
    intro heq
    have := h.text_head (c := 73) (by rw [heq]; rfl)
    exact absurd this (by decide)
  have hread (negative : Bool) : Number (signed negative l.text) =
      if 0 ≤ l.exponent.getD 0 - l.fraction.length then
        toDouble negative (digitsValue (l.whole ++ l.fraction) *
          10 ^ (l.exponent.getD 0 - l.fraction.length).toNat) 1
      else toDouble negative (digitsValue (l.whole ++ l.fraction))
        (10 ^ (-(l.exponent.getD 0 - l.fraction.length)).toNat) := by
    obtain ⟨htrim, hdec⟩ := literal_shape (signed_ne_nil negative h.text_ne_nil)
      (isLiteralUnit_signed h.text_literalUnit)
    have hsign := splitSign_signed negative fun c => h.text_head (c := c)
    simp only [Number, trim_eq_self htrim, if_neg htrim.ne_nil, hdec]
    rw [decimalLiteral_eq hsign hinf (hwhole ▸ h.whole_ne_nil)
      (hrest ▸ pointParts_text l.exponent h.fraction) (exponentPart_exponentText _), hwhole]
  unfold value
  generalize l.exponent.getD 0 - l.fraction.length = x at hread ⊢
  by_cases hx : 0 ≤ x
  · refine ⟨_, 1, one_pos, ?_, fun negative => by rw [hread, if_pos hx]⟩
    have hcast : ((10 : ℚ) ^ x.toNat) = 10 ^ x := by
      rw [← zpow_natCast, Int.toNat_of_nonneg hx]
    push_cast
    rw [hcast, div_one]
  · refine ⟨_, 10 ^ (-x).toNat, Nat.pow_pos (by decide), ?_,
      fun negative => by rw [hread, if_neg hx]⟩
    have hcast : ((10 : ℚ) ^ (-x).toNat) = (10 ^ x)⁻¹ := by
      rw [← zpow_natCast, Int.toNat_of_nonneg (by omega), zpow_neg]
    push_cast
    rw [hcast, div_inv_eq_mul]

theorem isNumber_signed (negative : Bool) {t : JsString}
    (h : ∀ c, t.head? = some c → isDigit c = true) :
    JSON.isNumber (signed negative t) =
      (decide (t.takeWhile isDigit ≠ []) &&
        (decide ((t.takeWhile isDigit).length = 1) ||
          decide ((t.takeWhile isDigit).head? ≠ some (unit '0'))) &&
        match JSON.splitFraction (t.dropWhile isDigit) with
        | none => false
        | some rest => (exponentPart rest).isSome) := by
  cases negative with
  | true => rfl
  | false =>
    simp only [signed, Bool.false_eq_true, if_false]
    unfold JSON.isNumber
    split
    · exact absurd (h 45 rfl) (by decide)
    · rfl

/-- JSON allows a proper literal. -/
theorem Proper.isNumber_text (h : l.Proper) (negative : Bool) :
    JSON.isNumber (signed negative l.text) = true := by
  obtain ⟨hwhole, hrest⟩ := h.takeWhile_text
  have hsplit : JSON.splitFraction (fractionText l.fraction ++ exponentText l.exponent) =
      some (exponentText l.exponent) := by
    unfold fractionText
    split_ifs with hnil
    · cases l.exponent <;> rfl
    · have hparts := takeWhile_digits h.fraction fun c hc => by
        rw [@exponentText_head l.exponent _ hc]
        decide
      change (if (l.fraction ++ exponentText l.exponent).takeWhile isDigit = [] then none
        else some ((l.fraction ++ exponentText l.exponent).dropWhile isDigit)) = _
      rw [hparts.1, hparts.2, if_neg hnil]
  rw [isNumber_signed negative fun c => h.text_head, hwhole, hrest, hsplit]
  simpa [h.whole_ne_nil, exponentPart_exponentText] using h.head

end Literal

/-! ## Digits -/

theorem decimal_head {n : Nat} (h : n ≠ 0) : (decimal n).head? ≠ some (unit '0') := by
  fun_induction decimal n with
  | case1 n hlt =>
    intro heq
    have hdigit : (digitUnit n).toNat = 48 + n := digitUnit_toNat hlt
    rw [Option.some.inj heq] at hdigit
    have hzero : (unit '0').toNat = 48 := by decide
    omega
  | case2 n hlt ih =>
    rw [List.head?_append_of_ne_nil _ (decimal_ne_nil _)]
    exact ih (by omega)

theorem digitsValue_append (a b : JsString) :
    digitsValue (a ++ b) = digitsValue a * 10 ^ b.length + digitsValue b := by
  induction b using List.reverseRecOn with
  | nil => simp [digitsValue]
  | append_singleton b c ih =>
    have hsnoc (s : JsString) : digitsValue (s ++ [c]) = 10 * digitsValue s + (c.toNat - 48) := by
      simp [digitsValue]
    rw [← List.append_assoc, hsnoc, hsnoc, ih, List.length_append, List.length_singleton, pow_succ]
    ring

theorem digitsValue_zeros (n : Nat) : digitsValue (List.replicate n (unit '0')) = 0 := by
  induction n with
  | zero => rfl
  | succ n ih =>
    rw [List.replicate_succ', digitsValue_append, ih, zero_mul, zero_add]
    decide

/-- Digits that begin with no zero. -/
structure Significant (s : JsString) : Prop where
  ne_nil : s ≠ []
  digits : ∀ c ∈ s, isDigit c = true
  head : s.head? ≠ some (unit '0')

theorem isDigit_of_mem_zeros {n : Nat} {c : CodeUnit} (h : c ∈ List.replicate n (unit '0')) :
    isDigit c = true := by
  rw [List.eq_of_mem_replicate h]
  decide

theorem layout_proper {digits : JsString} (h : Significant digits) (n : Int) :
    (layout digits n).Proper := by
  obtain ⟨c, t, rfl⟩ := List.exists_cons_of_ne_nil h.ne_nil
  unfold layout
  dsimp only
  split_ifs with hwhole hpoint hsmall
  · refine ⟨by simp, fun d hd => ?_, nofun, .inr h.head⟩
    exact (List.mem_append.mp hd).elim (h.digits d) isDigit_of_mem_zeros
  · obtain ⟨m, rfl⟩ : ∃ m : Nat, n = m + 1 := ⟨(n - 1).toNat, by omega⟩
    refine ⟨by simp [Int.toNat_add], fun d hd => h.digits d (List.mem_of_mem_take hd),
      fun d hd => h.digits d (List.mem_of_mem_drop hd), .inr ?_⟩
    simpa [Int.toNat_add] using h.head
  · refine ⟨by simp, fun d hd => ?_, fun d hd => ?_, .inl rfl⟩
    · rw [List.mem_singleton.mp hd]
      decide
    · exact (List.mem_append.mp hd).elim isDigit_of_mem_zeros (h.digits d)
  · exact ⟨by simp, fun d hd => h.digits d (List.mem_of_mem_take hd),
      fun d hd => h.digits d (List.mem_of_mem_drop hd), .inl (by simp)⟩

theorem layout_value {digits : JsString} (hne : digits ≠ []) (n : Int) :
    (layout digits n).value = digitsValue digits * 10 ^ (n - digits.length) := by
  have hlen : 0 < digits.length := List.length_pos_of_ne_nil hne
  unfold layout Literal.value
  dsimp only
  split_ifs with hwhole hpoint hsmall
  · rw [List.append_nil, digitsValue_append, digitsValue_zeros, List.length_replicate, add_zero]
    have hcast : ((10 : ℚ) ^ (n - digits.length).toNat) = 10 ^ (n - digits.length : Int) := by
      rw [← zpow_natCast, Int.toNat_of_nonneg (by omega)]
    push_cast
    rw [hcast]
    simp
  · rw [List.take_append_drop, List.length_drop]
    congr 2
    simp only [Option.getD_none]
    omega
  · have hzeros : digitsValue ([unit '0'] ++ (List.replicate (-n).toNat (unit '0') ++ digits)) =
        digitsValue digits := by
      rw [digitsValue_append, digitsValue_append, digitsValue_zeros, zero_mul, zero_add]
      have hzero : digitsValue [unit '0'] = 0 := by decide
      rw [hzero, zero_mul, zero_add]
    rw [hzeros, List.length_append, List.length_replicate]
    congr 2
    simp only [Option.getD_none]
    omega
  · rw [List.take_append_drop, List.length_drop]
    congr 2
    simp only [Option.getD_some]
    omega

theorem significant_decimal {s : Nat} (h : s ≠ 0) :
    Significant ((decimal s).rdropWhile (· = unit '0')) := by
  have hpre : (decimal s).rdropWhile (· = unit '0') <+: decimal s :=
    List.rdropWhile_prefix _ _
  have hne : (decimal s).rdropWhile (· = unit '0') ≠ [] := by
    intro hnil
    obtain ⟨c, t, hct⟩ := List.exists_cons_of_ne_nil (decimal_ne_nil s)
    have hc := List.rdropWhile_eq_nil_iff.mp hnil c (hct ▸ List.mem_cons_self)
    exact decimal_head h (by rw [hct, List.head?_cons, of_decide_eq_true hc])
  refine ⟨hne, fun c hc => isDigit_of_mem_decimal c (hpre.subset hc), ?_⟩
  obtain ⟨rest, hrest⟩ := hpre
  have hhead := decimal_head h
  rwa [← hrest, List.head?_append_of_ne_nil _ hne] at hhead

theorem decimalOf_proper {s : Nat} (h : s ≠ 0) (e : Int) : (decimalOf s e).Proper :=
  layout_proper (significant_decimal h) _

theorem decimalOf_value {s : Nat} (h : s ≠ 0) (e : Int) : (decimalOf s e).value = s * 10 ^ e := by
  rw [decimalOf, layout_value (significant_decimal h).ne_nil]
  obtain ⟨zeros, hzeros⟩ : ∃ n, (decimal s).rtakeWhile (· = unit '0') =
      List.replicate n (unit '0') := by
    refine ⟨_, List.eq_replicate_iff.mpr ⟨rfl, fun c hc => ?_⟩⟩
    simpa using List.mem_rtakeWhile_imp hc
  have hsplit := List.rdropWhile_append_rtakeWhile (p := (· = unit '0')) (l := decimal s)
  rw [hzeros] at hsplit
  generalize (decimal s).rdropWhile (· = unit '0') = digits at hsplit ⊢
  have hvalue : s = digitsValue digits * 10 ^ zeros := by
    rw [← digitsValue_decimal s, ← hsplit, digitsValue_append, digitsValue_zeros,
      List.length_replicate, add_zero]
  have hlength : (decimal s).length = digits.length + zeros := by
    rw [← hsplit, List.length_append, List.length_replicate]
  have hexp : ((decimal s).length + e - digits.length : Int) = zeros + e := by omega
  rw [hexp, zpow_add₀ (by norm_num), zpow_natCast, hvalue]
  push_cast
  ring

/-! ## What is read back -/

theorem neighbours_proper {q : ℚ} (hq : 0 < q) {k : Nat} {l : Literal}
    (h : l ∈ neighbours q (k + 1)) : l.Proper := by
  have hfloor : ⌊q / (10 : ℚ) ^ (Int.log 10 q + 1 - (k + 1 : Nat))⌋₊ ≠ 0 := by
    rw [← Nat.one_le_iff_ne_zero, Nat.le_floor_iff (by positivity), Nat.cast_one,
      le_div_iff₀ (by positivity), one_mul]
    have hlog : (10 : ℚ) ^ Int.log 10 q ≤ q := by
      exact_mod_cast Int.zpow_log_le_self (b := 10) (by decide) hq
    exact (zpow_le_zpow_right₀ (by norm_num) (by push_cast; omega)).trans hlog
  unfold neighbours at h
  dsimp only at h
  split_ifs at h
  all_goals
    rcases List.mem_pair.mp h with rfl | rfl
    all_goals exact decimalOf_proper (by omega) _

/-- All the digits of a double. -/
theorem IsDouble.decimalOf_value {q : ℚ} (h : IsDouble q) (hq : 0 < q) :
    q.num.toNat * 5 ^ q.den.log2 ≠ 0 ∧
      (decimalOf (q.num.toNat * 5 ^ q.den.log2) (-q.den.log2)).value = q := by
  obtain ⟨i, hden⟩ : ∃ i : Nat, q.den = 2 ^ i := by
    obtain ⟨-, m, e, -, -, rfl⟩ := h
    obtain ⟨j, hj⟩ : ∃ j : Nat, ((m : ℚ) * 2 ^ e).den ∣ 2 ^ j := by
      rcases le_total 0 e with he | he
      · refine ⟨0, ?_⟩
        have hint : (m : ℚ) * 2 ^ e = ((m * 2 ^ e.toNat : Nat) : ℚ) := by
          push_cast
          rw [← zpow_natCast, Int.toNat_of_nonneg he]
        rw [hint, Rat.den_natCast]
        exact one_dvd _
      · refine ⟨(-e).toNat, ?_⟩
        have hquot : (m : ℚ) * 2 ^ e = ((m : Int) : ℚ) / ((2 ^ (-e).toNat : Int) : ℚ) := by
          push_cast
          rw [← zpow_natCast, Int.toNat_of_nonneg (by omega), zpow_neg, div_inv_eq_mul]
        rw [hquot]
        exact_mod_cast Rat.den_dvd (m : Int) (2 ^ (-e).toNat)
    obtain ⟨i, -, hi⟩ := (Nat.dvd_prime_pow Nat.prime_two).mp hj
    exact ⟨i, hi⟩
  have hnum : (q.num.toNat : ℚ) = q * 2 ^ i := by
    have hcast : ((q.num.toNat : Int) : ℚ) = q.num := by
      rw [Int.toNat_of_nonneg (Rat.num_nonneg.mpr hq.le)]
    rw [Int.cast_natCast] at hcast
    rw [hcast, ← Rat.mul_den_eq_num q, hden]
    push_cast
    ring
  have hne : q.num.toNat ≠ 0 := by
    have := Rat.num_pos.mpr hq
    omega
  have hlog : q.den.log2 = i := by rw [hden, Nat.log2_two_pow]
  have hten : (10 : ℚ) ^ i = 2 ^ i * 5 ^ i := by
    rw [← mul_pow]
    norm_num
  rw [hlog]
  have hs : q.num.toNat * 5 ^ i ≠ 0 := by positivity
  refine ⟨hs, ?_⟩
  rw [Lionden.decimalOf_value hs, Nat.cast_mul, hnum, zpow_neg, zpow_natCast, hten]
  push_cast
  field_simp

theorem shortest_spec {q : ℚ} (h : IsDouble q) (hq : 0 < q) :
    (shortest q).Proper ∧ Number (shortest q).text = .finite q := by
  unfold shortest
  dsimp only
  split
  · next l hfind =>
    obtain ⟨k, -, hmem⟩ := List.mem_flatMap.mp (List.mem_of_find?_eq_some hfind)
    exact ⟨neighbours_proper hq hmem, by simpa using List.find?_some hfind⟩
  · obtain ⟨hne, hvalue⟩ := h.decimalOf_value hq
    have hproper := decimalOf_proper hne (-q.den.log2)
    obtain ⟨a, b, hb, hab, hread⟩ := hproper.Number_text
    exact ⟨hproper, (hread false).trans (toDouble_isDouble false h hq hb (hab.trans hvalue))⟩

/-- Text that is not empty, begins with a digit or a sign, and is a number of JSON. -/
structure IsNumberText (text : JsString) : Prop where
  ne_nil : text ≠ []
  literalUnit : ∀ c ∈ text, isLiteralUnit c = true
  isNumber : JSON.isNumber text = true

/-- A double is read back from its text. -/
theorem numberString_spec {q : ℚ} (h : IsDouble |q|) :
    Number (numberString (.finite q)) = .finite q ∧ IsNumberText (numberString (.finite q)) := by
  unfold numberString
  dsimp only
  split_ifs with hzero
  · subst hzero
    exact ⟨by rfl, by simp [js], by decide, by rfl⟩
  obtain ⟨hproper, hnumber⟩ := shortest_spec h (abs_pos.mpr hzero)
  refine ⟨?_, signed_ne_nil _ hproper.text_ne_nil, isLiteralUnit_signed hproper.text_literalUnit,
    hproper.isNumber_text _⟩
  obtain ⟨a, b, hb, -, hread⟩ := hproper.Number_text
  have hpos : toDouble false a b = .finite |q| := (hread false).symm.trans hnumber
  rw [hread]
  by_cases hneg : q < 0
  · rw [decide_eq_true hneg, toDouble_sign hpos (abs_pos.mpr hzero).ne', abs_of_neg hneg, neg_neg]
  · rw [decide_eq_false hneg, hpos, abs_of_nonneg (not_lt.mp hneg)]

end Lionden
