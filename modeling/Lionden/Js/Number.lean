import Mathlib.Data.Rat.Defs
import Mathlib.Algebra.Order.Field.Rat
import Mathlib.Tactic.NormNum
import Mathlib.Tactic.Positivity
import Lionden.Js.Text

/-!
# JS numbers

A finite number is the rational that its double stands for; negative zero is kept apart. `Number`
and `BigInt` are the conversions of strings: a decimal literal becomes the nearest double (ties to
even), and whatever is not a numeric literal becomes `NaN`, or no bigint at all.

* `Number_digits`, `BigInt_digits`: on decimal digits both give the number that these write.
-/

namespace Lionden

inductive JsNumber where
  | nan
  | infinity (negative : Bool)
  | negZero
  | finite (q : ℚ)
  deriving DecidableEq

/-- The integer that a number is, if it is one (`Number.isInteger`). -/
def JsNumber.toInt? : JsNumber → Option Int
  | .negZero => some 0
  | .finite q => if q.den = 1 then some q.num else none
  | _ => none

/-- The number of an integer that a double holds exactly, with the sign of a zero. -/
def JsNumber.ofSigned (negative : Bool) (n : Nat) : JsNumber :=
  if negative then (if n = 0 then .negZero else .finite (-n : ℚ)) else .finite n

/-! ## Rounding -/

/-- `a / b`, rounded to the nearest integer, ties to even. -/
def roundHalfEven (a b : Nat) : Nat :=
  let q := a / b
  let r := a % b
  if 2 * r < b then q else if b < 2 * r then q + 1 else if q % 2 = 0 then q else q + 1

/-- The exponent of the leading binary digit of `a / b`. -/
def leadingExponent (a b : Nat) : Int :=
  let k : Int := (a.log2 : Int) - b.log2
  if (2 : ℚ) ^ k ≤ (a : ℚ) / b then k else k - 1

/-- The double nearest to `a / b`: 53 significant binary digits, exponents down to -1074, and
infinity from 2^1024 on. -/
def toDouble (negative : Bool) (a b : Nat) : JsNumber :=
  if a = 0 then .ofSigned negative 0
  else
    let e : Int := max (leadingExponent a b - 52) (-1074)
    let m := if 0 ≤ e then roundHalfEven a (b * 2 ^ e.toNat)
      else roundHalfEven (a * 2 ^ (-e).toNat) b
    let q : ℚ := m * (2 : ℚ) ^ e
    if (2 : ℚ) ^ (1024 : ℕ) ≤ q then .infinity negative
    else if m = 0 then .ofSigned negative 0
    else .finite (if negative then -q else q)

/-! ## Numeric literals -/

def isHexDigit (ch : CodeUnit) : Bool :=
  isDigit ch || inRange 'a' 'f' ch || inRange 'A' 'F' ch

def hexValue (ch : CodeUnit) : Nat :=
  if isDigit ch then ch.toNat - 48 else (lowerUnit ch).toNat - 87

/-- A literal with the prefix `0x`, `0o` or `0b` in either case. -/
def nonDecimal (s : JsString) : Option Nat :=
  let radix (r : Nat) (p : CodeUnit → Bool) (digits : JsString) : Option Nat :=
    if digits ≠ [] ∧ digits.all p then some (digits.foldl (fun acc c => r * acc + hexValue c) 0)
    else none
  match lower (s.take 2) with
  | [48, 120] => radix 16 isHexDigit (s.drop 2)
  | [48, 111] => radix 8 (inRange '0' '7') (s.drop 2)
  | [48, 98] => radix 2 (inRange '0' '1') (s.drop 2)
  | _ => none

/-- The sign in front of a decimal literal, and the literal. -/
def splitSign (s : JsString) : Bool × JsString :=
  match s with
  | 45 :: t => (true, t)
  | 43 :: t => (false, t)
  | t => (false, t)

/-- The exponent part of a decimal literal; it may be missing. -/
def exponentPart (s : JsString) : Option Int :=
  match s with
  | [] => some 0
  | c :: t =>
    let (negative, digits) := splitSign t
    if lowerUnit c = 101 ∧ digits ≠ [] ∧ digits.all isDigit then
      some (if negative then -(digitsValue digits : Int) else digitsValue digits)
    else none

/-- A decimal literal with an optional sign, fraction and exponent, or `Infinity`. -/
def decimalLiteral (s : JsString) : JsNumber :=
  let (negative, t) := splitSign s
  if t = js "Infinity" then .infinity negative
  else
    let whole := t.takeWhile isDigit
    let (fraction, rest) := match t.dropWhile isDigit with
      | 46 :: u => (u.takeWhile isDigit, u.dropWhile isDigit)
      | u => ([], u)
    if whole = [] ∧ fraction = [] then .nan
    else match exponentPart rest with
      | none => .nan
      | some e =>
        let d := digitsValue (whole ++ fraction)
        let x : Int := e - fraction.length
        if 0 ≤ x then toDouble negative (d * 10 ^ x.toNat) 1
        else toDouble negative d (10 ^ (-x).toNat)

/-- `Number(s)`. -/
def Number (s : JsString) : JsNumber :=
  let t := trim s
  if t = [] then .finite 0
  else match nonDecimal t with
    | some n => toDouble false n 1
    | none => decimalLiteral t

/-- `BigInt(s)`; `none` is its `SyntaxError`. -/
def BigInt (s : JsString) : Option Int :=
  let t := trim s
  if t = [] then some 0
  else match nonDecimal t with
    | some n => some n
    | none =>
      let (negative, digits) := splitSign t
      if digits ≠ [] ∧ digits.all isDigit then
        some (if negative then -(digitsValue digits : Int) else digitsValue digits)
      else none

/-! ## Digits -/

theorem roundHalfEven_one (a : Nat) : roundHalfEven a 1 = a := by
  simp [roundHalfEven, Nat.mod_one]

theorem leadingExponent_one {n : Nat} (h : n ≠ 0) : leadingExponent n 1 = n.log2 := by
  have hone : Nat.log2 1 = 0 := by decide
  have hle : (2 : ℚ) ^ ((n.log2 : Int) - (Nat.log2 1 : Int)) ≤ (n : ℚ) / (1 : Nat) := by
    have := Nat.log2_self_le h
    simp only [hone, Nat.cast_zero, sub_zero, zpow_natCast, Nat.cast_one, div_one]
    exact_mod_cast this
  rw [hone] at hle
  simp only [leadingExponent, hone, Nat.cast_zero, sub_zero] at hle ⊢
  rw [if_pos hle]

/-- A natural number below 2^53 is its own double. -/
theorem toDouble_nat (negative : Bool) {n : Nat} (h : n < 2 ^ 53) :
    toDouble negative n 1 = .ofSigned negative n := by
  by_cases h0 : n = 0
  · simp [toDouble, h0]
  have hlog : n.log2 < 53 := (Nat.log2_lt h0).mpr h
  obtain ⟨j, hj⟩ : ∃ j : Nat, n.log2 + j = 52 := ⟨52 - n.log2, by omega⟩
  have he : max ((n.log2 : Int) - 52) (-1074) = -(j : Int) := by omega
  have hm : (if 0 ≤ -(j : Int) then roundHalfEven n (1 * 2 ^ (-(j : Int)).toNat)
      else roundHalfEven (n * 2 ^ (- -(j : Int)).toNat) 1) = n * 2 ^ j := by
    split
    · next hj0 =>
      obtain rfl : j = 0 := by omega
      simp [roundHalfEven_one]
    · simp [roundHalfEven_one]
  have hq : ((n * 2 ^ j : Nat) : ℚ) * (2 : ℚ) ^ (-(j : Int)) = n := by
    rw [zpow_neg, zpow_natCast, Nat.cast_mul, Nat.cast_pow, Nat.cast_ofNat, mul_assoc,
      mul_inv_cancel₀ (by positivity), mul_one]
  have hbig : ¬ (2 : ℚ) ^ (1024 : ℕ) ≤ n := by
    rw [not_le]
    have h53 : (n : ℚ) < 2 ^ 53 := by exact_mod_cast h
    exact h53.trans (pow_lt_pow_right₀ (by norm_num) (by norm_num))
  have hm0 : n * 2 ^ j ≠ 0 := by positivity
  simp only [toDouble, if_neg h0, leadingExponent_one h0, he, hm, hq, if_neg hbig, if_neg hm0]
  cases negative <;> simp [JsNumber.ofSigned, h0]

/-- Decimal digits after an optional minus sign. -/
def signed (negative : Bool) (digits : JsString) : JsString :=
  if negative then unit '-' :: digits else digits

theorem splitSign_signed (negative : Bool) {digits : JsString}
    (h : ∀ c, digits.head? = some c → isDigit c = true) :
    splitSign (signed negative digits) = (negative, digits) := by
  cases negative with
  | true => rfl
  | false =>
    cases digits with
    | nil => rfl
    | cons c t =>
      have hc : isDigit c = true := h c rfl
      have h45 : c ≠ 45 := by rintro rfl; exact absurd hc (by decide)
      have h43 : c ≠ 43 := by rintro rfl; exact absurd hc (by decide)
      simp only [signed, Bool.false_eq_true, if_false]
      unfold splitSign
      split
      · next heq => exact absurd (List.cons.inj heq).1 h45
      · next heq => exact absurd (List.cons.inj heq).1 h43
      · rfl

theorem mem_signed {negative : Bool} {digits : JsString} (h : ∀ c ∈ digits, isDigit c = true) :
    ∀ c ∈ signed negative digits, isDigit c = true ∨ c = 45 := by
  intro c hc
  cases negative with
  | true => exact (List.mem_cons.mp hc).symm.imp (h c) id
  | false => exact .inl (h c hc)

/-- The characters of decimal literals. -/
def isLiteralUnit (c : CodeUnit) : Bool := isDigit c || [43, 45, 46, 101].contains c

theorem isLiteralUnit_cases {c : CodeUnit} (h : isLiteralUnit c = true) :
    isDigit c = true ∨ c = 43 ∨ c = 45 ∨ c = 46 ∨ c = 101 := by
  simpa [isLiteralUnit] using h

theorem isLiteralUnit_signed {negative : Bool} {text : JsString}
    (h : ∀ c ∈ text, isLiteralUnit c = true) :
    ∀ c ∈ signed negative text, isLiteralUnit c = true := by
  intro c hc
  cases negative with
  | true =>
    rcases List.mem_cons.mp hc with rfl | hc
    · decide
    · exact h c hc
  | false => exact h c hc

theorem signed_ne_nil {text : JsString} (negative : Bool) (h : text ≠ []) :
    signed negative text ≠ [] := by
  cases negative with
  | true => exact List.cons_ne_nil _ _
  | false => exact h

/-- A decimal literal is trimmed, and no literal in another radix. -/
theorem literal_shape {text : JsString} (hne : text ≠ [])
    (h : ∀ c ∈ text, isLiteralUnit c = true) : Trimmed text ∧ nonDecimal text = none := by
  constructor
  · refine .of_forall hne fun c hc => ?_
    rcases isLiteralUnit_cases (h c hc) with hd | rfl | rfl | rfl | rfl
    · exact isWhiteSpace_of_isDigit hd
    all_goals decide
  · -- The second character of a prefix is another letter.
    have hlow : ∀ x, x ∈ lower (text.take 2) → isLiteralUnit x = true := by
      intro x hx
      obtain ⟨c, hc, rfl⟩ := List.mem_map.mp hx
      have hlit := h c (List.mem_of_mem_take hc)
      rcases isLiteralUnit_cases hlit with hd | rfl | rfl | rfl | rfl
      · rwa [lowerUnit_of_isDigit hd]
      all_goals decide
    unfold nonDecimal
    split
    · next heq => exact absurd (hlow 120 (by simp [heq])) (by decide)
    · next heq => exact absurd (hlow 111 (by simp [heq])) (by decide)
    · next heq => exact absurd (hlow 98 (by simp [heq])) (by decide)
    · rfl

/-- Signed digits are trimmed, and no literal in another radix. -/
theorem signed_shape (negative : Bool) {digits : JsString} (hne : digits ≠ [])
    (h : ∀ c ∈ digits, isDigit c = true) :
    Trimmed (signed negative digits) ∧ nonDecimal (signed negative digits) = none :=
  literal_shape (signed_ne_nil negative hne)
    (isLiteralUnit_signed fun c hc => by rw [isLiteralUnit, h c hc, Bool.true_or])

theorem Number_digits (negative : Bool) {digits : JsString} (hne : digits ≠ [])
    (h : ∀ c ∈ digits, isDigit c = true) (hlt : digitsValue digits < 2 ^ 53) :
    Number (signed negative digits) = .ofSigned negative (digitsValue digits) := by
  obtain ⟨htrim, hdec⟩ := signed_shape negative hne h
  have hinf : digits ≠ js "Infinity" := by
    rintro rfl
    exact absurd (h 73 (by decide)) (by decide)
  have hwhole : digits.takeWhile isDigit = digits := List.takeWhile_eq_self_iff.mpr h
  have hrest : digits.dropWhile isDigit = [] := List.dropWhile_eq_nil_iff.mpr h
  simp only [Number, trim_eq_self htrim, if_neg htrim.ne_nil, hdec, decimalLiteral,
    splitSign_signed negative fun c hc => h c (List.mem_of_mem_head? hc), if_neg hinf, hwhole, hrest, exponentPart]
  simpa [hne] using toDouble_nat negative hlt

theorem BigInt_digits (negative : Bool) {digits : JsString} (hne : digits ≠ [])
    (h : ∀ c ∈ digits, isDigit c = true) :
    BigInt (signed negative digits) =
      some (if negative then -(digitsValue digits : Int) else digitsValue digits) := by
  obtain ⟨htrim, hdec⟩ := signed_shape negative hne h
  have hall : digits.all isDigit = true := List.all_eq_true.mpr h
  simp only [BigInt, trim_eq_self htrim, if_neg htrim.ne_nil, hdec, splitSign_signed negative fun c hc => h c (List.mem_of_mem_head? hc)]
  simp [hne, hall]

end Lionden
