import Mathlib.Data.List.DropRight
import Mathlib.Data.List.Infix

/-!
# JS strings

A JS string is a sequence of UTF-16 code units: its length, its indices and the order of its
characters are those of the code units, and a string may be cut between any two of them (also
inside a surrogate pair).

* `trim`, `trim_eq_self`, `trim_append_spaces`: `String.prototype.trim`.
* `lower`, `lower_append`: how a regular expression with the `i` flag compares ASCII letters.
* `decimal`, `digitsValue_decimal`: decimal digits and their value.
-/

namespace Lionden

/-- A UTF-16 code unit. -/
abbrev CodeUnit := UInt16

/-- A JS string. -/
abbrev JsString := List CodeUnit

instance : LawfulBEq JsString := inferInstance

/-- What holds of every character of a string is decided on the string, and not on all code units. -/
instance (priority := 2000) {p : CodeUnit → Prop} [DecidablePred p] (s : JsString) :
    Decidable (∀ c ∈ s, p c) :=
  List.decidableBAll p s

/-- The code unit of an ASCII character of the source. -/
def unit (c : Char) : CodeUnit := UInt16.ofNat c.toNat

/-- The JS string of an ASCII literal of the source. -/
def js (s : String) : JsString := s.toList.map unit

/-- `lo <= ch && ch <= hi` on one-character strings. -/
def inRange (lo hi : Char) (ch : CodeUnit) : Bool :=
  decide (lo.toNat ≤ ch.toNat) && decide (ch.toNat ≤ hi.toNat)

def isDigit (ch : CodeUnit) : Bool := inRange '0' '9' ch

/-- `s.includes(t)`. -/
def includes (s t : JsString) : Bool := decide (t <:+: s)

/-- `s.endsWith(t)`. -/
def endsWith (s t : JsString) : Bool := decide (t <:+ s)

/-! ## White space -/

/-- White space and line terminators. -/
def isWhiteSpace (ch : CodeUnit) : Bool :=
  [9, 10, 11, 12, 13, 32, 160, 5760, 8232, 8233, 8239, 8287, 12288, 65279].contains ch ||
    decide (8192 ≤ ch.toNat) && decide (ch.toNat ≤ 8202)

/-- `s.trim()`. -/
def trim (s : JsString) : JsString := (s.dropWhile isWhiteSpace).rdropWhile isWhiteSpace

def Spaces (w : JsString) : Prop := ∀ c ∈ w, isWhiteSpace c = true

/-- `s` is not empty, and neither begins nor ends with white space. -/
structure Trimmed (s : JsString) : Prop where
  ne_nil : s ≠ []
  head : ∀ c, s.head? = some c → isWhiteSpace c = false
  last : ∀ c, s.getLast? = some c → isWhiteSpace c = false

theorem Spaces.nil : Spaces [] := by simp [Spaces]

theorem Spaces.space : Spaces [32] := by simp [Spaces, isWhiteSpace]

theorem Spaces.append {a b : JsString} (ha : Spaces a) (hb : Spaces b) : Spaces (a ++ b) :=
  fun c hc => (List.mem_append.mp hc).elim (ha c) (hb c)

theorem trim_spaces {w : JsString} (hw : Spaces w) : trim w = [] := by
  have : w.dropWhile isWhiteSpace = [] := List.dropWhile_eq_nil_iff.mpr hw
  simp [trim, this]

/-- White space around a trimmed text goes away. -/
theorem spaces_of_trim {s : JsString} (h : trim s = []) : Spaces s := by
  have hdrop : s.dropWhile isWhiteSpace = [] := by
    cases hs : s.dropWhile isWhiteSpace with
    | nil => rfl
    | cons c rest =>
      rw [trim, List.rdropWhile_eq_nil_iff] at h
      have hc := List.head_dropWhile_not isWhiteSpace (by rw [hs]; exact List.cons_ne_nil c rest)
      simp only [hs, List.head_cons] at hc
      exact absurd (h c (hs ▸ List.mem_cons_self)) (by rw [hc]; exact Bool.false_ne_true)
  exact List.dropWhile_eq_nil_iff.mp hdrop

theorem trim_append_spaces {w s w' : JsString} (hw : Spaces w) (hs : Trimmed s) (hw' : Spaces w') :
    trim (w ++ s ++ w') = s := by
  obtain ⟨c, t, rfl⟩ := List.exists_cons_of_ne_nil hs.ne_nil
  have hc := hs.head c rfl
  have hdrop : (w ++ (c :: t) ++ w').dropWhile isWhiteSpace = (c :: t) ++ w' := by
    rw [List.append_assoc, List.dropWhile_append_of_pos hw]
    simp [hc]
  rw [trim, hdrop, List.rdropWhile, List.reverse_append,
    List.dropWhile_append_of_pos (by simpa [Spaces] using hw')]
  have hlast : ((c :: t).reverse.dropWhile isWhiteSpace) = (c :: t).reverse := by
    cases hr : (c :: t).reverse with
    | nil => rfl
    | cons d u =>
      have hd : isWhiteSpace d = false := hs.last d (by
        rw [List.getLast?_eq_head?_reverse, hr]
        rfl)
      simp [hd]
  rw [hlast, List.reverse_reverse]

theorem trim_eq_self {s : JsString} (hs : Trimmed s) : trim s = s := by
  simpa using trim_append_spaces .nil hs .nil

/-- What `trim` leaves out. -/
theorem exists_spaces_trim (s : JsString) :
    ∃ w w', Spaces w ∧ Spaces w' ∧ s = w ++ trim s ++ w' := by
  refine ⟨s.takeWhile isWhiteSpace, (s.dropWhile isWhiteSpace).rtakeWhile isWhiteSpace,
    fun c hc => List.mem_takeWhile_imp hc, fun c hc => ?_, ?_⟩
  · exact List.mem_takeWhile_imp (List.mem_reverse.mp hc)
  · rw [List.append_assoc, trim, List.rdropWhile, List.rtakeWhile, ← List.reverse_append,
      List.takeWhile_append_dropWhile, List.reverse_reverse, List.takeWhile_append_dropWhile]

theorem trimmed_trim {s : JsString} (h : trim s ≠ []) : Trimmed (trim s) := by
  refine ⟨h, fun c hc => ?_, fun c hc => ?_⟩
  · obtain ⟨rest, hrest⟩ := List.head?_eq_some_iff.mp hc
    have hdrop : (s.dropWhile isWhiteSpace).head? = some c := by
      obtain ⟨w, hw⟩ := List.rdropWhile_prefix isWhiteSpace (s.dropWhile isWhiteSpace)
      rw [← hw, show List.rdropWhile isWhiteSpace (s.dropWhile isWhiteSpace) = c :: rest from hrest]
      rfl
    have hnot := List.head?_dropWhile_not isWhiteSpace s
    rw [hdrop] at hnot
    simpa using hnot
  · have hlast := List.rdropWhile_last_not isWhiteSpace (s.dropWhile isWhiteSpace) h
    rw [List.getLast?_eq_some_getLast h] at hc
    obtain rfl := Option.some.inj hc
    exact Bool.eq_false_iff.mpr hlast

/-- A text without white space is trimmed. -/
theorem Trimmed.of_forall {s : JsString} (hne : s ≠ []) (h : ∀ c ∈ s, isWhiteSpace c = false) :
    Trimmed s :=
  ⟨hne, fun c hc => h c (List.mem_of_mem_head? (by simp [hc])),
    fun c hc => h c (List.mem_of_getLast? hc)⟩

theorem isDigit_iff {c : CodeUnit} : isDigit c = true ↔ 48 ≤ c.toNat ∧ c.toNat ≤ 57 := by
  have h0 : '0'.toNat = 48 := rfl
  have h9 : '9'.toNat = 57 := rfl
  simp [isDigit, inRange, h0, h9]

theorem isWhiteSpace_of_isDigit {c : CodeUnit} (h : isDigit c = true) : isWhiteSpace c = false := by
  rw [isDigit_iff] at h
  simp only [isWhiteSpace, List.contains_eq_mem, List.mem_cons, List.not_mem_nil, or_false,
    Bool.or_eq_false_iff, decide_eq_false_iff_not, Bool.and_eq_false_iff, ← UInt16.toNat_inj]
  refine ⟨?_, ?_⟩ <;> simp <;> omega

/-! ## Case -/

/-- `A` to `Z` become `a` to `z`. -/
def lowerUnit (ch : CodeUnit) : CodeUnit := if inRange 'A' 'Z' ch then ch + 32 else ch

/-- What the `i` flag compares: only ASCII letters are matched in either case against ASCII. -/
def lower (s : JsString) : JsString := s.map lowerUnit

theorem toNat_lowerUnit (c : CodeUnit) :
    (lowerUnit c).toNat = if 65 ≤ c.toNat ∧ c.toNat ≤ 90 then c.toNat + 32 else c.toNat := by
  have hA : 'A'.toNat = 65 := rfl
  have hZ : 'Z'.toNat = 90 := rfl
  simp only [lowerUnit, inRange, hA, hZ, Bool.and_eq_true, decide_eq_true_eq]
  split
  · next h =>
    rw [UInt16.toNat_add]
    exact Nat.mod_eq_of_lt (by simp; omega)
  · rfl

theorem lowerUnit_of_isDigit {c : CodeUnit} (h : isDigit c = true) : lowerUnit c = c := by
  rw [isDigit_iff] at h
  rw [← UInt16.toNat_inj, toNat_lowerUnit, if_neg (by omega)]

theorem lowerUnit_lowerUnit (c : CodeUnit) : lowerUnit (lowerUnit c) = lowerUnit c := by
  rw [← UInt16.toNat_inj, toNat_lowerUnit (lowerUnit c), toNat_lowerUnit c]
  grind

theorem lower_lower (s : JsString) : lower (lower s) = lower s := by
  rw [lower, lower, List.map_map]
  exact List.map_congr_left fun c _ => lowerUnit_lowerUnit c

theorem lower_append (a b : JsString) : lower (a ++ b) = lower a ++ lower b := List.map_append

/-! ## Decimal digits -/

def digitUnit (d : Nat) : CodeUnit := UInt16.ofNat (48 + d)

/-- `n.toString()` of a natural number. -/
def decimal (n : Nat) : JsString :=
  if n < 10 then [digitUnit n] else decimal (n / 10) ++ [digitUnit (n % 10)]

/-- `i.toString()` of an integer. -/
def intString (i : Int) : JsString :=
  if i < 0 then unit '-' :: decimal i.natAbs else decimal i.natAbs

/-- The number that decimal digits write. -/
def digitsValue (s : JsString) : Nat := s.foldl (fun acc c => 10 * acc + (c.toNat - 48)) 0

theorem digitUnit_toNat {d : Nat} (h : d < 10) : (digitUnit d).toNat = 48 + d := by
  have hsmall : 48 + d < 65536 := by omega
  simp [digitUnit, hsmall]

theorem isDigit_digitUnit {d : Nat} (h : d < 10) : isDigit (digitUnit d) = true := by
  have hlo : '0'.toNat = 48 := rfl
  have hhi : '9'.toNat = 57 := rfl
  simp only [isDigit, inRange, digitUnit_toNat h, hlo, hhi, Bool.and_eq_true, decide_eq_true_eq]
  omega

theorem digitsValue_decimal (n : Nat) : digitsValue (decimal n) = n := by
  fun_induction decimal n with
  | case1 n h =>
    simp only [digitsValue, List.foldl_cons, List.foldl_nil, digitUnit_toNat h]
    omega
  | case2 n h ih =>
    have hd : n % 10 < 10 := Nat.mod_lt _ (by decide)
    simp only [digitsValue, List.foldl_append, List.foldl_cons, List.foldl_nil] at ih ⊢
    rw [ih, digitUnit_toNat hd]
    omega

theorem isDigit_of_mem_decimal {n : Nat} : ∀ c ∈ decimal n, isDigit c = true := by
  fun_induction decimal n with
  | case1 n h =>
    intro c hc
    rw [List.mem_singleton.mp hc]
    exact isDigit_digitUnit h
  | case2 n h ih =>
    intro c hc
    rcases List.mem_append.mp hc with hc | hc
    · exact ih c hc
    · rw [List.mem_singleton.mp hc]
      exact isDigit_digitUnit (Nat.mod_lt _ (by decide))

theorem decimal_ne_nil (n : Nat) : decimal n ≠ [] := by
  rw [decimal]
  split <;> simp

end Lionden
