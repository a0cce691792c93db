import Lionden.Js.Text

/-!
# The names of arguments (`arg-names.ts`)

* `camelToKebab`, `getPublicArgumentNames`: the spellings under which an argument can be given.
* `eq_of_mem_publicNames`: a name with a capital letter is a spelling of no other argument.
-/

namespace Lionden.Core

def kebabUnit (ch : CodeUnit) : JsString :=
  if inRange 'A' 'Z' ch then [45, lowerUnit ch] else [ch]

/-- Convert camelCase to kebab-case. -/
def camelToKebab (name : JsString) : JsString := name.flatMap kebabUnit

/-- The elements of a set, in the order in which they are added. -/
def getPublicArgumentNames (name : JsString) : List JsString :=
  if camelToKebab name = name then [name] else [name, camelToKebab name]

/-- The argument name as the flag that a user types. -/
def argumentFlagName (name : JsString) : JsString :=
  if name.length = 1 then js "-" ++ name else js "--" ++ name

def BUILT_IN_GLOBAL_ARGUMENT_NAMES : List JsString :=
  ["config", "network", "prove", "verbose", "help", "version"].map js

def BUILT_IN_GLOBAL_ARGUMENT_ALIASES : List (JsString × List JsString) :=
  [(js "help", [js "h"]), (js "version", [js "v"])]

def getReservedBuiltInGlobalArgumentNames : List JsString :=
  BUILT_IN_GLOBAL_ARGUMENT_NAMES.flatMap fun name =>
    getPublicArgumentNames name ++ (BUILT_IN_GLOBAL_ARGUMENT_ALIASES.lookup name).getD []

theorem mem_publicNames {name k : JsString} :
    k ∈ getPublicArgumentNames name ↔ k = name ∨ k = camelToKebab name := by
  unfold getPublicArgumentNames
  split
  · next h => simp [h]
  · simp

theorem self_mem_publicNames (name : JsString) : name ∈ getPublicArgumentNames name :=
  mem_publicNames.mpr (.inl rfl)

theorem not_capital_lowerUnit (ch : CodeUnit) : ¬inRange 'A' 'Z' (lowerUnit ch) = true := by
  intro h
  have hA : 'A'.toNat = 65 := rfl
  have hZ : 'Z'.toNat = 90 := rfl
  simp only [inRange, hA, hZ, Bool.and_eq_true, decide_eq_true_eq, toNat_lowerUnit] at h
  split at h <;> omega

theorem flatMap_kebabUnit (ch : CodeUnit) : (kebabUnit ch).flatMap kebabUnit = kebabUnit ch := by
  have hhyphen : ¬inRange 'A' 'Z' 45 = true := by decide
  by_cases h : inRange 'A' 'Z' ch = true
  · have hch : kebabUnit ch = [45, lowerUnit ch] := if_pos h
    simp only [hch, List.flatMap_cons, List.flatMap_nil, List.append_nil]
    rw [kebabUnit, if_neg hhyphen, kebabUnit, if_neg (not_capital_lowerUnit ch)]
    rfl
  · have hch : kebabUnit ch = [ch] := if_neg h
    rw [hch, List.flatMap_singleton, hch]

theorem camelToKebab_camelToKebab (name : JsString) :
    camelToKebab (camelToKebab name) = camelToKebab name := by
  rw [camelToKebab, camelToKebab, List.flatMap_assoc]
  exact List.flatMap_congr fun ch _ => flatMap_kebabUnit ch

/-- Only a kebab-case name can be the other spelling of an argument. -/
theorem eq_of_mem_publicNames {name k : JsString} (h : k ∈ getPublicArgumentNames name)
    (hcamel : camelToKebab k ≠ k) : k = name := by
  obtain rfl | rfl := mem_publicNames.mp h
  · rfl
  · exact absurd (camelToKebab_camelToKebab name) hcamel

theorem eq_of_camelToKebab {name : JsString} (h : 45 ∉ camelToKebab name) :
    camelToKebab name = name := by
  induction name with
  | nil => rfl
  | cons ch name ih =>
    rw [camelToKebab, List.flatMap_cons, List.mem_append, not_or] at h
    have hch : kebabUnit ch = [ch] := by
      unfold kebabUnit at h ⊢
      split
      · next hcapital => simp [hcapital] at h
      · rfl
    rw [camelToKebab, List.flatMap_cons, hch, List.singleton_append]
    exact congrArg (ch :: ·) (ih h.2)

end Lionden.Core
