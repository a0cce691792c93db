import Lionden.Codegen.Names
import Lionden.Js.Stringify
import Lionden.Lib.InsertionMap

/-!
# The keys of mappings, storage variables and views (`typescript-generator.ts`)

The generated contract has an object with a property for each mapping, and others for the storage
variables and the views. `buildMappingPropKeys`, `buildStoragePropKeys` and `buildViewPropKeys` are
`buildStatePropKeys` of the names.

* `toCamelCase`, `toCamelCase_idem`: the names of properties, and that they are their own.
* `buildStatePropKeys`: the token for the key of each name.
* `stateKey_injective`: different names have different keys.
-/

namespace Lionden.Codegen.Bindings

/-! ## Camel case -/

def isAlphanumeric (c : CodeUnit) : Bool := isLetter c || isDigit c

/-- `rest.replace(/_+([a-zA-Z0-9])/g, (_, c) => c.toUpperCase())`, after `n` underscores. -/
def camelize : Nat → JsString → JsString
  | n, [] => List.replicate n (unit '_')
  | n, c :: rest =>
    if c = unit '_' then camelize (n + 1) rest
    else if 0 < n ∧ isAlphanumeric c then toUpperCase c :: camelize 0 rest
    else List.replicate n (unit '_') ++ c :: camelize 0 rest

/-- `toCamelCase(name)`: underscores at the beginning stay. -/
def toCamelCase (name : JsString) : JsString :=
  name.takeWhile (· = unit '_') ++ camelize 0 (name.dropWhile (· = unit '_'))

theorem camelize_underscores (m n : Nat) (s : JsString) :
    camelize m (List.replicate n (unit '_') ++ s) = camelize (m + n) s := by
  induction n generalizing m with
  | zero => rfl
  | succ n ih =>
    rw [List.replicate_succ, List.cons_append, camelize, if_pos rfl, ih]
    congr 1
    omega

theorem toUpperCase_ne_underscore {c : CodeUnit} (h : isAlphanumeric c = true) :
    toUpperCase c ≠ unit '_' := by
  rcases Bool.or_eq_true_iff.mp h with hletter | hdigit
  · intro heq
    have hupper := isUpper_toUpperCase hletter
    rw [heq] at hupper
    exact absurd hupper (by decide)
  · unfold toUpperCase
    have hlower : inRange 'a' 'z' c = false := by
      rw [isDigit_iff] at hdigit
      have ha : 'a'.toNat = 97 := rfl
      simp only [inRange, ha, Bool.and_eq_false_iff, decide_eq_false_iff_not]
      omega
    rw [hlower]
    rintro rfl
    exact absurd hdigit (by decide)

theorem camelize_idem (n : Nat) (s : JsString) : camelize 0 (camelize n s) = camelize n s := by
  induction s generalizing n with
  | nil =>
    have h := camelize_underscores 0 n []
    rw [List.append_nil] at h
    rw [camelize, h, Nat.zero_add, camelize]
  | cons c rest ih =>
    rw [camelize]
    by_cases hunderscore : c = unit '_'
    · rw [if_pos hunderscore]
      exact ih (n + 1)
    · rw [if_neg hunderscore]
      by_cases hboundary : 0 < n ∧ isAlphanumeric c = true
      · rw [if_pos hboundary, camelize, if_neg (toUpperCase_ne_underscore hboundary.2),
          if_neg fun h => absurd h.1 (Nat.lt_irrefl 0), ih]
        rfl
      · rw [if_neg hboundary, camelize_underscores, Nat.zero_add, camelize, if_neg hunderscore,
          if_neg hboundary, ih]

/-- What begins with no underscore does not in camel case. -/
theorem head?_camelize {s : JsString} (h : s.head? ≠ some (unit '_')) :
    (camelize 0 s).head? ≠ some (unit '_') := by
  cases s with
  | nil => exact h
  | cons c rest =>
    have hc : c ≠ unit '_' := fun heq => h (congrArg some heq)
    rw [camelize, if_neg hc, if_neg fun h => absurd h.1 (Nat.lt_irrefl 0)]
    exact h

/-- A name is what its underscores and the rest are made into. -/
theorem toCamelCase_append {lead rest : JsString} (hlead : ∀ c ∈ lead, c = unit '_')
    (hrest : rest.head? ≠ some (unit '_')) : toCamelCase (lead ++ rest) = lead ++ camelize 0 rest := by
  have hall : ∀ c ∈ lead, decide (c = unit '_') = true := fun c hc => decide_eq_true (hlead c hc)
  have hnone : rest.takeWhile (· = unit '_') = [] ∧ rest.dropWhile (· = unit '_') = rest := by
    cases rest with
    | nil => exact ⟨rfl, rfl⟩
    | cons c rest =>
      have hc : ¬decide (c = unit '_') = true :=
        fun h => hrest (congrArg some (of_decide_eq_true h))
      exact ⟨List.takeWhile_cons_of_neg hc, List.dropWhile_cons_of_neg hc⟩
  unfold toCamelCase
  rw [List.takeWhile_append_of_pos hall, List.dropWhile_append_of_pos hall, hnone.1, hnone.2,
    List.append_nil]

/-- **A name in camel case is its own.** -/
theorem toCamelCase_idem (name : JsString) : toCamelCase (toCamelCase name) = toCamelCase name := by
  have hlead : ∀ c ∈ name.takeWhile (· = unit '_'), c = unit '_' := by
    intro c hc
    have hunderscore := List.mem_takeWhile_imp hc
    rwa [decide_eq_true_eq] at hunderscore
  have hrest : (name.dropWhile (· = unit '_')).head? ≠ some (unit '_') := by
    intro h
    have hnot := List.head?_dropWhile_not (· = unit '_') name
    rw [h] at hnot
    exact absurd hnot (by decide)
  have h := toCamelCase_append hlead (head?_camelize hrest)
  rw [camelize_idem] at h
  exact h

/-! ## Keys -/

/-- `/^[A-Za-z_$][A-Za-z0-9_$]*$/`. -/
def isValidIdentifier : JsString → Bool
  | [] => false
  | c :: rest => (isIdentifierStart c || c = unit '$') &&
    rest.all fun d => isIdentifierPart d || d = unit '$'

/-- The names by what they are in camel case. -/
def stateGroups (names : List JsString) : InsertionMap JsString (List JsString) :=
  names.foldl (fun groups name =>
    groups.set (toCamelCase name) ((groups.get? (toCamelCase name)).getD [] ++ [name])) .empty

/-- The tokens of the names of one group. -/
def groupTokens : JsString × List JsString → List (JsString × JsString)
  | (_, []) => []
  | (camel, [original]) =>
    [(original, if isValidIdentifier camel then camel else jsonStringify camel)]
  | (_, originals) => originals.map fun original => (original, jsonStringify original)

/-- `buildStatePropKeys(entries)`. -/
def buildStatePropKeys (names : List JsString) : InsertionMap JsString JsString :=
  .ofList ((stateGroups names).entries.flatMap groupTokens)

/-- `propKeys.get(name) ?? JSON.stringify(name)`. -/
def propKey (names : List JsString) (name : JsString) : JsString :=
  ((buildStatePropKeys names).get? name).getD (jsonStringify name)

/-- The key that a token stands for in an object: an identifier is its own, and what is quoted is
read. -/
def denotedKey (token : JsString) : Option JsString :=
  if isValidIdentifier token then some token
  else match JSON.parse token with
    | some (.string key) => some key
    | _ => none

theorem denotedKey_jsonStringify (s : JsString) : denotedKey (jsonStringify s) = some s := by
  have hquoted : isValidIdentifier (jsonStringify s) = false := by
    unfold jsonStringify isValidIdentifier
    rfl
  obtain ⟨text, htext, hparse⟩ := JSON.parse_stringify (.string s)
  obtain rfl : jsonStringify s = text := Option.some.inj htext
  unfold denotedKey
  rw [hquoted, hparse]
  rfl

/-- The names with the camel case of a name. -/
def sharing (names : List JsString) (camel : JsString) : List JsString :=
  names.filter fun name => toCamelCase name = camel

theorem stateGroups_get? (names : List JsString) (camel : JsString) :
    (stateGroups names).get? camel =
      if sharing names camel = [] then none else some (sharing names camel) := by
  induction names using List.reverseRecOn with
  | nil => rfl
  | append_singleton names name ih =>
    have hsharing : sharing (names ++ [name]) camel =
        sharing names camel ++ if toCamelCase name = camel then [name] else [] := by
      unfold sharing
      rw [List.filter_append]
      by_cases h : toCamelCase name = camel <;> simp [h]
    unfold stateGroups at ih ⊢
    rw [List.foldl_append, List.foldl_cons, List.foldl_nil, InsertionMap.get?_set, hsharing]
    by_cases hcamel : camel = toCamelCase name
    · subst hcamel
      have hsome : sharing names (toCamelCase name) ++ [name] ≠ [] := by simp
      rw [if_pos rfl, if_pos rfl, ih, if_neg hsome]
      by_cases hnone : sharing names (toCamelCase name) = []
      · rw [if_pos hnone, hnone]
        rfl
      · rw [if_neg hnone]
        rfl
    · rw [if_neg hcamel, if_neg (Ne.symm hcamel), List.append_nil]
      exact ih

/-- What the tokens of a group say. -/
theorem mem_groupTokens {camel : JsString} {originals : List JsString} {name token : JsString}
    (h : (name, token) ∈ groupTokens (camel, originals)) :
    name ∈ originals ∧
      denotedKey token = some (if 1 < originals.length then name else camel) := by
  match originals with
  | [original] =>
    obtain ⟨rfl, rfl⟩ := Prod.mk.inj (List.mem_singleton.mp h)
    refine ⟨List.mem_cons_self, ?_⟩
    have hone : ¬1 < [name].length := Nat.lt_irrefl 1
    rw [if_neg hone]
    by_cases hvalid : isValidIdentifier camel = true
    · rw [if_pos hvalid]
      unfold denotedKey
      rw [if_pos hvalid]
    · rw [if_neg hvalid]
      exact denotedKey_jsonStringify camel
  | first :: second :: rest =>
    obtain ⟨original, hmem, heq⟩ := List.mem_map.mp h
    obtain ⟨rfl, rfl⟩ := Prod.mk.inj heq
    refine ⟨hmem, ?_⟩
    rw [denotedKey_jsonStringify, if_pos (by simp)]

theorem exists_groupTokens {camel : JsString} {originals : List JsString} {name : JsString}
    (h : name ∈ originals) : ∃ token, (name, token) ∈ groupTokens (camel, originals) := by
  match originals with
  | [original] =>
    obtain rfl := List.mem_singleton.mp h
    exact ⟨_, List.mem_singleton_self _⟩
  | first :: second :: rest => exact ⟨_, List.mem_map_of_mem h⟩

/-- The key of a name: its camel case, unless other names share it. -/
theorem denotedKey_propKey {names : List JsString} {name : JsString} (h : name ∈ names) :
    denotedKey (propKey names name) =
      some (if 1 < (sharing names (toCamelCase name)).length then name else toCamelCase name) := by
  have hshares : name ∈ sharing names (toCamelCase name) :=
    List.mem_filter.mpr ⟨h, decide_eq_true rfl⟩
  have hgroup : (toCamelCase name, sharing names (toCamelCase name)) ∈
      (stateGroups names).entries := by
    rw [← InsertionMap.get?_eq_some_iff, stateGroups_get?, if_neg (List.ne_nil_of_mem hshares)]
  obtain ⟨token, htoken⟩ := @exists_groupTokens (toCamelCase name) _ _ hshares
  obtain ⟨token, htoken⟩ := InsertionMap.exists_get?_ofList
    (List.mem_flatMap.mpr ⟨_, hgroup, htoken⟩)
  -- Whichever group the token is of, it is that of the name.
  obtain ⟨⟨camel, originals⟩, hentry, hmem⟩ :=
    List.mem_flatMap.mp (InsertionMap.mem_of_get?_ofList htoken)
  obtain ⟨hname, hkey⟩ := mem_groupTokens hmem
  rw [← InsertionMap.get?_eq_some_iff, stateGroups_get?] at hentry
  split at hentry
  · exact nomatch hentry
  obtain rfl := Option.some.inj hentry
  obtain rfl : toCamelCase name = camel := by
    have hcamel := (List.mem_filter.mp hname).2
    rwa [decide_eq_true_eq] at hcamel
  unfold propKey buildStatePropKeys
  rw [htoken]
  exact hkey

/-- **Every name has a key, and different names have different ones.** -/
theorem propKey_injective (names : List JsString) :
    (∀ name ∈ names, (denotedKey (propKey names name)).isSome) ∧
      ∀ name ∈ names, ∀ name' ∈ names,
        denotedKey (propKey names name) = denotedKey (propKey names name') → name = name' := by
  refine ⟨fun name hname => by rw [denotedKey_propKey hname]; rfl, fun name hname name' hname' h => ?_⟩
  rw [denotedKey_propKey hname, denotedKey_propKey hname'] at h
  have h := Option.some.inj h
  -- A name that is kept as it is and shares its camel case is not the camel case of another.
  have hmixed {shared single : JsString}
      (hshared : 1 < (sharing names (toCamelCase shared)).length)
      (hsingle : ¬1 < (sharing names (toCamelCase single)).length)
      (heq : shared = toCamelCase single) : False := by
    rw [heq, toCamelCase_idem] at hshared
    exact hsingle hshared
  by_cases hshared : 1 < (sharing names (toCamelCase name)).length
  · by_cases hshared' : 1 < (sharing names (toCamelCase name')).length
    · rwa [if_pos hshared, if_pos hshared'] at h
    · rw [if_pos hshared, if_neg hshared'] at h
      exact (hmixed hshared hshared' h).elim
  · by_cases hshared' : 1 < (sharing names (toCamelCase name')).length
    · rw [if_neg hshared, if_pos hshared'] at h
      exact (hmixed hshared' hshared h.symm).elim
    · rw [if_neg hshared, if_neg hshared'] at h
      have hmem : name ∈ sharing names (toCamelCase name) :=
        List.mem_filter.mpr ⟨hname, decide_eq_true rfl⟩
      have hmem' : name' ∈ sharing names (toCamelCase name) :=
        List.mem_filter.mpr ⟨hname', decide_eq_true h.symm⟩
      match hlist : sharing names (toCamelCase name) with
      | [] => rw [hlist] at hmem; exact nomatch hmem
      | [only] =>
        rw [hlist] at hmem hmem'
        exact (List.mem_singleton.mp hmem).trans (List.mem_singleton.mp hmem').symm
      | first :: second :: rest => exact absurd (by simp [hlist]) hshared

end Lionden.Codegen.Bindings
