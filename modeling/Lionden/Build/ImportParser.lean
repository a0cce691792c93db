import Lionden.Build.Rename
import Lionden.Lib.Matches
import Lionden.Lib.Word

/-!
# Imports (`import-parser.ts`)

What a source refers to is what three regular expressions find in it, when its comments and strings
are blank. Each of them is searched for globally: after a match, the search goes on where it ends.

* `matchImport`, `matchCall`: the regular expressions at one place.
* `parseImports`: the search.
* `Refers`: a reference, wherever it stands.
* `parseImports_iff`: no reference is missed, and nothing else is found.
-/

namespace Lionden.Build

open Codegen (isIdentifierPart)
open Matches

/-! ## The search -/

/-- `import\s+([\w]+\.aleo)\s*;` at the beginning of a text, with the length of the match. -/
def matchImport (text : JsString) : Option (JsString × Nat) :=
  if startsWith text (js "import") then
    let rest := text.drop 6
    let spaces := rest.takeWhile isWhiteSpace
    let rest := rest.dropWhile isWhiteSpace
    let word := rest.takeWhile isIdentifierPart
    let rest := rest.dropWhile isIdentifierPart
    let trail := (rest.drop 5).takeWhile isWhiteSpace
    if spaces ≠ [] ∧ word ≠ [] ∧ startsWith rest (js ".aleo") ∧
        startsWith ((rest.drop 5).dropWhile isWhiteSpace) (js ";") then
      some (word ++ js ".aleo", 6 + spaces.length + word.length + 5 + trail.length + 1)
    else none
  else none

/-- `([\w]+\.aleo)` and a separator, at the beginning of a text. -/
def matchCall (separator text : JsString) : Option (JsString × Nat) :=
  let word := text.takeWhile isIdentifierPart
  let rest := text.dropWhile isIdentifierPart
  if word ≠ [] ∧ startsWith rest (js ".aleo" ++ separator) then
    some (word ++ js ".aleo", word.length + 5 + separator.length)
  else none

/-- The ids in a scrubbed source: those of the declarations, and those of the calls in the two
notations. -/
def importsOf (content : JsString) : List JsString :=
  matchAll matchImport 0 content ++ matchAll (matchCall (js "::")) 0 content ++
    matchAll (matchCall (js "/")) 0 content

/-- `parseImports(sourceDir, relativeFiles)`, where `read` gives the texts of the files. -/
def parseImports (read : JsString → JsString → JsString) (sourceDir : JsString)
    (relativeFiles : List JsString) : List JsString :=
  (relativeFiles.flatMap fun relFile =>
    importsOf (stripCommentsAndStrings (read sourceDir relFile))).eraseDups

/-! ## One place -/

theorem dot_head {text : JsString} {c : CodeUnit} (h : (js ".aleo" ++ text).head? = some c) :
    isIdentifierPart c = false := by
  obtain rfl := Option.some.inj h
  decide

theorem dot_cons {text t : JsString} {c : CodeUnit} (h : js ".aleo" ++ text = c :: t) :
    isIdentifierPart c = false :=
  @dot_head text c (by rw [h]; rfl)

theorem matchCall_eq_some {separator text id : JsString} {n : Nat} :
    matchCall separator text = some (id, n) ↔ ∃ word rest,
      text = word ++ (js ".aleo" ++ (separator ++ rest)) ∧ Word word ∧ id = word ++ js ".aleo" ∧
        n = word.length + 5 + separator.length := by
  unfold matchCall
  dsimp only
  constructor
  · intro h
    split at h
    case isFalse => cases h
    next hcond =>
    obtain ⟨hword, haleo⟩ := hcond
    cases h
    obtain ⟨rest, hrest⟩ := of_decide_eq_true haleo
    refine ⟨_, rest, ?_, ⟨hword, fun d hd => List.mem_takeWhile_imp hd⟩, rfl, rfl⟩
    rw [List.append_assoc] at hrest
    rw [hrest, List.takeWhile_append_dropWhile]
  · rintro ⟨word, rest, rfl, ⟨hword, hpart⟩, rfl, rfl⟩
    have hdot : ∀ c, (js ".aleo" ++ (separator ++ rest)).head? = some c →
        isIdentifierPart c = false := fun _ => dot_head
    obtain ⟨htake, hdrop⟩ := RegExp.takeWhile_dropWhile hpart hdot
    rw [htake, hdrop, if_pos]
    refine ⟨hword, ?_⟩
    rw [← List.append_assoc]
    exact startsWith_append ..

theorem matchImport_eq_some {text id : JsString} {n : Nat} :
    matchImport text = some (id, n) ↔ ∃ spaces word trail rest,
      text = js "import" ++ (spaces ++ (word ++ (js ".aleo" ++ (trail ++ (js ";" ++ rest))))) ∧
        spaces ≠ [] ∧ Spaces spaces ∧ Word word ∧ Spaces trail ∧ id = word ++ js ".aleo" ∧
        n = 6 + spaces.length + word.length + 5 + trail.length + 1 := by
  have hdrop (rest : JsString) : (js "import" ++ rest).drop 6 = rest := by
    have hlength : (js "import").length = 6 := by decide
    rw [← hlength, List.drop_left]
  constructor
  · intro h
    unfold matchImport at h
    split at h
    case isFalse => cases h
    next himport =>
    obtain ⟨rest, rfl⟩ := of_decide_eq_true himport
    dsimp only at h
    rw [hdrop] at h
    split at h
    case isFalse => cases h
    next hcond =>
    obtain ⟨hspaces, hword, haleo, hsemicolon⟩ := hcond
    cases h
    obtain ⟨tail, htail⟩ := of_decide_eq_true haleo
    rw [← htail, drop_aleo] at hsemicolon ⊢
    obtain ⟨after, hafter⟩ := of_decide_eq_true hsemicolon
    refine ⟨_, _, tail.takeWhile isWhiteSpace, after, ?_, hspaces,
      fun d hd => List.mem_takeWhile_imp hd, ⟨hword, fun d hd => List.mem_takeWhile_imp hd⟩,
      fun d hd => List.mem_takeWhile_imp hd, rfl, rfl⟩
    rw [hafter, List.takeWhile_append_dropWhile, htail, List.takeWhile_append_dropWhile,
      List.takeWhile_append_dropWhile]
  · rintro ⟨spaces, word, trail, rest, rfl, hne, hspaces, ⟨hword, hpart⟩, htrail, rfl, rfl⟩
    have hhead : ∀ d, (word ++ (js ".aleo" ++ (trail ++ (js ";" ++ rest)))).head? = some d →
        isWhiteSpace d = false := by
      intro d hd
      obtain ⟨e, word, rfl⟩ := List.exists_cons_of_ne_nil hword
      obtain rfl := Option.some.inj hd
      rw [← Bool.not_eq_true]
      exact fun hspace => Bool.false_ne_true
        ((isIdentifierPart_of_space hspace).symm.trans (hpart e (List.mem_cons_self ..)))
    have hdot : ∀ c, (js ".aleo" ++ (trail ++ (js ";" ++ rest))).head? = some c →
        isIdentifierPart c = false := fun _ => dot_head
    have hsemicolon : ∀ d, (js ";" ++ rest).head? = some d → isWhiteSpace d = false := by
      intro d hd
      obtain rfl := Option.some.inj hd
      decide
    obtain ⟨hspaces', hrest⟩ := RegExp.takeWhile_dropWhile hspaces hhead
    obtain ⟨hword', htail⟩ := RegExp.takeWhile_dropWhile hpart hdot
    obtain ⟨htrail', hlast⟩ := RegExp.takeWhile_dropWhile htrail hsemicolon
    unfold matchImport
    rw [if_pos (startsWith_append ..)]
    dsimp only
    rw [hdrop, hspaces', hrest, hword', htail, drop_aleo, hlast, htrail', if_pos]
    exact ⟨hne, hword, startsWith_append .., startsWith_append ..⟩

/-! ## Calls do not overlap -/

/-- What separates a program from a function: no word and no dot begins with it. -/
structure Separates (separator : JsString) : Prop where
  ne_nil : separator ≠ []
  no_word : ∀ c ∈ separator, isIdentifierPart c = false
  no_dot : unit '.' ∉ separator

theorem Separates.head {separator rest : JsString} (h : Separates separator) {c : CodeUnit}
    (hc : (separator ++ rest).head? = some c) : isIdentifierPart c = false := by
  obtain ⟨d, separator, rfl⟩ := List.exists_cons_of_ne_nil h.ne_nil
  obtain rfl := Option.some.inj hc
  exact h.no_word d List.mem_cons_self

/-- What begins with a word does not begin with anything else. -/
theorem Word.head {word rest : JsString} (h : Word word) {c : CodeUnit}
    (hc : (word ++ rest).head? = some c) : isIdentifierPart c = true := by
  obtain ⟨d, word, rfl⟩ := List.exists_cons_of_ne_nil h.1
  obtain rfl := Option.some.inj hc
  exact h.2 d List.mem_cons_self

theorem not_word_of_suffix_aleo {z w word rest rest' : JsString} (hz : z ≠ [])
    (hsplit : js ".aleo" = z ++ w) (hword : Word word)
    (hrest : ∀ c, rest.head? = some c → isIdentifierPart c = false ∧ c ≠ unit '.') :
    w ++ rest ≠ word ++ (js ".aleo" ++ rest') := by
  intro h
  have hpart : ∀ c ∈ w, isIdentifierPart c = true := by
    obtain ⟨d, z, rfl⟩ := List.exists_cons_of_ne_nil hz
    obtain ⟨-, htail⟩ := List.cons.inj hsplit
    have hall : ∀ c ∈ js "aleo", isIdentifierPart c = true := by decide
    intro c hc
    refine hall c ?_
    rw [show js "aleo" = z ++ w from htail]
    exact List.mem_append_right z hc
  obtain ⟨-, htail⟩ := Word.run_unique h hpart hword.2 (fun c t ht => (hrest c (ht ▸ rfl)).1)
    fun c t => dot_cons
  exact (hrest (unit '.') (htail ▸ rfl)).2 rfl

/-- A call that begins inside another one begins in its word, and ends with it. -/
theorem matchCall_inside {separator x y b b' : JsString} {n n' : Nat} (hsep : Separates separator)
    (h : matchCall separator (x ++ y) = some (b, n)) (hinside : x.length < n)
    (h' : matchCall separator y = some (b', n')) :
    (∀ c ∈ x, isIdentifierPart c = true) ∧ x.length + n' = n := by
  obtain ⟨word, rest, htext, hword, -, rfl⟩ := matchCall_eq_some.mp h
  obtain ⟨word', rest', rfl, hword', -, rfl⟩ := matchCall_eq_some.mp h'
  have hfollows : ∀ c, (separator ++ rest).head? = some c →
      isIdentifierPart c = false ∧ c ≠ unit '.' := by
    intro c hc
    refine ⟨hsep.head hc, ?_⟩
    obtain ⟨d, tail, hcons⟩ := List.exists_cons_of_ne_nil hsep.ne_nil
    rw [hcons] at hc
    obtain rfl := Option.some.inj hc
    rintro rfl
    exact hsep.no_dot (hcons ▸ List.mem_cons_self)
  rcases List.append_eq_append_iff.mp htext with ⟨z, rfl, hz⟩ | ⟨z, rfl, hz⟩
  · -- In the word.
    obtain ⟨rfl, -⟩ := Word.run_unique hz hword'.2
      (fun c hc => hword.2 c (List.mem_append_right x hc)) (fun c t => dot_cons)
      fun c t => dot_cons
    refine ⟨fun c hc => hword.2 c (List.mem_append_left _ hc), ?_⟩
    rw [List.length_append]
    omega
  · -- After it there is no place for a word and the extension.
    exfalso
    rw [List.length_append] at hinside
    rcases List.append_eq_append_iff.mp hz with ⟨w, rfl, htail⟩ | ⟨w, hw, htail⟩
    · have hfive : (js ".aleo").length = 5 := by decide
      rw [List.length_append] at hinside
      rcases List.append_eq_append_iff.mp htail with ⟨v, rfl, hrest⟩ | ⟨v, hv, hrest⟩
      · rw [List.length_append] at hinside
        omega
      · obtain ⟨c, v, rfl⟩ : ∃ c v', v = c :: v' := by
          refine List.exists_cons_of_ne_nil fun hnil => ?_
          rw [hv, hnil, List.append_nil] at hinside
          omega
        have hhead : (word' ++ (js ".aleo" ++ (separator ++ rest'))).head? = some c := by
          rw [hrest]
          rfl
        have hc := hword'.head hhead
        rw [hsep.no_word c (hv ▸ by simp)] at hc
        cases hc
    · by_cases hnil : z = []
      · rw [hnil, List.nil_append] at hw
        have hdot : (word' ++ (js ".aleo" ++ (separator ++ rest'))).head? = some (unit '.') := by
          rw [htail, ← hw]
          rfl
        exact absurd (hword'.head hdot) (by decide)
      · exact not_word_of_suffix_aleo hnil hw hword' hfollows htail.symm

theorem matchCall_pos {separator s b : JsString} {n : Nat}
    (h : matchCall separator s = some (b, n)) : 0 < n := by
  obtain ⟨_, _, _, _, _, rfl⟩ := matchCall_eq_some.mp h
  omega

/-- A call is found if no word goes on with it. -/
theorem uncovered_call {separator before rest b : JsString} {n : Nat} (hsep : Separates separator)
    (h : matchCall separator rest = some (b, n)) :
    Uncovered (matchCall separator) before rest ↔
      ∀ c ∈ before.getLast?, isIdentifierPart c = false := by
  constructor
  · intro huncovered c hc
    obtain ⟨front, rfl⟩ := List.getLast?_eq_some_iff.mp hc
    by_contra hpart
    obtain ⟨word, rest, rfl, hword, -, -⟩ := matchCall_eq_some.mp h
    have hlonger : matchCall separator ([c] ++ (word ++ (js ".aleo" ++ (separator ++ rest)))) =
        some (c :: word ++ js ".aleo", (c :: word).length + 5 + separator.length) :=
      matchCall_eq_some.mpr ⟨c :: word, rest, rfl, ⟨by simp, List.forall_mem_cons.mpr
        ⟨by simpa using hpart, hword.2⟩⟩, rfl, rfl⟩
    have hlength := huncovered front [c] _ _ rfl (by simp) hlonger
    rw [List.length_cons, List.length_singleton] at hlength
    omega
  · rintro hlast x y b' n' rfl hy h'
    by_contra hinside
    have hpart := (matchCall_inside hsep h' (Nat.not_le.mp hinside) h).1
    obtain ⟨front, c, rfl⟩ := (List.eq_nil_or_concat' y).resolve_left hy
    have hc := hlast c (by rw [← List.append_assoc, List.getLast?_concat]; rfl)
    rw [hpart c (by simp)] at hc
    cases hc

/-! ## Declarations do not overlap -/

/-- What has no `i` is not where a declaration begins. -/
theorem import_ne {z rest tail : JsString} (hz : unit 'i' ∉ z)
    (hrest : z = [] → rest.head? ≠ some (unit 'i')) : z ++ rest ≠ js "import" ++ tail := by
  intro h
  cases z with
  | nil =>
    refine hrest rfl ?_
    rw [show rest = js "import" ++ tail from h]
    rfl
  | cons c z =>
    obtain ⟨rfl, -⟩ := List.cons.inj h
    exact hz List.mem_cons_self

theorem i_notMem_spaces {spaces : JsString} (h : Spaces spaces) : unit 'i' ∉ spaces := by
  intro hmem
  have hi := h _ hmem
  exact absurd hi (by decide)

/-- A word before the extension is not the keyword, since a space follows that. -/
theorem import_ne_word {z rest spaces tail : JsString} (hz : ∀ c ∈ z, isIdentifierPart c = true)
    (hne : spaces ≠ []) (hspaces : Spaces spaces) :
    z ++ (js ".aleo" ++ rest) ≠ js "import" ++ (spaces ++ tail) := by
  intro h
  obtain ⟨c, spaces, rfl⟩ := List.exists_cons_of_ne_nil hne
  have hc : isWhiteSpace c = true := hspaces c List.mem_cons_self
  have hpart : ∀ c ∈ js "import", isIdentifierPart c = true := by decide
  obtain ⟨-, htail⟩ := Word.run_unique h hz hpart (fun c t => dot_cons) fun d t ht => by
    obtain ⟨rfl, -⟩ := List.cons.inj ht
    exact isIdentifierPart_of_space hc
  obtain ⟨hdot, -⟩ := List.cons.inj htail
  rw [← show unit '.' = c from hdot] at hc
  exact absurd hc (by decide)

/-- No declaration begins inside another one. -/
theorem matchImport_inside {x y b b' : JsString} {n n' : Nat}
    (h : matchImport (x ++ y) = some (b, n)) (hx : x ≠ []) (hinside : x.length < n) (h' : matchImport y = some (b', n')) : False := by
  obtain ⟨spaces, word, trail, rest, htext, hne, hspaces, hword, htrail, -, rfl⟩ :=
    matchImport_eq_some.mp h
  obtain ⟨spaces', word', trail', rest', rfl, hne', hspaces', -, -, -, -⟩ :=
    matchImport_eq_some.mp h'
  have hsix : (js "import").length = 6 := by decide
  have hfive : (js ".aleo").length = 5 := by decide
  -- Where the second one begins: in the keyword, the spaces, the word, the extension or after that.
  rcases List.append_eq_append_iff.mp htext with ⟨z, hz, h₁⟩ | ⟨x₁, rfl, h₁⟩
  · refine import_ne (z := z) ?_ (fun hnil => ?_) h₁.symm
    · obtain ⟨c, x, rfl⟩ := List.exists_cons_of_ne_nil hx
      obtain ⟨-, htail⟩ := List.cons.inj hz
      intro hmem
      have hmport : unit 'i' ∉ js "mport" := by decide
      rw [show js "mport" = x ++ z from htail] at hmport
      exact hmport (List.mem_append_right x hmem)
    · obtain ⟨c, spaces, rfl⟩ := List.exists_cons_of_ne_nil hne
      exact fun hc => i_notMem_spaces hspaces (Option.some.inj hc ▸ List.mem_cons_self)
  rcases List.append_eq_append_iff.mp h₁.symm with ⟨z, rfl, h₂⟩ | ⟨x₂, rfl, h₂⟩
  · by_cases hnil : z = []
    · rw [hnil, List.nil_append] at h₂
      exact import_ne_word hword.2 hne' hspaces' h₂.symm
    · refine import_ne (fun hmem => ?_) (fun h => absurd h hnil) h₂.symm
      exact i_notMem_spaces hspaces (List.mem_append_right x₁ hmem)
  rcases List.append_eq_append_iff.mp h₂.symm with ⟨z, rfl, h₃⟩ | ⟨x₃, rfl, h₃⟩
  · exact import_ne_word (fun c hc => hword.2 c (List.mem_append_right x₂ hc)) hne' hspaces' h₃.symm
  have hend {z : JsString} (hz : Spaces z) : (z ++ (js ";" ++ rest)).head? ≠ some (unit 'i') := by
    cases z with
    | nil =>
      intro hc
      exact absurd (Option.some.inj hc) (by decide)
    | cons c z => exact fun hc => i_notMem_spaces hz (Option.some.inj hc ▸ List.mem_cons_self)
  rcases List.append_eq_append_iff.mp h₃.symm with ⟨z, hz, h₄⟩ | ⟨x₄, rfl, h₄⟩
  · refine import_ne (fun hmem => ?_) (fun _ => hend htrail) h₄.symm
    have haleo : unit 'i' ∉ js ".aleo" := by decide
    rw [hz] at haleo
    exact haleo (List.mem_append_right x₃ hmem)
  rcases List.append_eq_append_iff.mp h₄.symm with ⟨z, rfl, h₅⟩ | ⟨x₅, rfl, h₅⟩
  · have hz : Spaces z := fun c hc => htrail c (List.mem_append_right x₄ hc)
    refine import_ne (i_notMem_spaces hz) (fun _ => ?_) h₅.symm
    exact hend (z := []) (by simp [Spaces])
  · simp only [List.length_append] at hinside
    obtain rfl : x₅ = [] := List.length_eq_zero_iff.mp (by omega)
    obtain ⟨hsemicolon, -⟩ := List.cons.inj h₅
    exact absurd hsemicolon (by decide)

/-! ## References -/

/-- Somewhere in the text a program is imported, or a function of it is called; the word before the
extension begins where it does in the text. -/
inductive Refers (text id : JsString) : Prop
  | declaration (before spaces word trail rest : JsString)
      (split : text = before ++ (js "import" ++ (spaces ++ (word ++ (js ".aleo" ++ (trail ++
        (js ";" ++ rest))))))) (spaced : spaces ≠ [] ∧ Spaces spaces) (named : Word word)
      (trailed : Spaces trail) (isId : id = word ++ js ".aleo")
  | call (before word separator rest : JsString)
      (split : text = before ++ (word ++ (js ".aleo" ++ (separator ++ rest))))
      (separated : separator = js "::" ∨ separator = js "/") (named : Word word)
      (begins : ∀ c ∈ before.getLast?, isIdentifierPart c = false) (isId : id = word ++ js ".aleo")

theorem separates_of_eq {separator : JsString} (h : separator = js "::" ∨ separator = js "/") :
    Separates separator := by
  rcases h with rfl | rfl <;> exact ⟨by decide, by decide, by decide⟩

theorem mem_matchCalls {separator text id : JsString} (hsep : Separates separator) :
    id ∈ matchAll (matchCall separator) 0 text ↔ ∃ before word rest,
      text = before ++ (word ++ (js ".aleo" ++ (separator ++ rest))) ∧ Word word ∧
        (∀ c ∈ before.getLast?, isIdentifierPart c = false) ∧ id = word ++ js ".aleo" := by
  have hnested : Nested (matchCall separator) := fun x y b n b' n' h hinside h' =>
    (matchCall_inside hsep h hinside h').2.le
  rw [mem_matchAll (fun _ _ _ => matchCall_pos) hnested]
  constructor
  · rintro ⟨before, rest, n, rfl, -, hmatch, huncovered⟩
    have hbegins := (uncovered_call hsep hmatch).mp huncovered
    obtain ⟨word, rest, rfl, hword, rfl, -⟩ := matchCall_eq_some.mp hmatch
    exact ⟨before, word, rest, rfl, hword, hbegins, rfl⟩
  · rintro ⟨before, word, rest, rfl, hword, hbegins, rfl⟩
    have hmatch : matchCall separator (word ++ (js ".aleo" ++ (separator ++ rest))) = some _ :=
      matchCall_eq_some.mpr ⟨word, rest, rfl, hword, rfl, rfl⟩
    exact ⟨before, _, _, rfl, by simp [hword.1], hmatch, (uncovered_call hsep hmatch).mpr hbegins⟩

theorem mem_matchImports {text id : JsString} :
    id ∈ matchAll matchImport 0 text ↔ ∃ before rest n, text = before ++ rest ∧
      matchImport rest = some (id, n) := by
  have hpos : ∀ s b n, matchImport s = some (b, n) → 0 < n := by
    intro s b n h
    obtain ⟨_, _, _, _, _, _, _, _, _, _, rfl⟩ := matchImport_eq_some.mp h
    omega
  have hnested : Nested matchImport := by
    intro x y b n b' n' h hinside h'
    by_cases hx : x = []
    · subst hx
      rw [List.nil_append, h'] at h
      obtain ⟨-, rfl⟩ := Prod.mk.inj (Option.some.inj h)
      exact (Nat.zero_add n').le
    · exact (matchImport_inside h hx hinside h').elim
  rw [mem_matchAll hpos hnested]
  constructor
  · rintro ⟨before, rest, n, hsplit, -, hmatch, -⟩
    exact ⟨before, rest, n, hsplit, hmatch⟩
  · rintro ⟨before, rest, n, hsplit, hmatch⟩
    refine ⟨before, rest, n, hsplit, ?_, hmatch, fun x y b n' _ hy h => ?_⟩
    · have hnone : matchImport [] = none := by decide
      rintro rfl
      rw [hnone] at hmatch
      cases hmatch
    · exact Nat.not_lt.mp fun hinside => matchImport_inside h hy hinside hmatch

/-- A scrubbed source is searched for all references. -/
theorem mem_importsOf {text id : JsString} : id ∈ importsOf text ↔ Refers text id := by
  rw [importsOf, List.mem_append, List.mem_append, mem_matchImports,
    mem_matchCalls (separates_of_eq (.inl rfl)),
    mem_matchCalls (separates_of_eq (.inr rfl))]
  constructor
  · rintro ((⟨before, rest, n, rfl, h⟩ | ⟨before, word, rest, rfl, hword, hbegins, rfl⟩) |
      ⟨before, word, rest, rfl, hword, hbegins, rfl⟩)
    · obtain ⟨spaces, word, trail, rest, rfl, hne, hspaces, hword, htrail, rfl, -⟩ :=
        matchImport_eq_some.mp h
      exact .declaration before spaces word trail rest rfl ⟨hne, hspaces⟩ hword htrail rfl
    · exact .call before word _ rest rfl (.inl rfl) hword hbegins rfl
    · exact .call before word _ rest rfl (.inr rfl) hword hbegins rfl
  · rintro (⟨before, spaces, word, trail, rest, rfl, ⟨hne, hspaces⟩, hword, htrail, rfl⟩ |
      ⟨before, word, separator, rest, rfl, rfl | rfl, hword, hbegins, rfl⟩)
    · exact .inl (.inl ⟨before, _, _, rfl, matchImport_eq_some.mpr
        ⟨spaces, word, trail, rest, rfl, hne, hspaces, hword, htrail, rfl, rfl⟩⟩)
    · exact .inl (.inr ⟨before, word, rest, rfl, hword, hbegins, rfl⟩)
    · exact .inr ⟨before, word, rest, rfl, hword, hbegins, rfl⟩

theorem mem_parseImports {read : JsString → JsString → JsString} {sourceDir id : JsString}
    {relativeFiles : List JsString} : id ∈ parseImports read sourceDir relativeFiles ↔
      ∃ relFile ∈ relativeFiles, Refers (stripCommentsAndStrings (read sourceDir relFile)) id := by
  unfold parseImports
  rw [List.mem_eraseDups, List.mem_flatMap]
  exact exists_congr fun relFile => and_congr_right fun _ => mem_importsOf

/-- **Every reference in code is found, and nothing else**: what is found in some files is what one
of them refers to when each of its comments and literals is blank. -/
theorem parseImports_iff (read : JsString → JsString → JsString) (sourceDir : JsString)
    (relativeFiles : List JsString) (id : JsString) :
    id ∈ parseImports read sourceDir relativeFiles ↔ ∃ relFile ∈ relativeFiles, ∃ lexemes,
      Lexical lexemes ∧ sourceOf lexemes = read sourceDir relFile ∧
        Refers (lexemes.flatMap Lexeme.scrubbed) id := by
  rw [mem_parseImports]
  refine exists_congr fun relFile => and_congr_right fun _ => ?_
  constructor
  · intro h
    obtain ⟨lexemes, hlexical, hsource⟩ := exists_lexical (read sourceDir relFile)
    rw [← hsource, scrub_sourceOf hlexical] at h
    exact ⟨lexemes, hlexical, hsource, h⟩
  · rintro ⟨lexemes, hlexical, hsource, h⟩
    rwa [← hsource, scrub_sourceOf hlexical]

end Lionden.Build
