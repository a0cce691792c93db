import Mathlib.Data.List.Infix
import Mathlib.Data.List.TakeWhile

/-!
# Texts framed by header lines

A block is a header line and what comes after it; a list of blocks is written as their texts one after
another. Nothing says where a block ends, so a block may be read as the end of the block before it.

* `cutLine`: a text as a block.
* `Reads`: a list of blocks is a reading of another.
* `Reads.text_eq`: a reading has the text that it reads.
* `exists_reads`: lists of blocks with one text are readings of the same blocks.
* `Reads.unique`: where no header line is inside another block, there is one reading.
-/

namespace Lionden

variable {β : Type}

structure Block (β : Type) where
  line : List β
  body : List β

def Block.text (b : Block β) : List β := b.line ++ b.body

/-- A text that ends with its only end of line. -/
def IsLine (eol : β) (line : List β) : Prop := ∃ start, eol ∉ start ∧ line = start ++ [eol]

variable {eol : β}

theorem IsLine.ne_nil {line : List β} (h : IsLine eol line) : line ≠ [] := by
  obtain ⟨start, -, rfl⟩ := h
  exact List.append_ne_nil_of_right_ne_nil _ (List.cons_ne_nil _ _)

/-- What is left of a line after its beginning is a line. -/
theorem IsLine.of_append {start line : List β} (h : IsLine eol (start ++ line)) (hne : line ≠ []) :
    IsLine eol line := by
  obtain ⟨all, hall, heq⟩ := h
  obtain ⟨rest, rfl, hline⟩ | ⟨rest, rfl, hend⟩ := List.append_eq_append_iff.mp heq
  · exact ⟨rest, fun hmem => hall (List.mem_append_right _ hmem), hline⟩
  · cases rest with
    | nil => exact ⟨[], List.not_mem_nil, by simpa using hend.symm⟩
    | cons b rest =>
      obtain ⟨-, hnil⟩ := List.cons.inj hend
      exact absurd (List.append_eq_nil_iff.mp hnil.symm).2 hne

/-- Two lines at the start of one text are the same. -/
theorem IsLine.unique {line line' rest rest' : List β} (h : IsLine eol line) (h' : IsLine eol line')
    (heq : line ++ rest = line' ++ rest') : line = line' ∧ rest = rest' := by
  obtain ⟨start, hstart, rfl⟩ := h
  obtain ⟨start', hstart', rfl⟩ := h'
  simp only [List.append_assoc, List.singleton_append] at heq
  obtain ⟨more, rfl, hmore⟩ | ⟨more, rfl, hmore⟩ := List.append_eq_append_iff.mp heq
  · cases more with
    | nil => simpa using hmore
    | cons b more =>
      obtain ⟨rfl, -⟩ := List.cons.inj hmore
      exact absurd (List.mem_append_right _ List.mem_cons_self) hstart'
  · cases more with
    | nil => simpa using hmore.symm
    | cons b more =>
      obtain ⟨rfl, -⟩ := List.cons.inj hmore
      exact absurd (List.mem_append_right _ List.mem_cons_self) hstart

/-- The first line of a text, and what comes after it. -/
def cutLine [DecidableEq β] (eol : β) (text : List β) : Block β where
  line := text.takeWhile (· ≠ eol) ++ [eol]
  body := (text.dropWhile (· ≠ eol)).tail

theorem cutLine_isLine [DecidableEq β] (text : List β) : IsLine eol (cutLine eol text).line := by
  refine ⟨_, fun hmem => ?_, rfl⟩
  have hne := List.mem_takeWhile_imp hmem
  simp at hne

theorem cutLine_text [DecidableEq β] {text : List β} (h : eol ∈ text) :
    (cutLine eol text).text = text := by
  induction text with
  | nil => exact absurd h List.not_mem_nil
  | cons b text ih =>
    by_cases hb : b = eol
    · subst hb
      simp [cutLine, Block.text]
    · have htail := ih ((List.mem_cons.mp h).resolve_left (Ne.symm hb))
      simp only [cutLine, Block.text] at htail ⊢
      rw [List.takeWhile_cons_of_pos (by simpa using hb), List.dropWhile_cons_of_pos (by simpa using hb),
        List.cons_append, List.cons_append, htail]

/-! ## Readings -/

/-- `Reads blocks lead read`: the text of `blocks` can be read as the blocks `read`, after `lead`, which
belongs to the block before. -/
inductive Reads : List (Block β) → List β → List (Block β) → Prop where
  | nil : Reads [] [] []
  /-- A block is read as a block. The start of its line may belong to the block before, where the rest
  of the line is a header line too. -/
  | header {blocks read : List (Block β)} {lead : List β} (start line body : List β)
      (h : Reads blocks lead read) :
      Reads (⟨start ++ line, body⟩ :: blocks) start (⟨line, body ++ lead⟩ :: read)
  /-- A block is read as the end of the block before. -/
  | contents {blocks read : List (Block β)} {lead : List β} (line body : List β)
      (h : Reads blocks lead read) :
      Reads (⟨line, body⟩ :: blocks) (line ++ body ++ lead) read

theorem Reads.refl : ∀ blocks : List (Block β), Reads blocks [] blocks
  | [] => .nil
  | ⟨line, body⟩ :: blocks => by simpa using Reads.header [] line body (Reads.refl blocks)

/-- A reading has the text that it reads. -/
theorem Reads.text_eq {blocks read : List (Block β)} {lead : List β} (h : Reads blocks lead read) :
    blocks.flatMap Block.text = lead ++ read.flatMap Block.text := by
  induction h with
  | nil => rfl
  | header start line body h ih => simp [Block.text, ih]
  | contents line body h ih => simp [Block.text, ih]

/-- Two texts of blocks that are the same but for a start: blocks that both are readings of. -/
theorem exists_reads_lead :
    ∀ (lead : List β) (xs ys : List (Block β)), (∀ b ∈ xs, IsLine eol b.line) →
      (∀ b ∈ ys, IsLine eol b.line) →
      lead ++ xs.flatMap Block.text = ys.flatMap Block.text →
      ∃ blocks, (∀ b ∈ blocks, ∃ c ∈ xs ++ ys, c.line = b.line) ∧
        Reads blocks lead xs ∧ Reads blocks [] ys
  | lead, xs, [], hx, _, heq => by
    obtain ⟨rfl, hxs⟩ := List.append_eq_nil_iff.mp heq
    cases xs with
    | nil => exact ⟨[], fun _ hb => absurd hb List.not_mem_nil, .nil, .nil⟩
    | cons x xs =>
      have hnil := (List.append_eq_nil_iff.mp hxs).1
      exact absurd (List.append_eq_nil_iff.mp hnil).1 (hx x List.mem_cons_self).ne_nil
  | lead, xs, y :: ys, hx, hy, heq => by
    have hytail : ∀ b ∈ ys, IsLine eol b.line := fun b hb => hy b (List.mem_cons_of_mem _ hb)
    simp only [List.flatMap_cons, Block.text, List.append_assoc] at heq
    -- the line of `y` is in the start, or ends after it
    rcases List.append_eq_append_iff.mp heq with ⟨line, hline, hrest⟩ | ⟨lead', rfl, hrest⟩
    · by_cases hne : line = []
      · subst hne
        have hlead : lead = y.line := by simpa using hline.symm
        rw [List.nil_append] at hrest
        obtain ⟨blocks, hlines, hys, hxs⟩ := exists_reads_lead y.body ys xs hytail hx hrest.symm
        refine ⟨⟨y.line, []⟩ :: blocks, ?_, ?_, ?_⟩
        · simp only [List.forall_mem_cons]
          grind
        · rw [hlead]
          simpa using Reads.contents y.line [] hxs
        · exact Reads.header [] y.line [] hys
      · have hrestline := (hline ▸ hy y List.mem_cons_self).of_append hne
        cases xs with
        | nil => exact absurd (List.append_eq_nil_iff.mp hrest.symm).1 hne
        | cons x xs =>
          have hxtail : ∀ b ∈ xs, IsLine eol b.line := fun b hb => hx b (List.mem_cons_of_mem _ hb)
          simp only [List.flatMap_cons, Block.text, List.append_assoc] at hrest
          -- one header line in two readings
          obtain ⟨hxline, hbodies⟩ := (hx x List.mem_cons_self).unique hrestline hrest
          rcases List.append_eq_append_iff.mp hbodies with ⟨more, hbody, hafter⟩ | ⟨more, hbody, hafter⟩
          · obtain ⟨blocks, hlines, hys, hxs⟩ := exists_reads_lead more ys xs hytail hxtail hafter.symm
            refine ⟨⟨y.line, x.body⟩ :: blocks, ?_, ?_, ?_⟩
            · simp only [List.forall_mem_cons]
              grind
            · rw [hline, ← hxline]
              simpa using Reads.header lead x.line x.body hxs
            · rw [show y = ⟨y.line, x.body ++ more⟩ by rw [← hbody]]
              exact Reads.header [] y.line x.body hys
          · obtain ⟨blocks, hlines, hxs, hys⟩ := exists_reads_lead more xs ys hxtail hytail hafter.symm
            refine ⟨⟨y.line, y.body⟩ :: blocks, ?_, ?_, ?_⟩
            · simp only [List.forall_mem_cons]
              grind
            · rw [hline, ← hxline, show x = ⟨x.line, y.body ++ more⟩ by rw [← hbody]]
              exact Reads.header lead x.line y.body hxs
            · simpa using Reads.header [] y.line y.body hys
    · -- the whole line of `y` is read as contents
      rcases List.append_eq_append_iff.mp hrest.symm with ⟨more, hbody, hafter⟩ | ⟨more, rfl, hafter⟩
      · obtain ⟨blocks, hlines, hys, hxs⟩ := exists_reads_lead more ys xs hytail hx hafter.symm
        refine ⟨⟨y.line, lead'⟩ :: blocks, ?_, ?_, ?_⟩
        · simp only [List.forall_mem_cons]
          grind
        · simpa using Reads.contents y.line lead' hxs
        · rw [show y = ⟨y.line, lead' ++ more⟩ by rw [← hbody]]
          exact Reads.header [] y.line lead' hys
      · obtain ⟨blocks, hlines, hxs, hys⟩ := exists_reads_lead more xs ys hx hytail hafter.symm
        refine ⟨⟨y.line, y.body⟩ :: blocks, ?_, ?_, ?_⟩
        · simp only [List.forall_mem_cons]
          grind
        · simpa using Reads.contents y.line y.body hxs
        · simpa using Reads.header [] y.line y.body hys
termination_by _ xs ys => xs.length + ys.length

/-- **One text, two readings.** Lists of blocks have one text exactly where they are readings of the same
blocks, whose header lines are theirs. -/
theorem exists_reads {xs ys : List (Block β)} (hx : ∀ b ∈ xs, IsLine eol b.line)
    (hy : ∀ b ∈ ys, IsLine eol b.line) :
    xs.flatMap Block.text = ys.flatMap Block.text ↔
      ∃ blocks, (∀ b ∈ blocks, ∃ c ∈ xs ++ ys, c.line = b.line) ∧
        Reads blocks [] xs ∧ Reads blocks [] ys := by
  constructor
  · exact exists_reads_lead [] xs ys hx hy
  · rintro ⟨blocks, -, hxs, hys⟩
    exact hxs.text_eq.symm.trans hys.text_eq

/-! ## One reading -/

/-- No header line of `ys` is inside a block of `xs`. -/
structure Quiet (xs ys : List (Block β)) : Prop where
  body : ∀ x ∈ xs, ∀ y ∈ ys, ¬y.line <:+: x.body
  line : ∀ x ∈ xs, ∀ y ∈ ys, y.line <:+ x.line → y.line = x.line

theorem Reads.unique {all all' : List (Block β)} (hquiet : Quiet all all') (hquiet' : Quiet all' all)
    {blocks : List (Block β)} (hlines : ∀ b ∈ blocks, ∃ c ∈ all ++ all', c.line = b.line)
    {lead xs lead' ys} (h : Reads blocks lead xs) (h' : Reads blocks lead' ys) (hxs : xs ⊆ all)
    (hys : ys ⊆ all') (hlead : ∀ y ∈ all', ¬y.line <:+: lead)
    (hlead' : ∀ x ∈ all, ¬x.line <:+: lead') : lead = [] ∧ lead' = [] ∧ xs = ys := by
  induction h generalizing lead' ys with
  | nil =>
    cases h'
    exact ⟨rfl, rfl, rfl⟩
  | @header blocks xs lead start line body h ih =>
    obtain ⟨hx, hxs⟩ := List.cons_subset.mp hxs
    have hafter : ∀ y ∈ all', ¬y.line <:+: lead := fun y hy hin =>
      hquiet.body _ hx y hy (hin.trans (List.suffix_append body lead).isInfix)
    obtain ⟨c, hc, hline⟩ := hlines _ List.mem_cons_self
    generalize htext : start ++ line = text at h' hline
    cases h' with
    | @header _ ys lead₁ _ line' _ h' =>
      obtain ⟨hy, hys⟩ := List.cons_subset.mp hys
      obtain ⟨rfl, rfl, rfl⟩ := ih (fun b hb => hlines b (List.mem_cons_of_mem _ hb)) h' hxs hys hafter
        fun x hx hin => hquiet'.body _ hy x hx (hin.trans (List.suffix_append body lead₁).isInfix)
      -- the header line is of one of the lists, so neither reads only its end
      have hsame : line = line' ∧ line = start ++ line := by
        have hsuffix : line <:+ c.line := ⟨start, htext.trans hline.symm⟩
        have hsuffix' : line' <:+ c.line := ⟨lead', hline.symm⟩
        rcases List.mem_append.mp hc with hc | hc
        · have heq := hquiet.line c hc _ hy hsuffix'
          have heq' := hquiet'.line _ hy _ hx (heq ▸ hsuffix)
          exact ⟨heq', heq'.trans (heq.trans (hline.trans htext.symm))⟩
        · have heq := hquiet'.line c hc _ hx hsuffix
          have heq' := hquiet.line _ hx _ hy (heq ▸ hsuffix')
          exact ⟨heq'.symm, heq.trans (hline.trans htext.symm)⟩
      obtain ⟨rfl, hstart⟩ := hsame
      have hnil : start = [] := List.self_eq_append_left.mp hstart
      have hnil' : lead' = [] := List.self_eq_append_left.mp (hstart.trans htext)
      exact ⟨hnil, hnil', rfl⟩
    | @contents _ _ lead₁ _ _ h' =>
      refine absurd ?_ (hlead' _ hx)
      rw [← htext]
      exact ⟨start, body ++ lead₁, by simp⟩
  | @contents blocks xs lead line body h ih =>
    obtain ⟨c, hc, hline⟩ := hlines _ List.mem_cons_self
    cases h' with
    | header _ line' _ h' =>
      obtain ⟨hy, -⟩ := List.cons_subset.mp hys
      exact absurd ⟨lead', body ++ lead, by simp⟩ (hlead _ hy)
    | @contents _ _ lead₁ _ _ h' =>
      rcases List.mem_append.mp hc with hc | hc
      · exact absurd ⟨[], body ++ lead₁, by simp [hline]⟩ (hlead' c hc)
      · exact absurd ⟨[], body ++ lead, by simp [hline]⟩ (hlead c hc)

end Lionden
