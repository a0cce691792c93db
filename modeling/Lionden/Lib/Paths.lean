import Mathlib.Data.List.Infix

/-!
# Paths

A path is a text of names with a separator between each two. Segments are followed one after another
from the top: an empty one and the dot stay, two dots go up, any other goes down.

* `IsName`: what an entry of a directory can be called.
* `normalize`, `isName_of_mem_normalize`: where a list of segments leads.
* `names_prefix`: a text that goes on after a separator is that of more names.
* `join`, `join_injective`: paths after one another, and the last of them in what the others lead to.
-/

namespace Lionden.Paths

variable {α : Type} {sep dot : α}

/-- What an entry of a directory can be called. -/
structure IsName (sep dot : α) (name : List α) : Prop where
  ne_nil : name ≠ []
  sep_notMem : sep ∉ name
  ne_current : name ≠ [dot]
  ne_parent : name ≠ [dot, dot]

instance [DecidableEq α] (sep dot : α) (name : List α) : Decidable (IsName sep dot name) :=
  decidable_of_iff (name ≠ [] ∧ sep ∉ name ∧ name ≠ [dot] ∧ name ≠ [dot, dot])
    ⟨fun h => ⟨h.1, h.2.1, h.2.2.1, h.2.2.2⟩,
      fun h => ⟨h.ne_nil, h.sep_notMem, h.ne_current, h.ne_parent⟩⟩

/-- The names with a separator between each two. -/
def text (sep : α) (names : List (List α)) : List α := [sep].intercalate names

theorem text_concat (sep : α) (names : List (List α)) (name : List α) :
    text sep (names ++ [name]) = names.flatMap (· ++ [sep]) ++ name := by
  induction names with
  | nil => simp [text, List.intercalate]
  | cons first names ih =>
    have hcons : text sep (first :: (names ++ [name])) = first ++ sep :: text sep (names ++ [name]) := by
      cases names with
      | nil => simp [text, List.intercalate]
      | cons second names => simp [text, List.intercalate]
    rw [List.cons_append, hcons, ih]
    simp

variable [DecidableEq α]

/-- Where a segment leads. At the top, two dots stay there. -/
def follow (dot : α) (names : List (List α)) (segment : List α) : List (List α) :=
  if segment = [] ∨ segment = [dot] then names
  else if segment = [dot, dot] then names.dropLast
  else names ++ [segment]

def normalize (dot : α) (segments : List (List α)) : List (List α) :=
  segments.foldl (follow dot) []

theorem isName_of_mem_follow {names : List (List α)} {segment : List α}
    (hnames : ∀ name ∈ names, IsName sep dot name) (hsegment : sep ∉ segment) :
    ∀ name ∈ follow dot names segment, IsName sep dot name := by
  intro name hname
  unfold follow at hname
  by_cases hstay : segment = [] ∨ segment = [dot]
  · rw [if_pos hstay] at hname
    exact hnames name hname
  rw [if_neg hstay] at hname
  by_cases hup : segment = [dot, dot]
  · rw [if_pos hup] at hname
    exact hnames name (List.mem_of_mem_dropLast hname)
  rw [if_neg hup] at hname
  rcases List.mem_append.mp hname with hname | hname
  · exact hnames name hname
  · rw [List.mem_singleton.mp hname]
    exact ⟨fun h => hstay (.inl h), hsegment, fun h => hstay (.inr h), hup⟩

/-- Segments between separators lead to names. -/
theorem isName_of_mem_normalize {segments : List (List α)} (h : ∀ segment ∈ segments, sep ∉ segment) :
    ∀ name ∈ normalize dot segments, IsName sep dot name := by
  unfold normalize
  induction segments using List.reverseRecOn with
  | nil => exact nofun
  | append_singleton segments segment ih =>
    rw [List.foldl_append]
    exact isName_of_mem_follow (ih fun s hs => h s (List.mem_append_left _ hs))
      (h segment (List.mem_append_right _ (List.mem_singleton_self segment)))

theorem sep_notMem_of_mem_splitOn {path segment : List α} (h : segment ∈ path.splitOn sep) :
    sep ∉ segment := by
  induction path generalizing segment with
  | nil =>
    rw [List.splitOn_nil, List.mem_singleton] at h
    simp [h]
  | cons c path ih =>
    rw [List.splitOn_cons_eq_if_modifyHead] at h
    by_cases hc : (c == sep) = true
    · rw [if_pos hc] at h
      rcases List.mem_cons.mp h with rfl | h
      · exact List.not_mem_nil
      · exact ih h
    · rw [if_neg hc] at h
      obtain ⟨first, rest, hsplit⟩ := List.exists_cons_of_ne_nil (List.splitOn_ne_nil sep path)
      rw [hsplit, List.modifyHead_cons] at h
      rcases List.mem_cons.mp h with rfl | h
      · have hfirst := ih (hsplit ▸ List.mem_cons_self)
        have hne : sep ≠ c := fun heq => hc (by simp [heq])
        simp [hne, hfirst]
      · exact ih (hsplit ▸ List.mem_cons_of_mem _ h)

/-- **What goes on after the text of names and a separator has these names, and more.** -/
theorem names_prefix {names names' : List (List α)} (h : ∀ name ∈ names, IsName sep dot name)
    (h' : ∀ name ∈ names', IsName sep dot name)
    ( hprefix : text sep names ++ [sep] <+: text sep names') : names <+: names' := by
  by_cases hnil : names = []
  · rw [hnil]
    exact List.nil_prefix
  have hnil' : names' ≠ [] := by
    rintro rfl
    obtain ⟨rest, hrest⟩ := hprefix
    simp [text, List.intercalate] at hrest
  have hsplit := List.splitOn_intercalate sep (fun name hname => (h name hname).sep_notMem) hnil
  have hsplit' := List.splitOn_intercalate sep (fun name hname => (h' name hname).sep_notMem) hnil'
  obtain ⟨rest, hrest⟩ := hprefix
  unfold text at hrest
  rw [← hrest, List.append_assoc, List.singleton_append, List.splitOn_append_cons_self,
    hsplit] at hsplit'
  exact ⟨_, hsplit'⟩

/-! ## Paths after one another -/

/-- Where a segment leads in a path without a root. At the top, two dots go on. -/
def ascend (dot : α) (names : List (List α)) (segment : List α) : List (List α) :=
  if segment = [] ∨ segment = [dot] then names
  else if segment = [dot, dot] ∧ names ≠ [] ∧ names.getLast? ≠ some [dot, dot] then names.dropLast
  else names ++ [segment]

/-- A path without empty segments, dots and detours. It keeps its root, and a separator at its end. -/
def normalForm (sep dot : α) (path : List α) : List α :=
  let names := (path.splitOn sep).foldl
    (if path.head? = some sep then follow dot else ascend dot) []
  let root := if path.head? = some sep then [sep] else []
  let rest := if path.getLast? = some sep then [sep] else []
  if names = [] then if path.head? = some sep then root else dot :: rest
  else root ++ text sep names ++ rest

/-- The paths one after another; an empty one does not count. -/
def join (sep dot : α) (paths : List (List α)) : List α :=
  normalForm sep dot (text sep (paths.filter (· ≠ [])))

theorem follow_name {name : List α} (h : IsName sep dot name) (names : List (List α)) :
    follow dot names name = names ++ [name] := by
  unfold follow
  rw [if_neg (not_or.mpr ⟨h.ne_nil, h.ne_current⟩), if_neg h.ne_parent]

theorem ascend_name {name : List α} (h : IsName sep dot name) (names : List (List α)) :
    ascend dot names name = names ++ [name] := by
  unfold ascend
  rw [if_neg (not_or.mpr ⟨h.ne_nil, h.ne_current⟩), if_neg fun hup => h.ne_parent hup.1]

/-- **A name is an entry of what the paths before it lead to.** -/
theorem join_name (sep dot : α) {paths : List (List α)} (hpaths : ∃ path ∈ paths, path ≠ []) :
    ∃ before, ∀ name, IsName sep dot name → join sep dot (paths ++ [name]) = before ++ name := by
  obtain ⟨path, hpath, hne⟩ := hpaths
  have hnil : paths.filter (· ≠ []) ≠ [] :=
    List.ne_nil_of_mem (List.mem_filter.mpr ⟨hpath, by simpa using hne⟩)
  obtain ⟨firsts, last, hlast⟩ := (List.eq_nil_or_concat (paths.filter (· ≠ []))).resolve_left hnil
  have hlastNe : last ≠ [] := by
    have hmem : last ∈ paths.filter (· ≠ []) := by rw [hlast]; simp
    simpa using (List.mem_filter.mp hmem).2
  let start := text sep (paths.filter (· ≠ []))
  have hstart : start ≠ [] := by
    show text sep (paths.filter (· ≠ [])) ≠ []
    rw [hlast, List.concat_eq_append, text_concat]
    exact List.append_ne_nil_of_right_ne_nil _ hlastNe
  let step := if start.head? = some sep then follow dot else ascend dot
  let root := if start.head? = some sep then [sep] else []
  let names := (start.splitOn sep).foldl step []
  refine ⟨root ++ names.flatMap (· ++ [sep]), fun name hname => ?_⟩
  have htext : text sep ((paths ++ [name]).filter (· ≠ [])) = start ++ sep :: name := by
    rw [List.filter_append, List.filter_cons_of_pos (by simpa using hname.ne_nil), List.filter_nil,
      text_concat]
    show _ = text sep (paths.filter (· ≠ [])) ++ sep :: name
    rw [hlast, List.concat_eq_append, text_concat]
    simp
  have hhead : (start ++ sep :: name).head? = start.head? := List.head?_append_of_ne_nil _ hstart
  have hend : (start ++ sep :: name).getLast? ≠ some sep := by
    intro hend
    have hmem : sep ∈ name := by
      rw [List.getLast?_append_of_ne_nil _ (List.cons_ne_nil _ _),
        List.getLast?_cons_of_ne_nil hname.ne_nil] at hend
      exact List.mem_of_getLast? hend
    exact hname.sep_notMem hmem
  have hsplit : (start ++ sep :: name).splitOn sep = start.splitOn sep ++ [name] := by
    rw [List.splitOn_append_cons_self, List.splitOn_eq_singleton hname.sep_notMem]
  have hstep : step names name = names ++ [name] := by
    show (if start.head? = some sep then follow dot else ascend dot) names name = _
    by_cases habsolute : start.head? = some sep
    · rw [if_pos habsolute, follow_name hname]
    · rw [if_neg habsolute, ascend_name hname]
  unfold join normalForm
  rw [htext, hhead, hsplit, List.foldl_append]
  show (if step names name = [] then _ else root ++ text sep (step names name) ++
    if (start ++ sep :: name).getLast? = some sep then [sep] else []) = _
  rw [hstep, if_neg (List.append_ne_nil_of_right_ne_nil _ (List.cons_ne_nil _ _)), if_neg hend,
    text_concat, List.append_nil, List.append_assoc]

/-- Different names are different entries. -/
theorem join_injective {paths : List (List α)} (hpaths : ∃ path ∈ paths, path ≠ [])
    {name name' : List α} (hname : IsName sep dot name) (hname' : IsName sep dot name')
    (h : join sep dot (paths ++ [name]) = join sep dot (paths ++ [name'])) : name = name' := by
  obtain ⟨before, hjoin⟩ := join_name sep dot hpaths
  rw [hjoin name hname, hjoin name' hname'] at h
  exact List.append_cancel_left h

end Lionden.Paths
