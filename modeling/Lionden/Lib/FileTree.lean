import Mathlib.Data.List.Infix
import Mathlib.Data.List.Nodup

/-!
# Trees of files

A directory as the list of its entries, in the order in which they are listed.

* `Tree`, `entries`, `Below`: directories, their entries, and what is below them.
* `files`, `mem_files`: all files, with their paths.
* `outermost`, `mem_outermost`: the outermost directories with a property.
* `outermost_covers`, `outermost_disjoint`: each directory with the property is at or below an
  outermost one, and below no other.
-/

namespace Lionden.FileTree

variable {ν φ : Type}

/-- The entries of a directory. -/
inductive Tree (ν φ : Type) where
  | nil
  | file (name : ν) (content : φ) (rest : Tree ν φ)
  | dir (name : ν) (entries rest : Tree ν φ)

inductive Entry (ν φ : Type) where
  | file (content : φ)
  | dir (entries : Tree ν φ)

namespace Tree

def entries : Tree ν φ → List (ν × Entry ν φ)
  | nil => []
  | file name content rest => (name, .file content) :: rest.entries
  | dir name sub rest => (name, .dir sub) :: rest.entries

def get? [DecidableEq ν] (t : Tree ν φ) (name : ν) : Option (Entry ν φ) := t.entries.lookup name

/-- No two entries of a directory have the same name. -/
def Distinct : Tree ν φ → Prop
  | nil => True
  | file name _ rest => name ∉ rest.entries.map Prod.fst ∧ rest.Distinct
  | dir name sub rest => name ∉ rest.entries.map Prod.fst ∧ sub.Distinct ∧ rest.Distinct

/-- A property of all names. -/
def Names (P : ν → Prop) : Tree ν φ → Prop
  | nil => True
  | file name _ rest => P name ∧ rest.Names P
  | dir name sub rest => P name ∧ sub.Names P ∧ rest.Names P

/-- The directory at a path. -/
inductive Below : Tree ν φ → List ν → Tree ν φ → Prop
  | refl {t} : Below t [] t
  | step {t sub t' name path} : (name, .dir sub) ∈ t.entries → Below sub path t' →
      Below t (name :: path) t'

/-- The file at a path. -/
def FileAt (t : Tree ν φ) (path : List ν) (content : φ) : Prop :=
  ∃ names name dir, path = names ++ [name] ∧ Below t names dir ∧
    (name, .file content) ∈ dir.entries

/-- All files, with their paths. -/
def files : Tree ν φ → List (List ν × φ)
  | nil => []
  | file name content rest => ([name], content) :: rest.files
  | dir name sub rest => (sub.files.map fun e => (name :: e.1, e.2)) ++ rest.files

/-- The outermost directories with a property, with their paths. -/
def outermost (p : Tree ν φ → Bool) : Tree ν φ → List (List ν × Tree ν φ)
  | nil => []
  | file _ _ rest => rest.outermost p
  | dir name sub rest =>
    (if p sub then [([name], sub)] else (sub.outermost p).map fun e => (name :: e.1, e.2)) ++
      rest.outermost p

/-! ## What is at a path -/

section

variable {t sub sub' : Tree ν φ} {name : ν} {path path' : List ν} {content : φ}
  {p : Tree ν φ → Bool} {P : ν → Prop}

theorem below_nil : Below t [] sub ↔ sub = t := by
  constructor
  · rintro ⟨⟩
    rfl
  · rintro rfl
    exact .refl

theorem below_cons : Below t (name :: path) sub ↔
    ∃ mid, (name, .dir mid) ∈ t.entries ∧ Below mid path sub := by
  constructor
  · intro h
    cases h with
    | step hmem hbelow => exact ⟨_, hmem, hbelow⟩
  · rintro ⟨mid, hmem, hbelow⟩
    exact .step hmem hbelow

theorem Below.trans (h : Below t path sub) (h' : Below sub path' sub') :
    Below t (path ++ path') sub' := by
  induction h with
  | refl => exact h'
  | step hmem _ ih => exact .step hmem (ih h')

theorem fileAt_singleton : FileAt t [name] content ↔ (name, .file content) ∈ t.entries := by
  constructor
  · rintro ⟨names, last, dir, hpath, hbelow, hmem⟩
    obtain ⟨rfl, hlast⟩ : names = [] ∧ [name] = [last] := by
      cases names with
      | nil => exact ⟨rfl, hpath⟩
      | cons first names => simp at hpath
    obtain rfl := below_nil.mp hbelow
    rwa [(List.cons.inj hlast).1]
  · exact fun hmem => ⟨[], name, t, rfl, .refl, hmem⟩

theorem fileAt_cons {next : ν} : FileAt t (name :: next :: path) content ↔
    ∃ mid, (name, .dir mid) ∈ t.entries ∧ FileAt mid (next :: path) content := by
  constructor
  · rintro ⟨names, last, dir, hpath, hbelow, hmem⟩
    cases names with
    | nil => simp at hpath
    | cons first names =>
      obtain ⟨rfl, hrest⟩ := List.cons.inj hpath
      obtain ⟨mid, hmid, hbelow⟩ := below_cons.mp hbelow
      exact ⟨mid, hmid, names, last, dir, hrest, hbelow, hmem⟩
  · rintro ⟨mid, hmid, names, last, dir, hpath, hbelow, hmem⟩
    exact ⟨name :: names, last, dir, by rw [hpath]; rfl, .step hmid hbelow, hmem⟩

theorem fileAt_ne_nil (h : FileAt t path content) : path ≠ [] := by
  obtain ⟨names, last, dir, rfl, -, -⟩ := h
  simp

theorem fileAt_below (h : Below t path sub) (hfile : FileAt sub path' content) :
    FileAt t (path ++ path') content := by
  obtain ⟨names, last, dir, rfl, hbelow, hmem⟩ := hfile
  exact ⟨path ++ names, last, dir, (List.append_assoc ..).symm, h.trans hbelow, hmem⟩

/-- The files that are listed are those that are there. -/
theorem mem_files : (path, content) ∈ t.files ↔ FileAt t path content := by
  induction t generalizing path with
  | nil =>
    refine iff_of_false List.not_mem_nil ?_
    rintro ⟨names, last, dir, -, hbelow, hmem⟩
    cases hbelow with
    | refl => exact List.not_mem_nil hmem
    | step hdir _ => exact List.not_mem_nil hdir
  | file name' content' rest ih =>
    rw [files, List.mem_cons, ih]
    cases path with
    | nil =>
      refine iff_of_false ?_ fun h => fileAt_ne_nil h rfl
      rintro (h | h)
      · simp at h
      · exact fileAt_ne_nil h rfl
    | cons name path =>
      cases path with
      | nil => simp [fileAt_singleton, entries]
      | cons next path => simp [fileAt_cons, entries]
  | dir name' sub rest ihsub ihrest =>
    rw [files, List.mem_append, ihrest, List.mem_map]
    cases path with
    | nil =>
      refine iff_of_false ?_ fun h => fileAt_ne_nil h rfl
      rintro (⟨e, -, he⟩ | h)
      · simp at he
      · exact fileAt_ne_nil h rfl
    | cons name path =>
      have hsub : (∃ e ∈ sub.files, (name' :: e.1, e.2) = (name :: path, content)) ↔
          name = name' ∧ FileAt sub path content := by
        constructor
        · rintro ⟨⟨path', content'⟩, hmem, he⟩
          simp only [Prod.mk.injEq, List.cons.injEq] at he
          obtain ⟨⟨rfl, rfl⟩, rfl⟩ := he
          exact ⟨rfl, ihsub.mp hmem⟩
        · rintro ⟨rfl, h⟩
          exact ⟨_, ihsub.mpr h, rfl⟩
      rw [hsub]
      cases path with
      | nil =>
        simp only [fileAt_singleton, entries, List.mem_cons]
        constructor
        · rintro (⟨-, h⟩ | h)
          · exact absurd rfl (fileAt_ne_nil h)
          · exact .inr h
        · rintro (h | h)
          · simp at h
          · exact .inr h
      | cons next path =>
        simp only [fileAt_cons, entries, List.mem_cons, Prod.mk.injEq, Entry.dir.injEq]
        constructor
        · rintro (⟨rfl, h⟩ | ⟨mid, hmid, h⟩)
          · exact ⟨sub, .inl ⟨rfl, rfl⟩, h⟩
          · exact ⟨mid, .inr hmid, h⟩
        · rintro ⟨mid, ⟨rfl, rfl⟩ | hmid, h⟩
          · exact .inl ⟨rfl, h⟩
          · exact .inr ⟨mid, hmid, h⟩

/-! ## Outermost directories -/

theorem mem_outermost_dir {rest : Tree ν φ} {name' : ν} :
    (path, sub') ∈ (dir name' sub rest).outermost p ↔
      (p sub = true ∧ path = [name'] ∧ sub' = sub ∨
        p sub = false ∧ ∃ path', path = name' :: path' ∧ (path', sub') ∈ sub.outermost p) ∨
      (path, sub') ∈ rest.outermost p := by
  rw [outermost, List.mem_append]
  refine or_congr_left ?_
  cases hp : p sub with
  | true => simp
  | false =>
    rw [if_neg (by simp)]
    simp only [Bool.false_eq_true, false_and, false_or, true_and, List.mem_map]
    constructor
    · rintro ⟨⟨path', root⟩, hmem, he⟩
      simp only [Prod.mk.injEq] at he
      obtain ⟨rfl, rfl⟩ := he
      exact ⟨path', rfl, hmem⟩
    · rintro ⟨path', rfl, hmem⟩
      exact ⟨_, hmem, rfl⟩

/-- An outermost directory is there and has the property. -/
theorem below_of_outermost (h : (path, sub) ∈ t.outermost p) :
    path ≠ [] ∧ Below t path sub ∧ p sub = true := by
  induction t generalizing path with
  | nil => exact absurd h List.not_mem_nil
  | file name content rest ih =>
    obtain ⟨hne, hbelow, hp⟩ := ih h
    refine ⟨hne, ?_, hp⟩
    cases path with
    | nil => exact absurd rfl hne
    | cons first path =>
      obtain ⟨mid, hmid, hbelow⟩ := below_cons.mp hbelow
      exact .step (List.mem_cons_of_mem _ hmid) hbelow
  | dir name mid rest ihmid ihrest =>
    rcases mem_outermost_dir.mp h with (⟨hp, rfl, rfl⟩ | ⟨-, path', rfl, hmem⟩) | hmem
    · exact ⟨by simp, .step List.mem_cons_self .refl, hp⟩
    · obtain ⟨-, hbelow, hp⟩ := ihmid hmem
      exact ⟨by simp, .step List.mem_cons_self hbelow, hp⟩
    · obtain ⟨hne, hbelow, hp⟩ := ihrest hmem
      refine ⟨hne, ?_, hp⟩
      cases path with
      | nil => exact absurd rfl hne
      | cons first path =>
        obtain ⟨mid', hmid, hbelow⟩ := below_cons.mp hbelow
        exact .step (List.mem_cons_of_mem _ hmid) hbelow

/-- The first name of the path is that of an entry. -/
theorem outermost_head (h : (path, sub) ∈ t.outermost p) :
    ∃ first rest, path = first :: rest ∧ first ∈ t.entries.map Prod.fst := by
  obtain ⟨hne, hbelow, -⟩ := below_of_outermost h
  cases path with
  | nil => exact absurd rfl hne
  | cons first path =>
    obtain ⟨mid, hmid, -⟩ := below_cons.mp hbelow
    exact ⟨first, path, rfl, List.mem_map_of_mem hmid⟩

theorem outermost_of_entry {mid : Tree ν φ} (hmem : (name, .dir mid) ∈ t.entries) :
    (p mid = true → ([name], mid) ∈ t.outermost p) ∧
      (p mid = false → ∀ path sub, (path, sub) ∈ mid.outermost p →
        (name :: path, sub) ∈ t.outermost p) := by
  induction t with
  | nil => exact absurd hmem List.not_mem_nil
  | file name' content rest ih =>
    rcases List.mem_cons.mp hmem with heq | hmem
    · simp at heq
    · exact ih hmem
  | dir name' sub' rest _ ihrest =>
    rcases List.mem_cons.mp hmem with heq | hmem
    · simp only [Prod.mk.injEq, Entry.dir.injEq] at heq
      obtain ⟨rfl, rfl⟩ := heq
      refine ⟨fun hp => mem_outermost_dir.mpr (.inl (.inl ⟨hp, rfl, rfl⟩)), fun hp path sub h => ?_⟩
      exact mem_outermost_dir.mpr (.inl (.inr ⟨hp, path, rfl, h⟩))
    · obtain ⟨hhere, hbelow⟩ := ihrest hmem
      exact ⟨fun hp => mem_outermost_dir.mpr (.inr (hhere hp)), fun hp path sub h =>
        mem_outermost_dir.mpr (.inr (hbelow hp path sub h))⟩

/-- A directory with the property is at or below an outermost one. -/
theorem outermost_covers (h : Below t path sub) (hne : path ≠ []) (hp : p sub = true) :
    ∃ names rest root, path = names ++ rest ∧ (names, root) ∈ t.outermost p ∧ Below root rest sub := by
  induction h with
  | refl => exact absurd rfl hne
  | @step t mid sub name path hmem hbelow ih =>
    cases hmid : p mid with
    | true => exact ⟨[name], path, mid, rfl, (outermost_of_entry hmem).1 hmid, hbelow⟩
    | false =>
      have hrest : path ≠ [] := by
        rintro rfl
        rw [below_nil.mp hbelow, hmid] at hp
        cases hp
      obtain ⟨names, rest, root, rfl, hroot, hbelow⟩ := ih hrest hp
      exact ⟨name :: names, rest, root, rfl, (outermost_of_entry hmem).2 hmid _ _ hroot, hbelow⟩

/-- No outermost directory is below another one. -/
theorem outermost_disjoint (h : t.Distinct) :
    (t.outermost p).Pairwise fun a b => ¬a.1 <+: b.1 ∧ ¬b.1 <+: a.1 := by
  -- Paths that begin with different names.
  have apart (name : ν) {here rest : List (List ν × Tree ν φ)}
      (hhere : ∀ a ∈ here, ∃ path, a.1 = name :: path)
      (hrest : ∀ b ∈ rest, ∃ first path, b.1 = first :: path ∧ first ≠ name) :
      ∀ a ∈ here, ∀ b ∈ rest, ¬a.1 <+: b.1 ∧ ¬b.1 <+: a.1 := by
    intro a ha b hb
    obtain ⟨path, hpath⟩ := hhere a ha
    obtain ⟨first, path', hpath', hne⟩ := hrest b hb
    rw [hpath, hpath', List.cons_prefix_cons, List.cons_prefix_cons]
    exact ⟨fun h => hne h.1.symm, fun h => hne h.1⟩
  induction t with
  | nil => exact .nil
  | file name content rest ih => exact ih h.2
  | dir name sub rest ihsub ihrest =>
    obtain ⟨hname, hsub, hrest⟩ := h
    refine List.pairwise_append.mpr ⟨?_, ihrest hrest, apart name ?_ ?_⟩
    · cases hp : p sub with
      | true => exact List.pairwise_singleton ..
      | false =>
        refine List.pairwise_map.mpr ((ihsub hsub).imp fun hab => ?_)
        simpa [List.cons_prefix_cons] using hab
    · intro a ha
      cases hp : p sub with
      | true =>
        rw [hp] at ha
        exact ⟨[], congrArg Prod.fst (List.mem_singleton.mp ha)⟩
      | false =>
        rw [hp] at ha
        obtain ⟨e, -, rfl⟩ := List.mem_map.mp ha
        exact ⟨_, rfl⟩
    · rintro ⟨path, root⟩ hb
      obtain ⟨first, path', hpath, hfirst⟩ := outermost_head hb
      refine ⟨first, path', hpath, ?_⟩
      rintro rfl
      exact hname hfirst

/-! ## Names -/

theorem Names.entry (h : t.Names P) (hmem : (name, .dir sub) ∈ t.entries) : P name ∧ sub.Names P := by
  induction t with
  | nil => exact absurd hmem List.not_mem_nil
  | file name' content rest ih =>
    rcases List.mem_cons.mp hmem with heq | hmem
    · simp at heq
    · exact ih h.2 hmem
  | dir name' sub' rest _ ihrest =>
    obtain ⟨hname, hsub, hrest⟩ := h
    rcases List.mem_cons.mp hmem with heq | hmem
    · simp only [Prod.mk.injEq, Entry.dir.injEq] at heq
      obtain ⟨rfl, rfl⟩ := heq
      exact ⟨hname, hsub⟩
    · exact ihrest hrest hmem

theorem Names.below (h : t.Names P) (hbelow : Below t path sub) :
    (∀ name ∈ path, P name) ∧ sub.Names P := by
  induction hbelow with
  | refl => exact ⟨by simp, h⟩
  | step hmem _ ih =>
    obtain ⟨hname, hmid⟩ := h.entry hmem
    obtain ⟨hpath, hsub⟩ := ih hmid
    exact ⟨List.forall_mem_cons.mpr ⟨hname, hpath⟩, hsub⟩

theorem Names.file (h : t.Names P) (hmem : (path, content) ∈ t.files) : ∀ name ∈ path, P name := by
  induction t generalizing path with
  | nil => exact absurd hmem List.not_mem_nil
  | file name' content' rest ih =>
    rcases List.mem_cons.mp hmem with heq | hmem
    · obtain ⟨rfl, -⟩ := Prod.mk.inj heq
      simpa using h.1
    · exact ih h.2 hmem
  | dir name' sub' rest ihsub ihrest =>
    obtain ⟨hname, hsub, hrest⟩ := h
    rcases List.mem_append.mp hmem with hmem | hmem
    · obtain ⟨e, he, heq⟩ := List.mem_map.mp hmem
      obtain ⟨rfl, rfl⟩ := Prod.mk.inj heq
      exact List.forall_mem_cons.mpr ⟨hname, ihsub hsub he⟩
    · exact ihrest hrest hmem

/-- The first name of the path of a file is that of an entry. -/
theorem files_head (h : (path, content) ∈ t.files) :
    ∃ first rest, path = first :: rest ∧ first ∈ t.entries.map Prod.fst := by
  have hfile := mem_files.mp h
  cases path with
  | nil => exact absurd rfl (fileAt_ne_nil hfile)
  | cons first path =>
    refine ⟨first, path, rfl, ?_⟩
    cases path with
    | nil => exact List.mem_map_of_mem (fileAt_singleton.mp hfile)
    | cons next path =>
      obtain ⟨mid, hmid, -⟩ := fileAt_cons.mp hfile
      exact List.mem_map_of_mem hmid

theorem Distinct.below (h : t.Distinct) (hbelow : Below t path sub) : sub.Distinct := by
  have hentry {t mid : Tree ν φ} {name : ν} (h : t.Distinct) (hmem : (name, .dir mid) ∈ t.entries) :
      mid.Distinct := by
    induction t with
    | nil => exact absurd hmem List.not_mem_nil
    | file name' content rest ih =>
      rcases List.mem_cons.mp hmem with heq | hmem
      · simp at heq
      · exact ih h.2 hmem
    | dir name' sub' rest _ ihrest =>
      rcases List.mem_cons.mp hmem with heq | hmem
      · simp only [Prod.mk.injEq, Entry.dir.injEq] at heq
        exact heq.2 ▸ h.2.1
      · exact ihrest h.2.2 hmem
  induction hbelow with
  | refl => exact h
  | step hmem _ ih => exact ih (hentry h hmem)

/-- No two files have the same path. -/
theorem files_nodup (h : t.Distinct) : (t.files.map Prod.fst).Nodup := by
  induction t with
  | nil => exact List.nodup_nil
  | file name content rest ih =>
    rw [files, List.map_cons]
    refine List.nodup_cons.mpr ⟨fun hmem => ?_, ih h.2⟩
    obtain ⟨⟨path, content'⟩, he, heq⟩ := List.mem_map.mp hmem
    obtain ⟨first, path', rfl, hfirst⟩ := files_head he
    obtain ⟨rfl, -⟩ := List.cons.inj heq
    exact h.1 hfirst
  | dir name sub rest ihsub ihrest =>
    obtain ⟨hname, hsub, hrest⟩ := h
    rw [files, List.map_append, List.map_map]
    refine List.nodup_append'.mpr ⟨?_, ihrest hrest, ?_⟩
    · have hmap : (sub.files.map (Prod.fst ∘ fun e => (name :: e.1, e.2))) =
          (sub.files.map Prod.fst).map (name :: ·) := by rw [List.map_map]; rfl
      rw [hmap]
      exact (ihsub hsub).map (List.cons_injective)
    · intro path hhere hthere
      obtain ⟨e, -, rfl⟩ := List.mem_map.mp hhere
      obtain ⟨⟨path', content'⟩, he, heq⟩ := List.mem_map.mp hthere
      obtain ⟨first, path', rfl, hfirst⟩ := files_head he
      obtain ⟨rfl, -⟩ := List.cons.inj heq
      exact hname hfirst

end

end Tree

end Lionden.FileTree
