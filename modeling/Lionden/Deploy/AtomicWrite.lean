import Lionden.Lib.Trace
import Mathlib.Data.Fintype.Basic
import Mathlib.Data.List.TakeDrop
import Mathlib.Logic.Function.Basic

/-!
# Atomic writes

`atomicWrite` writes a temporary file and renames it. Writers of one file share the name of the
temporary file; what they have open stays open when a name moves.

* `Files`, `Writer.advance`, `Reader.advance`: the file system, and the next system call of each.
* `System.step`: what happens, in any order.
* `Sound.step`, `writes_atomic`: what readers see while no two writers hold the temporary file.
-/

namespace Lionden.Deploy.AtomicWrite

abbrev Bytes := List UInt8

abbrev Inode := Nat

/-- The directory of the file: where the names lead, and what the files hold. -/
structure Files where
  /-- The directory is there. -/
  dir : Bool
  /-- `filePath`. -/
  target : Option Inode
  /-- `filePath.tmp`. -/
  tmp : Option Inode
  data : Inode → Bytes
  /-- No file has this number or a greater one. -/
  next : Inode

/-! ## Writers -/

inductive Writer where
  | start
  /-- The directory has been made. -/
  | made
  /-- The temporary file is open, and this many bytes have been written. -/
  | opened (ino : Inode) (pos : Nat)
  | written
  | renamed
  | failed
  | crashed
  deriving DecidableEq

/-- `open(tmp, "w")`: the file is created or truncated. -/
def Files.openTmp (files : Files) : Option (Inode × Files) :=
  if !files.dir then none
  else
  match files.tmp with
  | some ino => some (ino, { files with data := Function.update files.data ino [] })
  | none =>
    let data := Function.update files.data files.next []
    some (files.next, { files with tmp := some files.next, data, next := files.next + 1 })

/-- What a file holds after a write at an offset. -/
def overwrite (bytes : Bytes) (pos : Nat) (chunk : Bytes) : Bytes :=
  bytes.take pos ++ List.replicate (pos - bytes.length) 0 ++ chunk ++
    bytes.drop (pos + chunk.length)

/-- The next system call of a writer; a `write` takes at most `n + 1` bytes. -/
def Writer.advance (content : Bytes) (n : Nat) (files : Files) : Writer → Writer × Files
  | start => (made, { files with dir := true })
  | made =>
    match files.openTmp with
    | none => (failed, files)
    | some (ino, files) => (opened ino 0, files)
  | opened ino pos =>
    if content.length ≤ pos then (written, files)
    else
      let chunk := (content.drop pos).take (n + 1)
      let data := Function.update files.data ino (overwrite (files.data ino) pos chunk)
      (opened ino (pos + chunk.length), { files with data })
  | written =>
    match files.tmp with
    | none => (failed, files)
    | some ino => (renamed, { files with target := some ino, tmp := none })
  | writer => (writer, files)

/-! ## Readers -/

inductive Reader where
  | start
  /-- `existsSync` has found the file. -/
  | found
  | opened (ino : Inode) (bytes : Bytes)
  /-- The content, unless there is no file. -/
  | seen (content : Option Bytes)
  | failed
  deriving DecidableEq

/-- The next system call of a reader; a `read` gives at most `n + 1` bytes. -/
def Reader.advance (n : Nat) (files : Files) : Reader → Reader
  | start => if files.target.isSome then found else seen none
  | found =>
    match files.target with
    | none => failed
    | some ino => opened ino []
  | opened ino bytes =>
    if (files.data ino).length ≤ bytes.length then seen (some bytes)
    else opened ino (bytes ++ ((files.data ino).drop bytes.length).take (n + 1))
  | reader => reader

/-! ## Runs -/

section Runs

variable {ι κ : Type} [DecidableEq ι] [DecidableEq κ]

structure System (ι κ : Type) where
  files : Files
  writers : ι → Writer
  readers : κ → Reader

inductive Event (ι κ : Type) where
  | write (i : ι) (n : Nat)
  | crash (i : ι)
  | read (r : κ) (n : Nat)

def System.step (content : ι → Bytes) (s : System ι κ) : Event ι κ → System ι κ
  | .write i n =>
    let (writer, files) := (s.writers i).advance (content i) n s.files
    { s with files, writers := Function.update s.writers i writer }
  | .crash i => { s with writers := Function.update s.writers i .crashed }
  | .read r n =>
    { s with readers := Function.update s.readers r ((s.readers r).advance n s.files) }

/-- Nobody has begun. There may be an old file, and a temporary one that was left behind. -/
def System.initial (dir : Bool) (old leftover : Option Bytes) : System ι κ where
  files := {
    dir := dir || old.isSome || leftover.isSome
    target := old.map fun _ => 0
    tmp := leftover.map fun _ => 1
    data ino := if ino = 0 then old.getD [] else leftover.getD []
    next := 2 }
  writers _ := .start
  readers _ := .start

/-- The writer has the temporary file open, or will rename it. -/
def Writer.Holds : Writer → Prop
  | opened .. | written => True
  | _ => False

instance : DecidablePred Writer.Holds
  | .opened .. | .written => .isTrue trivial
  | .start | .made | .renamed | .failed | .crashed => .isFalse id

/-- A writer opens the temporary file while no other one holds it. -/
def Alone (s : System ι κ) : Event ι κ → Prop
  | .write i _ => s.writers i = .made → ∀ j, ¬(s.writers j).Holds
  | _ => True

instance [Fintype ι] (s : System ι κ) : DecidablePred (Alone s)
  | .write i _ => inferInstanceAs (Decidable (s.writers i = .made → ∀ j, ¬(s.writers j).Holds))
  | .crash _ | .read .. => .isTrue trivial

/-- What readers see is the old content or that of one writer, and no writer fails. -/
structure Atomic (old : Option Bytes) (content : ι → Bytes) (s : System ι κ) : Prop where
  seen : ∀ r bytes, s.readers r = .seen bytes → bytes = old ∨ ∃ i, bytes = some (content i)
  writers : ∀ i, s.writers i ≠ .failed

end Runs

/-! ## The invariant -/

section Invariant

variable {ι κ : Type} {old : Option Bytes} {content : ι → Bytes} {files files' : Files}

/-- A file that readers can come to: it is whole, and not the temporary one. -/
structure Settled (old : Option Bytes) (content : ι → Bytes) (files : Files) (ino : Inode) :
    Prop where
  used : ino < files.next
  apart : files.tmp ≠ some ino
  whole : some (files.data ino) = old ∨ ∃ i, files.data ino = content i

/-- Where the names lead. -/
structure Placed (old : Option Bytes) (content : ι → Bytes) (files : Files) : Prop where
  tmp : ∀ ino, files.tmp = some ino → ino < files.next
  target : ∀ ino, files.target = some ino → Settled old content files ino
  absent : files.target = none → old = none

/-- What has been done by a writer. -/
def Writes (content : Bytes) (files : Files) : Writer → Prop
  | .made => files.dir = true
  | .opened ino pos =>
    files.tmp = some ino ∧ files.data ino = content.take pos ∧ pos ≤ content.length
  | .written => ∃ ino, files.tmp = some ino ∧ files.data ino = content
  | .failed => False
  | _ => True

/-- What a reader knows. -/
def Reads (old : Option Bytes) (content : ι → Bytes) (files : Files) : Reader → Prop
  | .start => True
  | .found => files.target ≠ none
  | .opened ino bytes => Settled old content files ino ∧ bytes <+: files.data ino
  | .seen bytes => bytes = old ∨ ∃ i, bytes = some (content i)
  | .failed => False

structure Sound (old : Option Bytes) (content : ι → Bytes) (s : System ι κ) : Prop where
  placed : Placed old content s.files
  alone : ∀ i j, (s.writers i).Holds → (s.writers j).Holds → i = j
  writers : ∀ i, Writes (content i) s.files (s.writers i)
  readers : ∀ r, Reads old content s.files (s.readers r)

theorem Sound.atomic {s : System ι κ} (h : Sound old content s) : Atomic old content s := by
  refine ⟨fun r bytes hr => ?_, fun i hi => ?_⟩
  · have hread := h.readers r
    rwa [hr] at hread
  · have hwrite := h.writers i
    rwa [hi] at hwrite

/-! ### Readers -/

theorem Settled.keep {ino : Inode} (h : Settled old content files ino)
    (hnext : files.next ≤ files'.next) (hapart : files'.tmp ≠ some ino)
    (hdata : files'.data ino = files.data ino) : Settled old content files' ino :=
  ⟨Nat.lt_of_lt_of_le h.used hnext, hapart, by rw [hdata]; exact h.whole⟩

/-- What readers can come to stays as it is. -/
structure Keeps (old : Option Bytes) (content : ι → Bytes) (files files' : Files) : Prop where
  settled : ∀ ino, Settled old content files ino →
    Settled old content files' ino ∧ files'.data ino = files.data ino
  target : files.target ≠ none → files'.target ≠ none
  dir : files.dir = true → files'.dir = true

theorem Reads.keep {reader : Reader} (h : Reads old content files reader)
    (hkeep : Keeps old content files files') : Reads old content files' reader := by
  cases reader with
  | start => trivial
  | found => exact hkeep.target h
  | opened ino bytes =>
    obtain ⟨hsettled, hdata⟩ := hkeep.settled ino h.1
    exact ⟨hsettled, by rw [hdata]; exact h.2⟩
  | seen bytes => exact h
  | failed => exact h

theorem Reads.advance {reader : Reader} (hplaced : Placed old content files)
    (h : Reads old content files reader) (n : Nat) :
    Reads old content files (reader.advance n files) := by
  cases reader with
  | start =>
    cases htarget : files.target with
    | none =>
      simp only [Reader.advance, htarget]
      exact .inl (hplaced.absent htarget).symm
    | some ino =>
      simp only [Reader.advance, htarget]
      exact fun hnone => nomatch htarget.symm.trans hnone
  | found =>
    cases htarget : files.target with
    | none => exact absurd htarget h
    | some ino =>
      simp only [Reader.advance, htarget]
      exact ⟨hplaced.target ino htarget, List.nil_prefix⟩
  | opened ino bytes =>
    obtain ⟨hsettled, hprefix⟩ := h
    by_cases hend : (files.data ino).length ≤ bytes.length
    · have hbytes : bytes = files.data ino := hprefix.eq_of_length_le hend
      simp only [Reader.advance, if_pos hend]
      rcases hsettled.whole with hold | ⟨i, hi⟩
      · exact .inl (hbytes ▸ hold)
      · exact .inr ⟨i, congrArg some (hbytes.trans hi)⟩
    · simp only [Reader.advance, if_neg hend]
      obtain ⟨rest, hrest⟩ := hprefix
      refine ⟨hsettled, ?_⟩
      rw [← hrest, List.drop_left]
      exact (List.prefix_append_right_inj bytes).mpr (List.take_prefix _ _)
  | seen bytes => exact h
  | failed => exact h

/-! ### Writers -/

/-- Of a writer that does not hold the temporary file, only the directory matters. -/
theorem Writes.keep {bytes : Bytes} {writer : Writer} (h : Writes bytes files writer)
    (hidle : ¬writer.Holds) (hkeep : Keeps old content files files') :
    Writes bytes files' writer := by
  cases writer with
  | made => exact hkeep.dir h
  | opened ino pos => exact absurd trivial hidle
  | written => exact absurd trivial hidle
  | failed => exact h
  | start => trivial
  | renamed => trivial
  | crashed => trivial

/-- A change to what the temporary file holds. -/
theorem keeps_write {ino : Inode} {bytes : Bytes} (htmp : files.tmp = some ino) :
    Keeps old content files { files with data := Function.update files.data ino bytes } := by
  refine ⟨fun other h => ?_, id, id⟩
  have hne : other ≠ ino := fun heq => h.apart (heq ▸ htmp)
  have hdata : Function.update files.data ino bytes other = files.data other :=
    Function.update_of_ne hne ..
  exact ⟨h.keep (Nat.le_refl _) h.apart hdata, hdata⟩

theorem placed_write {ino : Inode} {bytes : Bytes} (h : Placed old content files)
    (htmp : files.tmp = some ino) :
    Placed old content { files with data := Function.update files.data ino bytes } :=
  ⟨h.tmp, fun other hother => ((keeps_write htmp).settled other (h.target other hother)).1, h.absent⟩

/-- Opening the temporary file leaves what readers can come to. -/
theorem openTmp_spec (h : Placed old content files) (hdir : files.dir = true) :
    ∃ ino files', files.openTmp = some (ino, files') ∧ Placed old content files' ∧
      Keeps old content files files' ∧ files'.tmp = some ino ∧ files'.data ino = [] := by
  cases htmp : files.tmp with
  | some ino =>
    have hopen : files.openTmp =
        some (ino, { files with data := Function.update files.data ino [] }) := by
      simp [Files.openTmp, hdir, htmp]
    exact ⟨ino, _, hopen, placed_write h htmp, keeps_write htmp, htmp, Function.update_self ..⟩
  | none =>
    generalize hfiles : ({ files with
      tmp := some files.next
      data := Function.update files.data files.next []
      next := files.next + 1 } : Files) = created
    have hopen : files.openTmp = some (files.next, created) := by
      simp [Files.openTmp, hdir, htmp, ← hfiles]
    subst hfiles
    have hkeep : Keeps old content files { files with
        tmp := some files.next
        data := Function.update files.data files.next []
        next := files.next + 1 } := by
      refine ⟨fun ino hino => ?_, id, id⟩
      have hne : ino ≠ files.next := Nat.ne_of_lt hino.used
      have hdata : Function.update files.data files.next [] ino = files.data ino :=
        Function.update_of_ne hne ..
      exact ⟨hino.keep (Nat.le_succ _) (fun heq => hne (Option.some.inj heq).symm) hdata, hdata⟩
    refine ⟨files.next, _, hopen, ⟨?_, ?_, h.absent⟩, hkeep, rfl, Function.update_self ..⟩
    · rintro ino heq
      rw [← Option.some.inj heq]
      exact Nat.lt_succ_self _
    · exact fun ino htarget => (hkeep.settled ino (h.target ino htarget)).1

/-- The next piece comes after what has been written. -/
theorem overwrite_take {bytes : Bytes} {pos : Nat} (hpos : pos ≤ bytes.length) (n : Nat) :
    overwrite (bytes.take pos) pos ((bytes.drop pos).take n) =
      bytes.take (pos + ((bytes.drop pos).take n).length) := by
  have hlength : (bytes.take pos).length = pos := List.length_take_of_le hpos
  have hchunk : bytes.take pos ++ (bytes.drop pos).take n =
      bytes.take (pos + ((bytes.drop pos).take n).length) := by
    rw [List.take_add]
    exact congrArg _ (List.prefix_iff_eq_take.mp (List.take_prefix n (bytes.drop pos)))
  unfold overwrite
  rw [List.take_take, Nat.min_self, hlength, Nat.sub_self, List.replicate_zero, List.append_nil,
    List.drop_eq_nil_of_le (Nat.le_trans (Nat.le_of_eq hlength) (Nat.le_add_right ..)),
    List.append_nil, hchunk]

/-- The next system call of a writer that has the temporary file for itself, or does not touch it. -/
structure Advances (old : Option Bytes) (content : ι → Bytes) (bytes : Bytes) (files files' : Files)
    (writer writer' : Writer) : Prop where
  placed : Placed old content files'
  keeps : Keeps old content files files'
  writes : Writes bytes files' writer'
  holds : writer'.Holds → writer.Holds ∨ writer = .made
  idle : ¬writer.Holds → writer ≠ .made → files'.tmp = files.tmp ∧ files'.data = files.data

theorem advance_spec {i : ι} {writer : Writer} (hplaced : Placed old content files)
    (h : Writes (content i) files writer) (n : Nat) :
    Advances old content (content i) files (writer.advance (content i) n files).2 writer
      (writer.advance (content i) n files).1 := by
  have hsame : Keeps old content files files := ⟨fun _ hino => ⟨hino, rfl⟩, id, id⟩
  cases writer with
  | start =>
    have hkeep : Keeps old content files { files with dir := true } :=
      ⟨fun _ hino => ⟨⟨hino.used, hino.apart, hino.whole⟩, rfl⟩, id, fun _ => rfl⟩
    exact ⟨⟨hplaced.tmp, fun ino hino => (hkeep.settled ino (hplaced.target ino hino)).1,
      hplaced.absent⟩, hkeep, rfl, fun hholds => hholds.elim, fun _ _ => ⟨rfl, rfl⟩⟩
  | made =>
    obtain ⟨ino, files', hopen, hplaced', hkeep, htmp, hdata⟩ := openTmp_spec hplaced h
    simp only [Writer.advance, hopen]
    exact ⟨hplaced', hkeep, ⟨htmp, hdata, Nat.zero_le _⟩, fun _ => .inr rfl,
      fun _ hmade => absurd rfl hmade⟩
  | opened ino pos =>
    obtain ⟨htmp, hdata, hpos⟩ := h
    by_cases hend : (content i).length ≤ pos
    · simp only [Writer.advance, if_pos hend]
      rw [List.take_of_length_le hend] at hdata
      exact ⟨hplaced, hsame, ⟨ino, htmp, hdata⟩, fun _ => .inl trivial,
        fun hidle => absurd trivial hidle⟩
    · simp only [Writer.advance, if_neg hend]
      refine ⟨placed_write hplaced htmp, keeps_write htmp, ⟨htmp, ?_, ?_⟩, fun _ => .inl trivial,
        fun hidle => absurd trivial hidle⟩
      · show Function.update files.data ino _ ino = _
        rw [Function.update_self, hdata, overwrite_take hpos]
      · rw [List.length_take, List.length_drop]
        omega
  | written =>
    obtain ⟨ino, htmp, hdata⟩ := h
    simp only [Writer.advance, htmp]
    have hkeep : Keeps old content files { files with target := some ino, tmp := none } :=
      ⟨fun _ hother => ⟨⟨hother.used, nofun, hother.whole⟩, rfl⟩, fun _ => nofun, id⟩
    refine ⟨⟨nofun, fun other hother => ?_, nofun⟩, hkeep, trivial, fun hholds => hholds.elim,
      fun hidle => absurd trivial hidle⟩
    rw [← Option.some.inj hother]
    exact ⟨hplaced.tmp ino htmp, nofun, .inr ⟨i, hdata⟩⟩
  | failed => exact h.elim
  | renamed => exact ⟨hplaced, hsame, trivial, fun hholds => hholds.elim, fun _ _ => ⟨rfl, rfl⟩⟩
  | crashed => exact ⟨hplaced, hsame, trivial, fun hholds => hholds.elim, fun _ _ => ⟨rfl, rfl⟩⟩

theorem Writes.of_eq {bytes : Bytes} {writer : Writer} (h : Writes bytes files writer)
    (hholds : writer.Holds) (htmp : files'.tmp = files.tmp) (hdata : files'.data = files.data) :
    Writes bytes files' writer := by
  cases writer with
  | opened ino pos => exact ⟨htmp.trans h.1, by rw [hdata]; exact h.2⟩
  | written =>
    obtain ⟨ino, hino, hcontent⟩ := h
    exact ⟨ino, htmp.trans hino, by rw [hdata]; exact hcontent⟩
  | start => exact hholds.elim
  | made => exact hholds.elim
  | renamed => exact hholds.elim
  | failed => exact hholds.elim
  | crashed => exact hholds.elim

theorem Sound.initial (dir : Bool) (old leftover : Option Bytes) (content : ι → Bytes) :
    Sound old content (System.initial dir old leftover : System ι κ) := by
  refine ⟨⟨fun ino htmp => ?_, fun ino htarget => ?_, fun habsent => ?_⟩,
    fun _ _ hholds => hholds.elim, fun _ => trivial, fun _ => trivial⟩
  · obtain ⟨_, -, rfl⟩ := Option.map_eq_some_iff.mp htmp
    exact Nat.lt_succ_self 1
  · obtain ⟨bytes, rfl, rfl⟩ := Option.map_eq_some_iff.mp htarget
    refine ⟨Nat.zero_lt_two, fun htmp => ?_, .inl rfl⟩
    obtain ⟨_, -, h⟩ := Option.map_eq_some_iff.mp htmp
    exact nomatch h
  · exact Option.map_eq_none_iff.mp habsent

variable [DecidableEq ι] [DecidableEq κ] {s : System ι κ}

/-- A system call of a writer that opens the temporary file only while nobody else holds it. -/
theorem Sound.write {i : ι} {n : Nat} (h : Sound old content s)
    (halone : Alone s (.write i n)) : Sound old content (s.step content (.write i n)) := by
  have hadvance := advance_spec h.placed (h.writers i) n
  generalize hwriter : ((s.writers i).advance (content i) n s.files) = next at hadvance
  obtain ⟨writer, files⟩ := next
  have hstep : s.step content (.write i n) =
      { s with files, writers := Function.update s.writers i writer } := by
    simp only [System.step, hwriter]
  rw [hstep]
  -- When the writer gets or has the temporary file, no other one does.
  have hothers (hholds : writer.Holds) (j : ι) (hj : (s.writers j).Holds) : j = i := by
    rcases hadvance.holds hholds with hold | hmade
    · exact h.alone j i hj hold
    · exact absurd hj (halone hmade j)
  have hself : Function.update s.writers i writer i = writer := Function.update_self ..
  have hne (j : ι) (hj : j ≠ i) : Function.update s.writers i writer j = s.writers j :=
    Function.update_of_ne hj ..
  refine ⟨hadvance.placed, fun j k hj hk => ?_, fun j => ?_,
    fun r => (h.readers r).keep hadvance.keeps⟩
  · dsimp only at hj hk
    by_cases hji : j = i
    · by_cases hki : k = i
      · rw [hji, hki]
      · rw [hji, hself] at hj
        rw [hne k hki] at hk
        rw [hji, hothers hj k hk]
    · rw [hne j hji] at hj
      by_cases hki : k = i
      · rw [hki, hself] at hk
        rw [hki, hothers hk j hj]
      · rw [hne k hki] at hk
        exact h.alone j k hj hk
  · dsimp only
    by_cases hji : j = i
    · rw [hji, hself]
      exact hadvance.writes
    · rw [hne j hji]
      by_cases hj : (s.writers j).Holds
      · obtain ⟨htmp, hdata⟩ := hadvance.idle (fun hi => hji (h.alone j i hj hi))
          fun hmade => halone hmade j hj
        exact (h.writers j).of_eq hj htmp hdata
      · exact (h.writers j).keep hj hadvance.keeps

theorem Sound.step {e : Event ι κ} (h : Sound old content s) (halone : Alone s e) :
    Sound old content (s.step content e) := by
  cases e with
  | write i n => exact h.write halone
  | crash i =>
    refine ⟨h.placed, fun j k hj hk => ?_, fun j => ?_, h.readers⟩
    · have hcrashed {j : ι} (hj : (Function.update s.writers i .crashed j).Holds) :
          (s.writers j).Holds := by
        by_cases hji : j = i
        · rw [hji, Function.update_self] at hj
          exact hj.elim
        · rwa [Function.update_of_ne hji] at hj
      exact h.alone j k (hcrashed hj) (hcrashed hk)
    · by_cases hji : j = i
      · subst hji
        show Writes _ _ (Function.update s.writers j .crashed j)
        rw [Function.update_self]
        trivial
      · show Writes _ _ (Function.update s.writers i .crashed j)
        rw [Function.update_of_ne hji]
        exact h.writers j
  | read r n =>
    refine ⟨h.placed, h.alone, h.writers, fun q => ?_⟩
    show Reads _ _ _ (Function.update s.readers r _ q)
    by_cases hq : q = r
    · subst hq
      rw [Function.update_self]
      exact (h.readers q).advance h.placed n
    · rw [Function.update_of_ne hq]
      exact h.readers q

/-- **Writes are atomic while no two writers hold the temporary file**: in every state, readers have
seen the old content or the complete content of one writer, and no writer has failed. -/
theorem writes_atomic (dir : Bool) (old leftover : Option Bytes) (content : ι → Bytes)
    {events : List (Event ι κ)}
    (h : Trace.AllSteps (System.step content) Alone (System.initial dir old leftover) events)
    (k : Nat) :
    Atomic old content
      (Trace.exec (System.step content) (System.initial dir old leftover) (events.take k)) := by
  have hstart : Sound old content (System.initial dir old leftover : System ι κ) :=
    Sound.initial dir old leftover content
  have hsound := Trace.AllSteps.invariant (I := Sound old content)
    (fun s e hs halone => hs.step halone) hstart h k
  exact hsound.atomic

end Invariant

/-! ## Two writers -/

/-- The content of each of two writers. -/
def one (second : Bool) : Bytes := if second then [2, 2] else [1, 1]

def turns (second : Bool) (n : Nat) : List (Event Bool Unit) := List.replicate n (.write second 1)

def reads (n : Nat) : List (Event Bool Unit) := List.replicate n (.read () 1)

/-- A writer after the other, where a third one has left a temporary file behind. -/
theorem writes_atomic_in_turn :
    Atomic (some [0]) one (Trace.exec (System.step one) (System.initial true (some [0]) (some [3]))
      ((turns false 4 ++ reads 2 ++ turns false 1 ++ turns true 5 ++ reads 2).take 14)) :=
  writes_atomic true (some [0]) (some [3]) one (by decide) 14

/-- The second of two writers that have both written cannot rename; and where one opens the temporary
file that the other renames, a reader sees an empty file. -/
theorem writes_collide :
    (¬Atomic none one (Trace.exec (System.step one) (System.initial false none none)
      (turns false 4 ++ turns true 4 ++ turns false 1 ++ turns true 1))) ∧
    ¬Atomic none one (Trace.exec (System.step one) (System.initial false none none)
      (turns false 4 ++ turns true 2 ++ turns false 1 ++ reads 3)) := by
  constructor
  · intro h
    exact h.writers true (by decide)
  · intro h
    rcases h.seen () (some []) (by decide) with h | ⟨second, h⟩
    · exact nomatch h
    · cases second <;> exact nomatch h

end Lionden.Deploy.AtomicWrite
