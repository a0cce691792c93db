import Mathlib.Data.List.DropRight

/-!
# The output of a devnode

What a child process writes is kept for its diagnostics, in a ring buffer for each stream.

* `RingBuffer.append`: a chunk comes in, and the oldest bytes go out.
* `append_content`, `content_appends`: the content is the last bytes of all chunks.
* `getTail_onData`: the two streams of a child keep what they write, in any order of their chunks.
-/

namespace Lionden.Network

abbrev Buffer := List UInt8

structure RingBuffer where
  maxBytes : Nat
  chunks : List Buffer
  byteLength : Nat

namespace RingBuffer

def new (maxBytes : Nat) : RingBuffer where
  maxBytes := maxBytes
  chunks := []
  byteLength := 0

/-- The loop of `append`. -/
def evict (maxBytes : Nat) : List Buffer → Nat → List Buffer × Nat
  | [], byteLength => ([], byteLength)
  | head :: rest, byteLength =>
    if byteLength > maxBytes then
      let overflow := byteLength - maxBytes
      if head.length ≤ overflow then evict maxBytes rest (byteLength - head.length)
      else evict maxBytes (head.drop overflow :: rest) (byteLength - overflow)
    else (head :: rest, byteLength)
termination_by chunks byteLength => chunks.length + byteLength

def append (buffer : RingBuffer) (chunk : Buffer) : RingBuffer :=
  if chunk.length = 0 then buffer
  else
    let (chunks, byteLength) :=
      evict buffer.maxBytes (buffer.chunks ++ [chunk]) (buffer.byteLength + chunk.length)
    { buffer with chunks, byteLength }

/-- `Buffer.concat(list, totalLength)`: it is cut off at the length, or filled with zeros. -/
def concat (list : List Buffer) (totalLength : Nat) : Buffer :=
  list.flatten.take totalLength ++ List.replicate (totalLength - list.flatten.length) 0

/-- The bytes that `toString` decodes. -/
def content (buffer : RingBuffer) : Buffer :=
  if buffer.chunks.length = 0 then [] else concat buffer.chunks buffer.byteLength

/-! ## The last bytes -/

/-- The first bytes of a list do not matter to its last. -/
theorem rtake_append_rtake {l l' : Buffer} {n : Nat} :
    (l.rtake n ++ l').rtake n = (l ++ l').rtake n := by
  unfold List.rtake
  have hdrop : l.drop (l.length - n) ++ l' = (l ++ l').drop (l.length - n) :=
    (List.drop_append_of_le_length (Nat.sub_le _ _)).symm
  rw [hdrop, List.drop_drop, List.length_drop, List.length_append]
  congr 1
  omega

theorem rtake_of_length_le {l : Buffer} {n : Nat} (h : l.length ≤ n) : l.rtake n = l := by
  unfold List.rtake
  rw [Nat.sub_eq_zero_of_le h, List.drop_zero]

/-- What the loop leaves, given the length of what there is. -/
theorem evict_spec {maxBytes byteLength : Nat} {chunks : List Buffer}
    (h : byteLength = chunks.flatten.length) :
    (evict maxBytes chunks byteLength).1.flatten = chunks.flatten.rtake maxBytes ∧
      (evict maxBytes chunks byteLength).2 =
        (evict maxBytes chunks byteLength).1.flatten.length := by
  fun_induction evict maxBytes chunks byteLength with
  | case1 byteLength => exact ⟨List.rtake_nil _ |>.symm, h⟩
  | case2 head rest byteLength hover overflow hhead ih =>
    -- All of the first chunk goes.
    rw [List.flatten_cons, List.length_append] at h
    obtain ⟨hflatten, hlength⟩ := ih (by omega)
    refine ⟨?_, hlength⟩
    rw [hflatten, List.flatten_cons]
    unfold List.rtake
    have hgone : head.length ≤ head.length + rest.flatten.length - maxBytes := by omega
    rw [List.length_append, List.drop_append, List.drop_eq_nil_of_le hgone, List.nil_append]
    congr 1
    omega
  | case3 head rest byteLength hover overflow hhead ih =>
    -- The first chunk is cut, and nothing is left over.
    rw [List.flatten_cons, List.length_append] at h
    have hdrop : (head.drop overflow :: rest).flatten = (head ++ rest.flatten).drop overflow := by
      rw [List.flatten_cons, List.drop_append_of_le_length (by omega)]
    have hcut : ((head ++ rest.flatten).drop overflow).length = maxBytes := by
      rw [List.length_drop, List.length_append]
      omega
    obtain ⟨hflatten, hlength⟩ := ih (by rw [hdrop, hcut]; omega)
    refine ⟨?_, hlength⟩
    rw [hflatten, hdrop, rtake_of_length_le hcut.le, List.flatten_cons]
    unfold List.rtake
    rw [List.length_append, ← h]
  | case4 head rest byteLength hfits =>
    have hlength : (head :: rest).flatten.length ≤ maxBytes := by omega
    exact ⟨(rtake_of_length_le hlength).symm, h⟩

/-- The length is that of the chunks. -/
def Counted (buffer : RingBuffer) : Prop := buffer.byteLength = buffer.chunks.flatten.length

theorem Counted.content {buffer : RingBuffer} (h : buffer.Counted) :
    buffer.content = buffer.chunks.flatten := by
  unfold RingBuffer.content concat
  rw [h, List.take_length, Nat.sub_self]
  cases buffer.chunks with
  | nil => rfl
  | cons chunk chunks => exact List.append_nil _

/-- The buffer has been filled by these bytes. -/
structure Holds (buffer : RingBuffer) (maxBytes : Nat) (bytes : Buffer) : Prop where
  maxBytes_eq : buffer.maxBytes = maxBytes
  counted : buffer.Counted
  last : buffer.chunks.flatten = bytes.rtake maxBytes

theorem new_holds (maxBytes : Nat) : (new maxBytes).Holds maxBytes [] :=
  ⟨rfl, rfl, (List.rtake_nil _).symm⟩

/-- **A chunk comes in at the end, and what is too much goes at the beginning.** -/
theorem append_holds {buffer : RingBuffer} {maxBytes : Nat} {bytes : Buffer}
    (h : buffer.Holds maxBytes bytes) (chunk : Buffer) :
    (buffer.append chunk).Holds maxBytes (bytes ++ chunk) := by
  unfold append
  by_cases hchunk : chunk.length = 0
  · rw [if_pos hchunk, List.length_eq_zero_iff.mp hchunk, List.append_nil]
    exact h
  · rw [if_neg hchunk, h.maxBytes_eq]
    have hflatten : (buffer.chunks ++ [chunk]).flatten = buffer.chunks.flatten ++ chunk := by
      rw [List.flatten_append, List.flatten_singleton]
    have hlength : buffer.byteLength + chunk.length = (buffer.chunks ++ [chunk]).flatten.length := by
      rw [hflatten, List.length_append, ← h.counted]
    obtain ⟨hlast, hcounted⟩ := @evict_spec maxBytes _ _ hlength
    exact ⟨rfl, hcounted, by rw [hlast, hflatten, h.last, rtake_append_rtake]⟩

theorem appends_holds {buffer : RingBuffer} {maxBytes : Nat} {bytes : Buffer}
    (h : buffer.Holds maxBytes bytes) (chunks : List Buffer) :
    (chunks.foldl append buffer).Holds maxBytes (bytes ++ chunks.flatten) := by
  induction chunks generalizing buffer bytes with
  | nil => rwa [List.flatten_nil, List.append_nil]
  | cons chunk chunks ih =>
    rw [List.flatten_cons, ← List.append_assoc]
    exact ih (append_holds h chunk)

theorem Holds.content {buffer : RingBuffer} {maxBytes : Nat} {bytes : Buffer}
    (h : buffer.Holds maxBytes bytes) : buffer.content = bytes.rtake maxBytes :=
  h.counted.content.trans h.last

/-- **The content is the last bytes of all chunks**, as many as there are or as there is room for. -/
theorem content_appends (maxBytes : Nat) (chunks : List Buffer) :
    (chunks.foldl append (new maxBytes)).content =
      chunks.flatten.rtake (min chunks.flatten.length maxBytes) := by
  rw [(appends_holds (new_holds maxBytes) chunks).content, List.nil_append]
  unfold List.rtake
  congr 1
  omega

example : ([[1, 2, 3], [], [4, 5, 6, 7]].foldl append (new 5)).content = [3, 4, 5, 6, 7] :=
  (appends_holds (new_holds 5) _).content

end RingBuffer

/-! ## The logs of a child -/

def LOG_BUFFER_BYTES : Nat := 64 * 1024

inductive Stream where
  | stdout
  | stderr
  deriving DecidableEq

/-- The buffers that `setupChildLogging` fills, unless the streams are inherited. -/
structure ChildLogging where
  stdoutBuf : RingBuffer
  stderrBuf : RingBuffer

def setupChildLogging : ChildLogging where
  stdoutBuf := .new LOG_BUFFER_BYTES
  stderrBuf := .new LOG_BUFFER_BYTES

/-- A `data` event. -/
def ChildLogging.onData (logs : ChildLogging) : Stream × Buffer → ChildLogging
  | (.stdout, chunk) => { logs with stdoutBuf := logs.stdoutBuf.append chunk }
  | (.stderr, chunk) => { logs with stderrBuf := logs.stderrBuf.append chunk }

def ChildLogging.getTail (logs : ChildLogging) : Stream → Buffer
  | .stdout => logs.stdoutBuf.content
  | .stderr => logs.stderrBuf.content

/-- What has been written to a stream. -/
def written (stream : Stream) (events : List (Stream × Buffer)) : Buffer :=
  (events.filterMap fun (other, chunk) => if other = stream then some chunk else none).flatten

theorem written_cons (stream other : Stream) (chunk : Buffer) (events : List (Stream × Buffer)) :
    written stream ((other, chunk) :: events) =
      (if other = stream then chunk else []) ++ written stream events := by
  unfold written
  rw [List.filterMap_cons]
  by_cases h : other = stream
  · simp only [h, if_true, List.flatten_cons]
  · simp only [h, if_false, List.nil_append]

/-- The tail of a stream is the last of what has been written to it, in whatever order the chunks of
the two streams come. -/
theorem getTail_onData (events : List (Stream × Buffer)) (stream : Stream) :
    (events.foldl ChildLogging.onData setupChildLogging).getTail stream =
      (written stream events).rtake LOG_BUFFER_BYTES := by
  suffices ∀ (logs : ChildLogging) (out err : Buffer),
      logs.stdoutBuf.Holds LOG_BUFFER_BYTES out → logs.stderrBuf.Holds LOG_BUFFER_BYTES err →
      (events.foldl ChildLogging.onData logs).stdoutBuf.Holds LOG_BUFFER_BYTES
          (out ++ written .stdout events) ∧
        (events.foldl ChildLogging.onData logs).stderrBuf.Holds LOG_BUFFER_BYTES
          (err ++ written .stderr events) by
    obtain ⟨hout, herr⟩ := this setupChildLogging [] [] (RingBuffer.new_holds _)
      (RingBuffer.new_holds _)
    cases stream with
    | stdout => exact hout.content
    | stderr => exact herr.content
  induction events with
  | nil =>
    intro logs out err hout herr
    simp only [written, List.filterMap_nil, List.flatten_nil, List.append_nil]
    exact ⟨hout, herr⟩
  | cons event events ih =>
    intro logs out err hout herr
    obtain ⟨other, chunk⟩ := event
    cases other with
    | stdout =>
      have h := ih (logs.onData (.stdout, chunk)) _ err (RingBuffer.append_holds hout chunk) herr
      rw [List.append_assoc] at h
      simpa [written_cons] using h
    | stderr =>
      have h := ih (logs.onData (.stderr, chunk)) out _ hout (RingBuffer.append_holds herr chunk)
      rw [List.append_assoc] at h
      simpa [written_cons] using h

end Lionden.Network
