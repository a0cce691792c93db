import Lionden.Lib.Trace
import Lionden.Lib.Window
import Lionden.Redact.Secrecy
import Lionden.Targets.LeoOutcome

/-!
# Running the Leo CLI (`deploy-backend/leo/runner.ts`)

The runner spawns Leo, forwards what Leo writes and keeps the end of it. Both pass a redactor first.

* `RedactedTail`: one of the two outputs.
* `Child.step`: what an event of the child process, or of a timer, does.
* `leo_output_redacted`: what is forwarded and kept, for every run of the child.
-/

namespace Lionden.Targets

open Redact Trace

/-! ## An output -/

def LOG_TAIL_BYTES : Nat := 4 * 1024

structure RedactedTail where
  redactor : Redactor := .create
  buffer : JsString := []
  /-- What has been written to the terminal. -/
  forwarded : JsString := []

namespace RedactedTail

variable (N : Needles) (forwards : Bool) (tail : RedactedTail)

def emit (text : JsString) : RedactedTail :=
  if text = [] then tail
  else
    { tail with
      forwarded := if forwards then tail.forwarded ++ text else tail.forwarded
      buffer := Window.keep LOG_TAIL_BYTES tail.buffer text }

def push (chunk : JsString) : RedactedTail :=
  let (text, redactor) := Redact.push N tail.redactor chunk
  { tail with redactor }.emit forwards text

def finish : RedactedTail :=
  let (text, redactor) := flush N tail.redactor
  { tail with redactor }.emit forwards text

end RedactedTail

/-! ## The child process -/

structure LeoRunRequest where
  binary : JsString
  argv : List JsString
  /-- The environment, by the names that are set. -/
  env : JsString → Option JsString
  cwd : JsString
  timeoutMs : Nat
  /-- `logMode` is `forward`. -/
  forwards : Bool
  secrets : List JsString

structure LeoRunResult where
  exitCode : Option Int
  signal : Option Signals
  stdout : JsString
  stderr : JsString
  timedOut : Bool

inductive Kill where
  | sigterm
  | sigkill
  deriving DecidableEq

structure Child where
  out : RedactedTail := {}
  err : RedactedTail := {}
  timeoutTimer : Bool
  killTimer : Bool := false
  timedOut : Bool := false
  /-- The signals that have been sent. -/
  kills : List Kill := []
  /-- What the promise of the run has settled with; an error is that of the spawn. -/
  settled : Option (Except JsString LeoRunResult) := none

inductive ChildEvent where
  | stdout (chunk : JsString)
  | stderr (chunk : JsString)
  | timeout
  | killTimeout
  | error (message : JsString)
  | close (code : Option Int) (signal : Option Signals)
  deriving DecidableEq

namespace Child

def spawned (request : LeoRunRequest) : Child := { timeoutTimer := decide (0 < request.timeoutMs) }

def cleanup (child : Child) : Child := { child with timeoutTimer := false, killTimer := false }

def finish (request : LeoRunRequest) (child : Child) : Child :=
  let N := .ofExtra request.secrets
  { child.cleanup with
    out := child.out.finish N request.forwards
    err := child.err.finish N request.forwards }

/-- A promise that has settled stays as it is. -/
def settle (child : Child) (result : Except JsString LeoRunResult) : Child :=
  { child with settled := child.settled.or (some result) }

def step (request : LeoRunRequest) (child : Child) : ChildEvent → Child
  | .stdout chunk =>
    { child with out := child.out.push (.ofExtra request.secrets) request.forwards chunk }
  | .stderr chunk =>
    { child with err := child.err.push (.ofExtra request.secrets) request.forwards chunk }
  | .timeout =>
    if child.timeoutTimer then
      { child with
        timeoutTimer := false
        timedOut := true
        kills := child.kills ++ [.sigterm]
        killTimer := true }
    else child
  | .killTimeout =>
    if child.killTimer then { child with killTimer := false, kills := child.kills ++ [.sigkill] }
    else child
  | .error message => (child.finish request).settle (.error message)
  | .close code signal =>
    let child := child.finish request
    child.settle (.ok
      { exitCode := code
        signal
        stdout := child.out.buffer
        stderr := child.err.buffer
        timedOut := child.timedOut })

end Child

/-- The child process after some events. -/
def spawnLeoRunner (request : LeoRunRequest) (events : List ChildEvent) : Child :=
  exec (Child.step request) (.spawned request) events

namespace ChildEvent

def stdout? : ChildEvent → Option JsString
  | .stdout chunk => some chunk
  | _ => none

def stderr? : ChildEvent → Option JsString
  | .stderr chunk => some chunk
  | _ => none

/-- The outputs are finished. -/
def finishes : ChildEvent → Bool
  | .error _ | .close .. => true
  | _ => false

end ChildEvent

/-- A child process that has failed to start or has closed writes nothing any more. An `error` is here
one of the start: that of a signal that cannot be sent, after which a child may write, is left out. -/
def OutputEnds (events : List ChildEvent) : Prop :=
  events.Pairwise fun e later => e.finishes = true → later.stdout? = none ∧ later.stderr? = none

instance : DecidablePred OutputEnds := fun _ => inferInstanceAs (Decidable (List.Pairwise ..))

/-! ## What passes an output -/

section Output

variable {N : Needles} {forwards : Bool} {tail : RedactedTail} {chunks : List JsString}

/-- An output whose redactor has read `chunks` and is to read more. -/
structure RedactedTail.Open (N : Needles) (forwards : Bool) (chunks : List JsString)
    (tail : RedactedTail) (emitted : JsString) : Prop where
  buffer : tail.buffer = emitted.rtake LOG_TAIL_BYTES
  forwarded : tail.forwarded = if forwards then emitted else []
  rest : ∀ rest, emitAll N .create (chunks ++ rest) = emitted ++ emitAll N tail.redactor rest

/-- An output that is finished: nothing is held back. -/
structure RedactedTail.Ended (N : Needles) (forwards : Bool) (chunks : List JsString)
    (tail : RedactedTail) : Prop where
  buffer : tail.buffer = (emitAll N .create chunks).rtake LOG_TAIL_BYTES
  forwarded : tail.forwarded = if forwards then emitAll N .create chunks else []
  flushed : tail.redactor.buf = [] ∧ tail.redactor.state = .scanning

namespace RedactedTail

/-- What is emitted is forwarded, and the buffer keeps the end of it. -/
theorem emit_keeps {emitted : JsString} (hbuffer : tail.buffer = emitted.rtake LOG_TAIL_BYTES)
    (hforwarded : tail.forwarded = if forwards then emitted else []) (text : JsString) :
    (tail.emit forwards text).buffer = (emitted ++ text).rtake LOG_TAIL_BYTES ∧
      (tail.emit forwards text).forwarded = (if forwards then emitted ++ text else []) ∧
      (tail.emit forwards text).redactor = tail.redactor := by
  rw [emit]
  by_cases h : text = []
  · rw [if_pos h, h, List.append_nil]
    exact ⟨hbuffer, hforwarded, rfl⟩
  · rw [if_neg h]
    refine ⟨?_, ?_, rfl⟩
    · simp only [hbuffer, Window.keep_rtake]
    · show (if forwards then tail.forwarded ++ text else tail.forwarded) = _
      cases forwards with
      | false => exact hforwarded
      | true => rw [if_pos rfl, if_pos rfl, hforwarded, if_pos rfl]

theorem Open.start : Open N forwards [] {} [] := ⟨rfl, by simp, fun _ => rfl⟩

theorem Open.push {emitted : JsString} (h : Open N forwards chunks tail emitted)
    (chunk : JsString) : Open N forwards (chunks ++ [chunk]) (tail.push N forwards chunk)
      (emitted ++ (Redact.push N tail.redactor chunk).1) := by
  have hkeeps := @emit_keeps forwards
    { tail with redactor := (Redact.push N tail.redactor chunk).2 } emitted h.buffer h.forwarded
    (Redact.push N tail.redactor chunk).1
  obtain ⟨hbuffer, hforwarded, hredactor⟩ := hkeeps
  refine ⟨hbuffer, hforwarded, fun rest => ?_⟩
  rw [List.append_assoc, h.rest, List.append_assoc]
  exact congrArg (fun r => emitted ++ (_ ++ emitAll N r rest)) hredactor.symm

theorem flush_state (r : Redactor) : (flush N r).2.buf = [] ∧ (flush N r).2.state = .scanning := by
  unfold flush
  exact ⟨rfl, rfl⟩

theorem Open.finish {emitted : JsString} (h : Open N forwards chunks tail emitted) :
    Ended N forwards chunks (tail.finish N forwards) := by
  have hkeeps := @emit_keeps forwards { tail with redactor := (flush N tail.redactor).2 } emitted
    h.buffer h.forwarded (flush N tail.redactor).1
  obtain ⟨hbuffer, hforwarded, hredactor⟩ := hkeeps
  have hall : emitAll N .create chunks = emitted ++ (flush N tail.redactor).1 := by
    simpa [emitAll] using h.rest []
  refine ⟨hall ▸ hbuffer, hall ▸ hforwarded, ?_⟩
  rw [show (tail.finish N forwards).redactor = _ from hredactor]
  exact flush_state _

/-- A flushed redactor has nothing to flush. -/
theorem flush_flushed {r : Redactor} (hbuf : r.buf = []) (hstate : r.state = .scanning) :
    (flush N r).1 = [] := by
  have hnone : iteration N true r = none := by rw [iteration, hbuf]
  rw [flush, drain_none hnone]
  simp [hstate]

theorem Ended.finish (h : Ended N forwards chunks tail) :
    Ended N forwards chunks (tail.finish N forwards) := by
  have hnil : (flush N tail.redactor).1 = [] := flush_flushed h.flushed.1 h.flushed.2
  have heq : tail.finish N forwards = { tail with redactor := (flush N tail.redactor).2 } := by
    show RedactedTail.emit _ _ (flush N tail.redactor).1 = _
    rw [hnil]
    rfl
  rw [heq]
  exact ⟨h.buffer, h.forwarded, flush_state _⟩

/-- An output, and whether it is finished. -/
def Holds (N : Needles) (forwards : Bool) (chunks : List JsString) (ended : Bool)
    (tail : RedactedTail) : Prop :=
  if ended then Ended N forwards chunks tail else ∃ emitted, Open N forwards chunks tail emitted

theorem Holds.push (h : Holds N forwards chunks false tail) (chunk : JsString) :
    Holds N forwards (chunks ++ [chunk]) false (tail.push N forwards chunk) := by
  obtain ⟨emitted, h⟩ := h
  exact ⟨_, h.push chunk⟩

theorem Holds.finish {ended : Bool} (h : Holds N forwards chunks ended tail) :
    Holds N forwards chunks true (tail.finish N forwards) := by
  cases ended with
  | false =>
    obtain ⟨emitted, h⟩ := h
    exact h.finish
  | true => exact Ended.finish h

/-- What is forwarded begins the redacted stream. -/
theorem Holds.forwarded_prefix {ended : Bool} (h : Holds N forwards chunks ended tail) :
    tail.forwarded <+: emitAll N .create chunks := by
  cases ended with
  | false =>
    obtain ⟨emitted, h⟩ := h
    have hall := h.rest []
    rw [List.append_nil] at hall
    rw [h.forwarded, hall]
    cases forwards with
    | false => exact List.nil_prefix
    | true => exact List.prefix_append ..
  | true =>
    rw [Ended.forwarded h]
    cases forwards with
    | false => exact List.nil_prefix
    | true => exact List.prefix_rfl

end RedactedTail

end Output

/-! ## Runs -/

def stdoutOf (events : List ChildEvent) : List JsString := events.filterMap ChildEvent.stdout?

def stderrOf (events : List ChildEvent) : List JsString := events.filterMap ChildEvent.stderr?

namespace Child

/-- Leo is asked to terminate when its time is over, and killed after that. -/
inductive Terminated : Child → Prop
  | untouched {child} (hkills : child.kills = []) (htimed : child.timedOut = false)
      (hkill : child.killTimer = false) : Terminated child
  | asked {child} (hkills : child.kills = [.sigterm]) (htimed : child.timedOut = true)
      (htimeout : child.timeoutTimer = false) : Terminated child
  | killed {child} (hkills : child.kills = [.sigterm, .sigkill]) (htimed : child.timedOut = true)
      (htimeout : child.timeoutTimer = false) (hkill : child.killTimer = false) : Terminated child

/-- What is known of the child after `events`. -/
structure Sound (request : LeoRunRequest) (events : List ChildEvent) (child : Child) : Prop where
  out : child.out.Holds (.ofExtra request.secrets) request.forwards (stdoutOf events)
    (events.any ChildEvent.finishes)
  err : child.err.Holds (.ofExtra request.secrets) request.forwards (stderrOf events)
    (events.any ChildEvent.finishes)
  terminated : child.Terminated
  timers : events.any ChildEvent.finishes = true →
    child.timeoutTimer = false ∧ child.killTimer = false
  settled : child.settled.isSome = events.any ChildEvent.finishes
  result : ∀ result, child.settled = some (.ok result) →
    result.stdout = (redactStream request.secrets (stdoutOf events)).rtake LOG_TAIL_BYTES ∧
    result.stderr = (redactStream request.secrets (stderrOf events)).rtake LOG_TAIL_BYTES ∧
    result.timedOut = child.timedOut

variable {request : LeoRunRequest} {events : List ChildEvent} {child : Child} {e : ChildEvent}

theorem Sound.start : Sound request [] (.spawned request) where
  out := ⟨[], .start⟩
  err := ⟨[], .start⟩
  terminated := .untouched rfl rfl rfl
  timers := by simp
  settled := rfl
  result := by simp [spawned]

theorem stdoutOf_concat : stdoutOf (events ++ [e]) = stdoutOf events ++ e.stdout?.toList := by
  rw [stdoutOf, List.filterMap_append]
  cases e <;> rfl

theorem stderrOf_concat : stderrOf (events ++ [e]) = stderrOf events ++ e.stderr?.toList := by
  rw [stderrOf, List.filterMap_append]
  cases e <;> rfl

theorem any_finishes_concat : (events ++ [e]).any ChildEvent.finishes =
    (events.any ChildEvent.finishes || e.finishes) := by
  rw [List.any_append, List.any_cons, List.any_nil, Bool.or_false]

/-- What is not about the outputs. -/
theorem Sound.quiet (h : Sound request events child) (hout : e.stdout? = none)
    (herr : e.stderr? = none) (hfinishes : e.finishes = false) {child' : Child}
    (hsame : child'.out = child.out ∧ child'.err = child.err ∧ child'.settled = child.settled)
    (hterminated : child'.Terminated)
    (htimers : events.any ChildEvent.finishes = true → child' = child) :
    Sound request (events ++ [e]) child' where
  out := by
    rw [stdoutOf_concat, any_finishes_concat, hout, hfinishes, Bool.or_false, hsame.1]
    simpa using h.out
  err := by
    rw [stderrOf_concat, any_finishes_concat, herr, hfinishes, Bool.or_false, hsame.2.1]
    simpa using h.err
  terminated := hterminated
  timers hends := by
    rw [any_finishes_concat, hfinishes, Bool.or_false] at hends
    rw [htimers hends]
    exact h.timers hends
  settled := by
    rw [any_finishes_concat, hfinishes, Bool.or_false, hsame.2.2]
    exact h.settled
  result result hresult := by
    rw [hsame.2.2] at hresult
    have hends : events.any ChildEvent.finishes = true := by rw [← h.settled, hresult]; rfl
    rw [stdoutOf_concat, stderrOf_concat, hout, herr, htimers hends]
    simpa using h.result result hresult

/-- The outputs are finished, and the promise settles. -/
theorem Sound.finish (h : Sound request events child) (hout : e.stdout? = none)
    (herr : e.stderr? = none) (hfinishes : e.finishes = true)
    {settled : Except JsString LeoRunResult}
    (hsettled : ∀ result, settled = .ok result →
      result.stdout = (child.finish request).out.buffer ∧
      result.stderr = (child.finish request).err.buffer ∧ result.timedOut = child.timedOut) :
    Sound request (events ++ [e]) ((child.finish request).settle settled) := by
  have hends : (events ++ [e]).any ChildEvent.finishes = true := by
    rw [any_finishes_concat, hfinishes, Bool.or_true]
  have houts : stdoutOf (events ++ [e]) = stdoutOf events := by
    rw [stdoutOf_concat, hout, Option.toList_none, List.append_nil]
  have herrs : stderrOf (events ++ [e]) = stderrOf events := by
    rw [stderrOf_concat, herr, Option.toList_none, List.append_nil]
  refine ⟨?_, ?_, ?_, fun _ => ⟨rfl, rfl⟩, ?_, fun result hresult => ?_⟩
  · rw [hends, houts]
    exact h.out.finish
  · rw [hends, herrs]
    exact h.err.finish
  · cases h.terminated with
    | untouched hkills htimed hkill => exact .untouched hkills htimed rfl
    | asked hkills htimed htimeout => exact .asked hkills htimed rfl
    | killed hkills htimed htimeout hkill => exact .killed hkills htimed rfl rfl
  · rw [hends]
    show (child.settled.or (some settled)).isSome = true
    cases child.settled <;> rfl
  · rw [houts, herrs]
    have hresult : child.settled.or (some settled) = some (.ok result) := hresult
    cases hbefore : child.settled with
    | some before =>
      rw [hbefore] at hresult
      exact h.result result (hbefore.trans hresult)
    | none =>
      rw [hbefore] at hresult
      obtain ⟨hstdout, hstderr, htimed⟩ := hsettled result (Option.some.inj hresult)
      refine ⟨?_, ?_, htimed⟩
      · rw [hstdout]
        exact (RedactedTail.Holds.finish h.out).buffer
      · rw [hstderr]
        exact (RedactedTail.Holds.finish h.err).buffer

/-- A chunk of an output that is not finished. -/
theorem Sound.pushed (h : Sound request events child)
    (hopen : events.any ChildEvent.finishes = false) (hfinishes : e.finishes = false)
    {child' : Child}
    (hout : child'.out.Holds (.ofExtra request.secrets) request.forwards (stdoutOf (events ++ [e]))
      false)
    (herr : child'.err.Holds (.ofExtra request.secrets) request.forwards (stderrOf (events ++ [e]))
      false)
    (hterminated : child'.Terminated) (hsettled : child'.settled = child.settled) :
    Sound request (events ++ [e]) child' := by
  have hends : (events ++ [e]).any ChildEvent.finishes = false := by
    rw [any_finishes_concat, hopen, hfinishes, Bool.or_false]
  have hnone : child'.settled.isSome = false := by rw [hsettled, h.settled, hopen]
  refine ⟨?_, ?_, hterminated, ?_, ?_, ?_⟩
  · rw [hends]
    exact hout
  · rw [hends]
    exact herr
  · rw [hends]
    intro hfalse
    cases hfalse
  · rw [hends, hnone]
  · intro result hresult
    rw [hresult] at hnone
    cases hnone

theorem Terminated.of_eq {child' : Child} (h : child.Terminated)
    (hkills : child'.kills = child.kills) (htimed : child'.timedOut = child.timedOut)
    (htimeout : child'.timeoutTimer = child.timeoutTimer)
    (hkill : child'.killTimer = child.killTimer) : child'.Terminated := by
  cases h with
  | untouched hk ht hkt => exact .untouched (hkills.trans hk) (htimed.trans ht) (hkill.trans hkt)
  | asked hk ht hto => exact .asked (hkills.trans hk) (htimed.trans ht) (htimeout.trans hto)
  | killed hk ht hto hkt =>
    exact .killed (hkills.trans hk) (htimed.trans ht) (htimeout.trans hto) (hkill.trans hkt)

theorem Terminated.timeout (h : child.Terminated) : (child.step request .timeout).Terminated := by
  rw [step]
  by_cases hon : child.timeoutTimer = true
  · rw [if_pos hon]
    cases h with
    | untouched hkills htimed hkill =>
      refine .asked ?_ rfl rfl
      show child.kills ++ [.sigterm] = _
      rw [hkills, List.nil_append]
    | asked hkills htimed htimeout =>
      rw [htimeout] at hon
      cases hon
    | killed hkills htimed htimeout hkill =>
      rw [htimeout] at hon
      cases hon
  · rwa [if_neg hon]

theorem Terminated.killTimeout (h : child.Terminated) :
    (child.step request .killTimeout).Terminated := by
  rw [step]
  by_cases hon : child.killTimer = true
  · rw [if_pos hon]
    cases h with
    | untouched hkills htimed hkill =>
      rw [hkill] at hon
      cases hon
    | asked hkills htimed htimeout =>
      refine .killed ?_ htimed htimeout rfl
      show child.kills ++ [.sigkill] = _
      rw [hkills]
      rfl
    | killed hkills htimed htimeout hkill =>
      rw [hkill] at hon
      cases hon
  · rwa [if_neg hon]

theorem Sound.step (h : Sound request events child)
    (hquiet : events.any ChildEvent.finishes = true → e.stdout? = none ∧ e.stderr? = none) :
    Sound request (events ++ [e]) (child.step request e) := by
  have hout := h.out
  have herr := h.err
  cases e with
  | stdout chunk =>
    have hopen : events.any ChildEvent.finishes = false := by
      by_contra hends
      simpa [ChildEvent.stdout?] using (hquiet (by simpa using hends)).1
    rw [hopen] at hout herr
    refine h.pushed hopen rfl ?_ ?_ (h.terminated.of_eq rfl rfl rfl rfl) rfl
    · rw [stdoutOf_concat]
      exact hout.push chunk
    · rw [stderrOf_concat]
      show child.err.Holds _ _ (stderrOf events ++ []) false
      rwa [List.append_nil]
  | stderr chunk =>
    have hopen : events.any ChildEvent.finishes = false := by
      by_contra hends
      simpa [ChildEvent.stderr?] using (hquiet (by simpa using hends)).2
    rw [hopen] at hout herr
    refine h.pushed hopen rfl ?_ ?_ (h.terminated.of_eq rfl rfl rfl rfl) rfl
    · rw [stdoutOf_concat]
      show child.out.Holds _ _ (stdoutOf events ++ []) false
      rwa [List.append_nil]
    · rw [stderrOf_concat]
      exact herr.push chunk
  | timeout =>
    refine h.quiet rfl rfl rfl ?_ h.terminated.timeout fun hends => ?_
    · rw [Child.step]
      by_cases hon : child.timeoutTimer = true
      · rw [if_pos hon]
        exact ⟨rfl, rfl, rfl⟩
      · rw [if_neg hon]
        exact ⟨rfl, rfl, rfl⟩
    · rw [Child.step, if_neg]
      simp [(h.timers hends).1]
  | killTimeout =>
    refine h.quiet rfl rfl rfl ?_ h.terminated.killTimeout fun hends => ?_
    · rw [Child.step]
      by_cases hon : child.killTimer = true
      · rw [if_pos hon]
        exact ⟨rfl, rfl, rfl⟩
      · rw [if_neg hon]
        exact ⟨rfl, rfl, rfl⟩
    · rw [Child.step, if_neg]
      simp [(h.timers hends).2]
  | error message => exact h.finish rfl rfl rfl (by simp)
  | close code signal => exact h.finish rfl rfl rfl (by rintro _ ⟨⟩; exact ⟨rfl, rfl, rfl⟩)

end Child

/-- What is known of the child holds after every run. -/
theorem spawnLeoRunner_sound (request : LeoRunRequest) {events : List ChildEvent}
    (hends : OutputEnds events) : Child.Sound request events (spawnLeoRunner request events) := by
  induction events using List.reverseRecOn with
  | nil => exact .start
  | append_singleton events e ih =>
    obtain ⟨hbefore, -, hlast⟩ := List.pairwise_append.mp hends
    rw [spawnLeoRunner, exec, List.foldl_concat]
    refine (ih hbefore).step fun hany => ?_
    obtain ⟨finish, hmem, hfinish⟩ := List.any_eq_true.mp hany
    exact hlast finish hmem e (List.mem_singleton_self e) hfinish

/-- No part of the redacted stream contains a key. -/
theorem redactStream_free {secrets chunks : List JsString} {text tok : JsString}
    (htext : text <:+: redactStream secrets chunks) (htok : IsKey tok) : ¬ tok <:+: text := by
  intro hs
  obtain ⟨hmarker, hlong, hopen, hclose⟩ := htok.shape
  have hred : ¬ tok <:+: redacted := fun h => by
    have hle := h.length_le
    have hlen : redacted.length = 10 := by decide
    omega
  obtain ⟨p, q, -, -, hin⟩ := (redactStream_emits secrets chunks).exposed (.inr trivial) hopen
    hclose hred Needles.marker_mem_all hmarker (hs.trans htext)
  exact hin.no_key htok ⟨p, q, rfl⟩

/-- Nothing that could hold a private key. -/
def KeyFree (text : JsString) : Prop := ∀ tok, IsKey tok → ¬ tok <:+: text

/-- **The runner leaks no key and kills in order.** Whatever Leo writes on its outputs, in whatever
chunks, and whenever the timers fire: neither what is forwarded nor what the result keeps contains
a private key; the result keeps the last 4096 symbols of each redacted output; and the child is sent
nothing, SIGTERM, or SIGTERM and then SIGKILL, where the result says that the time was over exactly
if it was sent a signal. -/
theorem leo_output_redacted (request : LeoRunRequest) (events : List ChildEvent)
    (hends : OutputEnds events) :
    let child := spawnLeoRunner request events
    KeyFree child.out.forwarded ∧ KeyFree child.err.forwarded ∧
      (child.kills = [] ∨ child.kills = [.sigterm] ∨ child.kills = [.sigterm, .sigkill]) ∧
      (child.settled.isSome = events.any ChildEvent.finishes) ∧
      ∀ result, child.settled = some (.ok result) →
        KeyFree result.stdout ∧ KeyFree result.stderr ∧
        result.stdout = (redactStream request.secrets (stdoutOf events)).rtake LOG_TAIL_BYTES ∧
        result.stderr = (redactStream request.secrets (stderrOf events)).rtake LOG_TAIL_BYTES ∧
        (result.timedOut = true ↔ child.kills ≠ []) := by
  intro child
  have h := spawnLeoRunner_sound request hends
  refine ⟨fun tok => ?_, fun tok => ?_, ?_, h.settled, fun result hresult => ?_⟩
  · exact redactStream_free h.out.forwarded_prefix.isInfix
  · exact redactStream_free h.err.forwarded_prefix.isInfix
  · cases h.terminated with
    | untouched hkills _ _ => exact .inl hkills
    | asked hkills _ _ => exact .inr (.inl hkills)
    | killed hkills _ _ _ => exact .inr (.inr hkills)
  · obtain ⟨hstdout, hstderr, htimed⟩ := h.result result hresult
    refine ⟨fun tok => ?_, fun tok => ?_, hstdout, hstderr, ?_⟩
    · rw [hstdout]
      exact redactStream_free (Window.rtake_suffix ..).isInfix
    · rw [hstderr]
      exact redactStream_free (Window.rtake_suffix ..).isInfix
    · rw [htimed]
      cases h.terminated with
      | untouched hkills htimed _ => simp [child, hkills, htimed]
      | asked hkills htimed _ => simp [child, hkills, htimed]
      | killed hkills htimed _ _ => simp [child, hkills, htimed]

/-- A key that is written in two chunks, and the signal between them. -/
def interrupted : List ChildEvent :=
  [.stdout (js "key: APrivateKey1zkp8"), .timeout, .stdout (js "CZNn3yeC... done"), .killTimeout,
    .close none (some ⟨js "SIGKILL", by decide⟩)]

def deployRequest : LeoRunRequest where
  binary := js "leo"
  argv := [js "deploy"]
  env := fun _ => none
  cwd := js "/tmp/leo"
  timeoutMs := 1000
  forwards := true
  secrets := []

theorem leo_output_redacted_interrupted :
    ¬ js "APrivateKey1zkp8CZNn3yeC..." <:+:
      (spawnLeoRunner deployRequest interrupted).out.forwarded :=
  (leo_output_redacted deployRequest interrupted (by decide)).1 _ ⟨js "zkp8CZNn3yeC",
    truncationSuffix, by decide, by decide, .inr ⟨by decide, by decide, rfl⟩⟩

end Lionden.Targets
