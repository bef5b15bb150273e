import CxxDead.IndexRun
import CxxDead.Lib.Loop
/-!
# The loop around a child process

`run_process` after the child is started. A `Turn` is what one turn of the loop
is answered by the clock, the callback and the system; a run is any sequence of
turns. Times are exact counts of nanoseconds.

- `Observed`: what a run's turns show, whatever the loop makes of it.
- `Tracks`: the invariant that relates it to the state.
- `runProcess_reports`: the output, the termination and the signals of a run.
-/

namespace CxxDead

open Lib Indexer

namespace Process

/-! ## What the loop is told -/

/-- What `read` answers; its buffer has sixteen KiB. -/
inductive ReadResult where
  | bytes (chunk : Bytes) (h : chunk ≠ [] ∧ chunk.length ≤ 16 * 1024)
  | endOfFile
  /-- `EINTR` or `EAGAIN` -/
  | again
  | failed

/-- `revents` of a descriptor. -/
structure Revents where
  /-- `POLLIN`, `POLLHUP` or `POLLERR` -/
  readable : Bool := false
  /-- `POLLNVAL` -/
  invalid : Bool := false

inductive PollResult where
  | interrupted
  | failed (error : Bytes)
  | ready (stdout stderr : Revents)

inductive WaitResult where
  | running
  | exited (status : UInt8)
  | signaled (signal : Int)
  | interrupted
  | failed (error : Bytes)

structure Turn where
  /-- The clock at the head of the loop. -/
  now : Int
  /-- The callback's answer. -/
  cancelled : Bool := false
  /-- The clock when termination is requested. -/
  requested : Int := now
  /-- `kill` finds no process group. -/
  termGroupGone : Bool := false
  killGroupGone : Bool := false
  poll : PollResult := .ready {} {}
  stdout : ReadResult := .again
  stderr : ReadResult := .again
  wait : WaitResult := .running

/-! ## The loop -/

structure ProcessSettings extends ProcessOptions where
  standardErrorLimit : UInt64 := 64 * 1024
  /-- In milliseconds. -/
  terminationGrace : Int := 250

inductive Signal where
  | term | kill
deriving DecidableEq

/-- A signal to the process group, or to the child alone where there is no group. -/
structure Sent where
  signal : Signal
  childOnly : Bool
  clock : Int
deriving DecidableEq

structure ProcessLoop where
  result : ProcessResult := {}
  stdoutOpen : Bool := true
  stderrOpen : Bool := true
  childReaped : Bool := false
  terminationRequested : Bool := false
  killSent : Bool := false
  terminationStarted : Option Int := none
  pollError : Bytes := []
  sent : List Sent := []

def nanoseconds (milliseconds : Int) : Int := milliseconds * 1000000

/-- The deadline, where the process is started at `started`. -/
def deadline (settings : ProcessSettings) (started : Int) : Option Int :=
  settings.timeout.map fun timeout => started + nanoseconds timeout

/-- `append_available`: the text, whether the descriptor stays open and whether the limit is exceeded. -/
def appendAvailable (read : ReadResult) (destination : Bytes) (limit : UInt64) : Bytes × Bool × Bool :=
  match read with
  | .bytes chunk _ =>
    if limit ≠ 0 ∧ (limit.toNat ≤ destination.length ∨ limit.toNat - destination.length < chunk.length) then
      let remaining := if destination.length < limit.toNat then limit.toNat - destination.length else 0
      (destination ++ chunk.take remaining, true, true)
    else (destination ++ chunk, true, false)
  | .endOfFile => (destination, false, false)
  | .again => (destination, true, false)
  | .failed => (destination, false, false)

namespace ProcessLoop

/-- `request_termination` -/
def requestTermination (termination : ProcessTermination) (t : Turn) (s : ProcessLoop) : ProcessLoop :=
  if s.terminationRequested then s
  else
    { s with
      result := { s.result with termination }
      terminationRequested := true
      terminationStarted := some t.requested
      sent := s.sent ++ [⟨.term, t.termGroupGone, t.requested⟩] }

def checkCancellation (settings : ProcessSettings) (t : Turn) (s : ProcessLoop) : ProcessLoop :=
  if !s.terminationRequested && settings.cancellationRequested && t.cancelled then s.requestTermination .cancelled t
  else s

def checkDeadline (deadline : Option Int) (t : Turn) (s : ProcessLoop) : ProcessLoop :=
  if !s.terminationRequested && deadline.any (fun deadline => decide (deadline ≤ t.now)) then
    s.requestTermination .timedOut t
  else s

def checkGrace (settings : ProcessSettings) (t : Turn) (s : ProcessLoop) : ProcessLoop :=
  if s.terminationRequested && !s.killSent && s.terminationStarted.any (fun started =>
      decide (nanoseconds settings.terminationGrace ≤ t.now - started)) then
    { s with killSent := true, sent := s.sent ++ [⟨.kill, t.killGroupGone, t.now⟩] }
  else s

def readOutput (settings : ProcessSettings) (revents : Revents) (t : Turn) (s : ProcessLoop) : ProcessLoop :=
  if s.stdoutOpen && revents.readable then
    let (standardOutput, stdoutOpen, exceeded) :=
      appendAvailable t.stdout s.result.standardOutput settings.standardOutputLimit
    let s := { s with result := { s.result with standardOutput }, stdoutOpen }
    if exceeded then s.requestTermination .outputLimitExceeded t else s
  else s

def readError (settings : ProcessSettings) (revents : Revents) (t : Turn) (s : ProcessLoop) : ProcessLoop :=
  if s.stderrOpen && revents.readable then
    let (standardError, stderrOpen, _) := appendAvailable t.stderr s.result.standardError settings.standardErrorLimit
    { s with result := { s.result with standardError }, stderrOpen }
  else s

def closeInvalid (stdout stderr : Revents) (s : ProcessLoop) : ProcessLoop :=
  { s with
    stdoutOpen := s.stdoutOpen && !stdout.invalid
    stderrOpen := s.stderrOpen && !stderr.invalid }

/-- Wait for the child without blocking. -/
def reap (t : Turn) (s : ProcessLoop) : ProcessLoop :=
  if s.childReaped then s
  else
    match t.wait with
    | .running | .interrupted => s
    | .exited status => { s with childReaped := true, result := { s.result with exitCode := status.toNat } }
    | .signaled signal =>
      let termination := if s.terminationRequested then s.result.termination else .signaled
      { s with childReaped := true, result := { s.result with signal, exitCode := 128 + signal, termination } }
    | .failed error =>
      let s := requestTermination .cancelled t { s with pollError := lit "cannot wait for child process: " ++ error }
      { s with childReaped := true }

def continues (s : ProcessLoop) : Bool := !s.childReaped || s.stdoutOpen || s.stderrOpen

/-- One turn of the loop. -/
def turn (settings : ProcessSettings) (deadline : Option Int) (s : ProcessLoop) (t : Turn) : ProcessLoop :=
  let s := checkGrace settings t (checkDeadline deadline t (checkCancellation settings t s))
  match t.poll with
  | .interrupted => s
  | .failed error =>
    reap t (requestTermination .cancelled t { s with pollError := lit "cannot poll child process: " ++ error })
  | .ready stdout stderr =>
    reap t (closeInvalid stdout stderr (readError settings stderr t (readOutput settings stdout t s)))

def outcome (s : ProcessLoop) : Except Exception ProcessResult :=
  if s.pollError = [] then .ok s.result else .error (.runtimeError s.pollError)

end ProcessLoop

/-- `run_process` from the start of the child; nothing where the turns end before the loop does. -/
def runProcess (settings : ProcessSettings) (started : Int) (turns : List Turn) :
    Option (Except Exception ProcessResult) :=
  (loop (ProcessLoop.turn settings (deadline settings started)) ProcessLoop.continues {} turns).map ProcessLoop.outcome

/-! ## What a run shows -/

def ReadResult.chunk : ReadResult → Bytes
  | .bytes chunk _ => chunk
  | .endOfFile | .again | .failed => []

def ReadResult.ends : ReadResult → Bool
  | .endOfFile | .failed => true
  | .bytes _ _ | .again => false

/-- What a turn reads of an output that is open. -/
def Turn.chunk (t : Turn) : Bytes :=
  match t.poll with
  | .ready stdout _ => if stdout.readable then t.stdout.chunk else []
  | .interrupted | .failed _ => []

def Turn.closes (t : Turn) : Bool :=
  match t.poll with
  | .ready stdout _ => (stdout.readable && t.stdout.ends) || stdout.invalid
  | .interrupted | .failed _ => false

/-- The output of the child, as far as it is read, and the causes of termination in the order in which they come up. -/
structure Observed where
  bytes : Bytes := []
  isOpen : Bool := true
  causes : List ProcessTermination := []

namespace Observed

def see (o : Observed) (seen : Bool) (cause : ProcessTermination) : Observed :=
  if seen then { o with causes := o.causes ++ [cause] } else o

/-- The turn reads past the limit. -/
def exceeds (limit : UInt64) (o : Observed) (chunk : Bytes) : Bool :=
  decide (limit ≠ 0 ∧ chunk ≠ [] ∧ limit.toNat < (o.bytes ++ chunk).length)

/-- What is read of the output, and whether it ends. -/
def read (o : Observed) (limit : UInt64) (chunk : Bytes) (ends : Bool) : Observed :=
  if o.isOpen then
    see { o with bytes := o.bytes ++ chunk, isOpen := !ends } (o.exceeds limit chunk) .outputLimitExceeded
  else o

def add (settings : ProcessSettings) (deadline : Option Int) (o : Observed) (t : Turn) : Observed :=
  let o := o.see (settings.cancellationRequested && t.cancelled) .cancelled
  let o := o.see (deadline.any fun deadline => decide (deadline ≤ t.now)) .timedOut
  o.read settings.standardOutputLimit t.chunk t.closes

@[simp] theorem see_bytes (o : Observed) (seen : Bool) (cause : ProcessTermination) :
    (o.see seen cause).bytes = o.bytes := by
  cases seen <;> rfl

@[simp] theorem see_isOpen (o : Observed) (seen : Bool) (cause : ProcessTermination) :
    (o.see seen cause).isOpen = o.isOpen := by
  cases seen <;> rfl

theorem exceeds_nothing (o : Observed) (limit : UInt64) : o.exceeds limit [] = false :=
  decide_eq_false fun h => h.2.1 rfl

theorem read_nothing (o : Observed) (limit : UInt64) : o.read limit [] false = o := by
  obtain ⟨bytes, isOpen, causes⟩ := o
  rw [read, exceeds_nothing, List.append_nil]
  cases isOpen <;> rfl

end Observed

def observed (settings : ProcessSettings) (deadline : Option Int) (turns : List Turn) : Observed :=
  turns.foldl (Observed.add settings deadline) {}

/-- The part of an output that is kept. -/
def limited (limit : UInt64) (bytes : Bytes) : Bytes := if limit = 0 then bytes else bytes.take limit.toNat

theorem appendAvailable_limited (read : ReadResult) (o : Observed) (limit : UInt64) :
    appendAvailable read (limited limit o.bytes) limit =
      (limited limit (o.bytes ++ read.chunk), !read.ends, o.exceeds limit read.chunk) := by
  have hnone := o.exceeds_nothing limit
  cases read with
  | endOfFile | again | failed => simp only [appendAvailable, ReadResult.chunk, ReadResult.ends, List.append_nil, hnone,
      Bool.not_true, Bool.not_false]
  | bytes chunk h =>
    have hchunk : 0 < chunk.length := List.length_pos_iff.2 h.1
    simp only [appendAvailable, ReadResult.chunk, ReadResult.ends, Bool.not_false, Observed.exceeds, ne_eq, h.1,
      not_false_eq_true, true_and, List.length_append]
    by_cases hlimit : limit = 0
    · simp [limited, hlimit]
    · have hpos : limit.toNat ≠ 0 := fun hzero => hlimit (UInt64.toNat_inj.1 hzero)
      simp only [limited, hlimit, if_false, not_false_eq_true, true_and, List.length_take, List.take_append]
      by_cases hover : limit.toNat < o.bytes.length + chunk.length
      · rw [if_pos (by omega), decide_eq_true hover]
        have hroom : (if min limit.toNat o.bytes.length < limit.toNat then limit.toNat - min limit.toNat o.bytes.length
            else 0) = limit.toNat - o.bytes.length := by
          split <;> omega
        rw [hroom]
      · have hroom : chunk.length ≤ limit.toNat - o.bytes.length := by omega
        rw [if_neg (by omega), decide_eq_false hover, List.take_of_length_le hroom]

/-! ## The invariant -/

/-- Where the flags stand while signals are sent. -/
def Signalled (settings : ProcessSettings) (s : ProcessLoop) : Prop :=
  (s.terminationRequested = false ∧ s.killSent = false ∧ s.sent = []) ∨
    ∃ termChildOnly started, s.terminationRequested = true ∧ s.terminationStarted = some started ∧
      ((s.killSent = false ∧ s.sent = [⟨.term, termChildOnly, started⟩]) ∨
        ∃ killChildOnly clock, s.killSent = true ∧
          s.sent = [⟨.term, termChildOnly, started⟩, ⟨.kill, killChildOnly, clock⟩] ∧
          nanoseconds settings.terminationGrace ≤ clock - started)

structure Tracks (settings : ProcessSettings) (o : Observed) (s : ProcessLoop) : Prop where
  isOpen : s.stdoutOpen = o.isOpen
  output : s.result.standardOutput = limited settings.standardOutputLimit o.bytes
  exceeded : s.result.termination = .outputLimitExceeded →
    settings.standardOutputLimit ≠ 0 ∧ settings.standardOutputLimit.toNat < o.bytes.length
  first : s.pollError = [] →
    if s.terminationRequested then o.causes.head? = some s.result.termination else o.causes = []
  unrequested : s.terminationRequested = false → s.result.termination = .exited ∨ s.result.termination = .signaled
  signalled : Signalled settings s

section Steps
variable {settings : ProcessSettings} {o : Observed} {s : ProcessLoop} {t : Turn}

theorem requestTermination_again (h : s.terminationRequested = true) (cause : ProcessTermination) :
    s.requestTermination cause t = s := by
  rw [ProcessLoop.requestTermination, if_pos h]

theorem requestTermination_first (h : s.terminationRequested = false) (cause : ProcessTermination) :
    s.requestTermination cause t =
      { s with
        result := { s.result with termination := cause }
        terminationRequested := true
        terminationStarted := some t.requested
        sent := s.sent ++ [⟨.term, t.termGroupGone, t.requested⟩] } := by
  rw [ProcessLoop.requestTermination, h, if_neg Bool.false_ne_true]

theorem Signalled.request (h : Signalled settings s) (cause : ProcessTermination) :
    Signalled settings (s.requestTermination cause t) := by
  rcases h with ⟨hrequested, hkill, hsent⟩ | ⟨childOnly, started, hrequested, hrest⟩
  · rw [requestTermination_first hrequested, hsent]
    exact .inr ⟨t.termGroupGone, t.requested, rfl, rfl, .inl ⟨hkill, rfl⟩⟩
  · rw [requestTermination_again hrequested]
    exact .inr ⟨childOnly, started, hrequested, hrest⟩

theorem Tracks.request (h : Tracks settings o s) {cause : ProcessTermination}
    (hcause : cause = .outputLimitExceeded →
      settings.standardOutputLimit ≠ 0 ∧ settings.standardOutputLimit.toNat < o.bytes.length) :
    Tracks settings (o.see true cause) (s.requestTermination cause t) := by
  have hsignalled := h.signalled.request (t := t) cause
  cases hrequested : s.terminationRequested with
  | true =>
    rw [requestTermination_again hrequested] at hsignalled ⊢
    refine ⟨h.isOpen, h.output, h.exceeded, fun herror => ?_, h.unrequested, hsignalled⟩
    have hhead := h.first herror
    rw [if_pos hrequested] at hhead ⊢
    show (o.causes ++ [cause]).head? = _
    rw [List.head?_append, hhead]
    rfl
  | false =>
    rw [requestTermination_first hrequested] at hsignalled ⊢
    refine ⟨h.isOpen, h.output, hcause, fun herror => ?_, fun hnone => (nomatch hnone), hsignalled⟩
    have hnone := h.first herror
    rw [hrequested, if_neg Bool.false_ne_true] at hnone
    show (o.causes ++ [cause]).head? = some cause
    rw [hnone]
    rfl

theorem Tracks.failed (h : Tracks settings o s) (error : Bytes) (herror : error ≠ []) :
    Tracks settings o { s with pollError := error } :=
  ⟨h.isOpen, h.output, h.exceeded, fun hnone => absurd hnone herror, h.unrequested, h.signalled⟩

/-- The termination of a run that throws is not reported. -/
theorem Tracks.request_failed (h : Tracks settings o s) (herror : s.pollError ≠ []) :
    Tracks settings o (s.requestTermination .cancelled t) := by
  have hsignalled := h.signalled.request (t := t) .cancelled
  cases hrequested : s.terminationRequested with
  | true =>
    rw [requestTermination_again hrequested]
    exact h
  | false =>
    rw [requestTermination_first hrequested] at hsignalled ⊢
    exact ⟨h.isOpen, h.output, fun hcause => (nomatch hcause), fun hnone => absurd hnone herror,
      fun hnone => (nomatch hnone), hsignalled⟩

/-! ## One turn -/

theorem Tracks.checkCancellation (h : Tracks settings o s) :
    Tracks settings (o.see (settings.cancellationRequested && t.cancelled) .cancelled)
      (s.checkCancellation settings t) := by
  unfold ProcessLoop.checkCancellation
  cases hseen : settings.cancellationRequested && t.cancelled with
  | false => rwa [Bool.and_assoc, hseen, Bool.and_false, if_neg Bool.false_ne_true]
  | true =>
    have hrequest : Tracks settings (o.see true .cancelled) (s.requestTermination .cancelled t) :=
      h.request fun hcause => (nomatch hcause)
    rw [Bool.and_assoc, hseen, Bool.and_true]
    cases hrequested : s.terminationRequested with
    | true => rwa [requestTermination_again hrequested] at hrequest
    | false => exact hrequest

theorem Tracks.checkDeadline (h : Tracks settings o s) (deadline : Option Int) :
    Tracks settings (o.see (deadline.any fun deadline => decide (deadline ≤ t.now)) .timedOut)
      (s.checkDeadline deadline t) := by
  unfold ProcessLoop.checkDeadline
  cases hseen : deadline.any fun deadline => decide (deadline ≤ t.now) with
  | false => rwa [Bool.and_false, if_neg Bool.false_ne_true]
  | true =>
    have hrequest : Tracks settings (o.see true .timedOut) (s.requestTermination .timedOut t) :=
      h.request fun hcause => (nomatch hcause)
    rw [Bool.and_true]
    cases hrequested : s.terminationRequested with
    | true => rwa [requestTermination_again hrequested] at hrequest
    | false => exact hrequest

theorem Tracks.checkGrace (h : Tracks settings o s) : Tracks settings o (s.checkGrace settings t) := by
  unfold ProcessLoop.checkGrace
  split
  · rename_i hgrace
    refine ⟨h.isOpen, h.output, h.exceeded, h.first, h.unrequested, ?_⟩
    simp only [Bool.and_eq_true, Bool.not_eq_true'] at hgrace
    obtain ⟨⟨hrequested, hkill⟩, hover⟩ := hgrace
    rcases h.signalled with ⟨hnone, -⟩ | ⟨childOnly, started, -, hstarted, ⟨-, hsent⟩ | ⟨-, -, hkill', -⟩⟩
    · exact absurd (hnone.symm.trans hrequested) (by decide)
    · refine .inr ⟨childOnly, started, hrequested, hstarted, .inr ⟨t.killGroupGone, t.now, rfl, ?_, ?_⟩⟩
      · show s.sent ++ _ = _
        rw [hsent]
        rfl
      · rw [hstarted, Option.any_some] at hover
        exact of_decide_eq_true hover
    · exact absurd (hkill.symm.trans hkill') (by decide)
  · exact h

/-- The bytes behind the limit are read and dropped. -/
theorem Tracks.readOutput (h : Tracks settings o s) (revents : Revents) :
    Tracks settings
      (o.read settings.standardOutputLimit (if revents.readable then t.stdout.chunk else [])
        (revents.readable && t.stdout.ends))
      (s.readOutput settings revents t) := by
  unfold ProcessLoop.readOutput
  cases hreadable : revents.readable with
  | false =>
    rw [Bool.and_false, if_neg Bool.false_ne_true, if_neg Bool.false_ne_true, Bool.false_and, Observed.read_nothing]
    exact h
  | true =>
    rw [h.isOpen, Observed.read]
    cases hopen : o.isOpen with
    | false => exact h
    | true =>
      have hread : Tracks settings { o with bytes := o.bytes ++ t.stdout.chunk, isOpen := !t.stdout.ends }
          { s with
            result := { s.result with
              standardOutput := limited settings.standardOutputLimit (o.bytes ++ t.stdout.chunk) }
            stdoutOpen := !t.stdout.ends } := by
        refine ⟨rfl, rfl, fun hcause => ?_, h.first, h.unrequested, h.signalled⟩
        obtain ⟨hlimit, hover⟩ := h.exceeded hcause
        refine ⟨hlimit, ?_⟩
        rw [List.length_append]
        omega
      simp only [Bool.true_and, if_true, h.output, appendAvailable_limited]
      cases hexceeds : o.exceeds settings.standardOutputLimit t.stdout.chunk with
      | false => exact hread
      | true =>
        have hover := of_decide_eq_true hexceeds
        exact hread.request fun _ => ⟨hover.1, hover.2.2⟩

theorem Tracks.readError (h : Tracks settings o s) (revents : Revents) :
    Tracks settings o (s.readError settings revents t) := by
  unfold ProcessLoop.readError
  split
  · exact ⟨h.isOpen, h.output, h.exceeded, h.first, h.unrequested, h.signalled⟩
  · exact h

theorem Tracks.closeInvalid (h : Tracks settings o s) (stdout stderr : Revents) :
    Tracks settings { o with isOpen := o.isOpen && !stdout.invalid } (s.closeInvalid stdout stderr) :=
  ⟨congrArg (· && !stdout.invalid) h.isOpen, h.output, h.exceeded, h.first, h.unrequested, h.signalled⟩

theorem Tracks.reap (h : Tracks settings o s) : Tracks settings o (s.reap t) := by
  unfold ProcessLoop.reap
  split
  · exact h
  split
  · exact h
  · exact h
  · exact ⟨h.isOpen, h.output, h.exceeded, h.first, h.unrequested, h.signalled⟩
  · rename_i signal hwait
    by_cases hrequested : s.terminationRequested = true
    · rw [if_pos hrequested]
      exact ⟨h.isOpen, h.output, h.exceeded, h.first, h.unrequested, h.signalled⟩
    · rw [if_neg hrequested]
      refine ⟨h.isOpen, h.output, fun hcause => (nomatch hcause), fun herror => ?_, fun _ => .inr rfl, h.signalled⟩
      have hnone := h.first herror
      rw [if_neg hrequested] at hnone ⊢
      exact hnone
  · rename_i error hwait
    have herror : lit "cannot wait for child process: " ++ error ≠ [] := List.append_ne_nil_of_left_ne_nil (by decide) _
    obtain ⟨hopen, houtput, hexceeded, hfirst, hunrequested, hsignalled⟩ := (h.failed _ herror).request_failed (t := t) herror
    exact ⟨hopen, houtput, hexceeded, hfirst, hunrequested, hsignalled⟩

theorem Observed.read_close (o : Observed) (limit : UInt64) (chunk : Bytes) (ends invalid : Bool) :
    { o.read limit chunk ends with isOpen := (o.read limit chunk ends).isOpen && !invalid } =
      o.read limit chunk (ends || invalid) := by
  unfold Observed.read
  split
  · cases o.exceeds limit chunk <;> cases ends <;> rfl
  · rename_i hclosed
    rw [Bool.not_eq_true] at hclosed
    rw [hclosed, Bool.false_and, ← hclosed]

/-- Each turn adds to the state what it shows. -/
theorem Tracks.turn (h : Tracks settings o s) (deadline : Option Int) (t : Turn) :
    Tracks settings (o.add settings deadline t) (s.turn settings deadline t) := by
  have hchecks := ((h.checkCancellation (t := t)).checkDeadline (t := t) deadline).checkGrace (t := t)
  unfold Observed.add ProcessLoop.turn Turn.chunk Turn.closes
  cases hpoll : t.poll with
  | interrupted =>
    dsimp only
    rw [Observed.read_nothing]
    exact hchecks
  | failed error =>
    dsimp only
    rw [Observed.read_nothing]
    have herror : lit "cannot poll child process: " ++ error ≠ [] := List.append_ne_nil_of_left_ne_nil (by decide) _
    exact ((hchecks.failed _ herror).request_failed herror).reap
  | ready stdout stderr =>
    have hread := (((hchecks.readOutput (t := t) stdout).readError (t := t) stderr).closeInvalid stdout stderr).reap (t := t)
    rw [Observed.read_close] at hread
    exact hread

end Steps

/-! ## A requested termination stays -/

/-- Termination is requested for this cause. -/
def Ending (cause : ProcessTermination) (s : ProcessLoop) : Prop :=
  s.terminationRequested = true ∧ s.result.termination = cause

section Keeps
variable {settings : ProcessSettings} {s : ProcessLoop} {t : Turn} {cause : ProcessTermination}

theorem Ending.request (h : Ending cause s) (later : ProcessTermination) :
    Ending cause (s.requestTermination later t) := by
  rwa [requestTermination_again h.1]

theorem Ending.checkCancellation (h : Ending cause s) : Ending cause (s.checkCancellation settings t) := by
  unfold ProcessLoop.checkCancellation
  split
  · exact h.request _
  · exact h

theorem Ending.checkDeadline (h : Ending cause s) (deadline : Option Int) :
    Ending cause (s.checkDeadline deadline t) := by
  unfold ProcessLoop.checkDeadline
  split
  · exact h.request _
  · exact h

theorem Ending.checkGrace (h : Ending cause s) : Ending cause (s.checkGrace settings t) := by
  unfold ProcessLoop.checkGrace
  split <;> exact h

theorem Ending.readOutput (h : Ending cause s) (revents : Revents) : Ending cause (s.readOutput settings revents t) := by
  unfold ProcessLoop.readOutput
  split
  · dsimp only
    split
    · refine Ending.request ?_ _
      exact h
    · exact h
  · exact h

theorem Ending.readError (h : Ending cause s) (revents : Revents) : Ending cause (s.readError settings revents t) := by
  unfold ProcessLoop.readError
  split <;> exact h

/-- The child's signal leaves it too. -/
theorem Ending.reap (h : Ending cause s) : Ending cause (s.reap t) := by
  unfold ProcessLoop.reap
  split
  · exact h
  split
  · exact h
  · exact h
  · exact h
  · rw [if_pos h.1]
    exact h
  · rename_i error hwait
    have hfailed : Ending cause { s with pollError := lit "cannot wait for child process: " ++ error } := h
    exact hfailed.request (t := t) .cancelled

theorem Ending.turn (h : Ending cause s) (deadline : Option Int) (t : Turn) :
    Ending cause (s.turn settings deadline t) := by
  have hchecks : Ending cause (((s.checkCancellation settings t).checkDeadline deadline t).checkGrace settings t) :=
    (h.checkCancellation.checkDeadline deadline).checkGrace
  unfold ProcessLoop.turn
  cases hpoll : t.poll with
  | interrupted => exact hchecks
  | failed error =>
    dsimp only
    generalize ProcessLoop.checkGrace settings t _ = checked at hchecks ⊢
    have hfailed : Ending cause { checked with pollError := lit "cannot poll child process: " ++ error } := hchecks
    exact (hfailed.request .cancelled).reap
  | ready stdout stderr =>
    have hread : Ending cause (ProcessLoop.readError settings stderr t (ProcessLoop.readOutput settings stdout t _)) :=
      (hchecks.readOutput stdout).readError stderr
    exact Ending.reap hread

end Keeps

/-! ## Runs -/

/-- The loop's states behind some turns. -/
def Reaches (settings : ProcessSettings) (deadline : Option Int) : ProcessLoop → List Turn → ProcessLoop → Prop :=
  Runs (ProcessLoop.turn settings deadline) ProcessLoop.continues

/-- No signal, `SIGTERM`, or `SIGTERM` and after the grace `SIGKILL`. -/
def SignalsInOrder (settings : ProcessSettings) (sent : List Sent) : Prop :=
  sent = [] ∨ ∃ term, term.signal = .term ∧
    (sent = [term] ∨ ∃ kill, kill.signal = .kill ∧ sent = [term, kill] ∧
      nanoseconds settings.terminationGrace ≤ kill.clock - term.clock)

structure Reported (settings : ProcessSettings) (deadline : Option Int) (turns : List Turn) (s : ProcessLoop) :
    Prop where
  output : s.result.standardOutput = limited settings.standardOutputLimit (observed settings deadline turns).bytes
  exceeded : s.result.termination = .outputLimitExceeded → settings.standardOutputLimit ≠ 0 ∧
    settings.standardOutputLimit.toNat < (observed settings deadline turns).bytes.length
  /-- A run with an error of the system's throws instead of reporting. -/
  first : s.pollError = [] → ∀ cause, (observed settings deadline turns).causes.head? = some cause →
    s.result.termination = cause
  none : s.pollError = [] → (observed settings deadline turns).causes = [] →
    s.result.termination = .exited ∨ s.result.termination = .signaled
  kept : ∀ before after s', turns = before ++ after → Reaches settings deadline {} before s' →
    s'.terminationRequested = true → s.result.termination = s'.result.termination
  signals : SignalsInOrder settings s.sent

theorem reaches_tracks {settings : ProcessSettings} {deadline : Option Int} {turns : List Turn} {s : ProcessLoop}
    (h : Reaches settings deadline {} turns s) : Tracks settings (observed settings deadline turns) s := by
  refine Runs.invariant (P := fun turns s => Tracks settings (observed settings deadline turns) s) ?_ ?_ h
  · refine ⟨rfl, ?_, fun hcause => (nomatch hcause), fun _ => rfl, fun _ => .inl rfl, .inl ⟨rfl, rfl, rfl⟩⟩
    show [] = limited settings.standardOutputLimit []
    unfold limited
    rw [List.take_nil, ite_self]
  · intro turns s t _ htracks
    unfold observed at htracks ⊢
    rw [List.foldl_append]
    exact htracks.turn deadline t

theorem Ending.reaches {settings : ProcessSettings} {deadline : Option Int} {turns : List Turn} {s s' : ProcessLoop}
    {cause : ProcessTermination} (h : Reaches settings deadline s turns s') (hs : Ending cause s) : Ending cause s' :=
  Runs.invariant (P := fun _ s => Ending cause s) hs (fun _ _ t _ hending => hending.turn deadline t) h

/-- What a run reports at any time, and so at its end. -/
theorem runProcess_reports {settings : ProcessSettings} {deadline : Option Int} {turns : List Turn} {s : ProcessLoop}
    (h : Reaches settings deadline {} turns s) : Reported settings deadline turns s := by
  have htracks := reaches_tracks h
  refine ⟨htracks.output, htracks.exceeded, ?_, ?_, ?_, ?_⟩
  · intro herror cause hcause
    have hfirst := htracks.first herror
    split at hfirst
    · exact Option.some.inj (hfirst.symm.trans hcause)
    · rw [hfirst] at hcause
      cases hcause
  · intro herror hnone
    have hfirst := htracks.first herror
    split at hfirst
    · rw [hnone] at hfirst
      cases hfirst
    · rename_i hrequested
      exact htracks.unrequested (Bool.eq_false_iff.2 hrequested)
  · rintro before after s' rfl hbefore hrequested
    obtain ⟨s'', hbefore', hafter⟩ := Runs.split h
    obtain rfl : s'' = s' := hbefore'.state_eq.trans hbefore.state_eq.symm
    exact (Ending.reaches hafter ⟨hrequested, rfl⟩).2
  · rcases htracks.signalled with ⟨-, -, hsent⟩ | ⟨childOnly, started, -, -, ⟨-, hsent⟩ | ⟨childOnly', clock, -, hsent, hgrace⟩⟩
    · exact .inl hsent
    · exact .inr ⟨_, rfl, .inl hsent⟩
    · exact .inr ⟨⟨.term, childOnly, started⟩, rfl, .inr ⟨⟨.kill, childOnly', clock⟩, rfl, hsent, hgrace⟩⟩

def twoBytes : ProcessSettings := { timeout := none, standardOutputLimit := 2, cancellationRequested := true }

/-- Three bytes are read at once, the caller cancels, and the child has to be killed. -/
def stubbornChild : List Turn :=
  [{ now := 0, poll := .ready ⟨true, false⟩ {}, stdout := .bytes (lit "abc") (by decide) },
    { now := 250000000, cancelled := true },
    { now := 260000000
      poll := .ready ⟨true, false⟩ ⟨true, false⟩
      stdout := .endOfFile
      stderr := .endOfFile
      wait := .signaled 9 }]

theorem stubbornChild_reported : ∃ s, Reported twoBytes none stubbornChild s ∧ s.continues = false ∧
    s.result.standardOutput = lit "ab" ∧ s.result.termination = .outputLimitExceeded ∧
    s.sent = [⟨.term, false, 0⟩, ⟨.kill, false, 250000000⟩] := by
  have hrun : Reaches twoBytes none {} stubbornChild _ :=
    Runs.turn (Runs.turn (Runs.turn .start rfl _) rfl _) rfl _
  exact ⟨_, runProcess_reports hrun, by decide, by decide, by decide, by decide⟩

/-- The returned result is that of a run to the end of the loop. -/
theorem runProcess_eq_some_iff {settings : ProcessSettings} {started : Int} {turns : List Turn}
    {outcome : Except Exception ProcessResult} : runProcess settings started turns = some outcome ↔
      ∃ ran rest s, turns = ran ++ rest ∧ Reaches settings (deadline settings started) {} ran s ∧
        s.continues = false ∧ s.outcome = outcome := by
  rw [runProcess, Option.map_eq_some_iff]
  simp only [loop_eq_some_iff]
  constructor
  · rintro ⟨s, ⟨ran, rest, hturns, hran, hends⟩, houtcome⟩
    exact ⟨ran, rest, s, hturns, hran, hends, houtcome⟩
  · rintro ⟨ran, rest, s, hturns, hran, hends, houtcome⟩
    exact ⟨s, ⟨ran, rest, hturns, hran, hends⟩, houtcome⟩

end Process

end CxxDead
