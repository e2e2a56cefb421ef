import LogRelay.Backlog
import LogRelay.Settings
import LogRelay.Writer.Batch
import LogRelay.Writer.Notice

/-!
# Writers

A writer collects messages into batches for its destination. It is a state machine: its phase says
what it is about to do, `next` says what that takes, and the answers of the destination come back
through `checked`, `sent` and `closed`. Messages, settings and the request to stop may arrive in
any phase.

An asynchronous writer, once started, goes round between batches until it is stopped and has
nothing left, or time is up. A synchronous one is idle but for one batch after each message, and
for emptying its backlog when it is stopped.
-/

namespace LogRelay

/-- What a writer is about to do. In the phases of a batch, `last` says that the shutdown deadline
had passed before it: unless this batch gets something delivered, it is the last. -/
inductive Phase
  | idle
  /-- The destination is being made available. -/
  | checking
  /-- Between two batches. -/
  | turning
  /-- Waiting for the first message of a batch. -/
  | waiting (limit : Option Instant) (last : Bool)
  | collecting (batch : Batch) (limit : Instant) (last : Bool)
  | sending (batch : List Message) (last : Bool)
  /-- The destination is being shut down. -/
  | closing
  /-- A panic has got past the writer to its caller. -/
  | unwound (p : Panic)

structure Writer where
  maxMessageSize : Nat
  truncateOversize : Bool
  synchronous : Bool
  backlog : Backlog
  /-- How long to collect a batch after its first message, in milliseconds. -/
  batchDelay : Nat
  /-- Set when the writer is stopped: the time until which it may go on collecting. -/
  deadline : Option Instant := none
  /-- The destination has been made available. -/
  available : Bool := false
  /-- Making the destination available has come to an end, good or bad. -/
  initialized : Bool := false
  /-- The writer has come to its end. -/
  finished : Bool := false
  /-- The panic that ended the writer. -/
  failure : Option Failure := none
  phase : Phase := .idle

/-- What a writer needs in order to go on. -/
inductive Next
  /-- Nothing: it waits to be called. -/
  | rest
  | makeAvailable
  /-- Nothing: it goes on by itself. -/
  | go (w : Writer) (notices : List Notice)
  /-- A message or an interrupt, or the limit to pass. -/
  | wait (limit : Option Instant)
  | send (batch : List Message) (last : Bool)
  | shutdown

namespace Writer

def create (s : Settings) (maxMessageSize : Nat) : Writer :=
  { maxMessageSize
    truncateOversize := s.truncateOversize
    synchronous := s.synchronous
    backlog := Backlog.empty s.discardThreshold s.discardAction
    batchDelay := s.batchDelay }

def isStopped (w : Writer) : Bool := w.deadline.isSome

/-- The panic that has got past the writer, if one has. -/
def unwound? (w : Writer) : Option Panic :=
  match w.phase with
  | .unwound p => some p
  | _ => none

def setBatchDelay (d : Duration) (w : Writer) : Writer := { w with batchDelay := d.wordMillis }

def setThreshold (n : Nat) (w : Writer) : Writer := { w with backlog := w.backlog.setThreshold n }

def setAction (a : DiscardAction) (w : Writer) : Writer :=
  { w with backlog := w.backlog.setAction a }

/-- Something is there for a writer that waits for messages. -/
def isAwake (w : Writer) : Bool := w.backlog.isAwake

/-- Starts the writer on the thread that is to run it. A writer that is under way goes on. -/
def start (w : Writer) : Writer :=
  match w.phase with
  | .idle => { w with phase := .checking }
  | _ => w

/-- Queues a message. A synchronous writer that is up goes for a batch at once. -/
def queue (m : Message) (now : Instant) (w : Writer) : Writer :=
  let w := { w with backlog := w.backlog.enqueue m }
  if w.synchronous && w.initialized && !w.isStopped then
    { w with phase := .waiting (some now) false }
  else w

/-- Takes a message from the application. Empty ones are ignored; ones that are too large are cut
or dropped. -/
def add (m : Message) (now : Instant) (w : Writer) : Writer × List Notice :=
  if m.size = 0 then (w, [])
  else if m.size ≤ w.maxMessageSize then (w.queue m now, [])
  else if w.truncateOversize then
    (w.queue (m.truncate w.maxMessageSize) now, [.truncating m.size w.maxMessageSize])
  else (w, [.discarding m.size])

/-- Asks the writer to stop once it has sent what it has. Asking again changes nothing. -/
def stop (now : Instant) (w : Writer) : Writer × List Notice :=
  if w.isStopped then (w, [])
  else
    let w := { w with deadline := some (now + Duration.ofMillis w.batchDelay) }
    if !w.synchronous then ({ w with backlog := w.backlog.interrupt }, [.stopping])
    else if w.initialized && !w.backlog.isEmpty then ({ w with phase := .turning }, [.stopping])
    else ({ w with phase := .closing }, [.stopping])

/-- A panic outside of a request to the destination. It ends an asynchronous writer; a synchronous
one survives it while it sends a message, and lets it pass while it is being stopped. -/
def panicked (p : Panic) (w : Writer) : Writer × List Notice :=
  if !w.synchronous then
    ({ w with
        phase := .idle
        finished := true
        failure := some p.toFailure }, [.writerPanicked p])
  else if w.isStopped then ({ w with phase := .unwound p, finished := true }, [])
  else ({ w with phase := .idle }, [.passPanicked p])

/-- Takes in whether the destination could be made available. A writer whose destination is not
available drops all it has and all it will get. -/
def checked (result : Except Panic (Except Failure Unit)) (w : Writer) : Writer × List Notice :=
  let w := { w with
    initialized := true
    phase := if w.synchronous then .idle else .turning }
  match result with
  | .ok (.ok ()) => ({ w with available := true }, [.available])
  | .ok (.error e) =>
    ({ w with backlog := ((w.backlog.setThreshold 0).setAction .oldest).clear }, [.unavailable e])
  | .error p =>
    ({ w with
        phase := .idle
        finished := w.finished || !w.synchronous
        failure := some p.toFailure }, [.writerPanicked p])

/-- Goes on after a batch. -/
def turn (progressed last : Bool) (w : Writer) : Writer × List Notice :=
  if w.synchronous then
    if !w.isStopped then ({ w with phase := .idle }, [])
    else if progressed && !w.backlog.isEmpty then ({ w with phase := .turning }, [])
    else ({ w with phase := .closing }, [])
  else if last && !progressed then ({ w with phase := .closing }, [.overdue w.backlog.size])
  else ({ w with phase := .turning }, [])

/-- The messages of a batch whose positions are listed, in the order of the batch. -/
def retained (failed : List Nat) (batch : List Message) : List Message :=
  Batch.pick 0 (Batch.ascending failed) batch

/-- Takes in what became of a batch. What was not delivered goes back to the backlog. -/
def sent (batch : List Message) (last : Bool) (result : Except Panic (Except Failure (List Nat)))
    (w : Writer) : Writer × List Notice :=
  match result with
  | .ok (.ok failed) =>
    let back := retained failed batch
    let notice := Notice.sent (batch.length - back.length) back.length
    let (w, notices) :=
      { w with backlog := w.backlog.requeue back }.turn (back.length < batch.length) last
    (w, notice :: notices)
  | .ok (.error e) => refused e
  | .error p => refused p.toFailure
where
  refused (e : Failure) : Writer × List Notice :=
    let (w, notices) := { w with backlog := w.backlog.requeue batch }.turn false last
    (w, .refused batch.length e :: notices)

/-- Takes in that the destination has been shut down. -/
def closed (result : Except Panic Unit) (w : Writer) : Writer × List Notice :=
  match result with
  | .ok () => ({ w with phase := .idle, finished := true }, [.stopped])
  | .error p => w.panicked p

/-- The end of the time for collecting a batch that starts now. -/
def window (now : Instant) (w : Writer) : Instant :=
  if w.synchronous then now
  else
    let limit := now + Duration.ofMillis w.batchDelay
    match w.deadline with
    | some d => min limit d
    | none => limit

/-- The first message starts a batch, whatever its size. -/
def begin (μ : Measure) (m : Message) (now : Instant) (last : Bool) (w : Writer) : Next :=
  match μ.effectiveSize m with
  | .ok bytes => .go { w with phase := .collecting ⟨[m], bytes⟩ (w.window now) last } []
  | .error p => let (w, notices) := w.panicked p; .go w notices

/-- Adds to a batch what fits. -/
def collect (μ : Measure) (batch : Batch) (limit : Instant) (last : Bool) (w : Writer) : Next :=
  match μ.fill batch.bytes batch.messages.length w.backlog.toList with
  | .error (p, left) =>
    let (w, notices) := { w with backlog := w.backlog.withMessages left }.panicked p
    .go w notices
  | .ok f =>
    let messages := batch.messages ++ f.taken
    .go { w with
      backlog := w.backlog.withMessages f.left
      phase := if f.full then .sending messages last
        else .collecting ⟨messages, f.bytes⟩ limit last } []

/-- What it takes to go on at the time `now`. Of an interrupt only a writer with no message left
takes notice, and the interrupt is over then. -/
def next (μ : Measure) (now : Instant) (w : Writer) : Next :=
  match w.phase with
  | .idle | .unwound _ => .rest
  | .checking => .makeAvailable
  | .turning =>
    if w.synchronous then .go { w with phase := .waiting (some now) false } []
    else if w.isStopped && w.backlog.isEmpty then .go { w with phase := .closing } []
    else .go { w with phase := .waiting w.deadline (w.deadline.any (· ≤ now)) } []
  | .waiting limit last =>
    match w.backlog.pop? with
    | some (m, backlog) => { w with backlog }.begin μ m now last
    | none =>
      if w.backlog.interrupted then
        let (w, notices) := { w with backlog := w.backlog.clearInterrupt }.turn true last
        .go w notices
      else if limit.any (· ≤ now) then
        let (w, notices) := w.turn true last
        .go w notices
      else .wait limit
  | .collecting batch limit last =>
    if !w.backlog.isEmpty then w.collect μ batch limit last
    else if w.backlog.interrupted then
      .go { w with
        backlog := w.backlog.clearInterrupt
        phase := .sending batch.messages last } []
    else if limit ≤ now then .go { w with phase := .sending batch.messages last } []
    else .wait (some limit)
  | .sending batch last => .send batch last
  | .closing => .shutdown

end Writer

end LogRelay
