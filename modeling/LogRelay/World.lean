import LogRelay.Delivery.Destination
import LogRelay.Writer.State

/-!
# The world of the writers

Everything that running writers has an effect on, as one value: the clock, the writers with their
destinations, what they have to say, and whatever there is outside, which only the environment
knows. Nothing happens by itself. Time moves when a writer waits, sleeps or is kept waiting for a
reply, and what the application does meanwhile stands on an agenda beforehand.
-/

namespace LogRelay

/-- A request under way. Without latency no time passes at all; otherwise the reply is decided on
when the time has passed. -/
structure Exchange (σ ρ : Type) where
  latency : Option Duration
  reply : σ → Except Panic ρ × σ

/-- What is outside, with the state `σ`. -/
structure Environment (A : Api) (σ : Type) where
  /-- A request of the writer with the number given. -/
  ask : Nat → (r : A.Request) → Instant → σ → Exchange σ (A.Reply r) × σ
  draw : σ → UInt32 × σ
  /-- Makes the destination that the settings ask for. -/
  connect : Settings → Instant → σ → Except Failure (Destination A) × σ
  /-- Provides for a writer that is to run by itself. -/
  spawn : σ → Except Failure Unit × σ

/-- A writer and its destination. -/
structure Cell (A : Api) where
  writer : Writer
  destination : Destination A
  memory : Option String := none

/-- A text to be logged, with a time of its own or none. -/
structure Draft where
  text : String
  time : Option Timestamp := none

/-- The message that a draft becomes when it is taken up at the time `now`. -/
def Draft.message (now : Timestamp) (d : Draft) : Message :=
  { time := d.time.getD now, text := d.text }

/-- What reaches a writer from the application and its surroundings. -/
inductive Stimulus (σ : Type)
  | add (drafts : List Draft)
  | stop
  | setBatchDelay (d : Duration)
  | setThreshold (n : Nat)
  | setAction (a : DiscardAction)
  /-- The application waits for the destination to have been checked. -/
  | awaitInitialized (patience : Duration)
  /-- The application waits for the writer to come to its end. -/
  | awaitStopped (patience : Duration)
  | pass (d : Duration)
  /-- A change outside. -/
  | disturb (f : σ → σ)

/-- A stimulus that a writer is to get when it is due. -/
structure Appointment (σ : Type) where
  due : Instant
  writer : Nat
  stimulus : Stimulus σ

/-- The process that the writers run in. -/
structure Host where
  startup : Timestamp
  process : Nat
  environment : Variables := {}

/-- What templates may refer to at the time `now`. -/
def Host.vocabulary (h : Host) (now : Timestamp) (sequence : UInt64) : Vocabulary :=
  { now, startup := h.startup, process := h.process, sequence, environment := h.environment }

structure World (A : Api) (σ : Type) where
  now : Instant := 0
  /-- What a wall clock showed when the clock was at zero. -/
  epoch : Timestamp
  host : Host
  outside : σ
  diagnostics : Diagnostics := {}
  /-- In the order in which the appointments are kept. -/
  agenda : List (Appointment σ) := []
  cells : Array (Cell A) := #[]
  /-- The writers that were given a thread and have not been run yet, first come first. -/
  threads : List Nat := []
  /-- Writers that have been told to stop are run before anything else waits. -/
  runsStopped : Bool := false
  /-- A writer that nothing will wake is left waiting; otherwise it is told to stop. -/
  leavesWaiting : Bool := false

namespace World

variable {A : Api} {σ : Type}

def wall (w : World A σ) : Timestamp := w.epoch.after w.now

/-- Sets the wall clock alone. -/
def setWall (t : Timestamp) (w : World A σ) : World A σ := { w with epoch := ⟨t.nanos - w.now⟩ }

def log (e : Entry) (w : World A σ) : World A σ :=
  { w with diagnostics := w.diagnostics.log e }

def record (notices : List Notice) (w : World A σ) : World A σ :=
  { w with diagnostics := w.diagnostics.recordAll w.wall notices }

def writer? (id : Nat) (w : World A σ) : Option Writer := w.cells[id]?.map (·.writer)

def adjust (id : Nat) (f : Cell A → Cell A) (w : World A σ) : World A σ :=
  { w with cells := w.cells.modify id f }

/-- Puts a writer in its place, and records what it said. -/
def put (id : Nat) (change : Writer × List Notice) (w : World A σ) : World A σ :=
  (w.adjust id ({ · with writer := change.1 })).record change.2

def change (id : Nat) (f : Writer → Writer × List Notice) (w : World A σ) : World A σ :=
  match w.writer? id with
  | some writer => w.put id (f writer)
  | none => w

def set (id : Nat) (f : Writer → Writer) : World A σ → World A σ :=
  change id fun writer => (f writer, [])

/-- Some condition on a writer. -/
def holds (id : Nat) (p : Writer → Bool) (w : World A σ) : Bool := (w.writer? id).any p

def disturb (f : σ → σ) (w : World A σ) : World A σ := { w with outside := f w.outside }

/-- Starts a writer on its thread, which is not one to be run any more. -/
def begin (id : Nat) (w : World A σ) : World A σ :=
  { w with threads := w.threads.erase id }.set id Writer.start

/-- Starts the first writer that has a thread and has been told to stop. -/
def beginStopped? (w : World A σ) : Option (Nat × World A σ) :=
  (w.threads.find? fun id => w.holds id Writer.isStopped).map fun id => (id, w.begin id)

end World

end LogRelay
