import LogRelay.World.Passing

/-!
# Running writers

A writer is run by doing what it asks for next, until it rests. The plans of its destination are
run on the world as their ground: a request goes to the environment, and while the reply is
awaited time passes for everything else.
-/

namespace LogRelay.World

variable {A : Api} {σ : Type} (env : Environment A σ)

/-- The ground for the destination of one writer. -/
def ground (run : Nat → World A σ → World A σ) (id : Nat) : Ground A (World A σ) where
  now w := w.now
  elapse d w := w.elapse run d
  note e w := w.log e
  consult w := w.cells[id]?.bind (·.memory)
  remember m w := w.adjust id ({ · with memory := m })
  draw w := let (x, s) := env.draw w.outside; (x, { w with outside := s })
  call r w :=
    let (exchange, s) := env.ask id r w.now w.outside
    let w := { w with outside := s }
    let w := match exchange.latency with
      | some d => w.elapse run d
      | none => w
    let (reply, s) := exchange.reply w.outside
    (reply, { w with outside := s })

/-- Carries out a plan of the destination of one writer. -/
def perform {α : Type} (run : Nat → World A σ → World A σ) (id : Nat) (plan : Plan A α)
    (w : World A σ) : Except Panic α × World A σ :=
  plan.run (ground env run id) w

/-- Runs a writer for at most so many steps, counting also those of the writers that are run while
it waits. -/
def drive : Nat → Nat → World A σ → World A σ
  | 0, _, w => w
  | n + 1, id, w =>
    match w.cells[id]? with
    | none => w
    | some cell =>
      match cell.writer.next cell.destination.toMeasure w.now with
      | .rest => w
      | .go writer notices => drive n id (w.put id (writer, notices))
      | .wait limit =>
        let w := w.awaitMessage (drive n) id limit
        if w.isLeft id limit then w else drive n id w
      | .makeAvailable =>
        let (result, w) := w.perform env (drive n) id cell.destination.makeAvailable
        drive n id (w.change id (·.checked result))
      | .send batch last =>
        let (result, w) := w.perform env (drive n) id (cell.destination.send batch)
        drive n id (w.change id (·.sent batch last result))
      | .shutdown =>
        let (result, w) := w.perform env (drive n) id cell.destination.shutdown
        drive n id (w.change id (·.closed result))

/-- More steps than any run takes. -/
def stepLimit : Nat := UInt64.size / 4

/-- Runs a writer until it has nothing to do. -/
def run : Nat → World A σ → World A σ := drive env stepLimit

/-- Starts a writer where the application is, runs it, and gives back the failure that ended it, if
any. What the writer has kept of an earlier end stays. -/
def runInline (id : Nat) (w : World A σ) : Option Failure × World A σ :=
  let earlier := (w.writer? id).bind (·.failure)
  let w := (w.set id fun writer => { writer.start with failure := none }).run env id
  ((w.writer? id).bind (·.failure), w.set id ({ · with failure := earlier }))

/-- Runs the writers that have a thread and have been told to stop, those too that are told so
meanwhile, at most `n` of them; returns how many there were. -/
def runStopped : Nat → World A σ → Nat × World A σ
  | 0, w => (0, w)
  | n + 1, w =>
    match w.beginStopped? with
    | none => (0, w)
    | some (id, w) =>
      let (count, w) := runStopped n (w.run env id)
      (count + 1, w)

/-- Runs the writer that has had a thread for longest, whether it has been told to stop or not. -/
def runFirst (w : World A σ) : Bool × World A σ :=
  match w.threads with
  | [] => (false, w)
  | id :: _ => (true, (w.begin id).run env id)

/-- A panic that has got past a writer to the application. -/
def unwound? (w : World A σ) : Option Panic :=
  w.cells.toList.findSome? fun cell => cell.writer.unwound?

end LogRelay.World
