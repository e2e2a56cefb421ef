import LogRelay.Appender.Rotation
import LogRelay.Settings
import LogRelay.World.Running

/-!
# The appender

What an application logs to. An appender keeps one writer at a time and hands its messages to it;
it leaves one writer for the next when its rotation is due or when a panic has ended the writer,
and it does not fail: what goes wrong shows in the journal and the statistics. A panic outside of a
writer's own work gets through to the application, and what was being done stays half done.
Settings that are changed hold for the writer at hand and for all that follow.
-/

namespace LogRelay

structure Appender where
  /-- With names unresolved; every writer resolves them anew. -/
  settings : Settings
  header : Option String
  footer : Option String
  rotation : Rotation
  sequence : UInt64
  current : Option Nat := none
  closed : Bool := false
  /-- The panic that broke off what was done last, if one did. -/
  broken : Option Panic := none

namespace Appender

variable {A : Api} {σ : Type} (env : Environment A σ)

/-- Connects a new writer to the destination of the settings. It takes the next free place, unless
the destination panics when it is asked for its limit. -/
def connect (s : Settings) (w : World A σ) : Except Panic (Except Failure Nat) × World A σ :=
  let (result, outside) := env.connect s w.now w.outside
  let w := { w with outside }
  match result with
  | .error e => (.ok (.error e), w)
  | .ok destination =>
    let name := destination.name none
    let w := { w with diagnostics := w.diagnostics.count ({ · with destination := some name }) }
    match destination.maxMessageSize with
    | .error p => (.error p, w)
    | .ok limit =>
      (.ok (.ok w.cells.size), { w with
        cells := w.cells.push { writer := Writer.create s limit, destination } })

/-- What threads are called if nothing else is asked for. -/
def threadTitle : String := "logforth-aws-writer"

/-- The name of the thread that a writer runs on. -/
def threadOf (title : String) (cell : Cell A) : String :=
  if cell.writer.synchronous then "main" else title ++ "-" ++ cell.destination.name none

/-- Has a writer run: a synchronous one at once and an asynchronous one on a thread. -/
def launch (id : Nat) (w : World A σ) : Except Failure Unit × World A σ :=
  if w.holds id (·.synchronous) then (.ok (), (w.set id Writer.start).run env id)
  else
    let (result, outside) := env.spawn w.outside
    let w := { w with outside }
    match result with
    | .error e => (.error e, w)
    | .ok () => (.ok (), { w with threads := w.threads ++ [id] })

/-- Adds a text of the appender's own, if there is one. -/
def addText (id : Nat) (text : Option String) (time : Timestamp) (w : World A σ) : World A σ :=
  match text with
  | some text => w.add (World.run env) id { time, text }
  | none => w

/-- Makes a new writer, and logs the header to it. -/
def startWriter (a : Appender) (w : World A σ) : Except Panic (Except Failure Nat) × World A σ :=
  let now := w.wall
  match connect env (a.settings.resolve (w.host.vocabulary now a.sequence)) w with
  | (.error p, w) => (.error p, w)
  | (.ok (.error e), w) => (.ok (.error e), w)
  | (.ok (.ok id), w) =>
    match launch env id w with
    | (.error e, w) => (.ok (.error e), w)
    | (.ok (), w) => (.ok (.ok id), addText env id a.header now w)

/-- Makes a new writer the current one. Without one the appender goes on and tries again with the
next message. -/
def replaceWriter (a : Appender) (w : World A σ) : Appender × World A σ :=
  match a.startWriter env w with
  | (.ok (.ok id), w) => ({ a with current := some id }, w)
  | (.ok (.error e), w) =>
    (a, { w with diagnostics := w.diagnostics.fail "failed to create writer" e w.wall })
  | (.error p, w) => ({ a with broken := some p }, w)

/-- An appender with its first writer. -/
def build (s : Settings) (header footer : Option String) (w : World A σ) :
    Except Panic (Except Failure Appender) × World A σ :=
  let (mode, interval) := s.target.rotation
  let a : Appender :=
    { settings := s, header, footer
      rotation := Rotation.begin mode interval w.wall.millis
      sequence := s.target.initialSequence }
  match a.startWriter env w with
  | (.ok (.ok id), w) => (.ok (.ok { a with current := some id }), w)
  | (.ok (.error e), w) => (.ok (.error e), w)
  | (.error p, w) => (.error p, w)

/-- Logs the footer to a writer and tells it to stop. -/
def retire (a : Appender) (id : Nat) (w : World A σ) : World A σ :=
  (addText env id a.footer w.wall w).stop (World.run env) id

/-- What the world is when the appender has left its writer. -/
def leave (a : Appender) (w : World A σ) : World A σ :=
  match a.current with
  | some id => a.retire env id w
  | none => w

/-- A panic that the writer that has been left let past. -/
def letPast? (a : Appender) (w : World A σ) : Option Panic :=
  a.current.bind fun id => (w.writer? id).bind (·.unwound?)

/-- What keeps an appender that has left its writer from going on to the next: a panic of that
writer, or a sequence number that has come to its end. -/
def obstacle? (a : Appender) (w : World A σ) : Option Panic :=
  (a.letPast? w).or (if a.sequence.toNat + 1 < UInt64.size then none else some .sumTooLarge)

/-- Leaves the current writer, if there is one, for the next. -/
def switch (a : Appender) (w : World A σ) : Appender × World A σ :=
  let w := a.leave env w
  match a.obstacle? w with
  | some p => ({ a with current := none, broken := some p }, w)
  | none =>
    let a := { a with
      current := none
      sequence := a.sequence + 1
      rotation := a.rotation.restart w.wall.millis }
    a.replaceWriter env w

/-- Drops the current writer if a panic has ended it. -/
def dropFailed (a : Appender) (w : World A σ) : Appender × World A σ :=
  if a.current.any fun id => w.holds id (·.failure.isSome) then
    ({ a with current := none }, w.log (.warn "writer failed, creating a new one"))
  else (a, w)

/-- Gives an appender a writer in case it has none, or none that works. -/
def equip (a : Appender) (w : World A σ) : Appender × World A σ :=
  let (a, w) := a.dropFailed w
  if a.current.isNone then a.replaceWriter env w else (a, w)

/-- Rotates if it is time to. -/
def turned (a : Appender) (w : World A σ) : Appender × World A σ :=
  if a.rotation.isDue w.wall.millis then a.switch env w else (a, w)

/-- Sees to it that there is a writer for the next message. -/
def prepare (a : Appender) (w : World A σ) : Appender × World A σ :=
  let (a, w) := a.turned env w
  if a.broken.isSome then (a, w) else a.equip env w

/-- Of a panic before, nothing is known any more. -/
def mended (a : Appender) : Appender := { a with broken := none }

/-- Logs a message. -/
def appendMessage (m : Message) (a : Appender) (w : World A σ) : Appender × World A σ :=
  if a.closed then (a, w)
  else
    let (a, w) := a.mended.prepare env w
    match a.current with
    | some id => ({ a with rotation := a.rotation.countMessage }, w.add (World.run env) id m)
    | none => (a, w)

/-- Logs a text at the time it is now. -/
def append (text : String) (a : Appender) (w : World A σ) : Appender × World A σ :=
  a.appendMessage env { time := w.wall, text } w

def rotate (a : Appender) (w : World A σ) : Appender × World A σ :=
  if a.closed then (a, w) else a.mended.switch env w

def isFinished (id : Nat) (w : World A σ) : Bool := w.holds id (·.finished)

/-- What is said of a writer that has not come to its end in time. -/
def overdue (id : Nat) (w : World A σ) (timeout : Nat) : Entry :=
  .warn ("writer did not stop within " ++ toString timeout ++ "ms, "
    ++ toString ((w.writer? id).elim 0 (·.backlog.size)) ++ " messages may be lost")

/-- Retires the writer and gives it time to come to its end. Nothing is logged afterwards. -/
def close (a : Appender) (w : World A σ) : Appender × World A σ :=
  if a.closed then (a, w)
  else match a.current with
    | none => ({ a.mended with closed := true }, w)
    | some id =>
      let timeout := a.settings.shutdownTimeout
      let w := a.retire env id w
      let a := { a with closed := true, current := none, broken := a.letPast? w }
      if a.broken.isSome then (a, w)
      else
        let w := w.awaitEnd (World.run env) id (Duration.ofMillis timeout)
        (a, if isFinished id w then w else w.log (overdue id w timeout))

/-- Ends the appender. It is closed if it is to see to the end; otherwise its writer is told to
stop and left to itself. -/
def drop (a : Appender) (w : World A σ) : Appender × World A σ :=
  if a.settings.useShutdownHook then a.close env w
  else
    let w := match a.current with
      | some id => w.stop (World.run env) id
      | none => w
    ({ a with closed := true, current := none, broken := a.letPast? w }, w)

/-- Applies a setting to the current writer. -/
def set (f : Writer → Writer) (a : Appender) (w : World A σ) : World A σ :=
  match a.current with
  | some id => w.set id f
  | none => w

def setBatchDelay (d : Duration) (a : Appender) (w : World A σ) : Appender × World A σ :=
  ({ a with settings := { a.settings with batchDelay := d.wordMillis } },
    a.set (·.setBatchDelay d) w)

def setThreshold (n : Nat) (a : Appender) (w : World A σ) : Appender × World A σ :=
  ({ a with settings := { a.settings with discardThreshold := n } }, a.set (·.setThreshold n) w)

def setAction (x : DiscardAction) (a : Appender) (w : World A σ) : Appender × World A σ :=
  ({ a with settings := { a.settings with discardAction := x } }, a.set (·.setAction x) w)

end Appender

end LogRelay
