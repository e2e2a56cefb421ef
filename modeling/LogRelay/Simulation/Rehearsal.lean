import LogRelay.Appender
import LogRelay.Simulation.Outside

/-!
# Rehearsals

What comes of an appender from its first writer to its end when every asynchronous writer has a
thread of its own. The threads take turns: the first writer gets ready before anything is logged,
and the others run when the appender is closed.
-/

namespace LogRelay.Simulation

/-- What a rehearsal shows: whether the first destination became available, the sequence number in
the end, and the world as it is left. -/
structure Outcome where
  available : Bool
  sequence : UInt64
  world : World api Outside

/-- Runs the writers on their threads as far as they go; those that wait for messages stay. -/
def getReady (w : World api Outside) : World api Outside :=
  match w.threads with
  | [] => w
  | id :: _ =>
    let w := (w.begin id).run environment id
    { w with threads := id :: w.threads }

def isAvailable (id : Nat) (w : World api Outside) : Bool :=
  w.holds id fun writer => writer.initialized && writer.available

/-- Runs to their end all writers that have been told to stop. -/
def letFinish (w : World api Outside) : World api Outside :=
  (w.runStopped environment (w.threads.length + 1)).2

/-- Makes an appender, logs the texts and closes it. -/
def rehearse (s : Settings) (header footer : Option String) (texts : List String)
    (w : World api Outside) : Except Panic (Except Failure Outcome) :=
  match Appender.build environment s header footer { w with leavesWaiting := true } with
  | (.error p, _) => .error p
  | (.ok (.error e), _) => .ok (.error e)
  | (.ok (.ok a), w) =>
    let w := getReady w
    let available := a.current.any (isAvailable · w)
    let (a, w) := texts.foldl (fun (a, w) text => a.append environment text w) (a, w)
    let (a', w) := a.close environment { w with runsStopped := true }
    .ok (.ok { available, sequence := a'.sequence, world := letFinish w })

/-- The names of the threads from which requests were made. -/
def callingThreads (title : String) (w : World api Outside) : List String :=
  let names := w.outside.calls.toList.filterMap fun
    | (_, .request writer _) => w.cells[writer]?.map (Appender.threadOf title)
    | (_, .connect _) => none
  (names.mergeSort (· ≤ ·)).eraseReps

end LogRelay.Simulation
