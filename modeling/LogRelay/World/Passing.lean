import LogRelay.World

/-!
# The passing of time

Time passes from one appointment to the next. An appointment is kept when the clock reaches it,
and one that has been missed is kept at the next occasion, without putting the clock back. A wait
ends at its limit or as soon as what it waits for is there, and before the clock moves on its
account, writers that have been told to stop may be given their turn.

Here `run` stands for running a writer until it has nothing to do, which may let time pass in turn.
-/

namespace LogRelay.World

variable {A : Api} {σ : Type} (run : Nat → World A σ → World A σ)

/-- A synchronous writer gets on with its work at once. -/
def settle (id : Nat) (w : World A σ) : World A σ :=
  if w.holds id (·.synchronous) then run id w else w

def add (id : Nat) (m : Message) (w : World A σ) : World A σ :=
  (w.change id (·.add m w.now)).settle run id

/-- Adds what has been drafted. What has no time of its own gets the time at which the first is
added. -/
def addAll (id : Nat) (drafts : List Draft) (w : World A σ) : World A σ :=
  drafts.foldl (fun v d => v.add run id (d.message w.wall)) w

def stop (id : Nat) (w : World A σ) : World A σ := (w.change id (·.stop w.now)).settle run id

/-- Removes the first appointment, if it is due by `limit`. -/
def nextDue? (limit : Option Instant) (w : World A σ) : Option (Appointment σ × World A σ) :=
  match w.agenda with
  | [] => none
  | a :: rest =>
    if limit.all (a.due ≤ ·) then some (a, { w with agenda := rest, now := max w.now a.due })
    else none

/-- Keeps at most `n` appointments until `isOver`; when there is none left before the limit, moves
the clock there. A wait without a limit that nothing can end is given up. -/
def attend (keep : Appointment σ → World A σ → World A σ) (giveUp : World A σ → World A σ)
    (isOver : World A σ → Bool) (limit : Option Instant) : Nat → World A σ → World A σ
  | 0, w => w
  | n + 1, w =>
    match w.nextDue? limit with
    | some (a, w) =>
      let w := keep a w
      if isOver w then w else attend keep giveUp isOver limit n w
    | none =>
      match limit with
      | some t => { w with now := max w.now t }
      | none => giveUp w

/-- Runs at most `n` of the writers that have been told to stop, one after the other, until
`isOver`. -/
def finishStopped (isOver : World A σ → Bool) : Nat → World A σ → World A σ
  | 0, w => w
  | n + 1, w =>
    if isOver w then w
    else match w.beginStopped? with
      | some (id, w) => finishStopped isOver n (run id w)
      | none => w

/-- Before a wait, the writers that have been told to stop get their turn, unless it is one of them
that waits. -/
def giveWay (isOver : World A σ → Bool) (w : World A σ) : World A σ :=
  if w.runsStopped then
    let w := { w with runsStopped := false }.finishStopped run isOver w.threads.length
    { w with runsStopped := true }
  else w

/-- Waits until `isOver`, or for the limit. What is over already is not waited for. -/
def await (keep : Appointment σ → World A σ → World A σ) (giveUp : World A σ → World A σ)
    (isOver : World A σ → Bool) (limit : Option Instant) (w : World A σ) : World A σ :=
  if isOver w || limit.any (· ≤ w.now) then w
  else
    let w := w.giveWay run isOver
    if isOver w then w else attend keep giveUp isOver limit (w.agenda.length + 1) w

/-- Moves the clock to `target`, past at most `n` appointments. -/
def passTo (keep : Appointment σ → World A σ → World A σ) (target : Instant) :
    Nat → World A σ → World A σ
  | 0, w => { w with now := max w.now target }
  | n + 1, w =>
    match w.nextDue? (some target) with
    | some (a, w) => passTo keep target n (keep a w)
    | none => { w with now := max w.now target }

/-- Keeps an appointment, in the course of which at most `n` others are kept. -/
def keep : Nat → Appointment σ → World A σ → World A σ
  | 0, _, w => w
  | n + 1, a, w =>
    match a.stimulus with
    | .add drafts => w.addAll run a.writer drafts
    | .stop => w.stop run a.writer
    | .setBatchDelay d => w.set a.writer (·.setBatchDelay d)
    | .setThreshold t => w.set a.writer (·.setThreshold t)
    | .setAction x => w.set a.writer (·.setAction x)
    | .awaitInitialized patience =>
      w.await run (keep n) id (·.holds a.writer (·.initialized)) (some (w.now + patience))
    | .awaitStopped patience =>
      w.await run (keep n) id (·.holds a.writer (·.finished)) (some (w.now + patience))
    | .pass d => w.passTo (keep n) (w.now + d) w.agenda.length
    | .disturb f => w.disturb f

/-- Lets a writer have a stimulus now. -/
def stimulate (id : Nat) (s : Stimulus σ) (w : World A σ) : World A σ :=
  w.keep run (w.agenda.length + 1) { due := w.now, writer := id, stimulus := s }

def elapse (d : Duration) (w : World A σ) : World A σ :=
  w.passTo (keep run w.agenda.length) (w.now + d) w.agenda.length

/-- What becomes of a writer that waits without a limit and that nothing will wake. -/
def abandon (id : Nat) (w : World A σ) : World A σ :=
  if w.leavesWaiting then w else w.stop run id

/-- Waits for messages to arrive at a writer. -/
def awaitMessage (id : Nat) (limit : Option Instant) (w : World A σ) : World A σ :=
  w.await run (keep run w.agenda.length) (abandon run id) (·.holds id Writer.isAwake) limit

/-- A writer is left waiting as it is. -/
def isLeft (id : Nat) (limit : Option Instant) (w : World A σ) : Bool :=
  w.leavesWaiting && limit.isNone && !w.holds id Writer.isAwake

/-- Waits for a writer to come to its end. -/
def awaitEnd (id : Nat) (patience : Duration) (w : World A σ) : World A σ :=
  w.stimulate run id (.awaitStopped patience)

end LogRelay.World
