import LogRelay.Backlog
import LogRelay.Time.Instant

/-!
# Waiting for a message

Taking a message from a backlog that others change in the meantime. A message that is there is
taken at once. Otherwise an interrupt ends the wait, once; and otherwise the wait goes on until a
change leaves a message or an interrupt behind, or the limit has come.
-/

namespace LogRelay.Backlog

inductive Change
  | enqueue (m : Message)
  | requeue (ms : List Message)
  | take
  | interrupt
  | setThreshold (n : Nat)
  | setAction (a : DiscardAction)

/-- Takes a message if there is one. -/
def take (q : Backlog) : Option Message × Backlog :=
  match q.pop? with
  | some (m, q) => (some m, q)
  | .none => (.none, q)

def Change.apply (q : Backlog) : Change → Backlog
  | enqueue m => q.enqueue m
  | requeue ms => q.requeue ms
  | take => q.take.2
  | interrupt => q.interrupt
  | setThreshold n => q.setThreshold n
  | setAction a => q.setAction a

/-- Takes a message, or else the interrupt if there is one. -/
def receive (q : Backlog) : Option Message × Backlog :=
  match q.pop? with
  | some (m, q) => (some m, q)
  | .none => (.none, q.clearInterrupt)

/-- What happens while someone waits. -/
inductive Event
  /-- Changes that are made together. -/
  | change (changes : List Change)
  /-- Somebody else waits for a message, for a time or without a limit, and then receives. -/
  | receive (patience : Option Duration)

structure Arrival where
  due : Instant
  event : Event

/-- A backlog at a time, and what is yet to happen to it, first things first. -/
structure Watch where
  now : Instant
  backlog : Backlog
  arrivals : List Arrival

/-- Waits for the backlog to wake up, which it does once `limit` has come, past at most `n`
arrivals. Without a limit, and with nothing left to arrive, it is interrupted. -/
def Watch.wait : Nat → Option Instant → Watch → Watch
  | 0, _, s => s
  | n + 1, limit, s =>
    match s.arrivals with
    | [] =>
      match limit with
      | some t => { s with now := max s.now t }
      | .none => { s with backlog := s.backlog.interrupt }
    | a :: rest =>
      if limit.all (a.due ≤ ·) then
        let s := { s with now := max s.now a.due, arrivals := rest }
        let s := match a.event with
          | .change changes => { s with backlog := changes.foldl Change.apply s.backlog }
          | .receive patience =>
            let own := patience.map (s.now + ·)
            let s := if s.backlog.isAwake || own.any (· ≤ s.now) then s else wait n own s
            { s with backlog := s.backlog.receive.2 }
        if s.backlog.isAwake then s else wait n limit s
      else { s with now := max s.now (limit.getD s.now) }

/-- Takes a message at the time `now`, or waits for one; a message takes precedence over an
interrupt, and nothing is taken when the interrupt is what ends the wait. -/
def takeBy (limit : Option Instant) (arrivals : List Arrival) (now : Instant) (q : Backlog) :
    Option Message × Instant × Backlog :=
  let s : Watch := { now, backlog := q, arrivals }
  let s := if q.isAwake || limit.any (· ≤ now) then s else s.wait (arrivals.length + 1) limit
  let (m, q) := s.backlog.receive
  (m, s.now, q)

end LogRelay.Backlog
