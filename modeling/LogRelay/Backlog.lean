import LogRelay.Message

/-!
# The backlog of messages to send

A queue of messages with a policy for discarding some when it grows too long. Messages join at the
back and leave from the front; those that could not be sent go back to the front, ahead of all
that arrived since, and the policy does not touch them. The front is kept in order and the back in
reverse, so both ends are near.
-/

namespace LogRelay

/-- What to drop when the backlog grows past its threshold. -/
inductive DiscardAction
  | none
  | oldest
  | newest
deriving DecidableEq, Repr

namespace DiscardAction

def name : DiscardAction → String
  | none => "none"
  | oldest => "oldest"
  | newest => "newest"

def all : List DiscardAction := [none, oldest, newest]

/-- Reads a name exactly as it is written. -/
def ofName? (s : String) : Option DiscardAction := all.find? (·.name == s)

end DiscardAction

structure Backlog where
  front : List Message
  back : List Message
  size : Nat
  threshold : Nat
  action : DiscardAction
  interrupted : Bool
  size_eq : size = front.length + back.length

namespace Backlog

def empty (threshold : Nat) (action : DiscardAction) : Backlog :=
  { front := [], back := [], size := 0, threshold, action, interrupted := false, size_eq := rfl }

/-- The messages in the order in which they leave. -/
def toList (q : Backlog) : List Message :=
  match q.back with
  | [] => q.front
  | b => q.front ++ b.reverse

def isEmpty (q : Backlog) : Bool := q.size == 0

/-- The same settings over other messages. -/
def withMessages (q : Backlog) (ms : List Message) : Backlog :=
  { q with front := ms, back := [], size := ms.length, size_eq := rfl }

def setThreshold (n : Nat) (q : Backlog) : Backlog := { q with threshold := n }

def setAction (a : DiscardAction) (q : Backlog) : Backlog := { q with action := a }

def interrupt (q : Backlog) : Backlog := { q with interrupted := true }

def clearInterrupt (q : Backlog) : Backlog := { q with interrupted := false }

/-- There is something for those who wait for messages: a message or an interrupt. -/
def isAwake (q : Backlog) : Bool := !q.isEmpty || q.interrupted

/-- Takes the message that has waited longest. -/
def pop? (q : Backlog) : Option (Message × Backlog) :=
  match hf : q.front with
  | m :: rest => some (m, { q with
      front := rest
      size := q.size - 1
      size_eq := by have := q.size_eq; simp [hf] at this; omega })
  | [] =>
    match hb : q.back.reverse with
    | [] => .none
    | m :: rest => some (m, { q with
        front := rest
        back := []
        size := q.size - 1
        size_eq := by
          have := q.size_eq
          have hl := congrArg List.length hb
          simp at hl
          simp [hf] at this ⊢
          omega })

/-- Puts messages at the front, the first of them foremost. -/
def requeue (ms : List Message) (q : Backlog) : Backlog :=
  { q with
    front := ms ++ q.front
    size := ms.length + q.size
    size_eq := by have := q.size_eq; simp; omega }

/-- Puts a message at the back, whatever the threshold. -/
def push (m : Message) (q : Backlog) : Backlog :=
  { q with
    back := m :: q.back
    size := q.size + 1
    size_eq := by have := q.size_eq; simp; omega }

/-- Drops `n` messages from the front. -/
def dropOldest : Nat → Backlog → Backlog
  | 0, q => q
  | n + 1, q =>
    match q.pop? with
    | .none => q
    | some (_, q) => dropOldest n q

/-- Drops `n` messages from the back. -/
def dropNewest : Nat → Backlog → Backlog
  | 0, q => q
  | n + 1, q =>
    match hb : q.back with
    | _ :: rest => dropNewest n { q with
        back := rest
        size := q.size - 1
        size_eq := by have := q.size_eq; simp [hb] at this; omega }
    | [] => q.withMessages (q.front.take (q.size - (n + 1)))

/-- Cuts the backlog down to its threshold as its action says. -/
def discard (q : Backlog) : Backlog :=
  match q.action with
  | .none => q
  | .oldest => q.dropOldest (q.size - q.threshold)
  | .newest => q.dropNewest (q.size - q.threshold)

/-- Adds a message and then applies the policy. -/
def enqueue (m : Message) (q : Backlog) : Backlog := (q.push m).discard

/-- Drops every message. -/
def clear (q : Backlog) : Backlog := q.withMessages []

end Backlog

end LogRelay
