import LogRelay.Text.Cut
import LogRelay.Time.Timestamp

/-!
# Log messages

A message is a text with the time it was logged. Messages are ordered by that time alone.
-/

namespace LogRelay

structure Message where
  time : Timestamp
  text : String
deriving DecidableEq, Repr

namespace Message

/-- The size in bytes that every limit is measured in. -/
def size (m : Message) : Nat := m.text.utf8ByteSize

/-- Keeps the longest leading part of the text of at most `limit` bytes. -/
def truncate (limit : Nat) (m : Message) : Message := { m with text := Text.cut limit m.text }

/-- Compares by time; messages of one instant are equivalent whatever their texts. -/
def compare (a b : Message) : Ordering := Ord.compare a.time.nanos b.time.nanos

/-- `a` was logged no later than `b`. -/
def notAfter (a b : Message) : Bool := a.time.nanos ≤ b.time.nanos

/-- A stable sort: messages of one instant keep their order. -/
def sortByTime (ms : List Message) : List Message := ms.mergeSort notAfter

end Message

end LogRelay
