import LogRelay.Failure
import LogRelay.Text.JsonString
import LogRelay.Time.Timestamp

/-!
# Statistics

Counters of what became of the messages, and the last failure. The counters are words and wrap
around. One set of statistics outlives the writers it describes.
-/

namespace LogRelay

structure LastError where
  message : String
  causes : List String
  time : Timestamp

structure Statistics where
  destination : Option String := none
  sent : UInt64 := 0
  sentLastBatch : UInt64 := 0
  requeuedLastBatch : UInt64 := 0
  oversize : UInt64 := 0
  failures : UInt64 := 0
  lastError : Option LastError := none

namespace Statistics

/-- The name shown in the journal; empty before there is one. -/
def destinationName (s : Statistics) : String := s.destination.getD ""

def addBatch (delivered requeued : Nat) (s : Statistics) : Statistics :=
  { s with
    sent := s.sent + delivered.toUInt64
    sentLastBatch := delivered.toUInt64
    requeuedLastBatch := requeued.toUInt64 }

def addOversize (s : Statistics) : Statistics := { s with oversize := s.oversize + 1 }

def addFailure (s : Statistics) : Statistics := { s with failures := s.failures + 1 }

/-- The failure itself comes before its causes. -/
def setError (message : String) (e : Failure) (time : Timestamp) (s : Statistics) : Statistics :=
  { s with lastError := some { message, causes := e.text :: e.chains, time } }

end Statistics

/-- The members of a JSON object, in order. -/
def Text.jsonObject (members : List (String × String)) : String :=
  "\x7b" ++ ",".intercalate (members.map fun (k, v) => jsonString k ++ ":" ++ v) ++ "\x7d"

namespace LastError

def json (e : LastError) : String :=
  Text.jsonObject
    [("message", Text.jsonString e.message),
      ("causes", "[" ++ ",".intercalate (e.causes.map Text.jsonString) ++ "]"),
      ("timestamp", Text.jsonString e.time.civil.rfc3339)]

end LastError

namespace Statistics

def json (s : Statistics) : String :=
  Text.jsonObject
    [("destinationName", (s.destination.map Text.jsonString).getD "null"),
      ("messagesSent", toString s.sent.toNat),
      ("messagesSentLastBatch", toString s.sentLastBatch.toNat),
      ("messagesRequeuedLastBatch", toString s.requeuedLastBatch.toNat),
      ("oversizeMessages", toString s.oversize.toNat),
      ("writerFailures", toString s.failures.toNat),
      ("lastError", (s.lastError.map LastError.json).getD "null")]

end Statistics

end LogRelay
