import LogRelay.Delivery.Kinesis

/-!
# A service of data streams

A model of the service behind a data stream. It stores the records of a request that it does not
turn down one by one.
-/

namespace LogRelay.Kinesis

/-- Which records of a request are turned down: those at the positions listed, and every so many. -/
structure Refusals where
  positions : List Nat := []
  every : Option Nat := none

namespace Refusals

def reply (f : Refusals) (position : Nat) : RecordReply :=
  let listed := f.positions.contains position
  { code :=
      if f.every.any fun n => (position + 1) % n = 0 then some "Throttled"
      else if listed then some "InternalFailure" else none
    message := if listed then some ("record " ++ toString position) else none }

def replies (f : Refusals) (count : Nat) : List RecordReply := (List.range count).map f.reply

end Refusals

structure Service where
  streams : List (String × Status) := []
  /-- The data stored, with the name of the stream, the first first. -/
  stored : Array (String × String) := #[]

namespace Service

def status? (s : Service) (stream : String) : Option Status := s.streams.lookup stream

def streamTaken : Fault := { kind := .resourceAlreadyExists, message := "stream exists" }

def create (stream : String) (s : Service) : Except Fault Unit × Service :=
  if (s.status? stream).isSome then (.error streamTaken, s)
  else (.ok (), { s with streams := s.streams ++ [(stream, .active)] })

/-- Stores the records that have a reply without a code. -/
def store (stream : String) (records : List Record) (replies : List RecordReply) (s : Service) :
    Service :=
  let kept := (records.zip replies).filter fun (_, reply) => reply.code.isNone
  { s with stored := kept.foldl (fun stored (r, _) => stored.push (stream, r.data)) s.stored }

def put (stream : String) (records : List Record) (replies : List RecordReply) (s : Service) :
    Except Fault (List RecordReply) × Service :=
  (.ok replies, s.store stream records replies)

def reply (s : Service) : (r : Request) → r.Reply × Service
  | .describe stream => (.ok (s.status? stream), s)
  | .create stream _ => s.create stream
  | .increaseRetention _ _ => (.ok (), s)
  | .putRecords stream records =>
    s.put stream records (({} : Refusals).replies records.length)
  | .close => ((), s)

/-- Forgets every stream. -/
def wipe (s : Service) : Service := { s with streams := [] }

end Service

end LogRelay.Kinesis
