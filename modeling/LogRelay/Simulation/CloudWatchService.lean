import LogRelay.Delivery.CloudWatch

/-!
# A service of log streams

A model of the service behind a log stream. Every stream has one token, which each accepted batch
replaces; the service may insist on being shown the current one.
-/

namespace LogRelay.CloudWatch

structure StreamState where
  group : String
  stream : String
  token : Option String := none
deriving DecidableEq, Repr

structure Service where
  groups : List String := []
  streams : List StreamState := []
  /-- A batch with another token than the current one is refused. -/
  checksTokens : Bool := false
  /-- The batches accepted, the first of them first. -/
  stored : Array Put := #[]

namespace Service

def find? (s : Service) (group stream : String) : Option StreamState :=
  s.streams.find? fun x => x.group == group && x.stream == stream

/-- Adds a stream, or gives a token to one that is there. -/
def setToken (group stream : String) (token : Option String) (s : Service) : Service :=
  if (s.find? group stream).isSome then
    { s with streams := s.streams.map fun x =>
        if x.group == group && x.stream == stream then { x with token } else x }
  else { s with streams := s.streams ++ [{ group, stream, token }] }

def addGroup (group : String) (s : Service) : Service := { s with groups := s.groups ++ [group] }

/-- The token that the next accepted batch leaves with its stream. -/
def nextToken (s : Service) : String := "token-" ++ toString (s.stored.size + 1)

def groupTaken : Fault := { kind := .resourceAlreadyExists, message := "log group exists" }

def streamTaken : Fault := { kind := .resourceAlreadyExists, message := "log stream exists" }

def noSuchStream : Fault := { kind := .resourceNotFound, message := "log stream does not exist" }

def wrongToken : Fault := { kind := .invalidSequenceToken, message := "unexpected token" }

def createGroup (group : String) (s : Service) : Except Fault Unit × Service :=
  if s.groups.contains group then (.error groupTaken, s) else (.ok (), s.addGroup group)

/-- A stream that is there already loses its token. -/
def createStream (group stream : String) (s : Service) : Except Fault Unit × Service :=
  (if (s.find? group stream).isSome then .error streamTaken else .ok (),
    s.setToken group stream none)

def put (p : Put) (s : Service) : Except Fault PutReply × Service :=
  match s.find? p.group p.stream with
  | none => (.error noSuchStream, s)
  | some state =>
    if s.checksTokens && p.token != state.token then (.error wrongToken, s)
    else
      let token := s.nextToken
      (.ok { nextToken := some token },
        { s.setToken p.group p.stream (some token) with stored := s.stored.push p })

def reply (s : Service) : (r : Request) → r.Reply × Service
  | .groupExists group => (.ok (s.groups.contains group), s)
  | .createGroup group => s.createGroup group
  | .putRetention _ _ => (.ok (), s)
  | .describeStream group stream => (.ok ((s.find? group stream).map (·.token)), s)
  | .createStream group stream => s.createStream group stream
  | .putEvents p => s.put p
  | .close => ((), s)

/-- Forgets every group and stream. -/
def wipe (s : Service) : Service := { s with groups := [], streams := [] }

end Service

end LogRelay.CloudWatch
