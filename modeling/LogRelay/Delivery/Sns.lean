import LogRelay.Delivery.Destination
import LogRelay.Delivery.Names
import LogRelay.Delivery.Patience
import LogRelay.Settings

/-!
# SNS

A topic is looked up once in the list of topics, which comes in pages, and its ARN is kept in
memory from then on. The messages of a batch are published one by one, in order; when one fails,
it and all that follow are left to be sent again.
-/

namespace LogRelay.Sns

structure Page where
  arns : List String := []
  next : Option String := none
deriving DecidableEq, Repr

inductive Request
  | listTopics (page : Option String)
  | createTopic (name : String)
  | publish (arn : String) (subject : Option String) (message : String)
  | close
deriving DecidableEq, Repr

abbrev Request.Reply : Request → Type
  | listTopics _ => Except Fault Page
  | createTopic _ => Except Fault String
  | publish _ _ _ => Except Fault Unit
  | close => Unit

abbrev api : Api := ⟨Request, Request.Reply⟩

def ask (r : Request) : Plan api r.Reply := Plan.request (A := api) r

def maxBatchBytes : Nat := 256 * 1024

def maxBatchCount : Nat := 10

/-- A topic with the patience to set it up and to send. -/
structure Topic where
  settings : SnsSettings
  setup : Patience
  sending : Patience

namespace Topic

variable (t : Topic)

/-- The ARN once it is known, else the name, else the ARN asked for. -/
def name (arn : Option String) : String :=
  ((arn.or t.settings.topicName).or t.settings.topicArn).getD ""

/-- The part of an ARN after its last colon. -/
def nameOfArn (arn : String) : String :=
  String.ofList (arn.toList.reverse.takeWhile (· != ':')).reverse

/-- `arn` is the topic asked for. -/
def isMatch (arn : String) : Bool :=
  match t.settings.topicArn, t.settings.topicName with
  | some wanted, _ => arn == wanted
  | none, some name => nameOfArn arn == name
  | none, none => false

/-- Looks for the topic on the pages from `page` on, at most `pages` of them. -/
def find : Nat → Option String → Attempt api (Option String)
  | 0, _ => return none
  | pages + 1, page => do
    let listing ← t.setup.require "failed to list topics" do
      return Patience.unlessTransient (← ask (.listTopics page))
    match listing.arns.find? t.isMatch, listing.next with
    | some arn, _ => return some arn
    | none, some next => find pages (some next)
    | none, none => return none

/-- What is wrong with the settings, if anything. -/
def problem? : Option Failure :=
  match t.settings.topicName, t.settings.topicArn with
  | none, none => some { message := "neither topic name nor topic ARN configured" }
  | some name, none =>
    if Names.isTopic name then subjectProblem?
    else some { message := "invalid topic name", context := [("topic_name", name)] }
  | _, _ => subjectProblem?
where
  subjectProblem? : Option Failure :=
    match t.settings.subject with
    | some subject =>
      if Names.isSubject subject then none
      else some { message := "invalid subject", context := [("subject", subject)] }
    | none => none

/-- The name to create a topic under, when one may be created. -/
def nameToCreate? : Option String :=
  if t.settings.autoCreate && t.settings.topicArn.isNone then t.settings.topicName else none

def missing : Failure :=
  { message := "topic does not exist"
    context := [("topic", t.name none), ("auto_create", toString t.settings.autoCreate)] }

def create : Attempt api String := do
  match t.nameToCreate? with
  | none => throw t.missing
  | some name =>
    Attempt.log (.debug ("creating topic: " ++ name))
    t.setup.require "failed to create topic" do
      return Patience.unlessTransient (← ask (.createTopic name))

/-- Looks the topic up on at most `pages` pages, and creates it if need be. -/
def resolve (pages : Nat) : Attempt api Unit := do
  Attempt.log (.debug ("looking up topic: " ++ t.name none))
  let arn ← match ← t.find pages none with
    | some arn => pure arn
    | none => t.create
  Attempt.memorize (some arn)

/-- Sees to it that the topic is known. -/
def makeAvailable (pages : Nat) : Plan api (Except Failure Unit) := do
  let arn ← Plan.memory
  if arn.isSome then return .ok ()
  match t.problem? with
  | some e => return .error e
  | none => (t.resolve pages).run

def timedOut (arn : String) : Failure :=
  { message := "timed out publishing message"
    context := [("timeout_ms", toString t.sending.timeout.millis), ("topic_arn", arn)] }

def publishFailed (arn : String) (f : Fault) : Failure :=
  { message := "failed to publish message", context := [("topic_arn", arn)], causes := [.fault f] }

def publishOnce (arn : String) (m : Message) : Plan api (Patience.Try Fault Unit) := do
  return Patience.unlessTransient (← ask (.publish arn t.settings.subject m.text))

/-- Publishes one message. -/
def publish (arn : String) (m : Message) : Plan api (Except Failure Unit) := do
  match ← t.sending.invoke (t.publishOnce arn m) with
  | .ok (some ()) => return .ok ()
  | .ok none => return .error (t.timedOut arn)
  | .error f => return .error (publishFailed arn f)

/-- Publishes what is left of a batch of `count` messages, of which `sent` have been published. -/
def publishFrom (arn : String) (count : Nat) :
    Nat → List Message → Plan api (Except Failure (List Nat))
  | _, [] => return .ok []
  | sent, m :: rest => do
    match ← t.publish arn m with
    | .ok () => publishFrom arn count (sent + 1) rest
    | .error e =>
      if sent = 0 then return .error e
      Plan.log (.warn ("published " ++ toString sent ++ " of " ++ toString count ++ " messages: "
        ++ e.text))
      return .ok (List.range' sent (count - sent))

def send (batch : List Message) : Plan api (Except Failure (List Nat)) := do
  match ← Plan.memory with
  | none => return .error { message := "topic is not available" }
  | some arn => t.publishFrom arn batch.length 0 batch

end Topic

/-- More pages than any list of topics has. -/
def pageLimit : Nat := UInt64.size

def destination (t : Topic) : Destination api where
  name := t.name
  maxMessageSize := .ok maxBatchBytes
  effectiveSize m := .ok m.size
  withinLimits bytes count := .ok (bytes ≤ maxBatchBytes && count ≤ maxBatchCount)
  makeAvailable := t.makeAvailable pageLimit
  send := t.send
  shutdown := ask .close

end LogRelay.Sns
