import LogRelay.Delivery.Services
import LogRelay.Simulation.CloudWatchService
import LogRelay.Simulation.Script
import LogRelay.Simulation.SnsService
import LogRelay.Simulation.StandIn
import LogRelay.World

/-!
# A simulated environment

An environment for rehearsals: models of the services, which answer after a set latency and as the
script says, and every request written down with its time. A stand-in may take the place of the
destinations that the settings ask for, and making destinations or threads may be refused.
-/

namespace LogRelay.Simulation

inductive Request
  | service (r : Services.Request)
  | standIn (r : StandIn.Request)

abbrev Request.Reply : Request → Type
  | service r => r.Reply
  | standIn r => r.Reply

abbrev api : Api := ⟨Request, Request.Reply⟩

namespace Request

def cloudWatch (r : CloudWatch.Request) : Request := service (.cloudWatch r)

def kinesis (r : Kinesis.Request) : Request := service (.kinesis r)

def sns (r : Sns.Request) : Request := service (.sns r)

end Request

/-- A destination of the services, in this environment. -/
def served (d : Destination Services.api) : Destination api :=
  d.within Request.service fun _ reply => reply

/-- What is written down. -/
inductive Call
  /-- A request of the writer with the number given. -/
  | request (writer : Nat) (r : Request)
  /-- A destination of this name was asked for. -/
  | connect (name : String)

structure Outside where
  latency : Duration := Duration.ofMillis 1
  logs : CloudWatch.Service := {}
  streams : Kinesis.Service := {}
  topics : Sns.Service := {}
  script : Script := []
  clients : Services.Clients := {}
  standIn : Option StandIn := none
  /-- What becomes of the next destinations asked for; those that fail are not made. -/
  refusals : List (Option Failure) := []
  /-- The same for threads. -/
  threadRefusals : List (Option Failure) := []
  calls : Array (Instant × Call) := #[]

namespace Outside

open Request (cloudWatch kinesis sns)

def note (now : Instant) (c : Call) (o : Outside) : Outside :=
  { o with calls := o.calls.push (now, c) }

/-- Forgets everything that the services keep. -/
def wipe (o : Outside) : Outside :=
  { o with logs := o.logs.wipe, streams := o.streams.wipe, topics := o.topics.wipe }

/-- Adds to the script. -/
def direct (lines : Script) (o : Outside) : Outside := { o with script := o.script ++ lines }

/-- The texts that each target has been sent, in order. -/
def delivered (o : Outside) : List (String × List String) :=
  let all :=
    (o.logs.stored.toList.map fun p => (p.group ++ "/" ++ p.stream, p.events.map (·.text)))
      ++ (o.streams.stored ++ o.topics.stored).toList.map fun (target, text) => (target, [text])
  (all.map (·.1)).eraseDups.map fun target =>
    (target, (all.filter (·.1 == target)).flatMap (·.2))

/-- What a turn comes to when the time has passed; `act` is told what the script says. -/
def settle {m : Method} {ρ : Type} (turn : Turn m)
    (act : Option m.Hint → Outside → Except m.Error ρ × Outside) (o : Outside) :
    Except Panic (Except m.Error ρ) × Outside :=
  match turn.panic, turn.error with
  | some p, _ => (.error p, o)
  | none, some e => (.ok (.error e), o)
  | none, none =>
    let (reply, o) := act turn.hint o
    (.ok reply, o)

/-- Takes a turn of a method for a request. -/
def turn {ρ : Type} (m : Method) (writer : Nat) (r : Request) (now : Instant)
    (act : Option m.Hint → Outside → Except m.Error ρ × Outside) (o : Outside) :
    Exchange Outside (Except m.Error ρ) × Outside :=
  let (turn, script) := Script.take m o.script
  let turn := turn.getD {}
  let o := { o.note now (.request writer r) with script }
  ({ latency := some (o.latency + turn.delay), reply := settle turn act }, o)

/-- A request that takes no time. -/
def atOnce (writer : Nat) (r : Request) (now : Instant) (o : Outside) :
    Exchange Outside Unit × Outside :=
  ({ latency := none, reply := fun o => (.ok (), o) }, o.note now (.request writer r))

def askLogs (writer : Nat) (now : Instant) :
    (r : CloudWatch.Request) → Outside → Exchange Outside r.Reply × Outside
  | .groupExists group =>
    turn .groupExists writer (cloudWatch (.groupExists group)) now fun hint o =>
      match hint with
      | some there => (.ok there, o)
      | none => pass (.groupExists group) o
  | .createGroup group =>
    turn .createGroup writer (cloudWatch (.createGroup group)) now fun hint o =>
      match hint with
      | some () => (.ok (), o)
      | none => pass (.createGroup group) o
  | .putRetention group days =>
    turn .putRetention writer (cloudWatch (.putRetention group days)) now fun _ o => (.ok (), o)
  | .describeStream group stream =>
    turn .describeLogStream writer (cloudWatch (.describeStream group stream)) now fun hint o =>
      match hint with
      | some found => (.ok found, o)
      | none => pass (.describeStream group stream) o
  | .createStream group stream =>
    turn .createLogStream writer (cloudWatch (.createStream group stream)) now fun hint o =>
      match hint with
      | some () => (.ok (), o)
      | none => pass (.createStream group stream) o
  | .putEvents p => turn .putEvents writer (cloudWatch (.putEvents p)) now fun hint o =>
    match hint with
    | some reply => (.ok reply, o)
    | none => pass (.putEvents p) o
  | .close => atOnce writer (cloudWatch .close) now
where
  pass (r : CloudWatch.Request) (o : Outside) : r.Reply × Outside :=
    let (reply, logs) := o.logs.reply r
    (reply, { o with logs })

def askStreams (writer : Nat) (now : Instant) :
    (r : Kinesis.Request) → Outside → Exchange Outside r.Reply × Outside
  | .describe stream => turn .describeStream writer (kinesis (.describe stream)) now fun hint o =>
    match hint with
    | some found => (.ok found, o)
    | none => pass (.describe stream) o
  | .create stream shards =>
    turn .createStream writer (kinesis (.create stream shards)) now fun hint o =>
      match hint with
      | some () => (.ok (), o)
      | none => pass (.create stream shards) o
  | .increaseRetention stream hours =>
    turn .increaseRetention writer (kinesis (.increaseRetention stream hours)) now fun _ o =>
      (.ok (), o)
  | .putRecords stream records =>
    turn .putRecords writer (kinesis (.putRecords stream records)) now fun hint o =>
      let replies := match hint with
        | some (.inl refusals) => refusals.replies records.length
        | some (.inr replies) => replies
        | none => ({} : Kinesis.Refusals).replies records.length
      let (reply, streams) := o.streams.put stream records replies
      (reply, { o with streams })
  | .close => atOnce writer (kinesis .close) now
where
  pass (r : Kinesis.Request) (o : Outside) : r.Reply × Outside :=
    let (reply, streams) := o.streams.reply r
    (reply, { o with streams })

def askTopics (writer : Nat) (now : Instant) :
    (r : Sns.Request) → Outside → Exchange Outside r.Reply × Outside
  | .listTopics page =>
    turn .listTopics writer (sns (.listTopics page)) now fun _ => pass (.listTopics page)
  | .createTopic name => turn .createTopic writer (sns (.createTopic name)) now fun hint o =>
    match hint with
    | some arn => (.ok arn, o)
    | none => pass (.createTopic name) o
  | .publish arn subject message =>
    turn .publish writer (sns (.publish arn subject message)) now fun _ =>
      pass (.publish arn subject message)
  -- a client of topics has nothing to show for being shut down
  | .close => fun o => ({ latency := none, reply := fun o => (.ok (), o) }, o)
where
  pass (r : Sns.Request) (o : Outside) : r.Reply × Outside :=
    let (reply, topics) := o.topics.reply r
    (reply, { o with topics })

def askStandIn (writer : Nat) (now : Instant) :
    (r : StandIn.Request) → Outside → Exchange Outside r.Reply × Outside
  | .ensure name =>
    turn .ensure writer (.standIn (.ensure name)) now fun _ o => (.ok (), o)
  | .send name batch => turn .send writer (.standIn (.send name batch)) now fun hint o =>
    (.ok (hint.getD ((o.standIn.map (·.refused batch.length)).getD [])), o)
  | .shutdown name => atOnce writer (.standIn (.shutdown name)) now

def ask (writer : Nat) :
    (r : Request) → Instant → Outside → Exchange Outside r.Reply × Outside
  | .service (.cloudWatch r), now => askLogs writer now r
  | .service (.kinesis r), now => askStreams writer now r
  | .service (.sns r), now => askTopics writer now r
  | .standIn r, now => askStandIn writer now r

end Outside

/-- What a target is called before it is connected to. -/
def targetName : Target → String
  | .cloudWatch s => s.logStream
  | .kinesis s => s.stream
  | .sns s => s.topicName.getD ""

namespace Outside

/-- Takes the next of a row of refusals. -/
def nextRefusal : List (Option Failure) → Option Failure × List (Option Failure)
  | [] => (none, [])
  | r :: rest => (r, rest)

/-- What the destination for the settings is called. -/
def nameFor (s : Settings) (o : Outside) : String :=
  (o.standIn.bind (·.name)).getD (targetName s.target)

def connect (s : Settings) (now : Instant) (o : Outside) :
    Except Failure (Destination api) × Outside :=
  let name := o.nameFor s
  let (refusal, refusals) := nextRefusal o.refusals
  let o := { o.note now (.connect name) with refusals }
  match refusal, o.standIn with
  | some e, _ => (.error e, o)
  | none, some d => (.ok ((d.destination name).within Request.standIn fun _ reply => reply), o)
  | none, none => ((Services.connect o.clients s).map served, o)

def spawn (o : Outside) : Except Failure Unit × Outside :=
  let (refusal, threadRefusals) := nextRefusal o.threadRefusals
  let o := { o with threadRefusals }
  match refusal with
  | some e => (.error e, o)
  | none => (.ok (), o)

end Outside

def environment : Environment api Outside where
  ask := Outside.ask
  draw o := (0, o)
  connect := Outside.connect
  spawn := Outside.spawn

end LogRelay.Simulation
