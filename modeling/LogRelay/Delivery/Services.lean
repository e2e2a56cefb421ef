import LogRelay.Delivery.CloudWatch
import LogRelay.Delivery.Kinesis
import LogRelay.Delivery.Sns

/-!
# The three services together

A writer does not care which service it writes to. Here the services have one API between them,
and the settings decide which destination is made and how patient it is.
-/

namespace LogRelay.Services

inductive Request
  | cloudWatch (r : CloudWatch.Request)
  | kinesis (r : Kinesis.Request)
  | sns (r : Sns.Request)

abbrev Request.Reply : Request → Type
  | cloudWatch r => r.Reply
  | kinesis r => r.Reply
  | sns r => r.Reply

abbrev api : Api := ⟨Request, Request.Reply⟩

/-- How patient a destination is in being set up and in sending. -/
structure Patiences where
  setup : Patience
  sending : Patience

namespace Patiences

/-- Delays in milliseconds that double each time. -/
def doubling (initialDelay timeout : Nat) : Patience :=
  { initialDelay := Duration.ofMillis initialDelay
    timeout := Duration.ofMillis timeout
    exponential := true }

def ofSettings (s : Settings) : Patiences where
  setup := doubling s.retryInitialDelay s.initializationTimeout
  sending := doubling s.retryInitialDelay s.retryTimeout

/-- What a destination has when no settings say otherwise. -/
def default : Patiences where
  setup := doubling 100 60000
  sending := doubling 100 10000

end Patiences

/-- The destination that a target stands for. -/
def destination (p : Patiences) : Target → Destination api
  | .cloudWatch settings =>
    (CloudWatch.destination { settings, setup := p.setup, sending := p.sending }).within
      Request.cloudWatch fun _ reply => reply
  | .kinesis settings =>
    (Kinesis.destination { settings, setup := p.setup, sending := p.sending }).within
      Request.kinesis fun _ reply => reply
  | .sns settings =>
    (Sns.destination { settings, setup := p.setup, sending := p.sending }).within
      Request.sns fun _ reply => reply

/-- The services for which there is a client. -/
structure Clients where
  cloudWatch : Bool := true
  kinesis : Bool := true
  sns : Bool := true

def noClient (service : String) : Failure := { message := "no " ++ service ++ " client available" }

/-- The destination of the settings, if there is a client for it. -/
def connect (c : Clients) (s : Settings) : Except Failure (Destination api) :=
  match s.target with
  | .cloudWatch _ => if c.cloudWatch then .ok made else .error (noClient "CloudWatch Logs")
  | .kinesis _ => if c.kinesis then .ok made else .error (noClient "Kinesis")
  | .sns _ => if c.sns then .ok made else .error (noClient "SNS")
where
  made : Destination api := destination (Patiences.ofSettings s) s.target

end LogRelay.Services
