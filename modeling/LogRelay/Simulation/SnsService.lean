import LogRelay.Delivery.Sns

/-!
# A service of topics

A model of the service that topics are listed by, page by page, and published to. The pages are
known by their numbers, and a topic that is created does not appear on them.
-/

namespace LogRelay.Sns

structure Service where
  pages : List (List String) := []
  /-- The messages published, with the ARN of the topic, the first first. -/
  stored : Array (String × String) := #[]

namespace Service

def page (number : Nat) (s : Service) : Page :=
  { arns := s.pages[number]?.getD []
    next := if number + 1 < s.pages.length then some (toString (number + 1)) else none }

def arnOf (name : String) : String := "arn:aws:sns:us-east-1:123456789012:" ++ name

def publish (arn message : String) (s : Service) : Service :=
  { s with stored := s.stored.push (arn, message) }

def reply (s : Service) : (r : Request) → r.Reply × Service
  | .listTopics token => (.ok (s.page ((token.bind String.toNat?).getD 0)), s)
  | .createTopic name => (.ok (arnOf name), s)
  | .publish arn _ message => (.ok (), s.publish arn message)
  | .close => ((), s)

/-- Forgets every topic. -/
def wipe (s : Service) : Service := { s with pages := [] }

end Service

end LogRelay.Sns
