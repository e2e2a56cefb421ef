/-!
# Failures and their causes

A failure carries a message, an ordered list of key-value context and any number of causes. A
cause is a fault of a service, another failure, a bare text, or a cause with a text put over it.
What is shown of a cause depends on who asks: one line shows its outermost text only, its chain
shows every level.
-/

namespace LogRelay

/-- What a service says went wrong. -/
inductive FaultKind
  | throttled
  | resourceNotFound
  | resourceAlreadyExists
  | resourceInUse
  | invalidSequenceToken
  | dataAlreadyAccepted
  | invalidParameter
  | other
deriving DecidableEq, Repr

namespace FaultKind

def name : FaultKind → String
  | throttled => "Throttled"
  | resourceNotFound => "ResourceNotFound"
  | resourceAlreadyExists => "ResourceAlreadyExists"
  | resourceInUse => "ResourceInUse"
  | invalidSequenceToken => "InvalidSequenceToken"
  | dataAlreadyAccepted => "DataAlreadyAccepted"
  | invalidParameter => "InvalidParameter"
  | other => "Other"

def all : List FaultKind :=
  [throttled, resourceNotFound, resourceAlreadyExists, resourceInUse, invalidSequenceToken,
    dataAlreadyAccepted, invalidParameter, other]

def ofName? (s : String) : Option FaultKind := all.find? (·.name == s)

end FaultKind

/-- The answer of a service that refused a request. -/
structure Fault where
  kind : FaultKind
  message : String
deriving DecidableEq, Repr

namespace Fault

def text (f : Fault) : String := f.kind.name ++ ": " ++ f.message

/-- The same request may succeed later. -/
def isTransient (f : Fault) : Bool := f.kind == .throttled || f.kind == .resourceInUse

end Fault

inductive Cause where
  | fault (f : Fault)
  | text (s : String)
  | failure (message : String) (context : List (String × String)) (causes : List Cause)
  | under (outer : String) (inner : Cause)

/-- One line: the message, then the context and the outermost texts of the causes, if any. -/
def Failure.line (message : String) (context : List (String × String)) (causes : List String) :
    String :=
  message
    ++ (if context.isEmpty then "" else
      ", context: \x7b " ++ ", ".intercalate (context.map fun (k, v) => k ++ ": " ++ v) ++ " \x7d")
    ++ (if causes.isEmpty then "" else ", sources: [" ++ ", ".intercalate causes ++ "]")

mutual

/-- The outermost text. -/
def Cause.head : Cause → String
  | .fault f => f.text
  | .text s => s
  | .failure message context causes => Failure.line message context (Cause.heads causes)
  | .under outer _ => outer

def Cause.heads : List Cause → List String
  | [] => []
  | c :: cs => c.head :: Cause.heads cs

end

mutual

/-- Every level from the outermost inwards; of a failure's causes only the first is followed. -/
def Cause.chain : Cause → List String
  | .fault f => [f.text]
  | .text s => [s]
  | .failure message context causes =>
    Failure.line message context (Cause.heads causes) :: Cause.firstChain causes
  | .under outer inner => outer :: inner.chain

def Cause.firstChain : List Cause → List String
  | [] => []
  | c :: _ => c.chain

end

structure Failure where
  message : String
  context : List (String × String) := []
  causes : List Cause := []

namespace Failure

def withContext (e : Failure) (key value : String) : Failure :=
  { e with context := e.context ++ [(key, value)] }

def withCause (e : Failure) (c : Cause) : Failure := { e with causes := e.causes ++ [c] }

def withFault (e : Failure) (f : Fault) : Failure := e.withCause (.fault f)

def toCause (e : Failure) : Cause := .failure e.message e.context e.causes

/-- The failure on one line. -/
def text (e : Failure) : String := e.toCause.head

/-- The chains of all causes, one after the other. -/
def chains (e : Failure) : List String := e.causes.flatMap Cause.chain

/-- The failure on several lines, each cause with its whole chain. -/
def report (e : Failure) : String :=
  e.message ++ "\n"
    ++ (if e.context.isEmpty then "" else
      "\nContext:\n" ++ String.join (e.context.map fun (k, v) => "   " ++ k ++ ": " ++ v ++ "\n"))
    ++ (if e.causes.isEmpty then "" else
      "\nSources:\n"
        ++ String.join (e.causes.map fun c => "   " ++ ": ".intercalate c.chain ++ "\n"))

end Failure

/-- The end of a computation that was broken off, with the text that came with it, if any. -/
structure Panic where
  payload : Option String
deriving DecidableEq, Repr

namespace Panic

def text (p : Panic) : String := p.payload.getD "unknown panic"

/-- Words are added and subtracted with a check, which ends in a panic. -/
def sumTooLarge : Panic := { payload := some "attempt to add with overflow" }

def differenceTooSmall : Panic := { payload := some "attempt to subtract with overflow" }

def instantTooLate : Panic := { payload := some "overflow when adding duration to instant" }

def toFailure (p : Panic) : Failure :=
  { message := "writer panicked", context := [("panic", p.text)] }

end Panic

end LogRelay
