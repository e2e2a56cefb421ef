import LogRelay.Failure

/-!
# The journal

What the library says about itself: progress, losses and failures. An entry is put on the console
or handed to a logging facade; the console shows progress only when asked to.
-/

namespace LogRelay

inductive Level
  | debug
  | warn
  | error
deriving DecidableEq, Repr

namespace Level

def name : Level → String
  | debug => "DEBUG"
  | warn => "WARN"
  | error => "ERROR"

end Level

structure Entry where
  level : Level
  text : String
deriving DecidableEq, Repr

namespace Entry

def debug (text : String) : Entry := ⟨.debug, text⟩

def warn (text : String) : Entry := ⟨.warn, text⟩

/-- A failure follows the message it belongs to. -/
def error (message : String) (failure : Option Failure) : Entry :=
  ⟨.error, match failure with
    | some e => message ++ ": " ++ e.text
    | none => message⟩

/-- What the console shows of the entry. -/
def console (showDebug : Bool) (e : Entry) : String :=
  if e.level = .debug && !showDebug then ""
  else "logforth-append-aws: " ++ e.level.name ++ ": " ++ e.text ++ "\n"

end Entry

/-- The name under which a logging facade gets the entries. -/
def facadeTarget : String := "logforth_append_aws"

end LogRelay
