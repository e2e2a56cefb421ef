import LogRelay.Backlog
import LogRelay.Failure
import LogRelay.Text.CharRanges

/-!
# Discard actions as people write them

The name of an action in any mixture of ASCII cases, with blanks around it.
-/

namespace LogRelay.DiscardAction

def default : DiscardAction := oldest

def unknown (s : String) : Failure :=
  { message := "invalid discard action", context := [("value", s)] }

def parse (s : String) : Except Failure DiscardAction :=
  match ofName? ((Text.trim s).map Char.toLower) with
  | some a => .ok a
  | .none => .error (unknown s)

end LogRelay.DiscardAction
