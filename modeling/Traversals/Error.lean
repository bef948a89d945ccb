import Traversals.Text.Layout
import Traversals.Text.Quoted

/-!
# Refused constructions

A stage with an unusable parameter is refused when it is built, before
anything is pulled. A refusal names the parameter; where a value was given it
also says what is wrong with it.
-/

namespace Traversals

inductive BuildError where
  | invalidArgument (parameter reason : String)
  | missingArgument (parameter : String)
  deriving DecidableEq, Repr

namespace BuildError

def message : BuildError → String
  | invalidArgument parameter reason => "invalid argument \x60" ++ parameter ++ "\x60: " ++ reason
  | missingArgument parameter => "missing argument \x60" ++ parameter ++ "\x60"

def inspect : BuildError → String
  | invalidArgument parameter reason =>
      Text.record "InvalidArgument"
        [("parameter", Text.quoted parameter), ("reason", Text.quoted reason)]
  | missingArgument parameter =>
      Text.record "MissingArgument" [("parameter", Text.quoted parameter)]

end BuildError

/-- A stride, step or size has to be positive; the evidence goes with it. -/
def positive (parameter : String) (value : Nat) : Except BuildError { n : Nat // 0 < n } :=
  if h : 0 < value then .ok ⟨value, h⟩
  else .error (.invalidArgument parameter "must be greater than zero")

end Traversals
