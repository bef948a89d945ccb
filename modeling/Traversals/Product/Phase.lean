/-!
# Phases of a product

A product is fresh until its first pull and exhausted from its end on.
-/

namespace Traversals

inductive Phase where
  | fresh
  | running
  | exhausted
  deriving DecidableEq, Repr

def Phase.inspect : Phase → String
  | fresh => "Fresh"
  | running => "Running"
  | exhausted => "Exhausted"

end Traversals
