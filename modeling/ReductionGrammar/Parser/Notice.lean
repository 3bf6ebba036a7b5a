import ReductionGrammar.Buffer.Outcome
import ReductionGrammar.Fault

/-!
# Notices

What an observer of a parse is told: how it begins, every pass over the rules with the buffer it
begins with, every reduction, and how it ends.
-/

namespace ReductionGrammar

structure Reduction where
  /-- The number of the pass, counted from 1. -/
  pass : Nat
  rule : Nat
  lhs : String
  span : Span
  captures : List Value
  value : Value
deriving DecidableEq

def Reduction.applyTo (r : Reduction) (b : Buffer) : Buffer :=
  b.splice r.span (.reduced r.lhs r.value)

/-- What an observer is told. -/
inductive Notice where
  | started (input : String)
  | pass (number : Nat) (buffer : Buffer)
  | reduced (reduction : Reduction)
  /-- No rule matches any more. -/
  | ended (outcome : Outcome)
  | aborted (fault : Fault)
deriving DecidableEq

end ReductionGrammar
