import ReductionGrammar.Fault
import ReductionGrammar.Pattern.Reading

/-!
# Patterns

A pattern is a right-hand side together with the text it was read from.
-/

namespace ReductionGrammar

/-- A right-hand side as written and as read. -/
structure Pattern where
  text : String
  tokens : List Token
deriving DecidableEq

namespace Pattern

/-- The fault of reading `text`, the pattern of the rule `rule`, when reading failed at `stop`. -/
def faultAt (rule : Nat) (text : String) : List Char → Fault
  | [] => .patternEnds rule text
  | found :: rest => .strayChar rule text found (text.length - (rest.length + 1))

def read (text : String) (rule : Nat) : Except Fault Pattern :=
  match readItems text.toList with
  | .ok tokens => .ok ⟨text, tokens⟩
  | .error stop => .error (faultAt rule text stop)

def captureCount (p : Pattern) : Nat :=
  p.tokens.countP (·.captured)

def symbols (p : Pattern) : List String :=
  p.tokens.filterMap (·.atom.symbol?)

def isNullable (p : Pattern) : Bool :=
  p.tokens.all (·.repetition.allowsZero)

end Pattern

end ReductionGrammar
