import ReductionGrammar.Text.Quoted

/-!
# Faults

Everything that can go wrong, each cause with what its message tells: a pattern that cannot be
read, a grammar whose names do not fit together, a value that an action cannot use, and a run that
is stopped. A `Diagnostic` adds the place where the fault was found.
-/

namespace ReductionGrammar

inductive Ceiling where
  | reductions (limit : Nat)
  | growth (limit : Nat)
deriving DecidableEq

def Ceiling.describe : Ceiling → String
  | reductions limit => s!"max reductions ({limit}) exceeded"
  | growth limit => s!"max buffer growth ({limit}) exceeded"

inductive Fault where
  | patternEnds (rule : Nat) (pattern : String)
  /-- The pattern of a rule has a character where it cannot stand; `offset` counts the characters
  before it. -/
  | strayChar (rule : Nat) (pattern : String) (found : Char) (offset : Nat)
  | startUndefined (name : String)
  | symbolUndefined (name : String)
  | symbolUnused (name : String)
  | typeMismatch (expected actual : String)
  /-- A text is not the decimal form of a number in range. -/
  | invalidNumber (text : String)
  | actionFailed (rule : Nat) (message : String)
  | limitExceeded (ceiling : Ceiling)
deriving DecidableEq

namespace Fault

def message : Fault → String
  | patternEnds rule pattern => s!"unexpected end in rule #{rule} '{pattern}'"
  | strayChar rule pattern found _ =>
    "unexpected char '" ++ String.singleton found ++ s!"' in rule #{rule} '{pattern}'"
  | startUndefined name => s!"start rule '{name}' is not defined"
  | symbolUndefined name => s!"non-terminal '{name}' is not defined"
  | symbolUnused name => s!"non-terminal '{name}' defined but not used"
  | typeMismatch expected actual => s!"type mismatch: expected {expected}, got {actual}"
  | invalidNumber text => "invalid number: " ++ quoted text
  | actionFailed rule message => s!"action for rule #{rule} failed: {message}"
  | limitExceeded ceiling => s!"limit exceeded: {ceiling.describe}"

def inPattern : Fault → Bool
  | patternEnds .. | strayChar .. => true
  | _ => false

def inGrammar : Fault → Bool
  | startUndefined _ | symbolUndefined _ | symbolUnused _ => true
  | _ => false

def offset? : Fault → Option Nat
  | strayChar _ _ _ offset => some offset
  | _ => none

end Fault

/-- Where a fault was found: the left-hand side of a rule and an offset in its pattern, each if
known. -/
structure Place where
  source : Option String
  offset : Option Nat
deriving DecidableEq

/-- The place in words; nothing if nothing is known. -/
def Place.describe : Place → String
  | ⟨some source, some offset⟩ => s!"in {source} at offset {offset}"
  | ⟨some source, none⟩ => s!"in {source}"
  | ⟨none, some offset⟩ => s!"at offset {offset}"
  | ⟨none, none⟩ => ""

structure Diagnostic where
  fault : Fault
  place : Option Place
deriving DecidableEq

end ReductionGrammar
