import ReductionGrammar.Pattern.Basic
import ReductionGrammar.Pattern.Writing
import ReductionGrammar.Value.Basic

/-!
# Grammars

A grammar is a start symbol and the rules declared for it, in order. A rule says that entries
which match its pattern may be reduced to its left-hand side, with the value that its action makes
of what they captured. Its ordinal is its place among the declarations, counted from 1.
-/

namespace ReductionGrammar

/-- What a rule does with its captures. -/
abbrev Action := List Value → Except Fault Value

structure Declaration where
  lhs : String
  pattern : Pattern
  action : Action

structure Rule extends Declaration where
  ordinal : Nat

namespace Rule

/-- The value of the action for some captures; a failure is told with the rule that it befell. -/
def apply (r : Rule) (captures : List Value) : Except Fault Value :=
  match r.action captures with
  | .ok value => .ok value
  | .error fault => .error (.actionFailed r.ordinal fault.message)

/-- The rule with its pattern in canonical form. -/
def display (r : Rule) : String :=
  s!"{r.lhs} -> {renderTokens r.pattern.tokens}"

/-- The rule with its pattern as it was written. -/
def debug (r : Rule) : String :=
  "Rule \x7b ordinal: " ++ toString r.ordinal ++ ", lhs: " ++ quoted r.lhs ++ ", pattern: " ++
    quoted r.pattern.text ++ ", .. \x7d"

end Rule

structure Grammar where
  start : String
  declarations : List Declaration

namespace Grammar

def ofStart (start : String) : Grammar :=
  ⟨start, []⟩

def size (g : Grammar) : Nat :=
  g.declarations.length

def nextOrdinal (g : Grammar) : Nat :=
  g.size + 1

def rules (g : Grammar) : List Rule :=
  g.declarations.mapIdx fun i d => { d with ordinal := i + 1 }

/-- Declares a rule. If its pattern cannot be read there is no new grammar, and the ordinal stays
free. -/
def define (g : Grammar) (lhs pattern : String) (action : Action) : Except Diagnostic Grammar :=
  match Pattern.read pattern g.nextOrdinal with
  | .ok pattern => .ok { g with declarations := g.declarations ++ [⟨lhs, pattern, action⟩] }
  | .error fault => .error ⟨fault, some ⟨some lhs, fault.offset?⟩⟩

def isDefined (g : Grammar) (name : String) : Bool :=
  g.declarations.any (·.lhs == name)

def rulesFor (g : Grammar) (name : String) : List Rule :=
  g.rules.filter (·.lhs == name)

def rule? (g : Grammar) (ordinal : Nat) : Option Rule :=
  g.rules.find? (·.ordinal == ordinal)

def display (g : Grammar) : String :=
  g.rules.foldl (fun text r => text ++ s!"#{r.ordinal} {r.display}\n") s!"start: {g.start}\n"

/-- The symbols to which patterns refer, in order, each as often as it stands there. -/
def references (g : Grammar) : List String :=
  g.declarations.flatMap (·.pattern.symbols)

/-- Checks that the symbols fit together: some rule reduces to the start symbol; some rule reduces
to each symbol that a pattern refers to; and some pattern refers to each symbol that a rule reduces
to. The fault is the first of these that is not so, with the first symbol it is not so for. -/
def validate (g : Grammar) : Except Fault Unit :=
  if !g.isDefined g.start then .error (.startUndefined g.start)
  else
    match g.references.find? (!g.isDefined ·) with
    | some name => .error (.symbolUndefined name)
    | none =>
      match g.declarations.find? (!g.references.contains ·.lhs) with
      | some d => .error (.symbolUnused d.lhs)
      | none => .ok ()

end Grammar

end ReductionGrammar
