import ReductionGrammar.Pattern.CharSet

/-!
# Pattern tokens

The right-hand side of a rule is a list of tokens. A token says which entries it accepts (its
`atom`), how many of them it takes in a row (its `repetition`), and whether what it takes is
handed to the action of the rule (`captured`).
-/

namespace ReductionGrammar

/-- How many entries in a row a token takes. -/
inductive Repetition where
  | once
  | oneOrMore
  | zeroOrMore
  | zeroOrOne
deriving DecidableEq

namespace Repetition

def ofSuffix? : Char → Option Repetition
  | '+' => some oneOrMore
  | '*' => some zeroOrMore
  | '?' => some zeroOrOne
  | _ => none

def suffix? : Repetition → Option Char
  | once => none
  | oneOrMore => some '+'
  | zeroOrMore => some '*'
  | zeroOrOne => some '?'

def allowsMany : Repetition → Bool
  | oneOrMore | zeroOrMore => true
  | once | zeroOrOne => false

def allowsZero : Repetition → Bool
  | zeroOrMore | zeroOrOne => true
  | once | oneOrMore => false

def accepts : Repetition → Nat → Bool
  | once, count => count == 1
  | oneOrMore, count => 1 ≤ count
  | zeroOrMore, _ => true
  | zeroOrOne, count => count ≤ 1

theorem ofSuffix?_suffix? {r : Repetition} {c : Char} (h : r.suffix? = some c) :
    ofSuffix? c = some r := by
  cases r <;> simp_all [suffix?] <;> subst h <;> rfl

theorem accepts_zero (r : Repetition) : r.accepts 0 = r.allowsZero := by
  cases r <;> rfl

end Repetition

/-- What a token accepts: a character, a class of characters, or entries reduced to a name. -/
inductive Atom where
  | char (c : Char)
  | charSet (set : CharSet)
  | name (symbol : String)
deriving DecidableEq

namespace Atom

def isTerminal : Atom → Bool
  | name _ => false
  | char _ | charSet _ => true

def acceptsChar : Atom → Char → Bool
  | char d, c => d == c
  | charSet set, c => set.matchesChar c
  | name _, _ => false

def acceptsSymbol : Atom → String → Bool
  | name expected, symbol => expected == symbol
  | char _, _ | charSet _, _ => false

def symbol? : Atom → Option String
  | name symbol => some symbol
  | char _ | charSet _ => none

end Atom

/-- One element of the right-hand side of a rule. -/
structure Token where
  atom : Atom
  repetition : Repetition
  captured : Bool
deriving DecidableEq

end ReductionGrammar
