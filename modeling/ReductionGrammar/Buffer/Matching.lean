import ReductionGrammar.Buffer.Basic
import ReductionGrammar.Pattern.Token

/-!
# Matching tokens against entries

Matching is greedy and never goes back: each token takes as many entries as it accepts and may
take, and the next token begins where it stopped. The entries that the tokens took, a block for
each token, determine the captures of the match.
-/

namespace ReductionGrammar

def Atom.accepts (a : Atom) : Entry → Bool
  | .char c => a.acceptsChar c
  | .reduced symbol _ => a.acceptsSymbol symbol

namespace Token

/-- The entries that the token takes from the front: the first one, if it is accepted, and, if more
than one may be taken, those accepted that follow it in a row. -/
def block (t : Token) : List Entry → List Entry
  | [] => []
  | e :: rest =>
    if t.atom.accepts e then
      e :: (if t.repetition.allowsMany then rest.takeWhile t.atom.accepts else [])
    else []

/-- The entries that the token takes from the front, if their number is acceptable. -/
def block? (t : Token) (es : List Entry) : Option (List Entry) :=
  let taken := t.block es
  if t.repetition.accepts taken.length then some taken else none

/-- What the entries taken by the token contribute to the captures: their characters as one string,
or the value of each of them. -/
def captures (t : Token) (taken : List Entry) : List Value :=
  if !t.captured then []
  else if t.atom.isTerminal then [.string (String.ofList (taken.filterMap Entry.char?))]
  else taken.filterMap Entry.value?

end Token

/-- The entries that each of the tokens takes, from the front on, if all of them are satisfied. -/
def blocks? : List Token → List Entry → Option (List (List Entry))
  | [], _ => some []
  | t :: ts, es =>
    match t.block? es with
    | none => none
    | some taken => (blocks? ts (es.drop taken.length)).map fun rest => taken :: rest

def capturesOf : List Token → List (List Entry) → List Value
  | t :: ts, taken :: rest => t.captures taken ++ capturesOf ts rest
  | _, _ => []

structure Match where
  span : Span
  captures : List Value
deriving DecidableEq

namespace Match

/-- The match of the tokens at the beginning of `es`, which begins at `start` in its buffer. -/
def here? (tokens : List Token) (start : Nat) (es : List Entry) : Option Match :=
  (blocks? tokens es).map fun blocks =>
    ⟨⟨start, start + blocks.flatten.length⟩, capturesOf tokens blocks⟩

def at? (tokens : List Token) (es : List Entry) (start : Nat) : Option Match :=
  here? tokens start (es.drop start)

/-- The leftmost match in `es`, which begins at `start` in its buffer. There is no match where no
entry is left. -/
def findFrom? (tokens : List Token) (start : Nat) : List Entry → Option Match
  | [] => none
  | e :: rest =>
    match here? tokens start (e :: rest) with
    | some m => some m
    | none => findFrom? tokens (start + 1) rest

def find? (tokens : List Token) (es : List Entry) : Option Match :=
  findFrom? tokens 0 es

end Match

/-- The index at which a single token stops if it begins at `start`, if it is satisfied. -/
def Token.stop? (t : Token) (es : List Entry) (start : Nat) : Option Nat :=
  (t.block? (es.drop start)).map fun taken => start + taken.length

end ReductionGrammar
