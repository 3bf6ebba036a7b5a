import ReductionGrammar.Pattern.Reading

/-!
# Writing patterns

The canonical text of tokens, which reads as these tokens again: one space between items, no
escape that is not needed, and the ranges of a set as single characters, pairs and ranges.
-/

namespace ReductionGrammar

def writeChar (special : Bool) (c : Char) : List Char :=
  if special then [escape, c] else [c]

/-- The character has a meaning of its own at the beginning of a terminal. -/
def isSpecialInQuotes (c : Char) : Bool :=
  c == quoteMark || c == '[' || c == escape

/-- The character has a meaning of its own in a class; `^` only where `leads` says that it would
be the first character of the class. -/
def isSpecialInClass (leads : Bool) (c : Char) : Bool :=
  c == ']' || c == '-' || c == escape || (leads && c == '^')

namespace CharSet

/-- A range of one character is written as that character, one of two characters as this pair, and
any other with a `-` between its ends. -/
def writeRange (leads : Bool) (lo hi : Char) : List Char :=
  let first := writeChar (isSpecialInClass leads lo) lo
  let last := writeChar (isSpecialInClass false hi) hi
  if lo = hi then first
  else if nextChar? lo = some hi then first ++ last
  else first ++ '-' :: last

/-- The ranges of a class; only the first of them may lead it. -/
def writeRanges (leads : Bool) : List (Char × Char) → List Char
  | [] => []
  | (lo, hi) :: rest => writeRange leads lo hi ++ writeRanges false rest

def write (set : CharSet) : List Char :=
  if set.negated then '[' :: '^' :: writeRanges false set.ranges ++ [']']
  else '[' :: writeRanges true set.ranges ++ [']']

end CharSet

def Atom.write : Atom → List Char
  | .char c => quoteMark :: writeChar (isSpecialInQuotes c) c ++ [quoteMark]
  | .charSet set => quoteMark :: set.write ++ [quoteMark]
  | .name symbol => symbol.toList

namespace Token

def write (t : Token) : List Char :=
  let item := t.atom.write ++ t.repetition.suffix?.toList
  if t.captured then '(' :: item ++ [')'] else item

def render (t : Token) : String :=
  String.ofList t.write

end Token

def writeTokens : List Token → List Char
  | [] => []
  | [t] => t.write
  | t :: rest => t.write ++ ' ' :: writeTokens rest

/-- The canonical text of the tokens. -/
def renderTokens (tokens : List Token) : String :=
  String.ofList (writeTokens tokens)

end ReductionGrammar
