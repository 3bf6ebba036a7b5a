import ReductionGrammar.Value.Text

/-!
# Buffers

A parse works on a buffer of entries. It begins with the characters of the input; every reduction
puts one entry with a symbol and a value in the place of a span of entries.
-/

namespace ReductionGrammar

inductive Entry where
  | char (c : Char)
  | reduced (symbol : String) (value : Value)
deriving DecidableEq

namespace Entry

def char? : Entry → Option Char
  | char c => some c
  | reduced .. => none

def symbol? : Entry → Option String
  | char _ => none
  | reduced symbol _ => some symbol

def value? : Entry → Option Value
  | char _ => none
  | reduced _ value => some value

def isReducedTo (e : Entry) (name : String) : Bool :=
  match e with
  | char _ => false
  | reduced symbol _ => symbol == name

/-- The text of an entry: a character between single quotes, or the symbol with its value. -/
def display : Entry → String
  | char c => "'" ++ String.singleton c ++ "'"
  | reduced symbol value => symbol ++ "(" ++ value.display ++ ")"

end Entry

/-- The entries from `start` on and before `stop`. -/
structure Span where
  start : Nat
  stop : Nat
deriving DecidableEq

def Span.size (s : Span) : Nat :=
  s.stop - s.start

structure Buffer where
  entries : List Entry
deriving DecidableEq

namespace Buffer

def ofInput (input : String) : Buffer :=
  ⟨input.toList.map .char⟩

def size (b : Buffer) : Nat :=
  b.entries.length

def isEmpty (b : Buffer) : Bool :=
  b.entries.isEmpty

def get? (b : Buffer) (i : Nat) : Option Entry :=
  b.entries[i]?

/-- The buffer with one entry in the place of those of a span; an empty span is where the entry is
inserted. -/
def splice (b : Buffer) (span : Span) (e : Entry) : Buffer :=
  ⟨b.entries.take span.start ++ e :: b.entries.drop span.stop⟩

/-- As `splice`, for a span that lies in the buffer. -/
def splice? (b : Buffer) (span : Span) (e : Entry) : Option Buffer :=
  if span.start ≤ span.stop ∧ span.stop ≤ b.size then some (b.splice span e) else none

def display (b : Buffer) : String :=
  "[" ++ String.intercalate " " (b.entries.map Entry.display) ++ "]"

end Buffer

end ReductionGrammar
