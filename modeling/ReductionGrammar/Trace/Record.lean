import ReductionGrammar.Parser.Notice

/-!
# Trace records

A trace keeps what happened during parses. Its events hold texts in the place of buffers and of
faults, so a record stays small and says what a reader will see.
-/

namespace ReductionGrammar.Trace

inductive Event where
  | parseStart (input : String)
  | passStart (pass : Nat) (buffer : String)
  | reduction (r : Reduction)
  /-- An accepted parse has a value, a stuck one the place where it is stuck and its buffer. -/
  | parseEnd (value : Option Value) (unmatched : Option Span) (buffer : String)
  | parseAbort (message : String)

inductive EventKind where
  | parseStart
  | passStart
  | reduction
  | parseEnd
  | parseAbort
deriving DecidableEq

namespace EventKind

def all : List EventKind :=
  [parseStart, passStart, reduction, parseEnd, parseAbort]

def name : EventKind → String
  | parseStart => "parse-start"
  | passStart => "pass-start"
  | reduction => "reduction"
  | parseEnd => "parse-end"
  | parseAbort => "parse-abort"

def isBoundary : EventKind → Bool
  | parseStart | parseEnd | parseAbort => true
  | passStart | reduction => false

end EventKind

namespace Event

def kind : Event → EventKind
  | parseStart _ => .parseStart
  | passStart .. => .passStart
  | reduction _ => .reduction
  | parseEnd .. => .parseEnd
  | parseAbort _ => .parseAbort

def ofNotice : Notice → Event
  | .started input => parseStart input
  | .pass number buffer => passStart number buffer.display
  | .reduced r => reduction r
  | .ended (.accepted value) => parseEnd (some value) none ""
  | .ended (.stuck buffer unmatched) => parseEnd none (some unmatched) buffer.display
  | .aborted fault => parseAbort fault.message

end Event

/-- An event with its number, the number of its parse, and the time in nanoseconds since the trace
began. -/
structure Record where
  id : Nat
  parse : Nat
  timestamp : Nat
  event : Event

end ReductionGrammar.Trace
