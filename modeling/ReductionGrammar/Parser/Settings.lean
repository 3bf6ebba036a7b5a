/-!
# Settings of a parser

In which order rules are tried, and how long a run may go on.
-/

namespace ReductionGrammar

inductive Priority where
  /-- The rule declared last is tried first. -/
  | lastFirst
  | declared
deriving DecidableEq

namespace Priority

def arrange {α : Type} : Priority → List α → List α
  | lastFirst, l => l.reverse
  | declared, l => l

def order (p : Priority) (count : Nat) : List Nat :=
  p.arrange (List.range count)

end Priority

structure Settings where
  priority : Priority := .lastFirst
  maxReductions : Nat := 100000
  /-- By how many entries a buffer may outgrow the input. -/
  maxGrowth : Nat := 1000
deriving DecidableEq

/-- The greatest size there is, for sizes are words of 64 bits. -/
def greatestSize : Nat :=
  0xFFFFFFFFFFFFFFFF

/-- The size that a buffer may reach by insertions if the input has `n` characters. -/
def Settings.maxSize (s : Settings) (n : Nat) : Nat :=
  min (n + s.maxGrowth) greatestSize

end ReductionGrammar
