import ReductionGrammar.Text.Blank

/-!
# Reading integers

The decimal form of an integer: an optional sign and at least one digit of ASCII. Leading zeros
are allowed, so a number has many forms; which integers are in range is a question of their value.
-/

namespace ReductionGrammar

/-- The value of decimal digits, the first of which weighs most. -/
def digitsValue (ds : List Char) : Nat :=
  ds.foldl (fun n d => 10 * n + (d.toNat - '0'.toNat)) 0

def readNat? (ds : List Char) : Option Nat :=
  if ds ≠ [] ∧ ds.all Char.isDigit then some (digitsValue ds) else none

/-- The value of digits after an optional sign. -/
def readInt? : List Char → Option Int
  | [] => none
  | c :: ds =>
    if c = '-' then (readNat? ds).map fun n => -(n : Int)
    else if c = '+' then (readNat? ds).map fun n => (n : Int)
    else (readNat? (c :: ds)).map fun n => (n : Int)

def int64? (n : Int) : Option Int64 :=
  if -0x8000000000000000 ≤ n ∧ n < 0x8000000000000000 then some (Int64.ofInt n) else none

/-- The value of a text as a word of 64 bits; blanks around the number are left out. -/
def readInt64? (s : List Char) : Option Int64 :=
  (readInt? (trimBlanks s)).bind int64?

end ReductionGrammar
