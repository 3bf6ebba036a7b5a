import ReductionGrammar.Grammar.Basic
import ReductionGrammar.Value.Text

/-!
# Actions

The actions from which grammars are built. An action that takes certain captures takes nothing in
place of one that is missing.
-/

namespace ReductionGrammar.Action

/-- The capture at an index; nothing if there is none. -/
def arg (args : List Value) (i : Nat) : Value :=
  args[i]?.getD .nil

def const (v : Value) : Action :=
  fun _ => .ok v

def fail (fault : Fault) : Action :=
  fun _ => .error fault

def nth (i : Nat) : Action :=
  fun args => .ok (arg args i)

def first : Action :=
  nth 0

def last : Action :=
  fun args => .ok (args.getLast?.getD .nil)

/-- The number that the first capture is, or is the decimal form of. -/
def number : Action :=
  fun args => (arg args 0).parseInt.map .int

/-- The result of an operation on two integers, the first two captures. -/
def arithmetic (op : Int64 → Int64 → Int64) : Action :=
  fun args =>
    match (arg args 0).expectInt with
    | .error fault => .error fault
    | .ok m => (arg args 1).expectInt.map fun n => .int (op m n)

/-- The sum of the first two captures, which wraps around. -/
def sum : Action :=
  arithmetic (· + ·)

def difference : Action :=
  arithmetic (· - ·)

def product : Action :=
  arithmetic (· * ·)

def string : Action :=
  fun args => (arg args 0).expectString.map .string

def concat : Action :=
  fun args => .ok (.string (String.join (args.map Value.display)))

def debug : Action :=
  fun args => .ok (.string (Value.vec args).debug)

def list : Action :=
  fun args => .ok (.vec args)

def tag (name : String) : Action :=
  fun args => .ok (.vec (.string name :: args))

def count : Action :=
  fun args => .ok (.int (Int64.ofNat args.length))

def typeName : Action :=
  fun args => .ok (.string (arg args 0).typeName)

/-- The items that a capture contributes to a longer vector: its own, if it is one. -/
def items : Value → List Value
  | .vec vs => vs
  | v => [v]

/-- The first capture and the second one in one vector, each with its items if it is a vector. -/
def append : Action :=
  fun args => .ok (.vec (items (arg args 0) ++ items (arg args 1)))

end ReductionGrammar.Action
