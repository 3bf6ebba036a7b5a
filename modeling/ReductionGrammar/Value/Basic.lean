import ReductionGrammar.Fault
import ReductionGrammar.Number.Binary64
import ReductionGrammar.Number.Integer

/-!
# Values

The values that the actions of rules take and give. Two floating-point numbers are the same value
if they have the same bits; an integer is a word of 64 bits, and its arithmetic wraps around.
-/

namespace ReductionGrammar

/-- What a reduced entry carries. -/
inductive Value where
  | nil
  | bool (b : Bool)
  | int (n : Int64)
  | float (x : Binary64)
  | string (s : String)
  | vec (items : List Value)

namespace Value

mutual

def same : Value → Value → Bool
  | nil, nil => true
  | bool a, bool b => a == b
  | int m, int n => m == n
  | float x, float y => x == y
  | string s, string t => s == t
  | vec as, vec bs => sameAll as bs
  | _, _ => false

def sameAll : List Value → List Value → Bool
  | [], [] => true
  | a :: as, b :: bs => same a b && sameAll as bs
  | _, _ => false

end

mutual

theorem same_iff : ∀ a b : Value, same a b = true ↔ a = b
  | nil, b => by cases b <;> simp [same]
  | bool _, b => by cases b <;> simp [same]
  | int _, b => by cases b <;> simp [same]
  | float _, b => by cases b <;> simp [same]
  | string _, b => by cases b <;> simp [same]
  | vec as, b => by
    cases b with
    | vec bs => simp [same, sameAll_iff as bs]
    | _ => simp [same]

theorem sameAll_iff : ∀ as bs : List Value, sameAll as bs = true ↔ as = bs
  | [], bs => by cases bs <;> simp [sameAll]
  | a :: as, bs => by
    cases bs with
    | nil => simp [sameAll]
    | cons b bs => simp [sameAll, same_iff a b, sameAll_iff as bs]

end

instance : DecidableEq Value :=
  fun a b => decidable_of_iff _ (same_iff a b)

def typeName : Value → String
  | nil => "nil"
  | bool _ => "bool"
  | int _ => "int"
  | float _ => "float"
  | string _ => "string"
  | vec _ => "vec"

def isNil : Value → Bool
  | nil => true
  | _ => false

def int? : Value → Option Int64
  | int n => some n
  | _ => none

def string? : Value → Option String
  | string s => some s
  | _ => none

def vec? : Value → Option (List Value)
  | vec items => some items
  | _ => none

/-- The integer; any other value is a fault. -/
def expectInt (v : Value) : Except Fault Int64 :=
  match v with
  | int n => .ok n
  | _ => .error (.typeMismatch "int" v.typeName)

def expectString (v : Value) : Except Fault String :=
  match v with
  | string s => .ok s
  | _ => .error (.typeMismatch "string" v.typeName)

/-- The integer, or the integer that the text is the decimal form of. -/
def parseInt (v : Value) : Except Fault Int64 :=
  match v with
  | int n => .ok n
  | string s =>
    match readInt64? s.toList with
    | some n => .ok n
    | none => .error (.invalidNumber s)
  | _ => .error (.typeMismatch "string" v.typeName)

end Value

end ReductionGrammar
