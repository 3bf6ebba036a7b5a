import ReductionGrammar.Value.Basic

/-!
# Tagged trees

The form in which values leave and enter the program: a tree of plain data in which every value
carries the name of its kind. Trees know integers and numbers with a fraction apart but have no
infinite number and no NaN; in their place stands nothing, which reads as no number.
-/

namespace ReductionGrammar

inductive Tree where
  | null
  | bool (b : Bool)
  | int (n : Int)
  | float (x : Binary64)
  | text (s : String)
  | list (items : List Tree)
  | record (fields : List (String × Tree))

namespace Value

mutual

/-- The tree of a value: its kind, and what it holds. -/
def toTree : Value → Tree
  | nil => .text "Nil"
  | bool b => .record [("Bool", .bool b)]
  | int n => .record [("Int", .int n.toInt)]
  | float x => .record [("Float", if x.isFinite then .float x else .null)]
  | string s => .record [("String", .text s)]
  | vec items => .record [("Vec", .list (toTrees items))]

def toTrees : List Value → List Tree
  | [] => []
  | v :: rest => toTree v :: toTrees rest

end

mutual

/-- The value of a tree, if it is the tree of a value. A record has exactly one field, whose name
is a kind; an integer may stand for the number with a fraction nearest to it. -/
def ofTree? : Tree → Option Value
  | .text "Nil" => some nil
  | .record [("Nil", .null)] => some nil
  | .record [("Bool", .bool b)] => some (bool b)
  | .record [("Int", .int n)] => (int64? n).map int
  | .record [("Float", .float x)] => some (float x)
  | .record [("Float", .int n)] => some (float (.ofInt n))
  | .record [("String", .text s)] => some (string s)
  | .record [("Vec", .list items)] => (ofTrees? items).map vec
  | _ => none

def ofTrees? : List Tree → Option (List Value)
  | [] => some []
  | t :: rest =>
    match ofTree? t, ofTrees? rest with
    | some v, some vs => some (v :: vs)
    | _, _ => none

end

end Value

end ReductionGrammar
