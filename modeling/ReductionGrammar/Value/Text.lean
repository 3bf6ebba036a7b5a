import ReductionGrammar.Number.Positional
import ReductionGrammar.Value.Basic

/-!
# Values as texts

A value is shown in two ways. `display` gives strings as they are and puts spaces between the
items of a vector; `debug` quotes strings and puts commas between the items.
-/

namespace ReductionGrammar

/-- How strings are written, and what stands between the items of a vector. -/
structure ValueStyle where
  string : String → String
  separator : String

namespace Value

/-- For readers: strings as they are. -/
def displayStyle : ValueStyle :=
  ⟨id, " "⟩

/-- For authors: strings in quotes. -/
def debugStyle : ValueStyle :=
  ⟨quoted, ", "⟩

mutual

def text (style : ValueStyle) : Value → String
  | nil => "nil"
  | bool b => if b then "true" else "false"
  | int n => toString n.toInt
  | float x => x.text
  | string s => style.string s
  | vec items => "[" ++ String.intercalate style.separator (texts style items) ++ "]"

def texts (style : ValueStyle) : List Value → List String
  | [] => []
  | v :: rest => text style v :: texts style rest

end

theorem texts_eq_map (style : ValueStyle) (vs : List Value) :
    texts style vs = vs.map (text style) := by
  induction vs with
  | nil => rfl
  | cons v rest ih => simp only [texts, List.map_cons, ih]

def display (v : Value) : String :=
  v.text displayStyle

def debug (v : Value) : String :=
  v.text debugStyle

end Value

end ReductionGrammar
