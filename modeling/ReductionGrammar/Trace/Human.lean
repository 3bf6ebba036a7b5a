import ReductionGrammar.Number.Positional
import ReductionGrammar.Trace.Record

/-!
# Traces for readers

One line for each record: the number of its parse, before it, if wanted, the number of the record,
after it, if wanted, the time, and then what happened.
-/

namespace ReductionGrammar.Trace

structure HumanFormat where
  showTimestamps : Bool
  showIds : Bool

/-- A number of microseconds in a unit of so many, with three decimal places. The quotient is
rounded to a binary number first. -/
def inUnits (microseconds unit : Nat) : String :=
  let exact := (Binary64.ofInt microseconds).magnitude
  (Binary64.ofRatio false exact.num (exact.den * unit)).fixed 3

/-- A time in the greatest of the units second, millisecond and microsecond that it reaches. -/
def timeText (nanoseconds : Nat) : String :=
  let microseconds := nanoseconds / 1000
  if 1000000 ≤ microseconds then inUnits microseconds 1000000 ++ "s"
  else if 1000 ≤ microseconds then inUnits microseconds 1000 ++ "ms"
  else toString microseconds ++ "us"

def alignRight (width : Nat) (s : String) : String :=
  String.ofList (s.toList.leftpad width ' ')

def Event.describe (parse : Nat) : Event → String
  | .parseStart input => s!"=== PARSE {parse} START " ++ quoted input ++ " ==="
  | .passStart pass buffer => s!"  >> pass {pass} {buffer}"
  | .reduction r =>
    s!"    REDUCE #{r.rule} {r.lhs} [{r.span.start}..{r.span.stop}] (" ++
      String.intercalate ", " (r.captures.map Value.debug) ++ ") -> " ++ r.value.debug
  | .parseEnd (some value) _ _ => s!"=== PARSE {parse} END (ACCEPTED " ++ value.display ++ ") ==="
  | .parseEnd none unmatched buffer =>
    let place := match unmatched with
      | some span => s!" at {span.start}..{span.stop}"
      | none => ""
    s!"=== PARSE {parse} END (STUCK{place}) {buffer} ==="
  | .parseAbort message => s!"=== PARSE {parse} ABORTED: {message} ==="

namespace HumanFormat

def line (f : HumanFormat) (r : Record) : String :=
  let id := if f.showIds then "[" ++ String.ofList (paddedDigits 6 r.id) ++ "] " else ""
  let parse := "P" ++ String.ofList (paddedDigits 4 r.parse) ++ " "
  let time := if f.showTimestamps then alignRight 10 (timeText r.timestamp) ++ " " else ""
  id ++ parse ++ time ++ r.event.describe r.parse

def lines (f : HumanFormat) (rs : List Record) : String :=
  String.intercalate "\n" (rs.map f.line)

end HumanFormat

end ReductionGrammar.Trace
