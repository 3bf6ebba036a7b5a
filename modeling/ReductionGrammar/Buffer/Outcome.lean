import ReductionGrammar.Buffer.Basic

/-!
# Outcomes

A parse is accepted if its final buffer is a single entry reduced to the start symbol. Otherwise
it is stuck, and the first entries that are not the start symbol show where.
-/

namespace ReductionGrammar

inductive Outcome where
  | accepted (value : Value)
  | stuck (buffer : Buffer) (unmatched : Span)
deriving DecidableEq

namespace Outcome

/-- The first entries in a row that are not reduced to `start`; if there are none, all entries but
the first. -/
def unmatched (start : String) (es : List Entry) : Span :=
  let before := es.takeWhile (·.isReducedTo start)
  match es.dropWhile (·.isReducedTo start) with
  | [] => ⟨min 1 es.length, es.length⟩
  | e :: rest =>
    let run := e :: rest.takeWhile (!·.isReducedTo start)
    ⟨before.length, before.length + run.length⟩

def ofBuffer (start : String) (b : Buffer) : Outcome :=
  match b.entries with
  | [.reduced symbol value] =>
    if symbol = start then .accepted value else .stuck b (unmatched start b.entries)
  | es => .stuck b (unmatched start es)

def isAccepted : Outcome → Bool
  | accepted _ => true
  | stuck .. => false

def value? : Outcome → Option Value
  | accepted value => some value
  | stuck .. => none

def unmatched? : Outcome → Option Span
  | accepted _ => none
  | stuck _ unmatched => some unmatched

def display : Outcome → String
  | accepted value => "accepted: " ++ value.display
  | stuck buffer unmatched => s!"stuck at {unmatched.start}..{unmatched.stop}: " ++ buffer.display

end Outcome

end ReductionGrammar
