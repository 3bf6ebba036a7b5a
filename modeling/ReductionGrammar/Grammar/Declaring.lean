import ReductionGrammar.Grammar.Basic

/-!
# Declaring rules

A grammar comes about by calls that declare rules, one after the other; a call that fails leaves the
grammar as it is. The rules may also be counted: then each keeps the ordinal that it was given, and
the next ordinal is kept beside them in a word of 32 bits, instead of being told from their number.
-/

namespace ReductionGrammar

/-- What a caller gives to declare a rule. -/
structure Proposal where
  lhs : String
  pattern : String
  action : Action

namespace Grammar

/-- The grammar after a call that declares a rule, and what the call returns. -/
def call (g : Grammar) (c : Proposal) : Grammar × Except Diagnostic Unit :=
  match g.define c.lhs c.pattern c.action with
  | .ok defined => (defined, .ok ())
  | .error diagnostic => (g, .error diagnostic)

def afterCalls (g : Grammar) (cs : List Proposal) : Grammar :=
  cs.foldl (fun g c => (g.call c).1) g

/-- The calls, each with what it returns. -/
def history (g : Grammar) : List Proposal → List (Proposal × Except Diagnostic Unit)
  | [] => []
  | c :: cs => (c, (g.call c).2) :: (g.call c).1.history cs

/-- Rules that keep the ordinals they were given, and a word of 32 bits with the next ordinal. -/
structure Counted where
  start : String
  rules : List Rule
  next : UInt32

namespace Counted

def ofStart (start : String) : Counted :=
  ⟨start, [], 1⟩

def call (r : Counted) (c : Proposal) : Counted × Except Diagnostic Unit :=
  match Pattern.read c.pattern r.next.toNat with
  | .ok pattern =>
    ({ r with
        rules := r.rules ++ [⟨⟨c.lhs, pattern, c.action⟩, r.next.toNat⟩]
        next := r.next + 1 },
      .ok ())
  | .error fault => (r, .error ⟨fault, some ⟨some c.lhs, fault.offset?⟩⟩)

/-- The rules after the calls, and the calls, each with what it returns. -/
def calls (r : Counted) : List Proposal → Counted × List (Proposal × Except Diagnostic Unit)
  | [] => (r, [])
  | c :: cs =>
    let rest := (r.call c).1.calls cs
    (rest.1, (c, (r.call c).2) :: rest.2)

end Counted

def counted (g : Grammar) : Counted :=
  ⟨g.start, g.rules, .ofNat g.nextOrdinal⟩

end Grammar

end ReductionGrammar
