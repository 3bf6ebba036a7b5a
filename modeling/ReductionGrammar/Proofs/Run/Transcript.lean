import ReductionGrammar.Proofs.Grammar.Registry
import ReductionGrammar.Proofs.Run.History
import ReductionGrammar.Proofs.Run.Selection

/-!
# What an observer is told

An observer of a parse is told all that is needed to make it again by hand: the buffer of every
pass, and of every reduction the rule, the span, the captures and the value. Each buffer is the one
before it after the reduction told between them, every reduction can be checked against the grammar,
and the last call tells what the parse returns.
-/

namespace ReductionGrammar

/-- The rule named by the reduction matches the buffer with this span and these captures, and its
action makes the value of them. -/
def Reduction.Justified (r : Reduction) (g : Grammar) (b : Buffer) : Prop :=
  ∃ rule, g.rule? r.rule = some rule ∧ rule.lhs = r.lhs ∧
    rule.MatchesAt b r.span.start ⟨r.span, r.captures⟩ ∧ rule.action r.captures = .ok r.value

structure Account where
  reductions : List Reduction
  /-- The buffer after so many reductions. -/
  buffer : Nat → Buffer
  result : Except Fault Outcome

namespace Account

/-- The buffer with which the last pass begins. -/
def last (a : Account) : Buffer :=
  a.buffer a.reductions.length

def ending (a : Account) : Notice :=
  match a.result with
  | .ok outcome => .ended outcome
  | .error fault => .aborted fault

/-- The calls that tell of the account: of each pass, with its reduction if there is one, between
the beginning and the end of the parse. -/
def notices (a : Account) (input : String) : List Notice :=
  .started input ::
      (a.reductions.mapIdx fun i r => [.pass (i + 1) (a.buffer i), .reduced r]).flatten ++
    [.pass (a.reductions.length + 1) a.last, a.ending]

end Account

/-! ### One reduction -/

theorem Redex.justified {p : Parser} {b : Buffer} {redex : Redex} {settings : Settings}
    {inputSize pass : Nat} {r : Reduction} (hselect : Redex.select? p.rules b = some redex)
    (hreduction : redex.reduction settings inputSize pass b = .ok r) :
    r.pass = pass ∧ r.Justified p.grammar b ∧
      b.Replaced r.span (.reduced r.lhs r.value) (r.applyTo b) := by
  have hselected := Redex.selected_iff.2 hselect
  obtain ⟨value, haction, rfl⟩ := Redex.of_reduction hreduction
  have hrule := Grammar.rule?_ordinal hselected.declared
  exact ⟨rfl, ⟨redex.rule, hrule, rfl, hselected.matchesAt, haction⟩, Redex.replaced hselect _⟩

/-! ### All reductions -/

def Buffer.afterAll (b : Buffer) (log : List Reduction) : Buffer :=
  log.foldl (fun b r => r.applyTo b) b

section RunFrom

variable {p : Parser} {settings : Settings} {inputSize left pass : Nat} {b : Buffer}
  {log : List Reduction} {result : Except Fault Buffer}

theorem RunFrom.justified (h : RunFrom p.rules settings inputSize left pass b log result) {i : Nat}
    {r : Reduction} (hr : log[i]? = some r) :
    r.pass = pass + i ∧ r.Justified p.grammar (b.afterAll (log.take i)) ∧
      (b.afterAll (log.take i)).Replaced r.span (.reduced r.lhs r.value)
        (b.afterAll (log.take (i + 1))) := by
  induction h generalizing i with
  | done | exhausted | refused => simp at hr
  | @step left pass b redex first log result hselect hreduction rest ih =>
    cases i with
    | zero =>
      cases hr
      exact Redex.justified hselect hreduction
    | succ i =>
      obtain ⟨hpass, hrest⟩ := ih hr
      exact ⟨by omega, hrest⟩

end RunFrom

namespace Parser

end Parser

end ReductionGrammar
