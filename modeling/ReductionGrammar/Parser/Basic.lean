import ReductionGrammar.Buffer.Matching
import ReductionGrammar.Grammar.Basic
import ReductionGrammar.Parser.Notice
import ReductionGrammar.Parser.Settings

/-!
# Parsers

A parser reduces the characters of its input until no rule matches any more. In every pass the
rules are tried in the order of their priority; the first one that matches anywhere is applied
where it matches leftmost, and the next pass begins.

A run ends with the buffer that no rule matches, or with a fault: an action fails, more reductions
are needed than are allowed, or a reduction of no entries would let the buffer grow too far.
-/

namespace ReductionGrammar

structure Redex where
  rule : Rule
  found : Match

/-- The first of the rules that matches anywhere, where it matches leftmost. -/
def Redex.select? : List Rule → Buffer → Option Redex
  | [], _ => none
  | rule :: rest, b =>
    match Match.find? rule.pattern.tokens b.entries with
    | some found => some ⟨rule, found⟩
    | none => select? rest b

/-- The reduction that a redex calls for, if the buffer may be reduced there: only a redex without
entries makes it grow. -/
def Redex.reduction (r : Redex) (settings : Settings) (inputSize pass : Nat) (b : Buffer) :
    Except Fault Reduction :=
  if r.found.span.size == 0 && settings.maxSize inputSize ≤ b.size then
    .error (.limitExceeded (.growth settings.maxGrowth))
  else
    match r.rule.apply r.found.captures with
    | .error fault => .error fault
    | .ok value => .ok
        { pass, rule := r.rule.ordinal, lhs := r.rule.lhs, span := r.found.span
          captures := r.found.captures, value }

/-- Runs passes until one finds no redex. `left` reductions are still allowed. The observer `tell`
is told of passes and reductions; its state is handed on. -/
def runPasses {σ : Type} (rules : List Rule) (settings : Settings) (inputSize : Nat)
    (tell : σ → Notice → σ) (left pass : Nat) (b : Buffer) (s : σ) : σ × Except Fault Buffer :=
  let s := tell s (.pass pass b)
  match Redex.select? rules b with
  | none => (s, .ok b)
  | some redex =>
    match left with
    | 0 => (s, .error (.limitExceeded (.reductions settings.maxReductions)))
    | left + 1 =>
      match redex.reduction settings inputSize pass b with
      | .error fault => (s, .error fault)
      | .ok r =>
        runPasses rules settings inputSize tell left (pass + 1) (r.applyTo b) (tell s (.reduced r))

/-- A grammar whose symbols fit together, and settings. -/
structure Parser where
  grammar : Grammar
  settings : Settings
  valid : grammar.validate = .ok ()

namespace Parser

def ofGrammar (g : Grammar) (settings : Settings) : Except Fault Parser :=
  match h : g.validate with
  | .ok () => .ok ⟨g, settings, h⟩
  | .error fault => .error fault

def rules (p : Parser) : List Rule :=
  p.settings.priority.arrange p.grammar.rules

/-- The rules that match no entries, in the order of their declaration. -/
def nullableRules (p : Parser) : List Rule :=
  p.grammar.rules.filter (·.pattern.isNullable)

def run {σ : Type} (p : Parser) (input : String) (tell : σ → Notice → σ) (s : σ) :
    σ × Except Fault Buffer :=
  runPasses p.rules p.settings input.length tell p.settings.maxReductions 1 (.ofInput input) s

def reduce (p : Parser) (input : String) : Except Fault Buffer :=
  (p.run input (fun () _ => ()) ()).2

def observe {σ : Type} (p : Parser) (input : String) (tell : σ → Notice → σ) (s : σ) :
    σ × Except Fault Outcome :=
  match p.run input tell (tell s (.started input)) with
  | (s, .ok b) =>
    let outcome := Outcome.ofBuffer p.grammar.start b
    (tell s (.ended outcome), .ok outcome)
  | (s, .error fault) => (tell s (.aborted fault), .error fault)

def parse (p : Parser) (input : String) : Except Fault Outcome :=
  (p.observe input (fun () _ => ()) ()).2

end Parser

end ReductionGrammar
