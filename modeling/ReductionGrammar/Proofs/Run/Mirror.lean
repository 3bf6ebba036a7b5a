import ReductionGrammar.Proofs.Grammar.Validation
import ReductionGrammar.Proofs.Run.Transcript

/-!
# Declarations in the opposite order

Rules are tried from the last declaration to the first or the other way round. The two ways differ
in nothing but the direction: if the declarations are turned around as well, every run makes the
same reductions of the same entries, told with ordinals that are counted from the other end, and
ends in the same way.
-/

namespace ReductionGrammar

/-- The ordinal counted from the other end of so many declarations. -/
def mirroredOrdinal (count ordinal : Nat) : Nat :=
  count + 1 - ordinal

def Rule.mirrored (count : Nat) (rule : Rule) : Rule :=
  { rule with ordinal := mirroredOrdinal count rule.ordinal }

def Reduction.mirrored (count : Nat) (r : Reduction) : Reduction :=
  { r with rule := mirroredOrdinal count r.rule }

def Fault.mirrored (count : Nat) : Fault → Fault
  | actionFailed rule message => actionFailed (mirroredOrdinal count rule) message
  | fault => fault

def Grammar.mirrored (g : Grammar) : Grammar :=
  { g with declarations := g.declarations.reverse }

/-! ### The rules -/

theorem Grammar.ofCalls_reverse (start : String) (cs : List Proposal) :
    ofCalls start cs.reverse = (ofCalls start cs).mirrored := by
  simp only [ofCalls_eq, mirrored, List.filterMap_reverse]

theorem Grammar.rules_mirrored (g : Grammar) :
    g.mirrored.rules = (g.rules.map (Rule.mirrored g.size)).reverse := by
  refine List.ext_getElem (by simp [rules, mirrored]) fun i hi hi' => ?_
  have hsize : i < g.size := by simpa [rules, mirrored, size] using hi
  unfold size at hsize
  have hordinal : mirroredOrdinal g.size (g.declarations.length - 1 - i + 1) = i + 1 := by
    unfold mirroredOrdinal size
    omega
  have hplace : g.declarations.length - 1 - (g.declarations.length - 1 - i) = i := by omega
  simp [rules, mirrored, Rule.mirrored, hordinal, hplace]

/-! ### One step -/

section Step

variable (count : Nat)

theorem Redex.select?_mirrored (rules : List Rule) (b : Buffer) :
    select? (rules.map (Rule.mirrored count)) b =
      (select? rules b).map fun redex => ⟨redex.rule.mirrored count, redex.found⟩ := by
  induction rules with
  | nil => rfl
  | cons rule rest ih =>
    have htokens : (rule.mirrored count).pattern.tokens = rule.pattern.tokens := rfl
    rw [List.map_cons]
    unfold select?
    rw [htokens, ih]
    cases Match.find? rule.pattern.tokens b.entries <;> rfl

theorem Rule.apply_mirrored (rule : Rule) (captures : List Value) :
    (rule.mirrored count).apply captures =
      (rule.apply captures).mapError (Fault.mirrored count) := by
  unfold apply Rule.mirrored
  cases rule.action captures <;> rfl

theorem Redex.reduction_mirrored (redex : Redex) (settings : Settings) (priority : Priority)
    (inputSize pass : Nat) (b : Buffer) :
    (Redex.mk (redex.rule.mirrored count) redex.found).reduction { settings with priority }
        inputSize pass b =
      ((redex.reduction settings inputSize pass b).map (Reduction.mirrored count)).mapError
        (Fault.mirrored count) := by
  by_cases hfits : redex.Fits settings inputSize b
  · have hfits' : (Redex.mk (redex.rule.mirrored count) redex.found).Fits
        { settings with priority } inputSize b := hfits
    rw [reduction_of_fits hfits, reduction_of_fits hfits', Rule.apply_mirrored]
    cases redex.rule.apply redex.found.captures <;> rfl
  · have hfits' : ¬(Redex.mk (redex.rule.mirrored count) redex.found).Fits
        { settings with priority } inputSize b := hfits
    rw [reduction_of_not_fits hfits, reduction_of_not_fits hfits']
    rfl

end Step

/-! ### A whole run -/

section RunFrom

variable {settings : Settings} {inputSize left pass : Nat} {b : Buffer} {log : List Reduction}
  {result : Except Fault Buffer}

theorem RunFrom.mirrored {rules : List Rule}
    (h : RunFrom rules settings inputSize left pass b log result) (count : Nat)
    (priority : Priority) :
    RunFrom (rules.map (Rule.mirrored count)) { settings with priority } inputSize left pass b
      (log.map (Reduction.mirrored count)) (result.mapError (Fault.mirrored count)) := by
  induction h with
  | @done left pass b hselect =>
    have hselect' := Redex.select?_mirrored count rules b
    rw [hselect] at hselect'
    exact .done hselect'
  | @exhausted pass b redex hselect =>
    have hselect' := Redex.select?_mirrored count rules b
    rw [hselect] at hselect'
    exact .exhausted hselect'
  | @refused left pass b redex fault hselect hreduction =>
    have hselect' := Redex.select?_mirrored count rules b
    have hreduction' := redex.reduction_mirrored count settings priority inputSize pass b
    rw [hselect] at hselect'
    rw [hreduction] at hreduction'
    exact .refused hselect' hreduction'
  | @step left pass b redex r log result hselect hreduction rest ih =>
    have hselect' := Redex.select?_mirrored count rules b
    have hreduction' := redex.reduction_mirrored count settings priority inputSize pass b
    rw [hselect] at hselect'
    rw [hreduction] at hreduction'
    exact .step hselect' hreduction' ih

/-- Reductions name rules that there are. -/
theorem RunFrom.rule_le {p : Parser} (h : RunFrom p.rules settings inputSize left pass b log result)
    {r : Reduction} (hr : r ∈ log) : 1 ≤ r.rule ∧ r.rule ≤ p.grammar.size := by
  obtain ⟨i, hi⟩ := List.mem_iff_getElem?.1 hr
  obtain ⟨-, ⟨rule, hrule, -⟩, -⟩ := h.justified hi
  rw [Grammar.rule?_eq, Grammar.length_rules] at hrule
  by_contra hout
  rw [if_neg hout] at hrule
  cases hrule

end RunFrom

namespace Parser

/-- The parser that tries the opposite declarations in the opposite order. -/
theorem Runs.mirrored {p q : Parser} {input : String} {log : List Reduction}
    {result : Except Fault Buffer} (h : p.Runs input log result)
    (hgrammar : q.grammar = p.grammar.mirrored) (hpriority : p.settings.priority = .lastFirst)
    (hsettings : q.settings = { p.settings with priority := .declared }) :
    q.Runs input (log.map (Reduction.mirrored p.grammar.size))
      (result.mapError (Fault.mirrored p.grammar.size)) := by
  have hrules : q.rules = p.rules.map (Rule.mirrored p.grammar.size) := by
    unfold rules
    rw [hgrammar, hsettings, hpriority, Grammar.rules_mirrored, ← List.map_reverse]
    rfl
  have hrun := RunFrom.mirrored h p.grammar.size .declared
  unfold Runs
  rw [hrules, hsettings]
  exact hrun

/-- Declarations that make a valid grammar also make one in the opposite order; and if they are then
tried in the order of their declaration, and not from the last one on, every input is parsed to the
same outcome or the same fault by the same reductions, with ordinals counted from the other end. -/
theorem priorities_mirrored (start : String) (cs : List Proposal) (p : Parser)
    (hgrammar : p.grammar = .ofCalls start cs) (hpriority : p.settings.priority = .lastFirst) :
    ∃ q : Parser, q.grammar = .ofCalls start cs.reverse ∧
      q.settings = { p.settings with priority := .declared } ∧
      ∀ input,
        q.reductions input = (p.reductions input).map (Reduction.mirrored p.grammar.size) ∧
        (∀ r ∈ p.reductions input, 1 ≤ r.rule ∧ r.rule ≤ p.grammar.size) ∧
        q.reduce input = (p.reduce input).mapError (Fault.mirrored p.grammar.size) ∧
        q.parse input = (p.parse input).mapError (Fault.mirrored p.grammar.size) := by
  have hvalid : (Grammar.ofCalls start cs.reverse).validate = .ok () :=
    Grammar.validate_ofCalls_perm cs.reverse_perm.symm (hgrammar ▸ p.valid)
  refine ⟨⟨.ofCalls start cs.reverse, { p.settings with priority := .declared }, hvalid⟩, rfl, rfl,
    fun input => ?_⟩
  obtain ⟨log, result, hp⟩ := p.exists_runs input
  have hmirrored : Grammar.ofCalls start cs.reverse = p.grammar.mirrored := by
    rw [hgrammar, Grammar.ofCalls_reverse]
  have hq := hp.mirrored (q := ⟨.ofCalls start cs.reverse, _, hvalid⟩) hmirrored hpriority rfl
  rw [hp.reductions_eq, hq.reductions_eq, hp.reduce_eq, hq.reduce_eq, hp.parse_eq, hq.parse_eq]
  have hstart : (Grammar.ofCalls start cs.reverse).start = p.grammar.start := by
    rw [hmirrored]
    rfl
  refine ⟨rfl, fun r => RunFrom.rule_le hp, rfl, ?_⟩
  show (result.mapError _).map (Outcome.ofBuffer (Grammar.ofCalls start cs.reverse).start) = _
  rw [hstart]
  cases result <;> rfl

def sumCalls : List Proposal :=
  [⟨"Sum", "(Sum) '+' (Sum)", Action.sum⟩, ⟨"Sum", "(Num)", Action.first⟩,
    ⟨"Num", "('[0-9]'+)", Action.number⟩]

def calledSumParser : Parser where
  grammar := .ofCalls "Sum" sumCalls
  settings := { maxReductions := 10 }
  valid := by decide +kernel

/-- The rule of the number whose action fails is the last of three, and then the first. -/
theorem priorities_mirrored_sum :
    ∃ q : Parser, q.grammar = .ofCalls "Sum" sumCalls.reverse ∧
      q.settings = { priority := .declared, maxReductions := 10 } ∧
      q.parse "12+3" = .ok (.accepted (.int 15)) ∧
      (q.reductions "12+3").map (·.rule) = [1, 1, 2, 2, 3] ∧
      q.parse "9223372036854775808" =
        .error (.actionFailed 1 "invalid number: \"9223372036854775808\"") := by
  obtain ⟨q, hgrammar, hsettings, hmirrored⟩ :=
    priorities_mirrored "Sum" sumCalls calledSumParser rfl rfl
  obtain ⟨hreductions, -, -, hparse⟩ := hmirrored "12+3"
  obtain ⟨-, -, -, hfailed⟩ := hmirrored "9223372036854775808"
  refine ⟨q, hgrammar, hsettings, ?_, ?_, ?_⟩
  · rw [hparse]
    decide +kernel
  · rw [hreductions]
    decide +kernel
  · rw [hfailed]
    decide +kernel

end Parser

end ReductionGrammar
