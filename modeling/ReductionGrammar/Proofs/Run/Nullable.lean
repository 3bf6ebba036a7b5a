import ReductionGrammar.Proofs.Run.Derivation
import ReductionGrammar.Proofs.Run.History
import ReductionGrammar.Proofs.Run.Selection

/-!
# Nullable rules

A rule all of whose tokens may take nothing matches wherever it is tried. As every reduction leaves
an entry in the buffer, a parser with such a rule never comes to an end on an input that is not
empty: it is always stopped. Without such rules no reduction is of an empty span, so that buffers
never grow.
-/

namespace ReductionGrammar

/-! ### Matching nothing -/

theorem Token.isSome_block? {t : Token} (h : t.repetition.allowsZero = true) (es : List Entry) :
    (t.block? es).isSome := by
  have hcount : t.repetition.accepts (t.block es).length = true := by
    cases hr : t.repetition with
    | once => simp [hr, Repetition.allowsZero] at h
    | oneOrMore => simp [hr, Repetition.allowsZero] at h
    | zeroOrMore => rfl
    | zeroOrOne =>
      cases es with
      | nil => rfl
      | cons e rest =>
        by_cases ha : t.atom.accepts e = true
        · simp [Token.block, ha, hr, Repetition.allowsMany, Repetition.accepts]
        · simp [Token.block, ha, Repetition.accepts]
  unfold Token.block?
  simp [hcount]

theorem isSome_blocks? {tokens : List Token} (h : ∀ t ∈ tokens, t.repetition.allowsZero = true)
    (es : List Entry) : (blocks? tokens es).isSome := by
  induction tokens generalizing es with
  | nil => rfl
  | cons t ts ih =>
    obtain ⟨ht, hts⟩ := List.forall_mem_cons.1 h
    obtain ⟨taken, htaken⟩ := Option.isSome_iff_exists.1 (Token.isSome_block? ht es)
    unfold blocks?
    simpa [htaken] using ih hts (es.drop taken.length)

theorem Pattern.isNullable_iff {p : Pattern} :
    p.isNullable = true ↔ ∀ t ∈ p.tokens, t.repetition.allowsZero = true :=
  List.all_eq_true

theorem Pattern.isSome_at? {p : Pattern} (h : p.isNullable = true) (es : List Entry) (i : Nat) :
    (Match.at? p.tokens es i).isSome := by
  unfold Match.at? Match.here?
  rw [Option.isSome_map]
  exact isSome_blocks? (isNullable_iff.1 h) _

theorem Rule.matches_of_isNullable {rule : Rule} (h : rule.pattern.isNullable = true) {b : Buffer}
    (hb : b.entries ≠ []) : rule.Matches b := by
  obtain ⟨m, hm⟩ := Option.isSome_iff_exists.1 (Pattern.isSome_at? h b.entries 0)
  exact ⟨0, m, List.length_pos_iff.2 hb, hm⟩

theorem Parser.mem_nullableRules {p : Parser} {rule : Rule} :
    rule ∈ p.nullableRules ↔ rule ∈ p.grammar.rules ∧ rule.pattern.isNullable = true :=
  List.mem_filter

/-! ### Runs with a nullable rule -/

theorem entries_ne_nil_kept (rules : List Rule) : KeptBySteps rules (·.entries ≠ []) := by
  intro b redex settings inputSize pass r _ _ _
  simp [Reduction.applyTo, Buffer.splice]

theorem RunFrom.exists_error {rules : List Rule} {settings : Settings}
    {inputSize left pass : Nat} {b : Buffer} {log : List Reduction} {result : Except Fault Buffer}
    (h : RunFrom rules settings inputSize left pass b log result) {rule : Rule}
    (hrule : rule ∈ rules) (hnullable : rule.pattern.isNullable = true) (hb : b.entries ≠ []) :
    ∃ fault, result = .error fault := by
  induction h with
  | done hselect =>
    exact absurd (Rule.matches_of_isNullable hnullable hb)
      (Redex.select?_eq_none_iff.1 hselect rule hrule)
  | exhausted => exact ⟨_, rfl⟩
  | refused => exact ⟨_, rfl⟩
  | step hselect hreduction rest ih =>
    exact ih (entries_ne_nil_kept rules _ _ _ _ _ _ hselect hreduction hb)

/-! ### Runs without nullable rules -/

theorem Redex.span_of_not_isNullable {rules : List Rule} {b : Buffer} {redex : Redex}
    (hselect : select? rules b = some redex) (h : ∀ rule ∈ rules, rule.pattern.isNullable = false) :
    redex.found.span.start < redex.found.span.stop := by
  obtain ⟨before, found, after, -, hspan, hsplits, -⟩ := exists_splice hselect
  cases found with
  | nil =>
    have hnullable := Pattern.isNullable_iff.2 hsplits.allowsZero_of_nil
    rw [h redex.rule (of_select? hselect).1] at hnullable
    cases hnullable
  | cons e rest => simp [hspan]

theorem size_le_kept {rules : List Rule} (h : ∀ rule ∈ rules, rule.pattern.isNullable = false)
    (n : Nat) : KeptBySteps rules (·.size ≤ n) := by
  intro b redex settings inputSize pass r hselect hreduction hb
  have hlt := Redex.span_of_not_isNullable hselect h
  have hsize := Redex.size_applyTo hselect hreduction
  unfold Span.size at hsize
  omega

section NotNullable

variable {rules : List Rule} {settings : Settings} {inputSize left pass : Nat} {b : Buffer}
  {log : List Reduction} {result : Except Fault Buffer}

theorem RunFrom.spans_of_not_isNullable
    (h : RunFrom rules settings inputSize left pass b log result)
    (hrules : ∀ rule ∈ rules, rule.pattern.isNullable = false) :
    ∀ r ∈ log, r.span.start < r.span.stop := by
  induction h with
  | done | exhausted | refused => simp
  | step hselect hreduction rest ih =>
    obtain ⟨value, -, rfl⟩ := Redex.of_reduction hreduction
    exact List.forall_mem_cons.2 ⟨Redex.span_of_not_isNullable hselect hrules, ih⟩

theorem RunFrom.sizes_of_not_isNullable
    (h : RunFrom rules settings inputSize left pass b log result)
    (hrules : ∀ rule ∈ rules, rule.pattern.isNullable = false) :
    (log.scanl (fun b r => r.applyTo b) b).Pairwise
      fun before after => after.size ≤ before.size := by
  induction h with
  | done | exhausted | refused => simp
  | @step left pass b redex r log result hselect hreduction rest ih =>
    have hkept := size_le_kept hrules b.size
    have hle := hkept _ _ _ _ _ _ hselect hreduction (Nat.le_refl _)
    rw [List.scanl_cons]
    exact List.pairwise_cons.2 ⟨rest.keeps hkept hle, ih⟩

theorem RunFrom.ne_growth (h : RunFrom rules settings inputSize left pass b log result)
    (hrules : ∀ rule ∈ rules, rule.pattern.isNullable = false) (limit : Nat) :
    result ≠ .error (.limitExceeded (.growth limit)) := by
  induction h with
  | done | exhausted => simp
  | refused hselect hreduction =>
    rcases Redex.reduction_eq_error_iff.1 hreduction with ⟨hfull, -⟩ | ⟨-, cause, -, rfl⟩
    · have hlt := Redex.span_of_not_isNullable hselect hrules
      refine absurd (fun hsize => ?_) hfull
      unfold Span.size at hsize
      omega
    · simp
  | step hselect hreduction rest ih => exact ih

end NotNullable

theorem Parser.isNullable_of_nullableRules {p : Parser} (h : p.nullableRules = []) :
    ∀ rule ∈ p.rules, rule.pattern.isNullable = false := by
  intro rule hrule
  exact Bool.eq_false_iff.2 (List.filter_eq_nil_iff.1 h rule (mem_rules.1 hrule))

/-- With a nullable rule a run on an input that is not empty has no end of its own; without one
buffers do not grow; and on the empty input nothing is reduced. -/
theorem Parser.nullable_dichotomy (p : Parser) :
    (p.nullableRules ≠ [] → ∀ input, input ≠ "" →
      (∀ rule ∈ p.nullableRules, ∀ b : Buffer, ∀ i ≤ b.size,
        (Match.at? rule.pattern.tokens b.entries i).isSome) ∧
      (∀ b ∈ p.buffers input, b.entries ≠ []) ∧
      ∃ fault, p.reduce input = .error fault ∧ p.parse input = .error fault ∧
        (fault = .limitExceeded (.reductions p.settings.maxReductions) ∨
          fault = .limitExceeded (.growth p.settings.maxGrowth) ∨
          ∃ rule message, fault = .actionFailed rule message)) ∧
    (p.nullableRules = [] → ∀ input,
      (∀ r ∈ p.reductions input, r.span.start < r.span.stop) ∧
      (p.buffers input).Pairwise (fun before after => after.size ≤ before.size) ∧
      ∀ limit, p.reduce input ≠ .error (.limitExceeded (.growth limit)) ∧
        p.parse input ≠ .error (.limitExceeded (.growth limit))) ∧
    p.reductions "" = [] ∧ p.reduce "" = .ok ⟨[]⟩ ∧ p.parse "" = .ok (.stuck ⟨[]⟩ ⟨0, 0⟩) := by
  refine ⟨fun hsome input hinput => ?_, fun hnone input => ?_, ?_⟩
  · obtain ⟨log, result, hruns⟩ := p.exists_runs input
    have hentries : (Buffer.ofInput input).entries ≠ [] := by simpa [Buffer.ofInput] using hinput
    obtain ⟨rule, hrule⟩ := List.exists_mem_of_ne_nil _ hsome
    obtain ⟨hmem, hnullable⟩ := mem_nullableRules.1 hrule
    obtain ⟨fault, rfl⟩ := hruns.exists_error (mem_rules.2 hmem) hnullable hentries
    refine ⟨fun other hother b i _ => ?_, ?_, fault, hruns.reduce_eq, hruns.parse_eq,
      hruns.fault_cases⟩
    · exact Pattern.isSome_at? (mem_nullableRules.1 hother).2 b.entries i
    · rw [hruns.buffers_eq]
      exact hruns.keeps (entries_ne_nil_kept p.rules) hentries
  · obtain ⟨log, result, hruns⟩ := p.exists_runs input
    have hrules := isNullable_of_nullableRules hnone
    rw [hruns.reductions_eq, hruns.buffers_eq, hruns.reduce_eq, hruns.parse_eq]
    refine ⟨hruns.spans_of_not_isNullable hrules, hruns.sizes_of_not_isNullable hrules, ?_⟩
    intro limit
    have hne := hruns.ne_growth hrules limit
    refine ⟨hne, ?_⟩
    cases result with
    | ok b => simp [Except.map]
    | error fault => simpa [Except.map] using hne
  · have hnone : Redex.select? p.rules (.ofInput "") = none := by
      rw [Redex.select?_eq_none_iff]
      rintro rule - ⟨i, m, hi, -⟩
      exact Nat.not_lt_zero i hi
    have hruns : p.Runs "" [] (.ok (.ofInput "")) := .done hnone
    exact ⟨hruns.reductions_eq, hruns.reduce_eq, hruns.parse_eq⟩

/-- A rule that matches no entries, beside one that uses its symbol. -/
def starParser : Parser where
  grammar := ⟨"A", [
    ⟨"A", ⟨"(A) 'y'", [⟨.name "A", .once, true⟩, ⟨.char 'y', .once, false⟩]⟩, Action.first⟩,
    ⟨"A", ⟨"'x'*", [⟨.char 'x', .zeroOrMore, false⟩]⟩, Action.const .nil⟩]⟩
  settings := { maxReductions := 20 }
  valid := by decide

theorem Parser.nullable_dichotomy_star :
    starParser.nullableRules ≠ [] ∧
      (∃ fault, starParser.reduce "q" = .error fault ∧ starParser.parse "q" = .error fault) ∧
      sumParser.nullableRules = [] ∧
      (sumParser.buffers "12+3").Pairwise (fun before after => after.size ≤ before.size) := by
  have hsome : starParser.nullableRules ≠ [] := List.ne_nil_of_length_pos (by decide +kernel)
  have hnone : sumParser.nullableRules = [] := List.eq_nil_of_length_eq_zero (by decide +kernel)
  obtain ⟨-, -, fault, hreduce, hparse, -⟩ :=
    (Parser.nullable_dichotomy starParser).1 hsome "q" (by decide)
  exact ⟨hsome, ⟨fault, hreduce, hparse⟩, hnone,
    ((Parser.nullable_dichotomy sumParser).2.1 hnone "12+3").2.1⟩

end ReductionGrammar
