import Mathlib.Algebra.GroupWithZero.Nat
import Mathlib.Data.Finset.Card
import Mathlib.Data.Finset.Dedup
import Mathlib.Logic.Relation
import ReductionGrammar.Proofs.Run.Nullable

/-!
# Runs that end by themselves

A reduction of a single entry does not make the buffer shorter, but it moves the entry on along the
relation in which the grammar rewrites one symbol to another. If this relation has no cycle and no
rule is nullable, every entry carries a weight, less the further it has moved on, and every
reduction lessens the weight of the buffer. So a run on `n` characters makes at most `2 * n * N`
reductions, `N` being the number of symbols that rules reduce to.
-/

namespace ReductionGrammar

namespace Grammar

/-- The symbols that rules reduce to. -/
def symbols (g : Grammar) : Finset String :=
  (g.declarations.map (·.lhs)).toFinset

/-- Some rule can reduce a single entry reduced to `source` to `target`: it has a token for it, and
all its other tokens may take nothing. -/
def Rewrites (g : Grammar) (source target : String) : Prop :=
  ∃ rule ∈ g.rules, rule.lhs = target ∧
    ∃ before t after, rule.pattern.tokens = before ++ t :: after ∧ t.atom = .name source ∧
      ∀ other ∈ before ++ after, other.repetition.allowsZero = true

/-- No symbol is rewritten to itself, at once or by way of others. -/
def Acyclic (g : Grammar) : Prop :=
  ∀ s, ¬Relation.TransGen g.Rewrites s s

theorem Rewrites.exists_rule {g : Grammar} {source target : String} (h : g.Rewrites source target) :
    ∃ rule ∈ g.rules, rule.lhs = target ∧ source ∈ rule.pattern.symbols ∧
      rule.pattern.tokens.countP (!·.repetition.allowsZero) ≤ 1 := by
  obtain ⟨rule, hrule, hlhs, before, t, after, htokens, hatom, hzero⟩ := h
  have hsymbol : source ∈ rule.pattern.symbols := by
    refine List.mem_filterMap.2 ⟨t, ?_, by rw [hatom]; rfl⟩
    rw [htokens]
    exact List.mem_append_right _ (List.mem_cons_self ..)
  have hothers : (before ++ after).countP (!·.repetition.allowsZero) = 0 := by
    rw [List.countP_eq_zero]
    intro other hother
    simp [hzero other hother]
  refine ⟨rule, hrule, hlhs, hsymbol, ?_⟩
  rw [List.countP_append] at hothers
  rw [htokens, List.countP_append, List.countP_cons]
  split <;> omega

theorem lhs_mem_symbols {g : Grammar} {rule : Rule} (h : rule ∈ g.rules) :
    rule.lhs ∈ g.symbols := by
  obtain ⟨i, hi, rfl⟩ := List.mem_mapIdx.1 h
  exact List.mem_toFinset.2 (List.mem_map_of_mem (List.getElem_mem hi))

/-! ### How far an entry has moved on -/

open Classical in
/-- The symbols that are rewritten to `s`, with `s` itself. -/
noncomputable def sources (g : Grammar) (s : String) : Finset String :=
  g.symbols.filter fun t => Relation.ReflTransGen g.Rewrites t s

theorem mem_sources {g : Grammar} {s t : String} :
    t ∈ g.sources s ↔ t ∈ g.symbols ∧ Relation.ReflTransGen g.Rewrites t s := by
  simp only [sources, Finset.mem_filter]

noncomputable def rank (g : Grammar) (s : String) : Nat :=
  (g.sources s).card

theorem rank_le (g : Grammar) (s : String) : g.rank s ≤ g.symbols.card :=
  Finset.card_le_card fun _ ht => (mem_sources.1 ht).1

theorem rank_pos {g : Grammar} {s : String} (hs : s ∈ g.symbols) : 0 < g.rank s :=
  Finset.card_pos.2 ⟨s, mem_sources.2 ⟨hs, .refl⟩⟩

theorem rank_lt {g : Grammar} (hacyclic : g.Acyclic) {source target : String}
    (htarget : target ∈ g.symbols) (h : g.Rewrites source target) :
    g.rank source < g.rank target := by
  refine Finset.card_lt_card ⟨fun t ht => ?_, fun hsub => ?_⟩
  · obtain ⟨hmem, hreach⟩ := mem_sources.1 ht
    exact mem_sources.2 ⟨hmem, hreach.tail h⟩
  · have hback := mem_sources.1 (hsub (mem_sources.2 ⟨htarget, .refl⟩))
    exact hacyclic target (Relation.TransGen.tail' hback.2 h)

noncomputable def weight (g : Grammar) : Entry → Nat
  | .char _ => 2 * g.symbols.card
  | .reduced s _ => 2 * g.symbols.card - g.rank s

@[simp]
theorem weight_char (g : Grammar) (c : Char) : g.weight (.char c) = 2 * g.symbols.card :=
  rfl

@[simp]
theorem weight_reduced (g : Grammar) (s : String) (value : Value) :
    g.weight (.reduced s value) = 2 * g.symbols.card - g.rank s :=
  rfl

theorem le_weight (g : Grammar) (e : Entry) : g.symbols.card ≤ g.weight e := by
  cases e with
  | char c =>
    rw [weight_char]
    omega
  | reduced s value =>
    have hrank := g.rank_le s
    rw [weight_reduced]
    omega

noncomputable def weights (g : Grammar) (es : List Entry) : Nat :=
  (es.map g.weight).sum

@[simp]
theorem weights_append (g : Grammar) (es es' : List Entry) :
    g.weights (es ++ es') = g.weights es + g.weights es' := by
  simp [weights]

@[simp]
theorem weights_cons (g : Grammar) (e : Entry) (es : List Entry) :
    g.weights (e :: es) = g.weight e + g.weights es := by
  simp [weights]

theorem weights_ofInput (g : Grammar) (input : String) :
    g.weights (Buffer.ofInput input).entries = 2 * input.length * g.symbols.card := by
  have hmap : (Buffer.ofInput input).entries.map g.weight =
      List.replicate input.length (2 * g.symbols.card) := by
    rw [← String.length_toList]
    simp [Buffer.ofInput, Function.comp_def, List.map_const']
  unfold weights
  rw [hmap, List.sum_replicate_nat, Nat.mul_left_comm, Nat.mul_assoc]

theorem weight_lt_of_singleton {g : Grammar} (hacyclic : g.Acyclic) {rule : Rule}
    (hrule : rule ∈ g.rules) {e : Entry} {vs : List Value}
    (hsplits : Splits rule.pattern.tokens [e] vs) (value : Value) :
    g.weight (.reduced rule.lhs value) < g.weight e := by
  have hlhs := lhs_mem_symbols hrule
  have hpos := rank_pos hlhs
  have hle := g.rank_le rule.lhs
  cases e with
  | char c =>
    simp only [weight_char, weight_reduced]
    omega
  | reduced s v =>
    obtain ⟨before, t, after, htokens, haccepts, hzero⟩ := hsplits.exists_of_singleton
    have hatom : t.atom = .name s := by
      cases ha : t.atom with
      | char d => simp [ha, Atom.accepts, Atom.acceptsSymbol] at haccepts
      | charSet set => simp [ha, Atom.accepts, Atom.acceptsSymbol] at haccepts
      | name symbol =>
        simp only [ha, Atom.accepts, Atom.acceptsSymbol, beq_iff_eq] at haccepts
        rw [haccepts]
    have hlt := rank_lt hacyclic hlhs ⟨rule, hrule, rfl, before, t, after, htokens, hatom, hzero⟩
    simp only [weight_reduced]
    omega

end Grammar

namespace Parser

variable {p : Parser}

theorem weights_splice_lt (hnullable : p.nullableRules = []) (hacyclic : p.grammar.Acyclic)
    {b : Buffer} {redex : Redex} (hselect : Redex.select? p.rules b = some redex) (value : Value) :
    p.grammar.weights (b.splice redex.found.span (.reduced redex.rule.lhs value)).entries <
      p.grammar.weights b.entries := by
  have hrule : redex.rule ∈ p.grammar.rules := mem_rules.1 (Redex.of_select? hselect).1
  have hspan := Redex.span_of_not_isNullable hselect (isNullable_of_nullableRules hnullable)
  obtain ⟨before, found, after, hentries, hfound, hsplits, hsplice⟩ := Redex.exists_splice hselect
  have hweight : p.grammar.weight (.reduced redex.rule.lhs value) < p.grammar.weights found := by
    match found, hsplits with
    | [], _ => simp [hfound] at hspan
    | [e], hsplits =>
      have hlt := Grammar.weight_lt_of_singleton hacyclic hrule hsplits value
      simpa [Grammar.weights] using hlt
    | e :: e' :: rest, _ =>
      -- two entries weigh more than any one that is reduced
      have hpos := Grammar.rank_pos (Grammar.lhs_mem_symbols hrule)
      have hle := p.grammar.rank_le redex.rule.lhs
      have he := p.grammar.le_weight e
      have he' := p.grammar.le_weight e'
      simp only [Grammar.weights_cons, Grammar.weight_reduced]
      omega
  rw [hsplice, hentries]
  simp only [Grammar.weights_append, Grammar.weights_cons]
  omega

section RunFrom

variable {settings : Settings} {inputSize left pass : Nat} {b : Buffer} {log : List Reduction}
  {result : Except Fault Buffer}

theorem length_le_weights (hnullable : p.nullableRules = []) (hacyclic : p.grammar.Acyclic)
    (h : RunFrom p.rules settings inputSize left pass b log result) :
    log.length ≤ p.grammar.weights b.entries := by
  induction h with
  | done | exhausted | refused => exact Nat.zero_le _
  | step hselect hreduction rest ih =>
    obtain ⟨value, -, rfl⟩ := Redex.of_reduction hreduction
    have hlt := weights_splice_lt hnullable hacyclic hselect value
    exact Nat.succ_le_of_lt (Nat.lt_of_le_of_lt ih hlt)

theorem ne_reductions (hnullable : p.nullableRules = []) (hacyclic : p.grammar.Acyclic)
    (h : RunFrom p.rules settings inputSize left pass b log result)
    (hleft : p.grammar.weights b.entries ≤ left) (limit : Nat) :
    result ≠ .error (.limitExceeded (.reductions limit)) := by
  induction h with
  | done => simp
  | exhausted hselect =>
    have hlt := weights_splice_lt hnullable hacyclic hselect .nil
    omega
  | refused hselect hreduction =>
    rcases Redex.reduction_eq_error_iff.1 hreduction with ⟨-, rfl⟩ | ⟨-, cause, -, rfl⟩
    · simp
    · simp
  | step hselect hreduction rest ih =>
    obtain ⟨value, -, rfl⟩ := Redex.of_reduction hreduction
    have hlt := weights_splice_lt hnullable hacyclic hselect value
    exact ih (Nat.le_of_lt_succ (Nat.lt_of_lt_of_le hlt hleft))

end RunFrom

/-- Without nullable rules and without a cycle of rewriting, the number of reductions is bounded by
the length of the input and the number of symbols. A ceiling at this bound is never reached. -/
theorem reductions_bounded (p : Parser) (hnullable : p.nullableRules = [])
    (hacyclic : p.grammar.Acyclic) (input : String) :
    (p.reductions input).length ≤ 2 * input.length * p.grammar.symbols.card ∧
      (2 * input.length * p.grammar.symbols.card ≤ p.settings.maxReductions →
        (∀ ceiling, p.parse input ≠ .error (.limitExceeded ceiling)) ∧
          ((∃ outcome, p.parse input = .ok outcome) ∨
            ∃ rule message, p.parse input = .error (.actionFailed rule message))) := by
  obtain ⟨log, result, hruns⟩ := p.exists_runs input
  rw [hruns.reductions_eq, hruns.parse_eq, ← p.grammar.weights_ofInput]
  refine ⟨length_le_weights hnullable hacyclic hruns, fun hleft => ?_⟩
  have hreductions := ne_reductions hnullable hacyclic hruns hleft
  have hgrowth := hruns.ne_growth (isNullable_of_nullableRules hnullable)
  cases result with
  | ok b => exact ⟨by simp [Except.map], .inl ⟨_, rfl⟩⟩
  | error fault =>
    rcases hruns.fault_cases with rfl | rfl | ⟨rule, message, rfl⟩
    · exact absurd rfl (hreductions _)
    · exact absurd rfl (hgrowth _)
    · exact ⟨by simp [Except.map], .inr ⟨rule, message, rfl⟩⟩

def generousSumParser : Parser :=
  { sumParser with settings := {} }

theorem reductions_bounded_sum :
    generousSumParser.nullableRules = [] ∧ generousSumParser.grammar.Acyclic ∧
      (generousSumParser.reductions "12+3").length ≤ 2 * 4 * 2 ∧
      2 * 4 * 2 ≤ generousSumParser.settings.maxReductions ∧
      ∀ ceiling, generousSumParser.parse "12+3" ≠ .error (.limitExceeded ceiling) := by
  have hnullable : generousSumParser.nullableRules = [] :=
    List.eq_nil_of_length_eq_zero (by decide +kernel)
  have hunits : ∀ rule ∈ generousSumParser.grammar.rules,
      rule.pattern.tokens.countP (!·.repetition.allowsZero) ≤ 1 →
        ∀ s ∈ rule.pattern.symbols, s = "Num" ∧ rule.lhs = "Sum" := by decide +kernel
  have hrewrites : ∀ s t, generousSumParser.grammar.Rewrites s t → s = "Num" ∧ t = "Sum" := by
    intro s t h
    obtain ⟨rule, hrule, rfl, hsymbol, hcount⟩ := h.exists_rule
    exact hunits rule hrule hcount s hsymbol
  have hacyclic : generousSumParser.grammar.Acyclic := by
    intro s h
    obtain ⟨x, hx, -⟩ := Relation.TransGen.head'_iff.1 h
    obtain ⟨y, -, hy⟩ := Relation.TransGen.tail'_iff.1 h
    exact absurd ((hrewrites s x hx).1.symm.trans (hrewrites y s hy).2) (by decide)
  have hcard : generousSumParser.grammar.symbols.card = 2 := by decide +kernel
  have hbound := reductions_bounded generousSumParser hnullable hacyclic "12+3"
  rw [hcard] at hbound
  exact ⟨hnullable, hacyclic, hbound.1, by decide, (hbound.2 (by decide)).1⟩

end Parser

end ReductionGrammar
