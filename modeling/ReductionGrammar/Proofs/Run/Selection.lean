import Mathlib.Data.Nat.Find
import ReductionGrammar.Proofs.Run.Steps

/-!
# The selected redex

Which redex a pass reduces, said without the scan that looks for it: of the rules that match
anywhere, the one with precedence over all others, at the least index at which it matches. The scan
finds this redex, and it finds none only if no rule matches anywhere.
-/

namespace ReductionGrammar

/-- Of two rules, the first is tried before the second. -/
def Priority.Precedes : Priority → Rule → Rule → Prop
  | lastFirst, first, second => second.ordinal < first.ordinal
  | declared, first, second => first.ordinal < second.ordinal

/-- The rule has the match at the index, at which there is an entry. -/
def Rule.MatchesAt (rule : Rule) (b : Buffer) (i : Nat) (m : Match) : Prop :=
  i < b.size ∧ Match.at? rule.pattern.tokens b.entries i = some m

def Rule.Matches (rule : Rule) (b : Buffer) : Prop :=
  ∃ i m, rule.MatchesAt b i m

structure Redex.Selected (redex : Redex) (p : Parser) (b : Buffer) : Prop where
  declared : redex.rule ∈ p.grammar.rules
  matchesAt : redex.rule.MatchesAt b redex.found.span.start redex.found
  leftmost : ∀ i m, redex.rule.MatchesAt b i m → redex.found.span.start ≤ i
  preferred : ∀ rule ∈ p.grammar.rules, rule.Matches b →
    rule = redex.rule ∨ p.settings.priority.Precedes redex.rule rule

def Parser.Irreducible (p : Parser) (b : Buffer) : Prop :=
  ∀ rule ∈ p.grammar.rules, ¬rule.Matches b

/-! ### One rule -/

theorem Match.findFrom?_eq_some_iff {tokens : List Token} {start : Nat} {es : List Entry}
    {m : Match} :
    findFrom? tokens start es = some m ↔
      ∃ i < es.length, here? tokens (start + i) (es.drop i) = some m ∧
        ∀ j < i, here? tokens (start + j) (es.drop j) = none := by
  induction es generalizing start with
  | nil => simp [findFrom?]
  | cons e rest ih =>
    unfold findFrom?
    cases hhere : here? tokens start (e :: rest) with
    | some found =>
      constructor
      · intro h
        cases h
        exact ⟨0, Nat.zero_lt_succ _, hhere, fun j hj => absurd hj (Nat.not_lt_zero j)⟩
      · rintro ⟨i, -, hi, hbefore⟩
        cases i with
        | zero => exact hhere.symm.trans hi
        | succ i => cases hhere.symm.trans (hbefore 0 (Nat.zero_lt_succ i))
    | none =>
      have hshift : ∀ i, start + 1 + i = start + (i + 1) := fun i => by omega
      rw [ih]
      constructor
      · rintro ⟨i, hlen, hi, hbefore⟩
        refine ⟨i + 1, Nat.succ_lt_succ hlen, hshift i ▸ hi, ?_⟩
        intro j hj
        cases j with
        | zero => exact hhere
        | succ j => exact hshift j ▸ hbefore j (Nat.lt_of_succ_lt_succ hj)
      · rintro ⟨i, hlen, hi, hbefore⟩
        cases i with
        | zero => cases hhere.symm.trans hi
        | succ i =>
          refine ⟨i, Nat.lt_of_succ_lt_succ hlen, (hshift i).symm ▸ hi, ?_⟩
          intro j hj
          exact (hshift j).symm ▸ hbefore (j + 1) (Nat.succ_lt_succ hj)

theorem Rule.MatchesAt.start_eq {rule : Rule} {b : Buffer} {i : Nat} {m : Match}
    (h : rule.MatchesAt b i m) : m.span.start = i := by
  obtain ⟨blocks, -, rfl⟩ := Option.map_eq_some_iff.1 h.2
  rfl

theorem Rule.find?_eq_some_iff {rule : Rule} {b : Buffer} {m : Match} :
    Match.find? rule.pattern.tokens b.entries = some m ↔
      rule.MatchesAt b m.span.start m ∧ ∀ i m', rule.MatchesAt b i m' → m.span.start ≤ i := by
  unfold Match.find?
  rw [Match.findFrom?_eq_some_iff]
  simp only [Nat.zero_add]
  constructor
  · rintro ⟨i, hlen, hi, hbefore⟩
    have hat : rule.MatchesAt b i m := ⟨hlen, hi⟩
    rw [hat.start_eq]
    refine ⟨hat, fun j m' hj => ?_⟩
    by_contra hlt
    cases (hbefore j (Nat.lt_of_not_le hlt)).symm.trans hj.2
  · rintro ⟨hat, hleast⟩
    refine ⟨m.span.start, hat.1, hat.2, fun j hj => ?_⟩
    cases hm : Match.here? rule.pattern.tokens j (b.entries.drop j) with
    | none => rfl
    | some m' =>
      have hle := hleast j m' ⟨hj.trans hat.1, hm⟩
      omega

theorem Rule.matches_iff {rule : Rule} {b : Buffer} :
    rule.Matches b ↔ ∃ m, Match.find? rule.pattern.tokens b.entries = some m := by
  constructor
  · intro hsome
    -- the scan stops at the least index with a match
    classical
    obtain ⟨m, hm⟩ := Nat.find_spec hsome
    refine ⟨m, find?_eq_some_iff.2 ?_⟩
    rw [hm.start_eq]
    exact ⟨hm, fun i m' hi => Nat.find_min' hsome ⟨m', hi⟩⟩
  · rintro ⟨m, hm⟩
    exact ⟨_, m, (find?_eq_some_iff.1 hm).1⟩

/-! ### All rules -/

theorem Redex.select?_eq_some_iff {rules : List Rule} {b : Buffer} {redex : Redex} :
    select? rules b = some redex ↔
      ∃ before after, rules = before ++ redex.rule :: after ∧ (∀ rule ∈ before, ¬rule.Matches b) ∧
        Match.find? redex.rule.pattern.tokens b.entries = some redex.found := by
  induction rules with
  | nil => simp [select?]
  | cons rule rest ih =>
    unfold select?
    cases hf : Match.find? rule.pattern.tokens b.entries with
    | some found =>
      constructor
      · intro h
        cases h
        exact ⟨[], rest, rfl, fun _ h => absurd h List.not_mem_nil, hf⟩
      · rintro ⟨before, after, hrules, hbefore, hfound⟩
        cases before with
        | nil =>
          cases hrules
          rw [hf] at hfound
          cases hfound
          rfl
        | cons first before =>
          cases hrules
          exact absurd (Rule.matches_iff.2 ⟨found, hf⟩) (hbefore rule (List.mem_cons_self ..))
    | none =>
      have hnot : ¬rule.Matches b := by
        rw [Rule.matches_iff, hf]
        rintro ⟨m, ⟨⟩⟩
      rw [ih]
      constructor
      · rintro ⟨before, after, rfl, hbefore, hfound⟩
        refine ⟨rule :: before, after, rfl, ?_, hfound⟩
        intro other hother
        rcases List.mem_cons.1 hother with rfl | hother
        · exact hnot
        · exact hbefore other hother
      · rintro ⟨before, after, hrules, hbefore, hfound⟩
        cases before with
        | nil =>
          cases hrules
          rw [hf] at hfound
          cases hfound
        | cons first before =>
          cases hrules
          exact ⟨before, after, rfl, fun other h => hbefore other (List.mem_cons_of_mem _ h),
            hfound⟩

theorem Redex.select?_eq_none_iff {rules : List Rule} {b : Buffer} :
    select? rules b = none ↔ ∀ rule ∈ rules, ¬rule.Matches b := by
  induction rules with
  | nil => simp [select?]
  | cons rule rest ih =>
    unfold select?
    rw [List.forall_mem_cons, Rule.matches_iff]
    cases hf : Match.find? rule.pattern.tokens b.entries with
    | some found => simp
    | none => simpa using ih

theorem Grammar.pairwise_rules (g : Grammar) :
    g.rules.Pairwise fun first second => first.ordinal < second.ordinal := by
  rw [List.pairwise_iff_getElem]
  intro i j hi hj hij
  simp only [Grammar.rules, List.getElem_mapIdx]
  omega

theorem Parser.pairwise_rules (p : Parser) : p.rules.Pairwise p.settings.priority.Precedes := by
  unfold Parser.rules
  cases p.settings.priority with
  | lastFirst => exact List.pairwise_reverse.2 p.grammar.pairwise_rules
  | declared => exact p.grammar.pairwise_rules

theorem Priority.Precedes.asymm {priority : Priority} {first second : Rule}
    (h : priority.Precedes first second) : ¬priority.Precedes second first := by
  cases priority with
  | lastFirst => exact Nat.lt_asymm h
  | declared => exact Nat.lt_asymm h

theorem Parser.mem_rules {p : Parser} {rule : Rule} : rule ∈ p.rules ↔ rule ∈ p.grammar.rules :=
  p.settings.priority.mem_arrange

theorem Parser.irreducible_iff {p : Parser} {b : Buffer} :
    p.Irreducible b ↔ Redex.select? p.rules b = none := by
  rw [Redex.select?_eq_none_iff]
  exact forall_congr' fun rule => imp_congr_left mem_rules.symm

theorem Redex.selected_iff {redex : Redex} {p : Parser} {b : Buffer} :
    redex.Selected p b ↔ select? p.rules b = some redex := by
  rw [select?_eq_some_iff]
  constructor
  · intro h
    obtain ⟨before, after, hrules⟩ := List.append_of_mem (Parser.mem_rules.2 h.declared)
    refine ⟨before, after, hrules, ?_, Rule.find?_eq_some_iff.2 ⟨h.matchesAt, h.leftmost⟩⟩
    intro rule hrule hmatches
    have hpair := p.pairwise_rules
    rw [hrules, List.pairwise_append] at hpair
    have hprecedes := hpair.2.2 rule hrule redex.rule (List.mem_cons_self ..)
    have hmem : rule ∈ p.rules := hrules ▸ List.mem_append_left _ hrule
    rcases h.preferred rule (Parser.mem_rules.1 hmem) hmatches with rfl | hother
    · exact hprecedes.asymm hprecedes
    · exact hprecedes.asymm hother
  · rintro ⟨before, after, hrules, hbefore, hfound⟩
    obtain ⟨hat, hleast⟩ := Rule.find?_eq_some_iff.1 hfound
    have hmem : redex.rule ∈ p.rules := hrules ▸ List.mem_append_right _ (List.mem_cons_self ..)
    refine ⟨Parser.mem_rules.1 hmem, hat, hleast, ?_⟩
    intro rule hrule hmatches
    have hpair := p.pairwise_rules
    rw [hrules, List.pairwise_append] at hpair
    have hrule' := Parser.mem_rules.2 hrule
    rw [hrules, List.mem_append, List.mem_cons] at hrule'
    rcases hrule' with hrule' | rfl | hrule'
    · exact absurd hmatches (hbefore rule hrule')
    · exact .inl rfl
    · exact .inr (List.rel_of_pairwise_cons hpair.2.1 hrule')

end ReductionGrammar
