import Mathlib.Algebra.GroupWithZero.Nat
import Mathlib.Data.List.DropRight
import ReductionGrammar.Proofs.Arithmetic.Expressions
import ReductionGrammar.Proofs.Number.Digits
import ReductionGrammar.Proofs.Run.Derivation

/-!
# The calculator accepts the expressions

No reduction of a run spoils the shape of an expression, and in a buffer of this shape something can
be reduced until a single expression is left. What a run accepts is, the other way round, put
together by the rules as expressions are. Main statement: if every number of the input fits a word
of 64 bits, the calculator accepts the input if it is an expression, and is stuck otherwise.
-/

namespace ReductionGrammar.Arithmetic

/-- The digits stand in the text, and there is no digit before or after them. -/
def IsDigitRun (text ds : List Char) : Prop :=
  ∃ before after, text = before ++ ds ++ after ∧ ds ≠ [] ∧ (∀ c ∈ ds, c.isDigit = true) ∧
    (∀ c, before.getLast? = some c → c.isDigit = false) ∧
    ∀ c, after.head? = some c → c.isDigit = false

/-- All numbers of the text fit a word of 64 bits. -/
def NumbersFit (text : List Char) : Prop :=
  ∀ ds, IsDigitRun text ds → digitsValue ds < 0x8000000000000000

theorem exists_isDigitRun {text ds : List Char} (h : ds <:+: text) (hds : ds ≠ [])
    (hdigits : ∀ c ∈ ds, c.isDigit = true) : ∃ run, IsDigitRun text run ∧ ds <:+: run := by
  obtain ⟨left, right, rfl⟩ := h
  refine ⟨left.rtakeWhile Char.isDigit ++ ds ++ right.takeWhile Char.isDigit,
    ⟨left.rdropWhile Char.isDigit, right.dropWhile Char.isDigit, ?_, ?_, ?_, ?_, ?_⟩,
    _, _, rfl⟩
  · have hleft : left.rdropWhile Char.isDigit ++ left.rtakeWhile Char.isDigit = left :=
      List.rdropWhile_append_rtakeWhile
    have hright : right.takeWhile Char.isDigit ++ right.dropWhile Char.isDigit = right :=
      List.takeWhile_append_dropWhile
    calc left ++ ds ++ right
        = (left.rdropWhile Char.isDigit ++ left.rtakeWhile Char.isDigit) ++ ds ++
            (right.takeWhile Char.isDigit ++ right.dropWhile Char.isDigit) := by
          rw [hleft, hright]
      _ = _ := by simp only [List.append_assoc]
  · simp [hds]
  · intro c hc
    simp only [List.mem_append] at hc
    rcases hc with (hc | hc) | hc
    · exact List.mem_rtakeWhile_imp hc
    · exact hdigits c hc
    · exact List.mem_takeWhile_imp hc
  · intro c hc
    have hne : left.rdropWhile Char.isDigit ≠ [] := by
      intro hnil
      rw [hnil] at hc
      cases hc
    rw [List.getLast?_eq_some_getLast hne] at hc
    cases hc
    simpa using List.rdropWhile_last_not Char.isDigit left hne
  · intro c hc
    have hhead := List.head?_dropWhile_not Char.isDigit right
    rw [hc] at hhead
    exact hhead

theorem NumbersFit.digitsValue_lt {text ds : List Char} (htext : NumbersFit text)
    (h : ds <:+: text) (hds : ds ≠ []) (hdigits : ∀ c ∈ ds, c.isDigit = true) :
    digitsValue ds < 0x8000000000000000 := by
  obtain ⟨run, hrun, hinside⟩ := exists_isDigitRun h hds hdigits
  exact Nat.lt_of_le_of_lt (digitsValue_le_of_isInfix hinside) (htext run hrun)

theorem numbersFit_of_digitsValue {text : List Char}
    (h : digitsValue text < 0x8000000000000000) : NumbersFit text := by
  intro ds hds
  obtain ⟨before, after, htext, -⟩ := hds
  exact Nat.lt_of_le_of_lt (digitsValue_le_of_isInfix ⟨before, after, htext.symm⟩) h

/-! ### What the rules reduce -/

/-- A rule of the calculator reduces the entries, with these captures. -/
inductive Reduces : Rule → List Entry → List Value → Prop where
  | numeral (n : Nat) {ds : List Char} (hds : ds ≠ []) (hdigits : ∀ c ∈ ds, c.isDigit = true) :
      Reduces (ruleOf numeral numeralTokens n) (ds.map .char) [.string (String.ofList ds)]
  | promotion (n : Nat) (v : Value) :
      Reduces (ruleOf promotion promotionTokens n) [.reduced "Num" v] [v]
  | parentheses (n : Nat) (v : Value) :
      Reduces (ruleOf parentheses parenthesesTokens n)
        [.char '(', .reduced "Expr" v, .char ')'] [v]
  | operation (n : Nat) (o : Operator) (u v : Value) :
      Reduces (ruleOf o.proposal o.tokens n)
        [.reduced "Expr" u, .char o.symbol, .reduced "Expr" v] [u, v]

theorem eq_of_splits_numeral {es : List Entry} {captures : List Value}
    (h : Splits numeralTokens es captures) :
    ∃ ds, es = ds.map .char ∧ ds ≠ [] ∧ (∀ c ∈ ds, c.isDigit = true) ∧
      captures = [.string (String.ofList ds)] := by
  generalize htokens : numeralTokens = tokens at h
  cases h with
  | nil => cases htokens
  | @cons t ts block es vs ws head tail =>
    cases htokens
    obtain ⟨rfl, rfl⟩ := tail.eq_nil
    have hblock := Atom.map_char_of_accepts rfl head.accepted
    refine ⟨block.filterMap Entry.char?, ?_, ?_, ?_, ?_⟩
    · rw [hblock, List.append_nil]
    · intro hnil
      rw [hnil] at hblock
      subst hblock
      cases head.count
    · intro c hc
      have haccepts := head.accepted (.char c) (hblock ▸ List.mem_map_of_mem hc)
      simpa using haccepts
    · rw [head.contributes.eq_captures, List.append_nil]
      rfl

theorem reduces_of_splits {earlier later : Operator} {settings : Settings}
    (hpriority : settings.priority = .lastFirst) {rule : Rule}
    (hrule : rule ∈ (calculator earlier later settings).rules) {es : List Entry}
    {captures : List Value} (h : Splits rule.pattern.tokens es captures) :
    Reduces rule es captures := by
  rw [rules_calculator earlier later hpriority] at hrule
  have hoperation : ∀ (o : Operator) n, rule = ruleOf o.proposal o.tokens n →
      Reduces rule es captures := by
    rintro o n rfl
    obtain ⟨u, _, _, rfl, rfl, htail⟩ := Splits.exists_of_name h
    obtain ⟨_, rfl, hlast⟩ := htail.exists_of_char
    obtain ⟨v, _, _, rfl, rfl, hnil⟩ := hlast.exists_of_name
    obtain ⟨rfl, rfl⟩ := hnil.eq_nil
    exact .operation n o u v
  simp only [basicRules, List.cons_append, List.nil_append, List.mem_cons, List.not_mem_nil,
    or_false] at hrule
  rcases hrule with rfl | rfl | rfl | hrule | hrule
  · obtain ⟨ds, rfl, hds, hdigits, rfl⟩ := eq_of_splits_numeral h
    exact .numeral 5 hds hdigits
  · obtain ⟨v, _, _, rfl, rfl, hnil⟩ := Splits.exists_of_name h
    obtain ⟨rfl, rfl⟩ := hnil.eq_nil
    exact .promotion 4 v
  · obtain ⟨_, rfl, htail⟩ := Splits.exists_of_char h
    obtain ⟨v, _, _, rfl, rfl, hlast⟩ := htail.exists_of_name
    obtain ⟨_, rfl, hnil⟩ := hlast.exists_of_char
    obtain ⟨rfl, rfl⟩ := hnil.eq_nil
    exact .parentheses 3 v
  · exact hoperation later 2 hrule
  · exact hoperation earlier 1 hrule

/-- The first entries in a row that are digits. -/
theorem exists_digits {es : List Entry} {e : Entry} (he : e ∈ es)
    (hdigit : digit.accepts e = true) :
    ∃ left ds right, es = left ++ (ds.map .char ++ right) ∧
      (∀ e ∈ left, digit.accepts e = false) ∧ ds ≠ [] ∧ (∀ c ∈ ds, c.isDigit = true) ∧
      ∀ e, right[0]? = some e → digit.accepts e = false := by
  induction es with
  | nil => cases he
  | cons first es ih =>
    by_cases hfirst : digit.accepts first = true
    · have haccepted : ∀ e ∈ (first :: es).takeWhile digit.accepts, digit.accepts e = true :=
        fun e he => List.mem_takeWhile_imp he
      have hrow := Atom.map_char_of_accepts rfl haccepted
      refine ⟨[], ((first :: es).takeWhile digit.accepts).filterMap Entry.char?,
        (first :: es).dropWhile digit.accepts, ?_, by simp, ?_, ?_, ?_⟩
      · rw [hrow, List.nil_append, List.takeWhile_append_dropWhile]
      · intro hnil
        rw [hnil] at hrow
        simp [hfirst] at hrow
      · intro c hc
        simpa using haccepted (.char c) (hrow ▸ List.mem_map_of_mem hc)
      · intro e he
        have hhead := List.head?_dropWhile_not digit.accepts (first :: es)
        rw [List.head?_eq_getElem?, he] at hhead
        exact hhead
    · have hmem : e ∈ es := by
        rcases List.mem_cons.1 he with rfl | he
        · exact absurd hdigit hfirst
        · exact he
      obtain ⟨left, ds, right, rfl, hleft, hrest⟩ := ih hmem
      refine ⟨first :: left, ds, right, rfl, ?_, hrest⟩
      exact List.forall_mem_cons.2 ⟨Bool.eq_false_iff.2 hfirst, hleft⟩

/-- Where numerals match leftmost there is no digit before them, and none after them. -/
theorem not_isDigit_of_find? {left right : List Entry} {ds : List Char} {m : Match}
    (hfind : Match.find? numeralTokens (left ++ (ds.map .char ++ right)) = some m)
    (hspan : m.span = ⟨left.length, left.length + (ds.map Entry.char).length⟩) (hds : ds ≠ [])
    (hdigits : ∀ c ∈ ds, c.isDigit = true) :
    (∀ c, .char c ∈ left → c.isDigit = false) ∧
      ∀ c, right[0]? = some (.char c) → c.isDigit = false := by
  obtain ⟨c, hc⟩ := List.exists_mem_of_ne_nil ds hds
  have hmem : Entry.char c ∈ left ++ (ds.map .char ++ right) :=
    List.mem_append_right _ (List.mem_append_left _ (List.mem_map_of_mem hc))
  have hdigit : digit.accepts (.char c) = true := by
    rw [digit_accepts_char]
    exact hdigits c hc
  -- the scan stops at the first digits in a row, so these are the ones that it found
  obtain ⟨left', ds', right', hentries, hleft, hds', hdigits', hright⟩ := exists_digits hmem hdigit
  rw [hentries, find?_numeral hleft hds' hdigits' hright, Option.some.injEq] at hfind
  subst hfind
  simp only [Span.mk.injEq] at hspan
  obtain ⟨hstart, hstop⟩ := hspan
  obtain ⟨rfl, hrest⟩ := List.append_inj hentries hstart.symm
  obtain ⟨-, rfl⟩ := List.append_inj hrest (by omega)
  refine ⟨fun c hc => ?_, fun c hc => ?_⟩
  · simpa using hleft _ hc
  · simpa using hright _ hc

/-! ### What is accepted is an expression -/

theorem exists_int_of_action {rule : Rule} {es : List Entry} {captures : List Value} {value : Value}
    (h : Reduces rule es captures) (hvalue : rule.action captures = .ok value)
    (hint : ∀ symbol v, .reduced symbol v ∈ es → ∃ n, v = .int n) : ∃ n, value = .int n := by
  cases h with
  | @numeral _ ds _ _ =>
    change (Value.string (String.ofList ds)).parseInt.map Value.int = .ok value at hvalue
    cases hparse : (Value.string (String.ofList ds)).parseInt with
    | error fault =>
      rw [hparse] at hvalue
      cases hvalue
    | ok n =>
      rw [hparse] at hvalue
      cases hvalue
      exact ⟨n, rfl⟩
  | promotion _ v =>
    cases hvalue
    exact hint "Num" v (by simp)
  | parentheses _ v =>
    cases hvalue
    exact hint "Expr" v (by simp)
  | operation _ o u v =>
    obtain ⟨m, rfl⟩ := hint "Expr" u (by simp)
    obtain ⟨n, rfl⟩ := hint "Expr" v (by simp)
    cases o
    all_goals
      cases hvalue
      exact ⟨_, rfl⟩

/-- The values of a derivation are integers, and what it derives is a number or an expression. -/
theorem derives_cases {earlier later : Operator} {settings : Settings}
    (hpriority : settings.priority = .lastFirst) {t : ParseTree}
    (ht : t.Derives (calculator earlier later settings).grammar) {symbol : String} {v : Value}
    (hroot : t.root = .reduced symbol v) :
    (∃ n, v = .int n) ∧
      ((symbol = "Num" ∧ t.leaves ≠ [] ∧ ∀ c ∈ t.leaves, c.isDigit = true) ∨
        (symbol = "Expr" ∧ Expression t.leaves)) := by
  induction ht generalizing symbol v with
  | leaf c => cases hroot
  | @node rule value children captures hrule hchildren hsplits hvalue ih =>
    cases hroot
    have hmem : rule ∈ (calculator earlier later settings).rules :=
      (Priority.mem_arrange _).2 hrule
    have hreduces := reduces_of_splits hpriority hmem hsplits
    refine ⟨exists_int_of_action hreduces hvalue fun symbol v hmem => ?_, ?_⟩
    · obtain ⟨child, hchild, hroot⟩ := List.mem_map.1 hmem
      exact (ih child hchild hroot).1
    have hexpression : ∀ child ∈ children, ∀ v, child.root = .reduced "Expr" v →
        Expression child.leaves := by
      intro child hchild v hroot
      rcases (ih child hchild hroot).2 with ⟨hsymbol, -⟩ | ⟨-, h⟩
      · exact absurd hsymbol (by decide)
      · exact h
    rw [ParseTree.leaves, ParseTree.leavesOfAll_eq]
    generalize hroots : children.map ParseTree.root = es at hreduces
    cases hreduces with
    | numeral _ hds hdigits =>
      rw [ParseTree.flatMap_leaves_of_roots hroots]
      exact .inl ⟨rfl, hds, hdigits⟩
    | promotion _ v =>
      simp only [List.map_eq_cons_iff, List.map_eq_nil_iff] at hroots
      obtain ⟨child, _, rfl, hroot, rfl⟩ := hroots
      rw [List.flatMap_singleton]
      rcases (ih child (List.mem_cons_self ..) hroot).2 with ⟨-, hne, hdigits⟩ | ⟨hsymbol, -⟩
      · exact .inr ⟨rfl, .numeral hne hdigits⟩
      · exact absurd hsymbol (by decide)
    | parentheses _ v =>
      simp only [List.map_eq_cons_iff, List.map_eq_nil_iff] at hroots
      obtain ⟨opened, _, rfl, hopened, inner, _, rfl, hinner, closed, _, rfl, hclosed, rfl⟩ :=
        hroots
      have hleaves : [opened, inner, closed].flatMap ParseTree.leaves =
          '(' :: (inner.leaves ++ [')']) := by
        simp [ParseTree.leaves_of_root_eq_char hopened, ParseTree.leaves_of_root_eq_char hclosed]
      rw [hleaves]
      exact .inr ⟨rfl, .parentheses (hexpression inner (by simp) v hinner)⟩
    | operation _ o u v =>
      simp only [List.map_eq_cons_iff, List.map_eq_nil_iff] at hroots
      obtain ⟨first, _, rfl, hfirst, joint, _, rfl, hjoint, last, _, rfl, hlast, rfl⟩ := hroots
      have hleaves : [first, joint, last].flatMap ParseTree.leaves =
          first.leaves ++ o.symbol :: last.leaves := by
        simp [ParseTree.leaves_of_root_eq_char hjoint]
      rw [hleaves]
      exact .inr ⟨o.lhs_proposal, .operation o (hexpression first (by simp) u hfirst)
        (hexpression last (by simp) v hlast)⟩

/-! ### One reduction -/

section Step

variable {earlier later : Operator} {settings : Settings} {b : Buffer} {redex : Redex}

theorem exists_reduces (hpriority : settings.priority = .lastFirst)
    (h : Redex.select? (calculator earlier later settings).rules b = some redex) :
    ∃ left found right, b.entries = left ++ (found ++ right) ∧
      redex.found.span = ⟨left.length, left.length + found.length⟩ ∧
      Reduces redex.rule found redex.found.captures ∧
      ∀ e, b.splice redex.found.span e = ⟨left ++ e :: right⟩ := by
  obtain ⟨left, found, right, hentries, hspan, hsplits, hsplice⟩ := Redex.exists_splice h
  rw [List.append_assoc] at hentries
  exact ⟨left, found, right, hentries, hspan,
    reduces_of_splits hpriority (Redex.of_select? h).1 hsplits, hsplice⟩

theorem wellFormed_splice (hpriority : settings.priority = .lastFirst)
    (h : Redex.select? (calculator earlier later settings).rules b = some redex)
    (hb : WellFormed b.entries) (value : Value) :
    WellFormed (b.splice redex.found.span (.reduced redex.rule.lhs value)).entries := by
  obtain ⟨left, found, right, hentries, hspan, hreduces, hsplice⟩ := exists_reduces hpriority h
  obtain ⟨-, -, -, -, hfind⟩ := Redex.select?_eq_some_iff.1 h
  obtain ⟨rule, span, captures⟩ := redex
  rw [hsplice]
  rw [hentries] at hb hfind
  cases hreduces with
  | numeral _ hds hdigits =>
    obtain ⟨hleft, hright⟩ := not_isDigit_of_find? hfind hspan hds hdigits
    exact hb.reduce_digits hds hdigits hleft hright _ value
  | promotion => exact hb.reduce (fun p q hreads => hreads.of_reduced) _ value
  | parentheses => exact hb.reduce (fun p q hreads => hreads.of_parentheses) _ value
  | operation => exact hb.reduce (fun p q hreads => hreads.of_operation) _ value

/-- How many reductions an entry may still call for. -/
def pending : Entry → Nat
  | .char _ => 3
  | .reduced symbol _ => if symbol = "Num" then 2 else 1

def totalPending (b : Buffer) : Nat :=
  (b.entries.map pending).sum

theorem totalPending_splice (hpriority : settings.priority = .lastFirst)
    (h : Redex.select? (calculator earlier later settings).rules b = some redex) (value : Value) :
    totalPending (b.splice redex.found.span (.reduced redex.rule.lhs value)) < totalPending b := by
  obtain ⟨left, found, right, hentries, -, hreduces, hsplice⟩ := exists_reduces hpriority h
  have hfound : pending (.reduced redex.rule.lhs value) < (found.map pending).sum := by
    obtain ⟨rule, span, captures⟩ := redex
    cases hreduces with
    | @numeral _ ds hds _ =>
      have hlength := List.length_pos_iff.2 hds
      have hsum : ((ds.map Entry.char).map pending).sum = ds.length * 3 := by
        simp [List.map_map, Function.comp_def, pending]
      rw [hsum]
      show 2 < ds.length * 3
      omega
    | promotion => exact Nat.lt_succ_self 1
    | parentheses => exact (by decide : 1 < 7)
    | operation _ o =>
      show pending (.reduced o.proposal.lhs value) < 5
      rw [o.lhs_proposal]
      exact (by decide : 1 < 5)
  unfold totalPending
  rw [hsplice, hentries]
  simp only [List.map_append, List.map_cons, List.sum_append, List.sum_cons]
  omega

theorem totalPending_ofInput (input : String) :
    totalPending (.ofInput input) = 3 * input.length := by
  simp [totalPending, Buffer.ofInput, List.map_map, Function.comp_def, pending, Nat.mul_comm,
    String.length_toList]

theorem cases_of_mem (hpriority : settings.priority = .lastFirst) {input : String}
    (hb : Derivable (calculator earlier later settings).grammar input b) {symbol : String}
    {v : Value} (hmem : .reduced symbol v ∈ b.entries) :
    (∃ n, v = .int n) ∧ (symbol = "Num" ∨ symbol = "Expr") := by
  obtain ⟨trees, hforest⟩ := hb
  rw [← hforest.roots] at hmem
  obtain ⟨t, ht, hroot⟩ := List.mem_map.1 hmem
  obtain ⟨hint, hsymbol⟩ := derives_cases hpriority (hforest.derives t ht) hroot
  exact ⟨hint, hsymbol.imp And.left And.left⟩

/-- The actions fail on no number that fits. -/
theorem exists_action (hpriority : settings.priority = .lastFirst) {input : String}
    (hinput : NumbersFit input.toList)
    (hb : Derivable (calculator earlier later settings).grammar input b)
    (h : Redex.select? (calculator earlier later settings).rules b = some redex) :
    ∃ value, redex.rule.action redex.found.captures = .ok value := by
  obtain ⟨left, found, right, hentries, -, hreduces, -⟩ := exists_reduces hpriority h
  have hint : ∀ symbol v, .reduced symbol v ∈ found → ∃ n, v = .int n := by
    intro symbol v hmem
    have hentry : .reduced symbol v ∈ b.entries := by
      rw [hentries]
      exact List.mem_append_right _ (List.mem_append_left _ hmem)
    exact (cases_of_mem hpriority hb hentry).1
  obtain ⟨rule, span, captures⟩ := redex
  cases hreduces with
  | @numeral _ ds hds hdigits =>
    -- the digits have stood in the input, within a number that fits
    obtain ⟨trees, hforest⟩ := hb
    have hinside : ds.map Entry.char <:+: b.entries :=
      ⟨left, right, by rw [hentries, List.append_assoc]⟩
    have hfits := hinput.digitsValue_lt (hforest.infix_of_chars hinside) hds hdigits
    exact ⟨_, numeral_action ⟨ds, hds, hdigits, hfits⟩⟩
  | promotion _ v => exact ⟨v, rfl⟩
  | parentheses _ v => exact ⟨v, rfl⟩
  | operation _ o u v =>
    obtain ⟨m, rfl⟩ := hint "Expr" u (by simp)
    obtain ⟨n, rfl⟩ := hint "Expr" v (by simp)
    cases o
    all_goals exact ⟨_, rfl⟩

end Step

/-! ### Where a run ends -/

/-- Only a single expression is of the shape of expressions and has nothing to be reduced. -/
theorem entries_of_irreducible {settings : Settings} (hpriority : settings.priority = .lastFirst)
    {input : String} {b : Buffer}
    (hb : Derivable (calculator .plus .times settings).grammar input b)
    (hwell : WellFormed b.entries)
    (hnone : Redex.select? (calculator .plus .times settings).rules b = none) :
    ∃ v, b.entries = [.reduced "Expr" v] := by
  have hsymbols : ∀ symbol v, .reduced symbol v ∈ b.entries → symbol = "Num" ∨ symbol = "Expr" :=
    fun symbol v hmem => (cases_of_mem hpriority hb hmem).2
  obtain ⟨es⟩ := b
  rw [Redex.select?_eq_none_iff, rules_calculator _ _ hpriority] at hnone
  simp only [basicRules, List.cons_append, List.nil_append, List.forall_mem_cons] at hnone
  obtain ⟨hnumeral, hpromotion, hparentheses, htimes, hplus, -⟩ := hnone
  have hdigit : ∀ c, .char c ∈ es → c.isDigit = false := by
    intro c hc
    by_contra hne
    have haccepts : digit.accepts (.char c) = true := by
      simpa using hne
    obtain ⟨left, ds, right, rfl, hleft, hds, hdigits, hright⟩ := exists_digits hc haccepts
    exact hnumeral (Rule.matches_iff.2 ⟨_, find?_numeral hleft hds hdigits hright⟩)
  have hexpr : ∀ symbol v, .reduced symbol v ∈ es → symbol = "Expr" := by
    intro symbol v hmem
    rcases hsymbols symbol v hmem with rfl | hsymbol
    · obtain ⟨left, right, rfl⟩ := List.append_of_mem hmem
      exact absurd (Rule.matches_of_here? (by simp) (here?_promotion left.length v right))
        hpromotion
    · exact hsymbol
  have hoperator : ∀ left u (o : Operator) v right,
      es ≠ left ++ ([.reduced "Expr" u, .char o.symbol, .reduced "Expr" v] ++ right) := by
    rintro left u o v right rfl
    have hhere := here?_operator o left.length u v right
    cases o with
    | plus => exact hplus (Rule.matches_of_here? (by simp) hhere)
    | times => exact htimes (Rule.matches_of_here? (by simp) hhere)
  rcases hwell.exists_redex hdigit with
    ⟨symbol, v, rfl⟩ | ⟨left, symbol, v, right, rfl⟩ | ⟨left, symbol, u, o, symbol', v, right, rfl⟩
  · obtain rfl := hexpr symbol v (by simp)
    exact ⟨v, rfl⟩
  · obtain rfl := hexpr symbol v (by simp)
    exact absurd (Rule.matches_of_here? (by simp) (here?_parentheses left.length v right))
      hparentheses
  · obtain rfl := hexpr symbol u (by simp)
    obtain rfl := hexpr symbol' v (by simp)
    exact absurd rfl (hoperator left u o v right)

/-- A run ends without a fault, with a buffer that derives from the input; from an expression it
leaves a single one. -/
theorem exists_final {settings : Settings} (hpriority : settings.priority = .lastFirst)
    {input : String} (hinput : NumbersFit input.toList)
    (hlimit : 3 * input.length ≤ settings.maxReductions) :
    ∃ b, (calculator .plus .times settings).parse input = .ok (.ofBuffer "Expr" b) ∧
      Derivable (calculator .plus .times settings).grammar input b ∧
      (Expression input.toList → ∃ v, b.entries = [.reduced "Expr" v]) := by
  obtain ⟨log, result, hruns⟩ := (calculator .plus .times settings).exists_runs input
  have hrules : ∀ rule ∈ (calculator .plus .times settings).rules,
      rule ∈ (calculator .plus .times settings).grammar.rules :=
    fun rule hrule => (Priority.mem_arrange _).1 hrule
  have hkept : KeptBySteps (calculator .plus .times settings).rules fun b =>
      Derivable (calculator .plus .times settings).grammar input b ∧
        (Expression input.toList → WellFormed b.entries) := by
    intro b redex settings' inputSize pass r hselect hreduction hb
    refine ⟨derivable_kept hrules input _ _ _ _ _ _ hselect hreduction hb.1, fun hexpression => ?_⟩
    obtain ⟨value, -, rfl⟩ := Redex.of_reduction hreduction
    exact wellFormed_splice hpriority hselect (hb.2 hexpression) value
  obtain ⟨b, rfl, ⟨hderivable, hwell⟩, hnone⟩ := RunFrom.exists_irreducible hruns
    (isNullable_calculator _ _ hpriority) hkept
    (fun b redex value hselect => totalPending_splice hpriority hselect value)
    (fun b redex hb hselect => exists_action hpriority hinput hb.1 hselect)
    ⟨⟨_, Forest.ofInput _ input⟩, Expression.wellFormed⟩
    (by rw [totalPending_ofInput]; exact hlimit)
  refine ⟨b, ?_, hderivable, fun hexpression => ?_⟩
  · rw [hruns.parse_eq, start_calculator]
    rfl
  · exact entries_of_irreducible hpriority hderivable (hwell hexpression) hnone

/-- On numbers that fit, the calculator accepts exactly the expressions: greedy matching in the
fixed order of the rules, without ever going back, refuses none of them. Everything else it leaves
stuck, without a fault. -/
theorem parse_accepts_iff_expression {settings : Settings}
    (hpriority : settings.priority = .lastFirst) {input : String}
    (hinput : NumbersFit input.toList) (hlimit : 3 * input.length ≤ settings.maxReductions) :
    ((∃ value, (calculator .plus .times settings).parse input = .ok (.accepted value)) ↔
        Expression input.toList) ∧
      (¬Expression input.toList → ∃ b unmatched,
        (calculator .plus .times settings).parse input = .ok (.stuck b unmatched)) := by
  obtain ⟨b, hparse, ⟨trees, hforest⟩, hentries⟩ := exists_final hpriority hinput hlimit
  have haccepted : ∀ value, Outcome.ofBuffer "Expr" b = .accepted value →
      Expression input.toList := by
    intro value houtcome
    obtain ⟨t, hderives, hroot, hleaves⟩ :=
      hforest.exists_tree (Outcome.entries_of_accepted houtcome)
    rcases (derives_cases hpriority hderives hroot).2 with ⟨hsymbol, -⟩ | ⟨-, h⟩
    · exact absurd hsymbol (by decide)
    · exact hleaves ▸ h
  rw [hparse]
  refine ⟨⟨?_, fun hexpression => ?_⟩, fun hnot => ?_⟩
  · intro h
    obtain ⟨value, hvalue⟩ := h
    exact haccepted value (Except.ok.inj hvalue)
  · obtain ⟨v, hv⟩ := hentries hexpression
    refine ⟨v, congrArg Except.ok ?_⟩
    unfold Outcome.ofBuffer
    rw [hv]
    exact if_pos rfl
  · cases houtcome : Outcome.ofBuffer "Expr" b with
    | accepted value => exact absurd (haccepted value houtcome) hnot
    | stuck b' unmatched => exact ⟨b', unmatched, rfl⟩

theorem parse_accepts_iff_expression_parentheses :
    NumbersFit "(1+2)*3".toList ∧ NumbersFit "2+*3".toList ∧
      (∃ value, (calculator .plus .times {}).parse "(1+2)*3" = .ok (.accepted value)) ∧
      ∃ b unmatched, (calculator .plus .times {}).parse "2+*3" = .ok (.stuck b unmatched) := by
  have hfits : NumbersFit "(1+2)*3".toList := numbersFit_of_digitsValue (by decide)
  have hfits' : NumbersFit "2+*3".toList := numbersFit_of_digitsValue (by decide)
  have hone : Expression ['1'] :=
    .numeral (List.cons_ne_nil _ _) (List.forall_mem_singleton.2 rfl)
  have htwo : Expression ['2'] :=
    .numeral (List.cons_ne_nil _ _) (List.forall_mem_singleton.2 rfl)
  have hthree : Expression ['3'] :=
    .numeral (List.cons_ne_nil _ _) (List.forall_mem_singleton.2 rfl)
  have hproduct : Expression "(1+2)*3".toList :=
    .operation .times (.parentheses (.operation .plus hone htwo)) hthree
  have hinput := parse_accepts_iff_expression (rfl : ({} : Settings).priority = .lastFirst) hfits
    (by decide)
  have hinput' := parse_accepts_iff_expression (rfl : ({} : Settings).priority = .lastFirst) hfits'
    (by decide)
  refine ⟨hfits, hfits', hinput.1.2 hproduct, hinput'.2 fun h => ?_⟩
  obtain ⟨value, hvalue⟩ := hinput'.1.2 h
  have hoption : ((calculator .plus .times {}).parse "2+*3").toOption.bind Outcome.value? = none :=
    by decide +kernel
  rw [hvalue] at hoption
  cases hoption

end ReductionGrammar.Arithmetic
