import ReductionGrammar.Proofs.Arithmetic.Chains
import ReductionGrammar.Proofs.Grammar.Registry
import ReductionGrammar.Proofs.Number.IntegerTexts
import ReductionGrammar.Proofs.Run.Leftmost

/-!
# A grammar of arithmetic expressions

Sums, products, parentheses and decimal numerals. For each of the rules it is said when it matches
nowhere, and for those that numbers and operators call for, where they match leftmost and what their
actions make of the captures.
-/

namespace ReductionGrammar.Arithmetic

namespace Operator

def symbol : Operator → Char
  | plus => '+'
  | times => '*'

theorem symbol_inj {o o' : Operator} : o.symbol = o'.symbol ↔ o = o' := by
  cases o <;> cases o' <;> decide

theorem not_isDigit_symbol (o : Operator) : o.symbol.isDigit = false := by
  cases o <;> rfl

/-- The rule for two expressions that the operator joins. -/
def proposal : Operator → Proposal
  | plus => ⟨"Expr", "(Expr) '+' (Expr)", Action.sum⟩
  | times => ⟨"Expr", "(Expr) '*' (Expr)", Action.product⟩

theorem lhs_proposal (o : Operator) : o.proposal.lhs = "Expr" := by
  cases o <;> rfl

def tokens (o : Operator) : List Token :=
  [⟨.name "Expr", .once, true⟩, ⟨.char o.symbol, .once, false⟩, ⟨.name "Expr", .once, true⟩]

end Operator

def parentheses : Proposal :=
  ⟨"Expr", "'(' (Expr) ')'", Action.first⟩

def parenthesesTokens : List Token :=
  [⟨.char '(', .once, false⟩, ⟨.name "Expr", .once, true⟩, ⟨.char ')', .once, false⟩]

/-- A number is an expression. -/
def promotion : Proposal :=
  ⟨"Expr", "(Num)", Action.first⟩

def promotionTokens : List Token :=
  [⟨.name "Num", .once, true⟩]

def numeral : Proposal :=
  ⟨"Num", "('[0-9]'+)", Action.number⟩

def digit : Atom :=
  .charSet (.ofRange '0' '9')

def numeralTokens : List Token :=
  [⟨digit, .oneOrMore, true⟩]

/-- The grammar of expressions, with its operators in the order in which they are declared. -/
def grammar (earlier later : Operator) : Grammar :=
  (Grammar.ofStart "Expr").afterCalls
    [earlier.proposal, later.proposal, parentheses, promotion, numeral]

theorem validate_grammar (earlier later : Operator) :
    (grammar earlier later).validate = .ok () := by
  cases earlier <;> cases later <;> decide +kernel

def calculator (earlier later : Operator) (settings : Settings) : Parser :=
  ⟨grammar earlier later, settings, validate_grammar earlier later⟩

/-! ### The rules -/

/-- The rule of a proposal whose pattern is read as the tokens. -/
def ruleOf (c : Proposal) (tokens : List Token) (ordinal : Nat) : Rule :=
  ⟨⟨c.lhs, ⟨c.pattern, tokens⟩, c.action⟩, ordinal⟩

/-- The rules for other things than operators, in the order in which they are tried. -/
def basicRules : List Rule :=
  [ruleOf numeral numeralTokens 5, ruleOf promotion promotionTokens 4,
    ruleOf parentheses parenthesesTokens 3]

theorem afterCalls_of_readItems (cs : List (Proposal × List Token))
    (h : ∀ x ∈ cs, readItems x.1.pattern.toList = .ok x.2) (g : Grammar) :
    g.afterCalls (cs.map Prod.fst) =
      ⟨g.start, g.declarations ++ cs.map fun x => ⟨x.1.lhs, ⟨x.1.pattern, x.2⟩, x.1.action⟩⟩ := by
  have hdeclared : ∀ x ∈ cs, (Proposal.declaration? ∘ Prod.fst) x =
      some ⟨x.1.lhs, ⟨x.1.pattern, x.2⟩, x.1.action⟩ := by
    intro x hx
    simp [Proposal.declaration?, h x hx]
  rw [Grammar.afterCalls_eq, List.filterMap_map, List.filterMap_congr hdeclared,
    List.filterMap_eq_map']

theorem readItems_operator (o : Operator) :
    readItems o.proposal.pattern.toList = .ok o.tokens := by
  cases o <;> decide +kernel

theorem readItems_parentheses : readItems parentheses.pattern.toList = .ok parenthesesTokens := by
  decide +kernel

theorem readItems_promotion : readItems promotion.pattern.toList = .ok promotionTokens := by
  decide +kernel

theorem readItems_numeral : readItems numeral.pattern.toList = .ok numeralTokens := by
  decide +kernel

theorem grammar_eq (earlier later : Operator) :
    grammar earlier later =
      ⟨"Expr",
        [⟨"Expr", ⟨earlier.proposal.pattern, earlier.tokens⟩, earlier.proposal.action⟩,
          ⟨"Expr", ⟨later.proposal.pattern, later.tokens⟩, later.proposal.action⟩,
          ⟨"Expr", ⟨parentheses.pattern, parenthesesTokens⟩, parentheses.action⟩,
          ⟨"Expr", ⟨promotion.pattern, promotionTokens⟩, promotion.action⟩,
          ⟨"Num", ⟨numeral.pattern, numeralTokens⟩, numeral.action⟩]⟩ := by
  have hcalls := afterCalls_of_readItems
    [(earlier.proposal, earlier.tokens), (later.proposal, later.tokens),
      (parentheses, parenthesesTokens), (promotion, promotionTokens), (numeral, numeralTokens)]
    (by simp [readItems_operator, readItems_parentheses, readItems_promotion, readItems_numeral])
    (.ofStart "Expr")
  refine hcalls.trans ?_
  cases earlier <;> cases later <;> rfl

theorem start_calculator (earlier later : Operator) (settings : Settings) :
    (calculator earlier later settings).grammar.start = "Expr" := by
  show (grammar earlier later).start = "Expr"
  rw [grammar_eq]

theorem rules_calculator (earlier later : Operator) {settings : Settings}
    (hpriority : settings.priority = .lastFirst) :
    (calculator earlier later settings).rules =
      basicRules ++
        [ruleOf later.proposal later.tokens 2, ruleOf earlier.proposal earlier.tokens 1] := by
  show settings.priority.arrange (grammar earlier later).rules = _
  rw [hpriority, grammar_eq]
  cases earlier <;> cases later <;> rfl

theorem isNullable_calculator (earlier later : Operator) {settings : Settings}
    (hpriority : settings.priority = .lastFirst) :
    ∀ rule ∈ (calculator earlier later settings).rules, rule.pattern.isNullable = false := by
  rw [rules_calculator earlier later hpriority]
  simp [basicRules, ruleOf, Pattern.isNullable, numeralTokens, promotionTokens, parenthesesTokens,
    Operator.tokens, Repetition.allowsZero]

/-! ### Where the rules match -/

@[simp]
theorem digit_accepts_char (c : Char) : digit.accepts (.char c) = c.isDigit := by
  have hcontains : (CharSet.ofRange '0' '9').contains c = c.isDigit := by
    rw [CharSet.ofRange, CharSet.contains_insertRange, CharSet.contains_empty, Bool.or_false]
    rfl
  have hnegated : (CharSet.ofRange '0' '9').negated = false := rfl
  show (CharSet.ofRange '0' '9').matchesChar c = c.isDigit
  rw [CharSet.matchesChar, hcontains, hnegated, Bool.bne_false]

theorem digit_accepts_symbol (o : Operator) : digit.accepts (.char o.symbol) = false := by
  rw [digit_accepts_char, o.not_isDigit_symbol]

theorem anchor_numeral : Anchor digit 0 numeralTokens :=
  .here rfl rfl

theorem anchor_promotion : Anchor (.name "Num") 0 promotionTokens :=
  .here rfl rfl

theorem anchor_parentheses : Anchor (.char '(') 0 parenthesesTokens :=
  .here rfl rfl

theorem anchor_operator (o : Operator) : Anchor (.char o.symbol) 1 o.tokens :=
  .after rfl (.here rfl rfl)

theorem find?_numeral {left right : List Entry} {ds : List Char}
    (hleft : ∀ e ∈ left, digit.accepts e = false) (hds : ds ≠ [])
    (hdigits : ∀ c ∈ ds, c.isDigit = true)
    (hright : ∀ e, right[0]? = some e → digit.accepts e = false) :
    Match.find? numeralTokens (left ++ (ds.map .char ++ right)) =
      some ⟨⟨left.length, left.length + (ds.map Entry.char).length⟩,
        [.string (String.ofList ds)]⟩ := by
  refine anchor_numeral.find?_eq (by simpa using hleft) ?_
  have hblock : Token.block ⟨digit, .oneOrMore, true⟩ (ds.map .char ++ right) = ds.map .char :=
    Token.block_append rfl (by simpa using hdigits) hright
  have hcount : 1 ≤ ds.length := List.length_pos_iff.2 hds
  have hblocks : blocks? numeralTokens (ds.map .char ++ right) = some [ds.map .char] := by
    simp [numeralTokens, blocks?, Token.block?, hblock, Repetition.accepts, hcount]
  have hcaptures : capturesOf numeralTokens [ds.map .char] = [.string (String.ofList ds)] := by
    simp [numeralTokens, capturesOf, Token.captures, digit, Atom.isTerminal, Entry.char?,
      List.filterMap_map, Function.comp_def]
  rw [Match.here?, hblocks, Option.map_some, hcaptures, List.flatten_singleton]

theorem here?_promotion (start : Nat) (v : Value) (right : List Entry) :
    Match.here? promotionTokens start ([.reduced "Num" v] ++ right) =
      some ⟨⟨start, start + 1⟩, [v]⟩ := by
  simp [promotionTokens, Match.here?, blocks?, Token.block?, Token.block, Repetition.accepts,
    Repetition.allowsMany, capturesOf, Token.captures, Atom.isTerminal, Atom.accepts,
    Atom.acceptsSymbol, Entry.value?]

theorem here?_parentheses (start : Nat) (v : Value) (right : List Entry) :
    Match.here? parenthesesTokens start
        ([.char '(', .reduced "Expr" v, .char ')'] ++ right) =
      some ⟨⟨start, start + 3⟩, [v]⟩ := by
  simp [parenthesesTokens, Match.here?, blocks?, Token.block?, Token.block, Repetition.accepts,
    Repetition.allowsMany, capturesOf, Token.captures, Atom.isTerminal, Atom.accepts,
    Atom.acceptsSymbol, Atom.acceptsChar, Entry.value?]

theorem here?_operator (o : Operator) (start : Nat) (u v : Value) (right : List Entry) :
    Match.here? o.tokens start
        ([.reduced "Expr" u, .char o.symbol, .reduced "Expr" v] ++ right) =
      some ⟨⟨start, start + 3⟩, [u, v]⟩ := by
  simp [Operator.tokens, Match.here?, blocks?, Token.block?, Token.block, Repetition.accepts,
    Repetition.allowsMany, capturesOf, Token.captures, Atom.isTerminal, Atom.accepts,
    Atom.acceptsSymbol, Atom.acceptsChar, Entry.value?]

theorem find?_promotion {left right : List Entry} {v : Value}
    (hleft : ∀ e ∈ left, (Atom.name "Num").accepts e = false) :
    Match.find? promotionTokens (left ++ ([.reduced "Num" v] ++ right)) =
      some ⟨⟨left.length, left.length + 1⟩, [v]⟩ :=
  anchor_promotion.find?_eq (by simpa using hleft) (here?_promotion ..)

theorem find?_operator {o : Operator} {left right : List Entry} {u v : Value}
    (hleft : ∀ e ∈ left, (Atom.char o.symbol).accepts e = false) :
    Match.find? o.tokens
        (left ++ ([.reduced "Expr" u, .char o.symbol, .reduced "Expr" v] ++ right)) =
      some ⟨⟨left.length, left.length + 3⟩, [u, v]⟩ := by
  refine (anchor_operator o).find?_eq ?_ (here?_operator ..)
  intro e he
  rcases List.mem_append.1 he with he | he
  · exact hleft e he
  · obtain rfl : e = .reduced "Expr" u := by simpa using he
    rfl

/-! ### What the actions give -/

def number (v : Int) : Value :=
  .int (.ofInt v)

theorem operator_action (o : Operator) (u v : Int) :
    o.proposal.action [number u, number v] = .ok (number (o.onInt u v)) := by
  cases o with
  | plus =>
    show Except.ok (Value.int (.ofInt u + .ofInt v)) = _
    rw [← Int64.ofInt_add]
    rfl
  | times =>
    show Except.ok (Value.int (.ofInt u * .ofInt v)) = _
    rw [← Int64.ofInt_mul]
    rfl

/-- The decimal digits of a number that a word of 64 bits holds. -/
structure Numeral where
  digits : List Char
  ne_nil : digits ≠ []
  isDigit : ∀ c ∈ digits, c.isDigit = true
  fits : digitsValue digits < 0x8000000000000000

def Numeral.value (a : Numeral) : Int :=
  digitsValue a.digits

theorem numeral_action (a : Numeral) :
    numeral.action [.string (String.ofList a.digits)] = .ok (number a.value) := by
  have hfits : -0x8000000000000000 ≤ a.value ∧ a.value < 0x8000000000000000 := by
    have hlt := a.fits
    unfold Numeral.value
    omega
  have hform : DecimalForm a.digits a.value := by
    rw [Numeral.value, digitsValue_eq_weightedSum]
    exact .unsigned a.ne_nil a.isDigit
  have hword : int64? a.value = some (.ofInt a.value) := if_pos hfits
  have hparse : (Value.string (String.ofList a.digits)).parseInt = .ok (.ofInt a.value) := by
    rw [Value.parseInt_string_eq_ok_iff, String.toList_ofList]
    exact readInt64?_eq_some_iff.2 ⟨_, hform.integerText, int64?_eq_some_iff.1 hword⟩
  show (Value.string (String.ofList a.digits)).parseInt.map Value.int = _
  rw [hparse]
  rfl

end ReductionGrammar.Arithmetic
