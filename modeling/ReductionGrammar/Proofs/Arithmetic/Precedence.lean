import ReductionGrammar.Proofs.Arithmetic.Calculator

/-!
# Precedence comes from the order of declaration

A run on numbers with operators between them goes through four phases: it reads all numerals, it
turns all numbers into expressions, it reduces the operator declared later wherever it stands, and
then the one declared earlier. Each phase goes through the buffer from the left, and no rule that is
tried before those of the phase matches while it lasts. Main statement: the result of the whole run.
-/

namespace ReductionGrammar.Arithmetic

/-- The text of numerals with operators between them. -/
def text (first : Numeral) (rest : List (Operator × Numeral)) : String :=
  String.ofList (first.digits ++ rest.flatMap fun x => x.1.symbol :: x.2.digits)

def values (rest : List (Operator × Numeral)) : List (Operator × Int) :=
  rest.map fun x => (x.1, x.2.value)

/-! ### Rows of entries -/

def Numeral.entries (a : Numeral) : List Entry :=
  a.digits.map .char

def num (v : Int) : Entry :=
  .reduced "Num" (number v)

def expr (v : Int) : Entry :=
  .reduced "Expr" (number v)

section Row

variable {α : Type}

/-- Operators, each with the entries that stand for the operand after it. -/
def tail (f : α → List Entry) (rest : List (Operator × α)) : List Entry :=
  rest.flatMap fun x => .char x.1.symbol :: f x.2

theorem tail_cons (f : α → List Entry) (x : Operator × α) (rest : List (Operator × α)) :
    tail f (x :: rest) = .char x.1.symbol :: (f x.2 ++ tail f rest) :=
  List.flatMap_cons

theorem tail_map {β : Type} (f : β → List Entry) (g : α → β) (rest : List (Operator × α)) :
    tail f (rest.map fun x => (x.1, g x.2)) = tail (fun a => f (g a)) rest :=
  List.flatMap_map ..

theorem mem_tail {f : α → List Entry} {rest : List (Operator × α)} {e : Entry}
    (h : e ∈ tail f rest) : ∃ x ∈ rest, e = .char x.1.symbol ∨ e ∈ f x.2 := by
  obtain ⟨x, hx, he⟩ := List.mem_flatMap.1 h
  exact ⟨x, hx, List.mem_cons.1 he⟩

theorem head_tail {f : α → List Entry} {rest : List (Operator × α)} {e : Entry}
    (h : (tail f rest)[0]? = some e) : ∃ o : Operator, e = .char o.symbol := by
  cases rest with
  | nil => cases h
  | cons x rest =>
    rw [tail_cons, List.getElem?_cons_zero, Option.some.injEq] at h
    exact ⟨x.1, h.symm⟩

end Row

/-- The entries of a buffer in which only operands and some of the operators are left. -/
inductive InRow (allowed : Operator → Prop) : Entry → Prop where
  | operand (v : Int) : InRow allowed (expr v)
  | operator (o : Operator) (h : allowed o) : InRow allowed (.char o.symbol)

theorem InRow.mono {allowed allowed' : Operator → Prop} (h : ∀ o, allowed o → allowed' o)
    {e : Entry} (he : InRow allowed e) : InRow allowed' e := by
  cases he with
  | operand v => exact .operand v
  | operator o ho => exact .operator o (h o ho)

theorem InRow.not_accepts {allowed : Operator → Prop} {a : Atom}
    (hexpr : a.acceptsSymbol "Expr" = false)
    (hsymbol : ∀ o, allowed o → a.accepts (.char o.symbol) = false) {e : Entry}
    (he : InRow allowed e) : a.accepts e = false := by
  cases he with
  | operand v => exact hexpr
  | operator o ho => exact hsymbol o ho

/-- An expression and, after their operators, others. -/
def row (v : Int) (rest : List (Operator × Int)) : List Entry :=
  expr v :: tail (fun w => [expr w]) rest

theorem row_cons (v : Int) (o : Operator) (w : Int) (rest : List (Operator × Int)) :
    row v ((o, w) :: rest) = expr v :: .char o.symbol :: row w rest :=
  rfl

theorem inRow_row {allowed : Operator → Prop} {rest : List (Operator × Int)}
    (h : ∀ x ∈ rest, allowed x.1) (v : Int) : ∀ e ∈ row v rest, InRow allowed e := by
  intro e he
  rcases List.mem_cons.1 he with rfl | he
  · exact .operand v
  · obtain ⟨x, hx, rfl | he⟩ := mem_tail he
    · exact .operator x.1 (h x hx)
    · rw [List.mem_singleton.1 he]
      exact .operand x.2

/-! ### A phase over the operands -/

section Phases

variable {p : Parser} {input : String}

/-- If every operand can be reduced as soon as those before it have been, all of them are. -/
theorem reaches_operands {α : Type} {f : α → List Entry} {g : α → Entry} {P : Entry → Prop}
    (hsymbol : ∀ o : Operator, P (.char o.symbol)) (hoperand : ∀ a, P (g a))
    (hstep : ∀ (k : Nat) (left : List Entry) (a : α) (rest : List (Operator × α)),
      (∀ e ∈ left, P e) → p.Reaches input k ⟨left ++ (f a ++ tail f rest)⟩ →
        p.Reaches input (k + 1) ⟨left ++ g a :: tail f rest⟩)
    {k : Nat} {left : List Entry} {first : α} {rest : List (Operator × α)}
    (hleft : ∀ e ∈ left, P e) (h : p.Reaches input k ⟨left ++ (f first ++ tail f rest)⟩) :
    p.Reaches input (k + (rest.length + 1)) ⟨left ++ g first :: tail (fun a => [g a]) rest⟩ := by
  induction rest generalizing k left first with
  | nil => exact hstep k left first [] hleft h
  | cons x rest ih =>
    have hnext := hstep k left first (x :: rest) hleft h
    -- the induction goes on behind the first operand and the operator after it
    have hdone : ∀ e ∈ [g first, .char x.1.symbol], P e :=
      List.forall_mem_cons.2 ⟨hoperand first, List.forall_mem_singleton.2 (hsymbol x.1)⟩
    have hsplit : ∀ es, left ++ g first :: .char x.1.symbol :: es =
        left ++ [g first, .char x.1.symbol] ++ es := by simp
    rw [tail_cons, hsplit] at hnext
    have hrest := ih (List.forall_mem_append.2 ⟨hleft, hdone⟩) hnext
    rw [← hsplit] at hrest
    rw [List.length_cons, ← Nat.add_assoc, Nat.add_right_comm, tail_cons]
    exact hrest

/-! ### A phase over one of the operators -/

section Operators

variable {o : Operator} {n : Nat} {before after : List Rule} {allowed : Operator → Prop} {k : Nat}
  {left : List Entry} {v : Int} {rest : List (Operator × Int)}

/-- The rules tried before that of the operator match no row, so that the operator is reduced where
it stands first. -/
theorem reaches_operator (hrules : p.rules = before ++ ruleOf o.proposal o.tokens n :: after)
    (hbefore : ∀ b : Buffer, (∀ e ∈ b.entries, InRow allowed e) →
      ∀ rule ∈ before, ¬rule.Matches b)
    (hleft : ∀ e ∈ left, InRow (fun o' => allowed o' ∧ o' ≠ o) e) {w : Int}
    (hrest : ∀ x ∈ (o, w) :: rest, allowed x.1)
    (h : p.Reaches input k ⟨left ++ row v ((o, w) :: rest)⟩) :
    p.Reaches input (k + 1) ⟨left ++ row (o.onInt v w) rest⟩ := by
  have hrow : ∀ e ∈ left ++ row v ((o, w) :: rest), InRow allowed e :=
    List.forall_mem_append.2 ⟨fun e he => (hleft e he).mono fun _ => And.left, inRow_row hrest v⟩
  have hsymbol : ∀ e ∈ left, (Atom.char o.symbol).accepts e = false := fun e he =>
    (hleft e he).not_accepts rfl fun o' ho' => by
      simpa [Atom.accepts, Atom.acceptsChar, Operator.symbol_inj] using Ne.symm ho'.2
  have hfound : row v ((o, w) :: rest) =
      [expr v, .char o.symbol, expr w] ++ tail (fun w => [expr w]) rest := rfl
  rw [hfound] at h hrow
  have hnext := h.reduce hrules (hbefore _ hrow) (find?_operator hsymbol) (operator_action o v w)
  have hlhs : (ruleOf o.proposal o.tokens n).lhs = "Expr" := o.lhs_proposal
  rw [hlhs] at hnext
  exact hnext

theorem reaches_contract (hrules : p.rules = before ++ ruleOf o.proposal o.tokens n :: after)
    (hbefore : ∀ b : Buffer, (∀ e ∈ b.entries, InRow allowed e) →
      ∀ rule ∈ before, ¬rule.Matches b)
    (hleft : ∀ e ∈ left, InRow (fun o' => allowed o' ∧ o' ≠ o) e) (hrest : ∀ x ∈ rest, allowed x.1)
    (h : p.Reaches input k ⟨left ++ row v rest⟩) :
    p.Reaches input (k + rest.countP (·.1 = o))
      ⟨left ++ row (contract o v rest).1 (contract o v rest).2⟩ := by
  induction rest generalizing k left v with
  | nil => exact h
  | cons x rest ih =>
    obtain ⟨o', w⟩ := x
    obtain ⟨ho', htail⟩ := List.forall_mem_cons.1 hrest
    by_cases ho : o' = o
    · subst ho
      have hnext := ih hleft htail (reaches_operator hrules hbefore hleft hrest h)
      rw [List.countP_cons_of_pos (by simp), contract, if_pos rfl, Nat.add_comm _ 1,
        ← Nat.add_assoc]
      exact hnext
    · -- the operand and its operator stay where they are, and the rest of the row is next
      have hdone : ∀ e ∈ [expr v, .char o'.symbol], InRow (fun o' => allowed o' ∧ o' ≠ o) e :=
        List.forall_mem_cons.2 ⟨.operand v, List.forall_mem_singleton.2 (.operator o' ⟨ho', ho⟩)⟩
      have hsplit : ∀ u es, left ++ row v ((o', u) :: es) =
          left ++ [expr v, .char o'.symbol] ++ row u es := by simp [row_cons]
      rw [hsplit] at h
      have hnext := ih (List.forall_mem_append.2 ⟨hleft, hdone⟩) htail h
      rw [← hsplit] at hnext
      rw [List.countP_cons_of_neg (by simpa using ho), contract, if_neg ho]
      exact hnext

end Operators

end Phases

/-! ### A whole run -/

section Run

variable {earlier later : Operator} {settings : Settings} {input : String} {k : Nat}

/-- The basic rules match no buffer in which only expressions and operators are left. -/
theorem not_matches_row {allowed : Operator → Prop} {b : Buffer}
    (h : ∀ e ∈ b.entries, InRow allowed e) :
    ∀ rule ∈ basicRules, ¬rule.Matches b := by
  have hdigit : ∀ e ∈ b.entries, digit.accepts e = false := fun e he =>
    (h e he).not_accepts rfl fun o _ => digit_accepts_symbol o
  have hnum : ∀ e ∈ b.entries, (Atom.name "Num").accepts e = false := fun e he =>
    (h e he).not_accepts rfl fun _ _ => rfl
  have hopen : ∀ e ∈ b.entries, (Atom.char '(').accepts e = false := fun e he =>
    (h e he).not_accepts rfl fun o _ => by cases o <;> rfl
  intro rule hrule
  simp only [basicRules, List.mem_cons, List.not_mem_nil, or_false] at hrule
  rcases hrule with rfl | rfl | rfl
  · exact anchor_numeral.not_matches hdigit
  · exact anchor_promotion.not_matches hnum
  · exact anchor_parentheses.not_matches hopen

theorem reaches_numerals (hpriority : settings.priority = .lastFirst) (first : Numeral)
    (rest : List (Operator × Numeral)) :
    (calculator earlier later settings).Reaches (text first rest) (rest.length + 1)
      ⟨num first.value :: tail (fun a => [num a.value]) rest⟩ := by
  have hrules : (calculator earlier later settings).rules =
      [] ++ ruleOf numeral numeralTokens 5 :: _ :=
    rules_calculator earlier later hpriority
  have hstart : Buffer.ofInput (text first rest) =
      ⟨[] ++ (first.entries ++ tail Numeral.entries rest)⟩ := by
    simp [Buffer.ofInput, text, tail, Numeral.entries, List.map_flatMap]
  have h : (calculator earlier later settings).Reaches (text first rest) 0
      ⟨[] ++ (first.entries ++ tail Numeral.entries rest)⟩ := by
    rw [← hstart]
    exact .start
  have hdone := reaches_operands (P := fun e => digit.accepts e = false) (g := fun a => num a.value)
    digit_accepts_symbol (fun a => rfl) ?_ (by simp) h
  · rw [Nat.zero_add] at hdone
    exact hdone
  · intro k left a rest hleft h
    have hright : ∀ e, (tail Numeral.entries rest)[0]? = some e → digit.accepts e = false := by
      intro e he
      obtain ⟨o, rfl⟩ := head_tail he
      exact digit_accepts_symbol o
    exact h.reduce hrules (by simp) (find?_numeral hleft a.ne_nil a.isDigit hright)
      (numeral_action a)

theorem reaches_expressions (hpriority : settings.priority = .lastFirst) {first : Int}
    {rest : List (Operator × Int)}
    (h : (calculator earlier later settings).Reaches input k
      ⟨num first :: tail (fun v => [num v]) rest⟩) :
    (calculator earlier later settings).Reaches input (k + (rest.length + 1)) ⟨row first rest⟩ := by
  have hrules : (calculator earlier later settings).rules =
      [ruleOf numeral numeralTokens 5] ++ ruleOf promotion promotionTokens 4 :: _ :=
    rules_calculator earlier later hpriority
  rw [← List.nil_append (num first :: _)] at h
  refine reaches_operands (P := InRow fun _ => True) (f := fun v => [num v])
    (fun o => .operator o trivial) InRow.operand ?_ (by simp) h
  intro k left v rest hleft h
  have htail : ∀ e ∈ tail (fun v => [num v]) rest, digit.accepts e = false := by
    intro e he
    obtain ⟨x, -, rfl | he⟩ := mem_tail he
    · exact digit_accepts_symbol x.1
    · rw [List.mem_singleton.1 he]
      rfl
  have hdigit : ∀ e ∈ left ++ ([num v] ++ tail (fun v => [num v]) rest),
      digit.accepts e = false :=
    List.forall_mem_append.2
      ⟨fun e he => (hleft e he).not_accepts rfl fun o _ => digit_accepts_symbol o,
        List.forall_mem_cons.2 ⟨rfl, htail⟩⟩
  exact h.reduce hrules (List.forall_mem_singleton.2 (anchor_numeral.not_matches hdigit))
    (find?_promotion fun e he => (hleft e he).not_accepts rfl fun _ _ => rfl) rfl

theorem reaches_chains {o : Operator} (hpriority : settings.priority = .lastFirst) {first : Int}
    {rest : List (Operator × Int)}
    (h : (calculator o.other o settings).Reaches input k ⟨row first rest⟩) :
    (calculator o.other o settings).Reaches input (k + rest.length)
      ⟨[expr (o.other.ofChain ((chains o first rest).map o.ofChain))]⟩ := by
  have hlater : (calculator o.other o settings).rules =
      basicRules ++ ruleOf o.proposal o.tokens 2 :: _ :=
    rules_calculator o.other o hpriority
  have hearlier : (calculator o.other o settings).rules =
      (basicRules ++ [ruleOf o.proposal o.tokens 2]) ++
        ruleOf o.other.proposal o.other.tokens 1 :: [] :=
    rules_calculator o.other o hpriority
  have hcontracted : (calculator o.other o settings).Reaches input (k + rest.countP (·.1 = o))
      ⟨[] ++ row (contract o first rest).1 (contract o first rest).2⟩ :=
    reaches_contract hlater
      (fun b (hb : ∀ e ∈ b.entries, InRow (fun _ => True) e) => not_matches_row hb) (by simp)
      (by simp) h
  -- what is left has the earlier operator only, so that the rule of the later one is out
  have hoperators := operators_contract o first rest
  have hbefore : ∀ b : Buffer, (∀ e ∈ b.entries, InRow (· = o.other) e) →
      ∀ rule ∈ basicRules ++ [ruleOf o.proposal o.tokens 2], ¬rule.Matches b := by
    intro b hb
    have hsymbol : ∀ e ∈ b.entries, (Atom.char o.symbol).accepts e = false := fun e he =>
      (hb e he).not_accepts rfl fun o' ho' => by cases o <;> subst ho' <;> rfl
    exact List.forall_mem_append.2
      ⟨not_matches_row hb, List.forall_mem_singleton.2 ((anchor_operator o).not_matches hsymbol)⟩
  have hjoined := reaches_contract hearlier hbefore (by simp) hoperators hcontracted
  have hcount :
      (contract o first rest).2.countP (·.1 = o.other) = (contract o first rest).2.length :=
    List.countP_eq_length.2 (by simpa using hoperators)
  have hlength := length_contract o first rest
  rw [contract_contract, hcount, Nat.add_assoc, Nat.add_comm (List.countP ..), hlength] at hjoined
  exact hjoined

theorem irreducible_expr (earlier later : Operator) (hpriority : settings.priority = .lastFirst)
    (v : Int) : (calculator earlier later settings).Irreducible ⟨[expr v]⟩ := by
  have hrow : ∀ e ∈ [expr v], InRow (fun _ => False) e :=
    List.forall_mem_singleton.2 (.operand v)
  have hsymbol : ∀ o : Operator, ∀ e ∈ [expr v], (Atom.char o.symbol).accepts e = false :=
    fun o => List.forall_mem_singleton.2 rfl
  have hnone : ∀ rule ∈ (calculator earlier later settings).rules, ¬rule.Matches ⟨[expr v]⟩ := by
    rw [rules_calculator earlier later hpriority]
    exact List.forall_mem_append.2 ⟨not_matches_row hrow,
      List.forall_mem_cons.2 ⟨(anchor_operator later).not_matches (hsymbol later),
        List.forall_mem_singleton.2 ((anchor_operator earlier).not_matches (hsymbol earlier))⟩⟩
  exact fun rule hrule => hnone rule (Parser.mem_rules.2 hrule)

/-- The result of a run: the chains of the operator declared later, each by itself, joined by the
one declared earlier. -/
theorem parse_text {o : Operator} (hpriority : settings.priority = .lastFirst) (first : Numeral)
    (rest : List (Operator × Numeral))
    (hroom : 3 * (rest.length + 1) - 1 ≤ settings.maxReductions) :
    (calculator o.other o settings).parse (text first rest) =
      .ok (.accepted (number
        (o.other.ofChain ((chains o first.value (values rest)).map o.ofChain)))) := by
  have hnumerals : (calculator o.other o settings).Reaches (text first rest) (rest.length + 1)
      ⟨num first.value :: tail (fun v => [num v]) (values rest)⟩ := by
    rw [values, tail_map]
    exact reaches_numerals hpriority first rest
  have hdone := reaches_chains hpriority (reaches_expressions hpriority hnumerals)
  have hlength : (values rest).length = rest.length := List.length_map ..
  rw [hdone.parse_eq (by show _ ≤ settings.maxReductions; omega)
    (irreducible_expr o.other o hpriority _) (isNullable_calculator o.other o hpriority),
    start_calculator]
  rfl

end Run

/-- The operator declared later binds tighter: with products declared after sums every chain of
products is multiplied and the results are added, and the other way round. Integers wrap around. -/
theorem precedence_reversed {settings : Settings} (hpriority : settings.priority = .lastFirst)
    (first : Numeral) (rest : List (Operator × Numeral))
    (hroom : 3 * (rest.length + 1) - 1 ≤ settings.maxReductions) :
    (calculator .plus .times settings).parse (text first rest) =
        .ok (.accepted (.int (.ofInt
          ((chains .times first.value (values rest)).map List.prod).sum))) ∧
      (calculator .times .plus settings).parse (text first rest) =
        .ok (.accepted (.int (.ofInt
          ((chains .plus first.value (values rest)).map List.sum).prod))) :=
  ⟨parse_text (o := .times) hpriority first rest hroom,
    parse_text (o := .plus) hpriority first rest hroom⟩

def two : Numeral :=
  ⟨['2'], by decide, List.forall_mem_singleton.2 rfl, by decide⟩

def five : Numeral :=
  ⟨['5'], by decide, List.forall_mem_singleton.2 rfl, by decide⟩

def six : Numeral :=
  ⟨['6'], by decide, List.forall_mem_singleton.2 rfl, by decide⟩

theorem precedence_reversed_mixed :
    (calculator .plus .times {}).parse "2*5+2*6" = .ok (.accepted (.int 22)) ∧
      (calculator .times .plus {}).parse "2*5+2*6" = .ok (.accepted (.int 84)) := by
  have htext : text two [(.times, five), (.plus, two), (.times, six)] = "2*5+2*6" := by
    decide +kernel
  have hboth := precedence_reversed (rfl : ({} : Settings).priority = .lastFirst) two
    [(.times, five), (.plus, two), (.times, six)] (by decide)
  rw [htext] at hboth
  exact hboth

end ReductionGrammar.Arithmetic
