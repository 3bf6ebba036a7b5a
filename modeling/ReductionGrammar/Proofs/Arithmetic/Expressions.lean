import ReductionGrammar.Proofs.Arithmetic.Calculator

/-!
# Expressions

The language of expressions, and the shape that a run keeps while it reduces one. Read from the
left, the entries so far await an operand, or what may follow one; parentheses that are still open
are counted. In a row of entries of this shape without digits, the entries after the last opening
parenthesis begin with a part that a rule reduces.
-/

namespace ReductionGrammar.Arithmetic

/-- Digits, expressions with an operator between them, or an expression in parentheses. -/
inductive Expression : List Char → Prop where
  | numeral {ds : List Char} (hds : ds ≠ []) (hdigits : ∀ c ∈ ds, c.isDigit = true) :
      Expression ds
  | operation {s t : List Char} (o : Operator) (hs : Expression s) (ht : Expression t) :
      Expression (s ++ o.symbol :: t)
  | parentheses {s : List Char} (hs : Expression s) : Expression ('(' :: (s ++ [')']))

/-- What the entries so far await, within so many open parentheses. -/
inductive Awaiting where
  | operand (depth : Nat)
  /-- After a digit: another one, or what follows an operand. -/
  | numeral (depth : Nat)
  /-- After an operand: an operator, or a parenthesis that closes. -/
  | operator (depth : Nat)

namespace Awaiting

inductive Next : Awaiting → Entry → Awaiting → Prop where
  | digit {d : Nat} {c : Char} (hc : c.isDigit = true) : Next (operand d) (.char c) (numeral d)
  | more {d : Nat} {c : Char} (hc : c.isDigit = true) : Next (numeral d) (.char c) (numeral d)
  | reduced (d : Nat) (symbol : String) (value : Value) :
      Next (operand d) (.reduced symbol value) (operator d)
  | opened {d : Nat} {c : Char} (hc : c = '(') : Next (operand d) (.char c) (operand (d + 1))
  | closed {d : Nat} {c : Char} (hc : c = ')') : Next (operator (d + 1)) (.char c) (operator d)
  | joined {d : Nat} {c : Char} {o : Operator} (hc : c = o.symbol) :
      Next (operator d) (.char c) (operand d)
  | ended {d : Nat} {e : Entry} {q : Awaiting} (h : Next (operator d) e q) : Next (numeral d) e q

/-- The entries lead from the one to the other. -/
inductive Reads : Awaiting → List Entry → Awaiting → Prop where
  | nil {p : Awaiting} : Reads p [] p
  | cons {p q r : Awaiting} {e : Entry} {es : List Entry} (head : p.Next e q)
      (tail : q.Reads es r) : Reads p (e :: es) r

/-- An operand within so many parentheses may end here. -/
def Ends (d : Nat) (q : Awaiting) : Prop :=
  q = operator d ∨ q = numeral d

theorem Ends.next {d : Nat} {q r : Awaiting} {e : Entry} (hq : q.Ends d)
    (h : (operator d).Next e r) : q.Next e r := by
  rcases hq with rfl | rfl
  · exact h
  · exact .ended h

theorem reads_append_iff {p r : Awaiting} {left right : List Entry} :
    p.Reads (left ++ right) r ↔ ∃ q, p.Reads left q ∧ q.Reads right r := by
  induction left generalizing p with
  | nil =>
    constructor
    · intro h
      exact ⟨p, .nil, h⟩
    · intro h
      obtain ⟨q, hleft, hright⟩ := h
      cases hleft
      exact hright
  | cons e left ih =>
    constructor
    · intro h
      cases h with
      | cons head tail =>
        obtain ⟨q, hleft, hright⟩ := ih.1 tail
        exact ⟨q, .cons head hleft, hright⟩
    · intro h
      obtain ⟨q, hleft, hright⟩ := h
      cases hleft with
      | cons head tail => exact .cons head (ih.2 ⟨q, tail, hright⟩)

theorem Reads.append {p q r : Awaiting} {left right : List Entry} (hleft : p.Reads left q)
    (hright : q.Reads right r) : p.Reads (left ++ right) r :=
  reads_append_iff.2 ⟨q, hleft, hright⟩

theorem reads_digits (d : Nat) {ds : List Char} (hdigits : ∀ c ∈ ds, c.isDigit = true) :
    (numeral d).Reads (ds.map .char) (numeral d) := by
  induction ds with
  | nil => exact .nil
  | cons c ds ih =>
    obtain ⟨hc, hds⟩ := List.forall_mem_cons.1 hdigits
    exact .cons (.more hc) (ih hds)

theorem Next.of_reduced {p q : Awaiting} {symbol : String} {v : Value}
    (h : p.Next (.reduced symbol v) q) : ∃ d, p = operand d ∧ q = operator d := by
  cases h with
  | reduced d => exact ⟨d, rfl, rfl⟩
  | ended h => cases h

theorem Next.of_operator {d : Nat} {e : Entry} {q : Awaiting} (h : (operator d).Next e q) :
    (e = .char ')' ∧ ∃ k, d = k + 1 ∧ q = operator k) ∨
      ((∃ o : Operator, e = .char o.symbol) ∧ q = operand d) := by
  cases h with
  | closed hc => exact .inl ⟨congrArg Entry.char hc, _, rfl, rfl⟩
  | joined hc => exact .inr ⟨⟨_, congrArg Entry.char hc⟩, rfl⟩

theorem not_next_operator {d : Nat} {c : Char} {q : Awaiting} (hclose : c ≠ ')')
    (hsymbol : ∀ o : Operator, c ≠ o.symbol) : ¬(operator d).Next (.char c) q := by
  intro h
  rcases h.of_operator with ⟨hc, -⟩ | ⟨⟨o, hc⟩, -⟩
  · exact hclose (Entry.char.inj hc)
  · exact hsymbol o (Entry.char.inj hc)

theorem Next.of_digit {p q : Awaiting} {c : Char} (hdigit : c.isDigit = true)
    (h : p.Next (.char c) q) : ∃ d, (p = operand d ∨ p = numeral d) ∧ q = numeral d := by
  have hoperator : ∀ d, ¬(operator d).Next (.char c) q := by
    intro d
    refine not_next_operator ?_ fun o => ?_
    · rintro rfl
      cases hdigit
    · rintro rfl
      rw [o.not_isDigit_symbol] at hdigit
      cases hdigit
  cases h with
  | digit => exact ⟨_, .inl rfl, rfl⟩
  | more => exact ⟨_, .inr rfl, rfl⟩
  | opened hc =>
    rw [hc] at hdigit
    cases hdigit
  | closed hc => exact absurd (.closed hc) (hoperator _)
  | joined hc => exact absurd (.joined hc) (hoperator _)
  | ended h => exact absurd h (hoperator _)

theorem Next.of_open {p q : Awaiting} (h : p.Next (.char '(') q) :
    ∃ d, p = operand d ∧ q = operand (d + 1) := by
  have hoperator : ∀ d, ¬(operator d).Next (.char '(') q := by
    intro d
    refine not_next_operator (by decide) fun o => ?_
    cases o <;> decide
  cases h with
  | digit hc | more hc => cases hc
  | opened => exact ⟨_, rfl, rfl⟩
  | closed hc => exact absurd (.closed hc) (hoperator _)
  | joined hc => exact absurd (.joined hc) (hoperator _)
  | ended h => exact absurd h (hoperator _)

/-! ### Rows of entries that are an operand -/

theorem Reads.of_digits {p q : Awaiting} {ds : List Char} (hds : ds ≠ [])
    (hdigits : ∀ c ∈ ds, c.isDigit = true) (h : p.Reads (ds.map .char) q) :
    ∃ d, (p = operand d ∨ p = numeral d) ∧ q = numeral d := by
  induction ds generalizing p with
  | nil => exact absurd rfl hds
  | cons c ds ih =>
    obtain ⟨hc, hrest⟩ := List.forall_mem_cons.1 hdigits
    cases h with
    | cons head tail =>
      obtain ⟨d, hp, rfl⟩ := head.of_digit hc
      refine ⟨d, hp, ?_⟩
      by_cases hnil : ds = []
      · subst hnil
        cases tail
        rfl
      · obtain ⟨k, hk, rfl⟩ := ih hnil hrest tail
        rcases hk with hk | hk
        · cases hk
        · cases hk
          rfl

/-- Without digits, nothing awaits more of them. -/
theorem Reads.ne_numeral {p q : Awaiting} {es : List Entry} (h : p.Reads es q)
    (hdigit : ∀ c, .char c ∈ es → c.isDigit = false) (hp : ∀ d, p ≠ numeral d) (d : Nat) :
    q ≠ numeral d := by
  induction h with
  | nil => exact hp d
  | @cons p r q e es head tail ih =>
    refine ih (fun c hc => hdigit c (List.mem_cons_of_mem _ hc)) fun k hk => ?_
    subst hk
    cases head with
    | digit hc | more hc =>
      rw [hdigit _ (List.mem_cons_self ..)] at hc
      cases hc
    | ended => exact hp _ rfl

/-- Before what is no digit a numeral has ended. -/
theorem Reads.ended {d k : Nat} {q : Awaiting} {es : List Entry} (h : (numeral d).Reads es q)
    (hes : ∀ c, es[0]? = some (.char c) → c.isDigit = false) (hq : q.Ends k) :
    ∃ r, (operator d).Reads es r ∧ r.Ends k := by
  cases h with
  | nil =>
    rcases hq with hq | hq
    all_goals cases hq
    exact ⟨operator d, .nil, .inl rfl⟩
  | @cons _ r _ e es head tail =>
    cases head with
    | more hc =>
      rw [hes _ rfl] at hc
      cases hc
    | ended h => exact ⟨q, .cons h tail, hq⟩

theorem Reads.of_reduced {p q : Awaiting} {symbol : String} {v : Value}
    (h : p.Reads [.reduced symbol v] q) : ∃ d, p = operand d ∧ q = operator d := by
  cases h with
  | cons head tail =>
    cases tail
    exact head.of_reduced

theorem Reads.of_parentheses {p q : Awaiting} {symbol : String} {v : Value}
    (h : p.Reads [.char '(', .reduced symbol v, .char ')'] q) :
    ∃ d, p = operand d ∧ q = operator d := by
  cases h with
  | cons hopen tail =>
    obtain ⟨d, rfl, rfl⟩ := hopen.of_open
    obtain ⟨r, hinner, hclose⟩ : ∃ r, (operand (d + 1)).Reads [.reduced symbol v] r ∧
        r.Reads [.char ')'] q := reads_append_iff.1 tail
    obtain ⟨k, hk, rfl⟩ := hinner.of_reduced
    cases hk
    cases hclose with
    | cons head tail =>
      cases tail
      rcases head.of_operator with ⟨-, k, hk, rfl⟩ | ⟨⟨o, ho⟩, -⟩
      · cases hk
        exact ⟨d, rfl, rfl⟩
      · cases o <;> cases ho

theorem Reads.of_operation {p q : Awaiting} {symbol symbol' : String} {u v : Value} {o : Operator}
    (h : p.Reads [.reduced symbol u, .char o.symbol, .reduced symbol' v] q) :
    ∃ d, p = operand d ∧ q = operator d := by
  cases h with
  | cons hfirst tail =>
    obtain ⟨d, rfl, rfl⟩ := hfirst.of_reduced
    cases tail with
    | cons hjoined hsecond =>
      obtain ⟨k, rfl, rfl⟩ := hsecond.of_reduced
      rcases hjoined.of_operator with ⟨hc, -⟩ | ⟨-, hk⟩
      · cases o <;> cases hc
      · cases hk
        exact ⟨d, rfl, rfl⟩

/-! ### What is left when nothing can be reduced -/

/-- Without digits and opening parentheses an operand is a reduced entry. -/
theorem Reads.cases_of_operand {d : Nat} {q : Awaiting} {es : List Entry}
    (h : (operand d).Reads es q) (hdigit : ∀ c, .char c ∈ es → c.isDigit = false)
    (hopen : .char '(' ∉ es) :
    q = operand d ∨
      ∃ symbol value rest, es = .reduced symbol value :: rest ∧ (operator d).Reads rest q := by
  cases h with
  | nil => exact .inl rfl
  | cons head tail =>
    right
    cases head with
    | digit hc =>
      rw [hdigit _ (List.mem_cons_self ..)] at hc
      cases hc
    | opened hc =>
      subst hc
      exact absurd (List.mem_cons_self ..) hopen
    | reduced => exact ⟨_, _, _, rfl, tail⟩

theorem Reads.begins_with_redex {d : Nat} {q : Awaiting} {es : List Entry}
    (h : (operand d).Reads es q) (hq : q.Ends 0) (hdigit : ∀ c, .char c ∈ es → c.isDigit = false)
    (hopen : .char '(' ∉ es) :
    (d = 0 ∧ ∃ symbol value, es = [.reduced symbol value]) ∨
      (0 < d ∧ ∃ symbol value rest, es = .reduced symbol value :: .char ')' :: rest) ∨
        ∃ symbol u, ∃ o : Operator, ∃ symbol' v rest,
          es = .reduced symbol u :: .char o.symbol :: .reduced symbol' v :: rest := by
  have hnot : ∀ k, q ≠ operand k := by
    intro k hk
    rcases hq with hq | hq
    all_goals cases hk.symm.trans hq
  rcases h.cases_of_operand hdigit hopen with hq' | ⟨symbol, u, rest, rfl, hrest⟩
  · exact absurd hq' (hnot d)
  · cases hrest with
    | nil =>
      left
      rcases hq with hq | hq
      all_goals cases hq
      exact ⟨rfl, symbol, u, rfl⟩
    | @cons _ r _ e rest head tail =>
      right
      rcases head.of_operator with ⟨rfl, k, rfl, rfl⟩ | ⟨⟨o, rfl⟩, rfl⟩
      · exact .inl ⟨Nat.zero_lt_succ k, symbol, u, rest, rfl⟩
      · right
        have hdigit' : ∀ c, .char c ∈ rest → c.isDigit = false := fun c hc =>
          hdigit c (List.mem_cons_of_mem _ (List.mem_cons_of_mem _ hc))
        have hopen' : Entry.char '(' ∉ rest := fun hmem =>
          hopen (List.mem_cons_of_mem _ (List.mem_cons_of_mem _ hmem))
        rcases tail.cases_of_operand hdigit' hopen' with hq' | ⟨symbol', v, rest, rfl, -⟩
        · exact absurd hq' (hnot d)
        · exact ⟨symbol, u, o, symbol', v, rest, rfl⟩

end Awaiting

/-- Every entry is in its place, and no parenthesis is left open. -/
def WellFormed (es : List Entry) : Prop :=
  ∃ q, (Awaiting.operand 0).Reads es q ∧ q.Ends 0

theorem Expression.reads {s : List Char} (h : Expression s) (d : Nat) :
    ∃ q, (Awaiting.operand d).Reads (s.map .char) q ∧ q.Ends d := by
  induction h generalizing d with
  | @numeral ds hds hdigits =>
    cases ds with
    | nil => exact absurd rfl hds
    | cons c ds =>
      obtain ⟨hc, hrest⟩ := List.forall_mem_cons.1 hdigits
      exact ⟨.numeral d, .cons (.digit hc) (Awaiting.reads_digits d hrest), .inr rfl⟩
  | @operation s t o _ _ ihs iht =>
    obtain ⟨p, hs, hp⟩ := ihs d
    obtain ⟨q, ht, hq⟩ := iht d
    refine ⟨q, ?_, hq⟩
    rw [List.map_append, List.map_cons]
    exact hs.append (.cons (hp.next (.joined rfl)) ht)
  | @parentheses s _ ih =>
    obtain ⟨q, hs, hq⟩ := ih (d + 1)
    refine ⟨.operator d, .cons (.opened rfl) ?_, .inl rfl⟩
    rw [List.map_append]
    exact hs.append (.cons (hq.next (.closed rfl)) .nil)

theorem Expression.wellFormed {s : List Char} (h : Expression s) : WellFormed (s.map .char) :=
  h.reads 0

namespace WellFormed

variable {left right : List Entry}

/-- Entries that are read as an operand give way to a reduced entry. -/
theorem reduce {found : List Entry} (h : WellFormed (left ++ (found ++ right)))
    (hfound : ∀ p q : Awaiting, p.Reads found q → ∃ d, p = .operand d ∧ q = .operator d)
    (symbol : String) (value : Value) : WellFormed (left ++ .reduced symbol value :: right) := by
  obtain ⟨r, hreads, hr⟩ := h
  obtain ⟨p, hleft, hrest⟩ := Awaiting.reads_append_iff.1 hreads
  obtain ⟨q, hmiddle, hright⟩ := Awaiting.reads_append_iff.1 hrest
  obtain ⟨d, rfl, rfl⟩ := hfound p q hmiddle
  exact ⟨r, hleft.append (.cons (.reduced d symbol value) hright), hr⟩

theorem reduce_digits {ds : List Char} (h : WellFormed (left ++ (ds.map .char ++ right)))
    (hds : ds ≠ []) (hdigits : ∀ c ∈ ds, c.isDigit = true)
    (hleft : ∀ c, .char c ∈ left → c.isDigit = false)
    (hright : ∀ c, right[0]? = some (.char c) → c.isDigit = false)
    (symbol : String) (value : Value) : WellFormed (left ++ .reduced symbol value :: right) := by
  obtain ⟨r, hreads, hr⟩ := h
  obtain ⟨p, hbefore, hrest⟩ := Awaiting.reads_append_iff.1 hreads
  obtain ⟨q, hmiddle, hafter⟩ := Awaiting.reads_append_iff.1 hrest
  obtain ⟨d, hp, rfl⟩ := hmiddle.of_digits hds hdigits
  -- the digits are a whole numeral: nothing before them has left one open
  obtain rfl : p = .operand d := by
    rcases hp with hp | hp
    · exact hp
    · exact absurd hp (hbefore.ne_numeral hleft (fun k => nofun) d)
  obtain ⟨r', hafter', hr'⟩ := hafter.ended hright hr
  exact ⟨r', hbefore.append (.cons (.reduced d symbol value) hafter'), hr'⟩

/-- In a row of entries without digits, the last opening parenthesis stands before a redex. -/
theorem exists_redex {es : List Entry} (h : WellFormed es)
    (hdigit : ∀ c, .char c ∈ es → c.isDigit = false) :
    (∃ symbol value, es = [.reduced symbol value]) ∨
      (∃ left symbol value right,
        es = left ++ ([.char '(', .reduced symbol value, .char ')'] ++ right)) ∨
        ∃ left symbol u, ∃ o : Operator, ∃ symbol' v right,
          es = left ++ ([.reduced symbol u, .char o.symbol, .reduced symbol' v] ++ right) := by
  obtain ⟨q, hreads, hq⟩ := h
  by_cases hopen : Entry.char '(' ∈ es
  -- after the last parenthesis that opens there is no other, so the operand is a reduced entry
  · obtain ⟨last, before, hreverse, hlast⟩ := List.eq_append_cons_of_mem (List.mem_reverse.2 hopen)
    obtain rfl : es = before.reverse ++ .char '(' :: last.reverse := by
      simpa using congrArg List.reverse hreverse
    obtain ⟨p, -, hrest⟩ := Awaiting.reads_append_iff.1 hreads
    cases hrest with
    | cons head tail =>
      obtain ⟨d, -, rfl⟩ := head.of_open
      have hdigit' : ∀ c, .char c ∈ last.reverse → c.isDigit = false := fun c hc =>
        hdigit c (List.mem_append_right _ (List.mem_cons_of_mem _ hc))
      have hopen' : Entry.char '(' ∉ last.reverse := by simpa using hlast
      rcases tail.begins_with_redex hq hdigit' hopen' with
        ⟨hd, -⟩ | ⟨-, symbol, v, rest, hrest⟩ | ⟨symbol, u, o, symbol', v, rest, hrest⟩
      · cases hd
      · refine .inr (.inl ⟨before.reverse, symbol, v, rest, ?_⟩)
        rw [hrest]
        rfl
      · refine .inr (.inr ⟨before.reverse ++ [.char '('], symbol, u, o, symbol', v, rest, ?_⟩)
        rw [hrest, List.append_assoc]
        rfl
  · rcases hreads.begins_with_redex hq hdigit hopen with
      ⟨-, hsingle⟩ | ⟨hd, -⟩ | ⟨symbol, u, o, symbol', v, rest, hrest⟩
    · exact .inl hsingle
    · cases hd
    · exact .inr (.inr ⟨[], symbol, u, o, symbol', v, rest, hrest⟩)

end WellFormed

end ReductionGrammar.Arithmetic
