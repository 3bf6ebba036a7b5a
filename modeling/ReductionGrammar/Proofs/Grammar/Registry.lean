import ReductionGrammar.Grammar.Action
import ReductionGrammar.Grammar.Declaring
import ReductionGrammar.Proofs.Pattern.Reads

/-!
# The registry of rules

A grammar comes about by calls that declare rules, some of which fail. Whatever the calls were, the
grammar holds the declarations that succeeded, in their order; ordinals are places in this list, and
a rule is found under its ordinal. A call that fails changes nothing and says what the next rule
would have been, so that the other calls go as if it had not been made. Ordinals that are handed out
by a counter and kept with the rules are the same ones, until the counter overflows.
-/

namespace ReductionGrammar

def Rule.proposal (r : Rule) : Proposal :=
  ⟨r.lhs, r.pattern.text, r.action⟩

/-- What is declared if the proposal is accepted. -/
def Proposal.declaration? (c : Proposal) : Option Declaration :=
  match readItems c.pattern.toList with
  | .ok tokens => some ⟨c.lhs, ⟨c.pattern, tokens⟩, c.action⟩
  | .error _ => none

def accepted (log : List (Proposal × Except Diagnostic Unit)) : List Proposal :=
  (log.filter (·.2.isOk)).map (·.1)

namespace Grammar

/-- The grammar holds exactly the rules that were accepted, each in its place. -/
structure Registers (g : Grammar) (start : String) (cs : List Proposal) : Prop where
  start_eq : g.start = start
  proposals : g.rules.map Rule.proposal = cs
  compiled : ∀ rule ∈ g.rules, ∀ n, Pattern.read rule.pattern.text n = .ok rule.pattern
  ordinal : ∀ i rule, g.rules[i]? = some rule → rule.ordinal = i + 1
  nextOrdinal : g.nextOrdinal = g.rules.length + 1
  rule? : ∀ k, g.rule? k = if 1 ≤ k ∧ k ≤ g.rules.length then g.rules[k - 1]? else none

/-- The diagnostic tells why the pattern of a proposal cannot be read, and where. -/
inductive Refuses (g : Grammar) (c : Proposal) : Diagnostic → Prop where
  | ends (h : Pattern.read c.pattern (g.rules.length + 1) =
        .error (.patternEnds (g.rules.length + 1) c.pattern)) :
      g.Refuses c ⟨.patternEnds (g.rules.length + 1) c.pattern, some ⟨some c.lhs, none⟩⟩
  | stray (found : Char) (offset : Nat)
      (h : Pattern.read c.pattern (g.rules.length + 1) =
        .error (.strayChar (g.rules.length + 1) c.pattern found offset)) :
      g.Refuses c ⟨.strayChar (g.rules.length + 1) c.pattern found offset,
        some ⟨some c.lhs, some offset⟩⟩

/-- A call succeeds if its pattern can be read; otherwise it changes nothing and says why. -/
structure Answers (g : Grammar) (c : Proposal) (answer : Except Diagnostic Unit) : Prop where
  ok_iff : answer = .ok () ↔
    ∃ pattern, Pattern.read c.pattern (g.rules.length + 1) = .ok pattern
  unchanged : ∀ d, answer = .error d → (g.call c).1 = g
  refuses : ∀ d, answer = .error d → g.Refuses c d

/-! ### Ordinals -/

theorem length_rules (g : Grammar) : g.rules.length = g.size :=
  List.length_mapIdx

theorem ordinal_eq {g : Grammar} {i : Nat} {rule : Rule} (h : g.rules[i]? = some rule) :
    rule.ordinal = i + 1 := by
  unfold rules at h
  rw [List.getElem?_mapIdx, Option.map_eq_some_iff] at h
  obtain ⟨d, -, rfl⟩ := h
  rfl

theorem rule?_succ (g : Grammar) (i : Nat) : g.rule? (i + 1) = g.rules[i]? := by
  unfold rule?
  cases h : g.rules[i]? with
  | none =>
    rw [List.find?_eq_none]
    intro rule hrule
    obtain ⟨j, hj⟩ := List.mem_iff_getElem?.1 hrule
    have hlength := List.getElem?_eq_none_iff.1 h
    obtain ⟨hlt, -⟩ := List.getElem?_eq_some_iff.1 hj
    have hordinal := ordinal_eq hj
    simp only [beq_iff_eq]
    omega
  | some rule =>
    obtain ⟨hlt, hget⟩ := List.getElem?_eq_some_iff.1 h
    rw [List.find?_eq_some_iff_getElem]
    refine ⟨by simp [ordinal_eq h], i, hlt, hget, fun j hj => ?_⟩
    have hordinal := ordinal_eq (List.getElem?_eq_getElem (Nat.lt_trans hj hlt))
    simp only [hordinal, Bool.not_eq_true', beq_eq_false_iff_ne]
    omega

theorem rule?_zero (g : Grammar) : g.rule? 0 = none := by
  unfold rule?
  rw [List.find?_eq_none]
  intro rule hrule
  obtain ⟨i, hi⟩ := List.mem_iff_getElem?.1 hrule
  simp [ordinal_eq hi]

theorem rule?_ordinal {g : Grammar} {rule : Rule} (h : rule ∈ g.rules) :
    g.rule? rule.ordinal = some rule := by
  obtain ⟨i, hi⟩ := List.mem_iff_getElem?.1 h
  rw [ordinal_eq hi, rule?_succ, hi]

theorem rule?_eq (g : Grammar) (k : Nat) :
    g.rule? k = if 1 ≤ k ∧ k ≤ g.rules.length then g.rules[k - 1]? else none := by
  cases k with
  | zero => simp [rule?_zero]
  | succ i =>
    rw [rule?_succ, Nat.add_sub_cancel]
    split
    · rfl
    · rw [List.getElem?_eq_none_iff]
      omega

/-! ### One call -/

theorem rules_append (start : String) (ds : List Declaration) (d : Declaration) :
    rules ⟨start, ds ++ [d]⟩ = rules ⟨start, ds⟩ ++ [⟨d, ds.length + 1⟩] :=
  List.mapIdx_concat

theorem call_eq (g : Grammar) (c : Proposal) :
    g.call c = match Pattern.read c.pattern g.nextOrdinal with
      | .ok pattern => (⟨g.start, g.declarations ++ [⟨c.lhs, pattern, c.action⟩]⟩, .ok ())
      | .error fault => (g, .error ⟨fault, some ⟨some c.lhs, fault.offset?⟩⟩) := by
  unfold call define
  cases Pattern.read c.pattern g.nextOrdinal with
  | ok pattern => rfl
  | error fault => rfl

/-- Whether a proposal is accepted does not depend on the calls before it. -/
theorem afterCalls_eq (g : Grammar) (cs : List Proposal) :
    g.afterCalls cs = ⟨g.start, g.declarations ++ cs.filterMap Proposal.declaration?⟩ := by
  induction cs generalizing g with
  | nil => simp [afterCalls]
  | cons c cs ih =>
    have hcall : (g.call c).1 = ⟨g.start, g.declarations ++ c.declaration?.toList⟩ := by
      unfold Proposal.declaration?
      rw [call_eq, Pattern.read]
      cases readItems c.pattern.toList with
      | ok tokens => rfl
      | error stop => simp
    have hrest := ih (g.call c).1
    rw [hcall, List.append_assoc] at hrest
    show (g.call c).1.afterCalls cs = _
    rw [hcall, hrest]
    cases hc : c.declaration? <;> simp [hc]

theorem nextOrdinal_eq (g : Grammar) : g.nextOrdinal = g.rules.length + 1 :=
  congrArg (· + 1) g.length_rules.symm

theorem refuses_of_read {g : Grammar} {c : Proposal} {fault : Fault}
    (h : Pattern.read c.pattern g.nextOrdinal = .error fault) :
    g.Refuses c ⟨fault, some ⟨some c.lhs, fault.offset?⟩⟩ := by
  rw [nextOrdinal_eq] at h
  have hfault := h
  unfold Pattern.read at hfault
  cases hitems : readItems c.pattern.toList with
  | ok tokens => simp [hitems] at hfault
  | error stop =>
    simp only [hitems, Except.error.injEq] at hfault
    subst hfault
    cases stop with
    | nil => exact .ends h
    | cons found rest => exact .stray found _ h

theorem call_of_error {g : Grammar} {c : Proposal} {d : Diagnostic}
    (h : (g.call c).2 = .error d) : (g.call c).1 = g ∧ g.Refuses c d := by
  rw [call_eq] at h ⊢
  cases hread : Pattern.read c.pattern g.nextOrdinal with
  | ok pattern => simp [hread] at h
  | error fault =>
    simp only [hread, Except.error.injEq] at h
    subst h
    exact ⟨rfl, refuses_of_read hread⟩

theorem answers_call (g : Grammar) (c : Proposal) : g.Answers c (g.call c).2 where
  ok_iff := by
    rw [← nextOrdinal_eq, call_eq]
    cases Pattern.read c.pattern g.nextOrdinal with
    | ok pattern => simp
    | error fault => simp
  unchanged _ h := (call_of_error h).1
  refuses _ h := (call_of_error h).2

/-- As long as a word holds the next ordinal, it need not be counted anew. -/
theorem counted_call {g : Grammar} (h : g.nextOrdinal < UInt32.size) (c : Proposal) :
    g.counted.call c = ((g.call c).1.counted, (g.call c).2) := by
  have hnext : g.counted.next.toNat = g.nextOrdinal := UInt32.toNat_ofNat_of_lt' h
  unfold Counted.call
  rw [hnext, call_eq]
  cases Pattern.read c.pattern g.nextOrdinal with
  | error fault => rfl
  | ok pattern =>
    simp only [counted, rules_append, nextOrdinal, size, List.length_append, List.length_singleton,
      UInt32.ofNat_add (g.declarations.length + 1)]
    rfl

theorem Registers.of_proposals {g : Grammar} {start : String} {cs : List Proposal}
    (hstart : g.start = start) (hproposals : g.rules.map Rule.proposal = cs)
    (hcompiled : ∀ rule ∈ g.rules, ∀ n, Pattern.read rule.pattern.text n = .ok rule.pattern) :
    g.Registers start cs where
  start_eq := hstart
  proposals := hproposals
  compiled := hcompiled
  ordinal _ _ := ordinal_eq
  nextOrdinal := g.nextOrdinal_eq
  rule? := g.rule?_eq

theorem registers_ofStart (start : String) : (ofStart start).Registers start [] :=
  .of_proposals rfl rfl fun _ hrule => absurd hrule List.not_mem_nil

theorem Registers.length_eq {g : Grammar} {start : String} {cs : List Proposal}
    (h : g.Registers start cs) : g.rules.length = cs.length := by
  rw [← h.proposals, List.length_map]

theorem Registers.toNat_next {g : Grammar} {start : String} {cs : List Proposal}
    (h : g.Registers start cs) (hcount : cs.length < UInt32.size - 1) :
    g.counted.next.toNat = g.rules.length + 1 := by
  rw [← nextOrdinal_eq]
  refine UInt32.toNat_ofNat_of_lt' ?_
  rw [nextOrdinal_eq, h.length_eq]
  exact Nat.lt_of_lt_of_le (Nat.succ_lt_succ hcount) (by decide)

theorem Registers.append {g : Grammar} {start : String} {cs : List Proposal}
    (h : g.Registers start cs) {c : Proposal} {n : Nat} {pattern : Pattern}
    (hread : Pattern.read c.pattern n = .ok pattern) :
    Registers ⟨g.start, g.declarations ++ [⟨c.lhs, pattern, c.action⟩]⟩ start (cs ++ [c]) := by
  obtain ⟨htext, hitems⟩ := Pattern.read_eq_ok_iff_readItems.1 hread
  refine .of_proposals h.start_eq ?_ ?_
  · rw [rules_append, List.map_append, h.proposals]
    simp [Rule.proposal, htext]
  · intro rule hrule n
    rw [rules_append, List.mem_append, List.mem_singleton] at hrule
    rcases hrule with hrule | rfl
    · exact h.compiled rule hrule n
    · exact Pattern.read_eq_ok_iff_readItems.2 ⟨rfl, htext ▸ hitems⟩

/-! ### All calls -/

end Grammar

@[simp]
theorem accepted_ok (c : Proposal) : accepted [(c, .ok ())] = [c] :=
  rfl

@[simp]
theorem accepted_error (c : Proposal) (d : Diagnostic) : accepted [(c, .error d)] = [] :=
  rfl

theorem accepted_cons (e : Proposal × Except Diagnostic Unit)
    (log : List (Proposal × Except Diagnostic Unit)) :
    accepted (e :: log) = accepted [e] ++ accepted log := by
  unfold accepted
  rw [← List.map_append, ← List.filter_append, List.singleton_append]

theorem accepted_sublist {log log' : List (Proposal × Except Diagnostic Unit)}
    (h : log.Sublist log') : (accepted log).Sublist (accepted log') :=
  (h.filter _).map _

namespace Grammar

theorem Registers.call {g : Grammar} {start : String} {cs : List Proposal}
    (h : g.Registers start cs) (c : Proposal) :
    (g.call c).1.Registers start (cs ++ accepted [(c, (g.call c).2)]) := by
  rw [call_eq]
  cases hread : Pattern.read c.pattern g.nextOrdinal with
  | ok pattern => exact h.append hread
  | error fault =>
    rw [accepted_error, List.append_nil]
    exact h

theorem size_call (g : Grammar) (c : Proposal) :
    (g.call c).1.size = g.size + (accepted [(c, (g.call c).2)]).length := by
  rw [call_eq]
  cases Pattern.read c.pattern g.nextOrdinal with
  | ok pattern => exact List.length_append
  | error fault => rfl

theorem Registers.afterCalls {g : Grammar} {start : String} {before : List Proposal}
    (h : g.Registers start before) (cs : List Proposal) :
    (g.afterCalls cs).Registers start (before ++ accepted (g.history cs)) := by
  induction cs generalizing g before with
  | nil =>
    rw [history, accepted, List.filter_nil, List.map_nil, List.append_nil]
    exact h
  | cons c cs ih =>
    have hrest := ih (h.call c)
    rw [List.append_assoc, ← accepted_cons] at hrest
    exact hrest

theorem counted_ofStart (start : String) : (ofStart start).counted = .ofStart start :=
  rfl

theorem counted_calls {g : Grammar} {cs : List Proposal}
    (h : g.size + (accepted (g.history cs)).length < UInt32.size - 1) :
    g.counted.calls cs = ((g.afterCalls cs).counted, g.history cs) := by
  induction cs generalizing g with
  | nil => rfl
  | cons c cs ih =>
    rw [history, accepted_cons, List.length_append] at h
    have hsize := g.size_call c
    have hnext : g.nextOrdinal < UInt32.size := by
      unfold nextOrdinal
      omega
    have hrest := ih (g := (g.call c).1) (by omega)
    simp only [Counted.calls, counted_call hnext, hrest, history]
    rfl

/-- The other calls go as if those that failed, or some of them, had not been made. -/
theorem history_of_sublist {g : Grammar} {cs : List Proposal}
    {kept : List (Proposal × Except Diagnostic Unit)} (hkept : kept.Sublist (g.history cs))
    (haccepted : accepted kept = accepted (g.history cs)) :
    g.history (kept.map (·.1)) = kept ∧ g.afterCalls (kept.map (·.1)) = g.afterCalls cs := by
  induction cs generalizing g kept with
  | nil =>
    obtain rfl := List.sublist_nil.1 hkept
    exact ⟨rfl, rfl⟩
  | cons c cs ih =>
    unfold history at hkept haccepted
    rw [accepted_cons] at haccepted
    cases hkept with
    | cons _ hrest =>
      -- the call is left out, so it has failed: otherwise too few proposals would be accepted
      cases hanswer : (g.call c).2 with
      | ok u =>
        have hle := (accepted_sublist hrest).length_le
        rw [haccepted, hanswer, accepted_ok, List.length_append, List.length_singleton] at hle
        omega
      | error d =>
        have hsame := (call_of_error hanswer).1
        rw [hsame] at hrest
        rw [hanswer, hsame] at haccepted
        have hrun := ih hrest haccepted
        refine ⟨hrun.1, ?_⟩
        rw [hrun.2]
        show _ = (g.call c).1.afterCalls cs
        rw [hsame]
    | cons_cons _ hrest =>
      rw [accepted_cons] at haccepted
      obtain ⟨hhistory, hafter⟩ := ih hrest (List.append_cancel_left haccepted)
      simp only [List.map_cons, history, hhistory, true_and]
      exact hafter

theorem answer_of_history {g : Grammar} {cs : List Proposal}
    {before after : List (Proposal × Except Diagnostic Unit)} {c : Proposal}
    {answer : Except Diagnostic Unit} (h : g.history cs = before ++ (c, answer) :: after) :
    ((g.afterCalls (before.map (·.1))).call c).2 = answer := by
  induction before generalizing g cs with
  | nil =>
    cases cs with
    | nil => cases h
    | cons c' cs =>
      cases h
      rfl
  | cons e before ih =>
    cases cs with
    | nil => cases h
    | cons c' cs =>
      obtain ⟨rfl, hrest⟩ := List.cons.inj h
      exact ih hrest

/-- Whatever calls are made to declare rules, the grammar holds those that succeed, in order, as do
rules that are counted in a word which does not overflow. Each call is answered as its pattern asks
for. If calls that fail are left out, the others return what they did and make the same grammar. -/
theorem calls_atomic (start : String) (cs : List Proposal) :
    ((ofStart start).afterCalls cs).Registers start (accepted ((ofStart start).history cs)) ∧
    ((accepted ((ofStart start).history cs)).length < UInt32.size - 1 →
      (Counted.ofStart start).calls cs =
          (((ofStart start).afterCalls cs).counted, (ofStart start).history cs) ∧
        ((ofStart start).afterCalls cs).counted.next.toNat =
          ((ofStart start).afterCalls cs).rules.length + 1) ∧
    (∀ before c answer after, (ofStart start).history cs = before ++ (c, answer) :: after →
      ((ofStart start).afterCalls (before.map (·.1))).Answers c answer) ∧
    ∀ kept, kept.Sublist ((ofStart start).history cs) →
      accepted kept = accepted ((ofStart start).history cs) →
      (ofStart start).history (kept.map (·.1)) = kept ∧
        (ofStart start).afterCalls (kept.map (·.1)) = (ofStart start).afterCalls cs := by
  have hregisters := (registers_ofStart start).afterCalls cs
  rw [List.nil_append] at hregisters
  refine ⟨hregisters, fun hcount => ⟨?_, hregisters.toNat_next hcount⟩, ?_,
    fun kept => history_of_sublist⟩
  · rw [← counted_ofStart]
    exact counted_calls ((Nat.zero_add _).trans_lt hcount)
  · intro before c answer after hlog
    rw [← answer_of_history hlog]
    exact answers_call _ c

def suffixed : Proposal :=
  ⟨"A", "(A) 'y'", Action.first⟩

/-- The class is not closed. -/
def unclosed : Proposal :=
  ⟨"A", "'[0-9", Action.first⟩

/-- A blank stands before the quantifier. -/
def spaced : Proposal :=
  ⟨"B", "(A +)", Action.first⟩

def starred : Proposal :=
  ⟨"A", "'x'*", Action.const .nil⟩

theorem calls_atomic_star :
    (ofStart "A").history [suffixed, unclosed, spaced, starred] =
      [(suffixed, .ok ()),
        (unclosed, .error ⟨.patternEnds 2 "'[0-9", some ⟨some "A", none⟩⟩),
        (spaced, .error ⟨.strayChar 2 "(A +)" '+' 3, some ⟨some "B", some 3⟩⟩),
        (starred, .ok ())] ∧
      ((ofStart "A").afterCalls [suffixed, unclosed, spaced, starred]).Registers "A"
        [suffixed, starred] ∧
      ((Counted.ofStart "A").calls [suffixed, unclosed, spaced, starred]).1.next = 3 ∧
      ((ofStart "A").afterCalls [suffixed, unclosed]).Refuses spaced
        ⟨.strayChar 2 "(A +)" '+' 3, some ⟨some "B", some 3⟩⟩ ∧
      (ofStart "A").afterCalls [suffixed, starred] =
        (ofStart "A").afterCalls [suffixed, unclosed, spaced, starred] := by
  have hanswers : ((ofStart "A").history
      [suffixed, unclosed, spaced, starred]).map Prod.snd =
      [.ok (), .error ⟨.patternEnds 2 "'[0-9", some ⟨some "A", none⟩⟩,
        .error ⟨.strayChar 2 "(A +)" '+' 3, some ⟨some "B", some 3⟩⟩, .ok ()] := by
    decide +kernel
  have hlog := List.zip_of_prod rfl hanswers
  obtain ⟨hregisters, hcounted, hcalls, hkept⟩ :=
    calls_atomic "A" [suffixed, unclosed, spaced, starred]
  have hspaced := hcalls [_, _] _ _ _ hlog
  rw [hlog] at hregisters hcounted hkept
  obtain ⟨hrun, hnext⟩ := hcounted (by decide)
  rw [hregisters.length_eq] at hnext
  have hsublist := hkept [(suffixed, .ok ()), (starred, .ok ())]
    (.cons_cons _ (.cons _ (.cons _ (.refl _)))) rfl
  refine ⟨hlog, hregisters, ?_, hspaced.refuses _ rfl, hsublist.2⟩
  rw [hrun]
  exact UInt32.toNat_inj.1 hnext

end Grammar

end ReductionGrammar
