import ReductionGrammar.Proofs.Run.Nullable
import ReductionGrammar.Proofs.Run.Sequence

/-!
# Following a run

What a run does to a buffer whose shape is known. A token that cannot do without an entry and has
only single tokens before it anchors the matches of a rule: where no entry is acceptable to it the
rule does not match, and so the first acceptable entry shows where it matches leftmost.
-/

namespace ReductionGrammar

theorem Token.block?_eq_none {t : Token} (ht : t.repetition.allowsZero = false) {es : List Entry}
    (h : ∀ e, es[0]? = some e → t.atom.accepts e = false) : t.block? es = none := by
  have hblock : t.block es = [] := by
    cases es with
    | nil => rfl
    | cons e rest =>
      unfold Token.block
      simp [h e rfl]
  unfold Token.block?
  simp [hblock, Repetition.accepts_zero, ht]

/-- A token that may take many entries takes all that are acceptable. -/
theorem Token.block_append {t : Token} (ht : t.repetition.allowsMany = true)
    {found right : List Entry} (hfound : ∀ e ∈ found, t.atom.accepts e = true)
    (hright : ∀ e, right[0]? = some e → t.atom.accepts e = false) :
    t.block (found ++ right) = found := by
  have hstop : right.takeWhile t.atom.accepts = [] := by
    cases right with
    | nil => rfl
    | cons e rest => simp [hright e rfl]
  cases found with
  | nil =>
    cases right with
    | nil => rfl
    | cons e rest => simp [Token.block, hright e rfl]
  | cons e found =>
    obtain ⟨he, hrest⟩ := List.forall_mem_cons.1 hfound
    simp [Token.block, he, ht, List.takeWhile_append_of_pos hrest, hstop]

theorem Rule.matches_of_here? {rule : Rule} {left es : List Entry} {m : Match} (hes : es ≠ [])
    (h : Match.here? rule.pattern.tokens left.length es = some m) : rule.Matches ⟨left ++ es⟩ := by
  have hlength := List.length_pos_iff.2 hes
  refine ⟨left.length, m, ?_, ?_⟩
  · show left.length < (left ++ es).length
    rw [List.length_append]
    omega
  · unfold Match.at?
    rw [List.drop_left]
    exact h

/-- A match of the tokens has, at this place from its beginning, an entry that the atom accepts. -/
inductive Anchor (a : Atom) : Nat → List Token → Prop where
  | here {t : Token} {ts : List Token} (hatom : t.atom = a)
      (hneeded : t.repetition.allowsZero = false) : Anchor a 0 (t :: ts)
  | after {t : Token} {ts : List Token} {place : Nat} (hsingle : t.repetition = .once)
      (h : Anchor a place ts) : Anchor a (place + 1) (t :: ts)

namespace Anchor

variable {a : Atom} {place : Nat} {tokens : List Token}

theorem blocks?_eq_none (hanchor : Anchor a place tokens) {es : List Entry}
    (h : ∀ e, es[place]? = some e → a.accepts e = false) : blocks? tokens es = none := by
  induction hanchor generalizing es with
  | here hatom hneeded =>
    subst hatom
    rw [blocks?, Token.block?_eq_none hneeded h]
  | @after t ts place hsingle _ ih =>
    rw [blocks?]
    cases htaken : t.block? es with
    | none => rfl
    | some taken =>
      have hcount := (Token.takes_of_block? htaken).2.count
      rw [hsingle, Repetition.accepts, beq_iff_eq] at hcount
      have hrest : blocks? ts (es.drop taken.length) = none := by
        refine ih fun e he => ?_
        rw [List.getElem?_drop, hcount, Nat.add_comm] at he
        exact h e he
      simp only [hrest, Option.map_none]

theorem here?_eq_none (hanchor : Anchor a place tokens) {es : List Entry}
    (h : ∀ e, es[place]? = some e → a.accepts e = false) (start : Nat) :
    Match.here? tokens start es = none := by
  unfold Match.here?
  rw [hanchor.blocks?_eq_none h, Option.map_none]

/-- No entry before the anchor of the match is acceptable there, so no match is further left. -/
theorem find?_eq (hanchor : Anchor a place tokens) {left es : List Entry} {m : Match}
    (hleft : ∀ e ∈ left ++ es.take place, a.accepts e = false)
    (hhere : Match.here? tokens left.length es = some m) :
    Match.find? tokens (left ++ es) = some m := by
  have hes : es ≠ [] := by
    rintro rfl
    rw [hanchor.here?_eq_none (by simp)] at hhere
    cases hhere
  have hlength := List.length_pos_iff.2 hes
  unfold Match.find?
  rw [Match.findFrom?_eq_some_iff]
  refine ⟨left.length, ?_, ?_, fun j hj => hanchor.here?_eq_none (fun e he => ?_) _⟩
  · rw [List.length_append]
    omega
  · rw [Nat.zero_add, List.drop_left]
    exact hhere
  · rw [List.getElem?_drop] at he
    rw [← List.take_length_add_append] at hleft
    refine hleft e (List.mem_of_getElem? (i := j + place) ?_)
    rw [List.getElem?_take_of_lt (by omega)]
    exact he

theorem not_matches {rule : Rule} (hanchor : Anchor a place rule.pattern.tokens) {b : Buffer}
    (h : ∀ e ∈ b.entries, a.accepts e = false) : ¬rule.Matches b := by
  rintro ⟨i, m, -, hm⟩
  have hnone : Match.here? rule.pattern.tokens i (b.entries.drop i) = none :=
    hanchor.here?_eq_none (fun e he => h e (List.mem_of_mem_drop (List.mem_of_getElem? he))) i
  cases hnone.symm.trans hm

end Anchor

/-- A run whose actions do not fail and whose reductions lessen a measure comes to a buffer that no
rule matches, if as many reductions are allowed as the measure says. -/
theorem RunFrom.exists_irreducible {rules : List Rule} {settings : Settings}
    {inputSize left pass : Nat} {b : Buffer} {log : List Reduction} {result : Except Fault Buffer}
    (h : RunFrom rules settings inputSize left pass b log result)
    (hnullable : ∀ rule ∈ rules, rule.pattern.isNullable = false) {P : Buffer → Prop}
    (hP : KeptBySteps rules P) {measure : Buffer → Nat}
    (hmeasure : ∀ b redex value, Redex.select? rules b = some redex →
      measure (b.splice redex.found.span (.reduced redex.rule.lhs value)) < measure b)
    (haction : ∀ b redex, P b → Redex.select? rules b = some redex →
      ∃ value, redex.rule.action redex.found.captures = .ok value)
    (hb : P b) (hleft : measure b ≤ left) :
    ∃ b', result = .ok b' ∧ P b' ∧ Redex.select? rules b' = none := by
  induction h with
  | @done left pass b hselect => exact ⟨b, rfl, hb, hselect⟩
  | @exhausted pass b redex hselect =>
    have hlt := hmeasure b redex .nil hselect
    omega
  | @refused left pass b redex fault hselect hreduction =>
    rcases Redex.reduction_eq_error_iff.1 hreduction with ⟨hfull, -⟩ | ⟨-, cause, hcause, -⟩
    · have hlt := Redex.span_of_not_isNullable hselect hnullable
      refine absurd (fun hsize => ?_) hfull
      unfold Span.size at hsize
      omega
    · obtain ⟨value, hvalue⟩ := haction b redex hb hselect
      cases hvalue.symm.trans hcause
  | @step left pass b redex r log result hselect hreduction rest ih =>
    have hkept := hP _ _ _ _ _ _ hselect hreduction hb
    obtain ⟨value, -, rfl⟩ := Redex.of_reduction hreduction
    have hlt := hmeasure b redex value hselect
    exact ih hkept (Nat.le_of_lt_succ (Nat.lt_of_lt_of_le hlt hleft))

namespace Parser

variable {p : Parser} {input : String}

theorem Reaches.reduce {k : Nat} {left found right : List Entry} {before after : List Rule}
    {rule : Rule} {captures : List Value} {value : Value}
    (h : p.Reaches input k ⟨left ++ (found ++ right)⟩)
    (hrules : p.rules = before ++ rule :: after)
    (hbefore : ∀ other ∈ before, ¬other.Matches ⟨left ++ (found ++ right)⟩)
    (hfind : Match.find? rule.pattern.tokens (left ++ (found ++ right)) =
      some ⟨⟨left.length, left.length + found.length⟩, captures⟩)
    (haction : rule.action captures = .ok value) :
    p.Reaches input (k + 1) ⟨left ++ .reduced rule.lhs value :: right⟩ := by
  have hselect : Redex.select? p.rules ⟨left ++ (found ++ right)⟩ =
      some ⟨rule, ⟨⟨left.length, left.length + found.length⟩, captures⟩⟩ :=
    Redex.select?_eq_some_iff.2 ⟨before, after, hrules, hbefore, hfind⟩
  exact h.next (Redex.selected_iff.2 hselect) haction
    ⟨left, found, right, (List.append_assoc ..).symm, rfl, rfl⟩

/-- Without nullable rules only the ceiling on reductions can stop a run. -/
theorem Reaches.parse_eq {m : Nat} {b : Buffer} (h : p.Reaches input m b)
    (hm : m ≤ p.settings.maxReductions) (hirreducible : p.Irreducible b)
    (hnullable : ∀ rule ∈ p.rules, rule.pattern.isNullable = false) :
    p.parse input = .ok (.ofBuffer p.grammar.start b) := by
  have hroom : ∀ k < m, ¬p.Overgrows input k := by
    rintro k - ⟨b', redex, -, hselected, hsize, -⟩
    have hlt := Redex.span_of_not_isNullable (Redex.selected_iff.1 hselected) hnullable
    unfold Span.size at hsize
    omega
  obtain ⟨log, hruns⟩ := (Ends.irreducible hm h hirreducible hroom).exists_runs
  exact hruns.parse_eq

end Parser

end ReductionGrammar
