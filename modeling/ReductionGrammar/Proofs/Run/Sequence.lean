import ReductionGrammar.Proofs.Run.History
import ReductionGrammar.Proofs.Run.Selection

/-!
# The sequence of buffers

Without its ceilings a parser turns an input into a sequence of buffers, in each of which the
selected redex is reduced to give the next. A run follows this sequence from its beginning; where it
stops, and with which result, is said here for every parser and every input. Main statement: the
result is the one that these conditions determine.
-/

namespace ReductionGrammar.Parser

/-- The buffer that so many reductions lead to if no ceiling stops them. -/
inductive Reaches (p : Parser) (input : String) : Nat → Buffer → Prop where
  | start : p.Reaches input 0 (.ofInput input)
  | next {k : Nat} {b b' : Buffer} {redex : Redex} {value : Value} (before : p.Reaches input k b)
      (hselected : redex.Selected p b)
      (haction : redex.rule.action redex.found.captures = .ok value)
      (hreplaced : b.Replaced redex.found.span (.reduced redex.rule.lhs value) b') :
      p.Reaches input (k + 1) b'

/-- After so many reductions the next one would insert an entry into a buffer that has grown by as
many entries as it may. -/
def Overgrows (p : Parser) (input : String) (k : Nat) : Prop :=
  ∃ (b : Buffer) (redex : Redex), p.Reaches input k b ∧ redex.Selected p b ∧
    redex.found.span.size = 0 ∧
      min (input.length + p.settings.maxGrowth) greatestSize ≤ b.size

inductive Ends (p : Parser) (input : String) : Except Fault Buffer → Prop where
  /-- A buffer is reached that no rule matches. -/
  | irreducible {m : Nat} {b : Buffer} (hm : m ≤ p.settings.maxReductions)
      (hreaches : p.Reaches input m b) (hirreducible : p.Irreducible b)
      (hroom : ∀ k < m, ¬p.Overgrows input k) : p.Ends input (.ok b)
  /-- All reductions are made that are allowed, and some rule still matches. -/
  | exhausted {b : Buffer} (hreaches : p.Reaches input p.settings.maxReductions b)
      (hreducible : ¬p.Irreducible b)
      (hroom : ∀ k < p.settings.maxReductions, ¬p.Overgrows input k) :
      p.Ends input (.error (.limitExceeded (.reductions p.settings.maxReductions)))
  /-- A reduction that is still allowed would let the buffer grow too far. -/
  | overgrown {k : Nat} (hk : k < p.settings.maxReductions) (hgrows : p.Overgrows input k)
      (hroom : ∀ j < k, ¬p.Overgrows input j) :
      p.Ends input (.error (.limitExceeded (.growth p.settings.maxGrowth)))
  /-- The action of a reduction that is still allowed fails. -/
  | failed {k : Nat} {b : Buffer} {redex : Redex} {cause : Fault}
      (hk : k < p.settings.maxReductions) (hreaches : p.Reaches input k b)
      (hselected : redex.Selected p b)
      (haction : redex.rule.action redex.found.captures = .error cause)
      (hroom : ∀ j ≤ k, ¬p.Overgrows input j) :
      p.Ends input (.error (.actionFailed redex.rule.ordinal cause.message))

variable {p : Parser} {input : String}

theorem Reaches.unique {k : Nat} {b b' : Buffer} (h : p.Reaches input k b)
    (h' : p.Reaches input k b') : b = b' := by
  induction h generalizing b' with
  | start =>
    cases h'
    rfl
  | next before hselected haction hreplaced ih =>
    cases h' with
    | next before' hselected' haction' hreplaced' =>
      obtain rfl := ih before'
      rw [Redex.selected_iff] at hselected hselected'
      cases hselected.symm.trans hselected'
      cases haction.symm.trans haction'
      rw [hreplaced.eq_splice, hreplaced'.eq_splice]

theorem Reaches.overgrows_iff {k : Nat} {b : Buffer} {redex : Redex} (h : p.Reaches input k b)
    (hselected : redex.Selected p b) :
    p.Overgrows input k ↔ ¬redex.Fits p.settings input.length b := by
  constructor
  · rintro ⟨b', redex', h', hselected', hsize, hfull⟩ hfits
    obtain rfl := h.unique h'
    rw [Redex.selected_iff] at hselected hselected'
    cases hselected.symm.trans hselected'
    exact Nat.not_lt.2 hfull (hfits hsize)
  · intro hfits
    obtain ⟨hsize, hfull⟩ := Classical.not_imp.1 hfits
    exact ⟨b, redex, h, hselected, hsize, Nat.not_lt.1 hfull⟩

/-! ### A run follows the sequence -/

/-- A run that goes on from a buffer of the sequence is the rest of a run from the input. -/
theorem Reaches.exists_runs {k : Nat} {b : Buffer} (hreaches : p.Reaches input k b)
    (hk : k ≤ p.settings.maxReductions) (hroom : ∀ j < k, ¬p.Overgrows input j)
    {log : List Reduction} {result : Except Fault Buffer}
    (hrest : RunFrom p.rules p.settings input.length (p.settings.maxReductions - k) (k + 1) b log
      result) : ∃ log', p.Runs input log' result := by
  induction hreaches generalizing log with
  | start => exact ⟨log, hrest⟩
  | @next k b b' redex value before hselected haction hreplaced ih =>
    obtain rfl := hreplaced.eq_splice
    have hfits : redex.Fits p.settings input.length b := by
      by_contra hfull
      exact hroom k (Nat.lt_succ_self k) ((before.overgrows_iff hselected).2 hfull)
    have hleft : p.settings.maxReductions - k = p.settings.maxReductions - (k + 1) + 1 := by omega
    have hstep := RunFrom.step (Redex.selected_iff.1 hselected)
      (Redex.reduction_eq_ok hfits haction (k + 1)) hrest
    rw [← hleft] at hstep
    exact ih (by omega) (fun j hj => hroom j (Nat.lt_succ_of_lt hj)) hstep

theorem Reaches.exists_runs_of_refused {k : Nat} {b : Buffer} {redex : Redex} {fault : Fault}
    (hreaches : p.Reaches input k b) (hk : k < p.settings.maxReductions)
    (hroom : ∀ j < k, ¬p.Overgrows input j) (hselected : redex.Selected p b)
    (hreduction : redex.reduction p.settings input.length (k + 1) b = .error fault) :
    ∃ log, p.Runs input log (.error fault) := by
  have hleft : p.settings.maxReductions - k = p.settings.maxReductions - k - 1 + 1 := by omega
  have hrest : RunFrom p.rules p.settings input.length (p.settings.maxReductions - k) (k + 1) b []
      (.error fault) := by
    rw [hleft]
    exact .refused (Redex.selected_iff.1 hselected) hreduction
  exact hreaches.exists_runs (Nat.le_of_lt hk) hroom hrest

theorem Ends.exists_runs {result : Except Fault Buffer} (h : p.Ends input result) :
    ∃ log, p.Runs input log result := by
  cases h with
  | irreducible hm hreaches hirreducible hroom =>
    exact hreaches.exists_runs hm hroom (.done (irreducible_iff.1 hirreducible))
  | @exhausted b hreaches hreducible hroom =>
    rw [irreducible_iff] at hreducible
    obtain ⟨redex, hselect⟩ := Option.ne_none_iff_exists'.1 hreducible
    have hrest : RunFrom p.rules p.settings input.length
        (p.settings.maxReductions - p.settings.maxReductions) (p.settings.maxReductions + 1) b []
        (.error (.limitExceeded (.reductions p.settings.maxReductions))) := by
      rw [Nat.sub_self]
      exact .exhausted hselect
    exact hreaches.exists_runs (Nat.le_refl _) hroom hrest
  | overgrown hk hgrows hroom =>
    obtain ⟨b, redex, hreaches, hselected, hsize, hfull⟩ := hgrows
    have hfits : ¬redex.Fits p.settings input.length b :=
      fun hfits => Nat.not_lt.2 hfull (hfits hsize)
    exact hreaches.exists_runs_of_refused hk hroom hselected (Redex.reduction_of_not_fits hfits _)
  | @failed k b redex cause hk hreaches hselected haction hroom =>
    have hfits : redex.Fits p.settings input.length b := by
      by_contra hfull
      exact hroom k (Nat.le_refl k) ((hreaches.overgrows_iff hselected).2 hfull)
    exact hreaches.exists_runs_of_refused hk (fun j hj => hroom j (Nat.le_of_lt hj)) hselected
      (Redex.reduction_eq_error_iff.2 (.inr ⟨hfits, cause, haction, rfl⟩))

end ReductionGrammar.Parser
