import ReductionGrammar.Parser.Basic
import ReductionGrammar.Proofs.Buffer.Splits

/-!
# Steps of a run

What one pass of a run does: it selects a redex, makes the reduction that the redex calls for and
goes on with the buffer after it. Whatever all such steps keep, a whole run keeps.
-/

namespace ReductionGrammar

theorem Redex.of_select? {rules : List Rule} {b : Buffer} {redex : Redex}
    (h : select? rules b = some redex) :
    redex.rule ∈ rules ∧ redex.found.IsSplit redex.rule.pattern.tokens b.entries := by
  induction rules with
  | nil => cases h
  | cons rule rest ih =>
    unfold select? at h
    cases hf : Match.find? rule.pattern.tokens b.entries with
    | none =>
      simp only [hf] at h
      exact ⟨List.mem_cons_of_mem _ (ih h).1, (ih h).2⟩
    | some found =>
      simp only [hf, Option.some.injEq] at h
      subst h
      exact ⟨List.mem_cons_self .., Match.isSplit_of_find? hf⟩

theorem Buffer.splice_append (before found after : List Entry) (e : Entry) :
    (Buffer.mk (before ++ found ++ after)).splice
      ⟨before.length, before.length + found.length⟩ e = ⟨before ++ e :: after⟩ := by
  have hdrop : (before ++ found ++ after).drop (before.length + found.length) = after := by
    rw [← List.length_append, List.drop_left]
  simp only [Buffer.splice, hdrop]
  rw [List.append_assoc, List.take_left]

/-- The second buffer is the first one with the entries of the span replaced by the entry. -/
def Buffer.Replaced (b : Buffer) (span : Span) (e : Entry) (b' : Buffer) : Prop :=
  ∃ left found right, b.entries = left ++ found ++ right ∧
    span = ⟨left.length, left.length + found.length⟩ ∧ b'.entries = left ++ e :: right

theorem Buffer.Replaced.eq_splice {b b' : Buffer} {span : Span} {e : Entry}
    (h : b.Replaced span e b') : b' = b.splice span e := by
  obtain ⟨left, found, right, hentries, rfl, hentries'⟩ := h
  have hb : b = ⟨left ++ found ++ right⟩ := congrArg Buffer.mk hentries
  have hb' : b' = ⟨left ++ e :: right⟩ := congrArg Buffer.mk hentries'
  rw [hb, hb', splice_append]

/-- What a reduction of a match leaves and what it replaces. -/
theorem Match.IsSplit.exists_splice {m : Match} {tokens : List Token} {b : Buffer}
    (h : m.IsSplit tokens b.entries) :
    ∃ before found after, b.entries = before ++ found ++ after ∧
      m.span = ⟨before.length, before.length + found.length⟩ ∧ Splits tokens found m.captures ∧
      ∀ e, b.splice m.span e = ⟨before ++ e :: after⟩ := by
  obtain ⟨before, found, after, hentries, hspan, hsplits⟩ := h
  refine ⟨before, found, after, hentries, hspan, hsplits, fun e => ?_⟩
  exact (Buffer.Replaced.eq_splice ⟨before, found, after, hentries, hspan, rfl⟩).symm

theorem Redex.exists_splice {rules : List Rule} {b : Buffer} {redex : Redex}
    (h : select? rules b = some redex) :
    ∃ before found after, b.entries = before ++ found ++ after ∧
      redex.found.span = ⟨before.length, before.length + found.length⟩ ∧
      Splits redex.rule.pattern.tokens found redex.found.captures ∧
      ∀ e, b.splice redex.found.span e = ⟨before ++ e :: after⟩ :=
  (of_select? h).2.exists_splice

theorem Redex.replaced {rules : List Rule} {b : Buffer} {redex : Redex}
    (h : select? rules b = some redex) (e : Entry) :
    b.Replaced redex.found.span e (b.splice redex.found.span e) := by
  obtain ⟨left, found, right, hentries, hspan, -, hsplice⟩ := exists_splice h
  exact ⟨left, found, right, hentries, hspan, congrArg Buffer.entries (hsplice e)⟩

theorem Rule.apply_eq_ok {rule : Rule} {captures : List Value} {value : Value}
    (h : rule.apply captures = .ok value) : rule.action captures = .ok value := by
  unfold Rule.apply at h
  cases ha : rule.action captures with
  | error fault => simp [ha] at h
  | ok v =>
    simp only [ha, Except.ok.injEq] at h
    rw [h]

/-- A reduction takes everything but its value from the redex, and its value from the action. -/
theorem Redex.of_reduction {redex : Redex} {settings : Settings} {inputSize pass : Nat}
    {b : Buffer} {r : Reduction} (h : redex.reduction settings inputSize pass b = .ok r) :
    ∃ value, redex.rule.action redex.found.captures = .ok value ∧
      r = ⟨pass, redex.rule.ordinal, redex.rule.lhs, redex.found.span, redex.found.captures,
        value⟩ := by
  unfold Redex.reduction at h
  split at h
  · cases h
  · cases ha : redex.rule.apply redex.found.captures with
    | error fault => simp [ha] at h
    | ok value =>
      simp only [ha, Except.ok.injEq] at h
      exact ⟨value, Rule.apply_eq_ok ha, h.symm⟩

theorem Redex.size_applyTo {rules : List Rule} {b : Buffer} {redex : Redex} {settings : Settings}
    {inputSize pass : Nat} {r : Reduction} (hselect : select? rules b = some redex)
    (hreduction : redex.reduction settings inputSize pass b = .ok r) :
    (r.applyTo b).size + redex.found.span.size = b.size + 1 := by
  obtain ⟨before, found, after, hentries, hspan, -, hsplice⟩ := exists_splice hselect
  obtain ⟨value, -, rfl⟩ := of_reduction hreduction
  simp only [Reduction.applyTo, hsplice]
  simp only [hspan, Span.size, Buffer.size, hentries, List.length_append, List.length_cons]
  omega

theorem Rule.apply_eq_error_iff {rule : Rule} {captures : List Value} {fault : Fault} :
    rule.apply captures = .error fault ↔
      ∃ cause, rule.action captures = .error cause ∧
        fault = .actionFailed rule.ordinal cause.message := by
  unfold Rule.apply
  cases ha : rule.action captures with
  | error cause => simp [eq_comm]
  | ok v => simp

/-- The redex has entries, or the buffer has room for one more. -/
def Redex.Fits (redex : Redex) (settings : Settings) (inputSize : Nat) (b : Buffer) : Prop :=
  redex.found.span.size = 0 → b.size < settings.maxSize inputSize

theorem Redex.reduction_of_not_fits {redex : Redex} {settings : Settings} {inputSize : Nat}
    {b : Buffer} (h : ¬redex.Fits settings inputSize b) (pass : Nat) :
    redex.reduction settings inputSize pass b =
      .error (.limitExceeded (.growth settings.maxGrowth)) := by
  have hfull : (redex.found.span.size == 0 && settings.maxSize inputSize ≤ b.size) = true := by
    simpa [Redex.Fits] using h
  unfold Redex.reduction
  rw [if_pos hfull]

theorem Redex.reduction_of_fits {redex : Redex} {settings : Settings} {inputSize : Nat}
    {b : Buffer} (h : redex.Fits settings inputSize b) (pass : Nat) :
    redex.reduction settings inputSize pass b =
      (redex.rule.apply redex.found.captures).map fun value =>
        ⟨pass, redex.rule.ordinal, redex.rule.lhs, redex.found.span, redex.found.captures,
          value⟩ := by
  have hroom : ¬(redex.found.span.size == 0 && settings.maxSize inputSize ≤ b.size) = true := by
    simpa [Redex.Fits] using h
  unfold Redex.reduction
  rw [if_neg hroom]
  cases redex.rule.apply redex.found.captures <;> rfl

theorem Redex.reduction_eq_ok {redex : Redex} {settings : Settings} {inputSize : Nat}
    {b : Buffer} {value : Value} (hfits : redex.Fits settings inputSize b)
    (haction : redex.rule.action redex.found.captures = .ok value) (pass : Nat) :
    redex.reduction settings inputSize pass b =
      .ok ⟨pass, redex.rule.ordinal, redex.rule.lhs, redex.found.span, redex.found.captures,
        value⟩ := by
  rw [reduction_of_fits hfits]
  unfold Rule.apply
  rw [haction]
  rfl

theorem Redex.fits_of_reduction {redex : Redex} {settings : Settings} {inputSize pass : Nat}
    {b : Buffer} {r : Reduction} (h : redex.reduction settings inputSize pass b = .ok r) :
    redex.Fits settings inputSize b := by
  by_contra hfits
  rw [reduction_of_not_fits hfits] at h
  cases h

/-- A redex is refused for want of room before its action is asked. -/
theorem Redex.reduction_eq_error_iff {redex : Redex} {settings : Settings} {inputSize pass : Nat}
    {b : Buffer} {fault : Fault} :
    redex.reduction settings inputSize pass b = .error fault ↔
      ¬redex.Fits settings inputSize b ∧ fault = .limitExceeded (.growth settings.maxGrowth) ∨
        redex.Fits settings inputSize b ∧
          ∃ cause, redex.rule.action redex.found.captures = .error cause ∧
            fault = .actionFailed redex.rule.ordinal cause.message := by
  by_cases hfits : redex.Fits settings inputSize b
  · rw [reduction_of_fits hfits, ← Rule.apply_eq_error_iff]
    cases redex.rule.apply redex.found.captures <;> simp [Except.map, hfits]
  · rw [reduction_of_not_fits hfits]
    simp [hfits, eq_comm]

/-- A property of buffers that every reduction of a selected redex keeps. -/
def KeptBySteps (rules : List Rule) (P : Buffer → Prop) : Prop :=
  ∀ (b : Buffer) (redex : Redex) (settings : Settings) (inputSize pass : Nat) (r : Reduction),
    Redex.select? rules b = some redex → redex.reduction settings inputSize pass b = .ok r →
      P b → P (r.applyTo b)

theorem runPasses_keeps {σ : Type} {rules : List Rule} {settings : Settings} {inputSize : Nat}
    {tell : σ → Notice → σ} {P : Buffer → Prop} (hP : KeptBySteps rules P) {left pass : Nat}
    {b b' : Buffer} {s : σ}
    (h : (runPasses rules settings inputSize tell left pass b s).2 = .ok b') (hb : P b) :
    P b' := by
  induction left generalizing pass b s with
  | zero =>
    unfold runPasses at h
    cases hs : Redex.select? rules b with
    | none =>
      simp only [hs, Except.ok.injEq] at h
      exact h ▸ hb
    | some redex => simp [hs] at h
  | succ left ih =>
    unfold runPasses at h
    cases hs : Redex.select? rules b with
    | none =>
      simp only [hs, Except.ok.injEq] at h
      exact h ▸ hb
    | some redex =>
      cases hr : redex.reduction settings inputSize pass b with
      | error fault => simp [hs, hr] at h
      | ok r =>
        simp only [hs, hr] at h
        exact ih h (hP b redex settings inputSize pass r hs hr hb)

theorem Priority.mem_arrange {α : Type} (p : Priority) {l : List α} {a : α} :
    a ∈ p.arrange l ↔ a ∈ l := by
  cases p with
  | lastFirst => exact List.mem_reverse
  | declared => exact Iff.rfl

end ReductionGrammar
