import ReductionGrammar.Proofs.Run.Termination

/-!
# Raising the ceilings

The two ceilings of a run do nothing but stop it. A run under higher ceilings makes all reductions
that the run under lower ones makes; and if the latter is not stopped by a ceiling, the former ends
with them, in the same way.
-/

namespace ReductionGrammar

/-- Rules are tried in the same order, and neither ceiling is higher. -/
structure Settings.Within (s s' : Settings) : Prop where
  priority : s.priority = s'.priority
  reductions : s.maxReductions ≤ s'.maxReductions
  growth : s.maxGrowth ≤ s'.maxGrowth

theorem Settings.Within.maxSize_le {s s' : Settings} (h : s.Within s') (n : Nat) :
    s.maxSize n ≤ s'.maxSize n := by
  have hgrowth := h.growth
  unfold maxSize
  omega

theorem Redex.Fits.within {redex : Redex} {s s' : Settings} {inputSize : Nat} {b : Buffer}
    (hfits : redex.Fits s inputSize b) (h : s.Within s') : redex.Fits s' inputSize b := by
  intro hsize
  exact Nat.lt_of_lt_of_le (hfits hsize) (h.maxSize_le inputSize)

/-- Where there is room under lower ceilings, higher ones make no difference to a reduction. -/
theorem Redex.Fits.reduction_within {redex : Redex} {s s' : Settings} {inputSize : Nat}
    {b : Buffer} (hfits : redex.Fits s inputSize b) (h : s.Within s') (pass : Nat) :
    redex.reduction s' inputSize pass b = redex.reduction s inputSize pass b := by
  rw [reduction_of_fits hfits, reduction_of_fits (hfits.within h)]

/-- The result of a run that no ceiling has stopped. -/
def Uncut (result : Except Fault Buffer) : Prop :=
  ∀ ceiling, result ≠ .error (.limitExceeded ceiling)

theorem RunFrom.exists_within {rules : List Rule} {s s' : Settings} {inputSize left left' : Nat}
    {pass : Nat} {b : Buffer} {log : List Reduction} {result : Except Fault Buffer}
    (hrun : RunFrom rules s inputSize left pass b log result) (h : s.Within s')
    (hleft : left ≤ left') :
    ∃ log' result', RunFrom rules s' inputSize left' pass b log' result' ∧ log <+: log' ∧
      (Uncut result → log' = log ∧ result' = result) := by
  induction hrun generalizing left' with
  | done hselect => exact ⟨[], _, .done hselect, List.nil_prefix, fun _ => ⟨rfl, rfl⟩⟩
  | @exhausted pass b redex hselect =>
    obtain ⟨log', result', hrun'⟩ := exists_runFrom left' pass b
    exact ⟨log', result', hrun', List.nil_prefix, fun huncut => absurd rfl (huncut _)⟩
  | @refused left pass b redex fault hselect hreduction =>
    by_cases hfits : redex.Fits s inputSize b
    · -- there is room, so the action has failed, as it does under every ceiling
      obtain ⟨left', rfl⟩ : ∃ k, left' = k + 1 := ⟨left' - 1, by omega⟩
      rw [← hfits.reduction_within h] at hreduction
      exact ⟨[], _, .refused hselect hreduction, List.nil_prefix, fun _ => ⟨rfl, rfl⟩⟩
    · rw [Redex.reduction_of_not_fits hfits] at hreduction
      cases hreduction
      obtain ⟨log', result', hrun'⟩ := exists_runFrom left' pass b
      exact ⟨log', result', hrun', List.nil_prefix, fun huncut => absurd rfl (huncut _)⟩
  | @step left pass b redex r log result hselect hreduction rest ih =>
    obtain ⟨left', rfl⟩ : ∃ k, left' = k + 1 := ⟨left' - 1, by omega⟩
    obtain ⟨log', result', hrun', hfirst, hend⟩ := ih (Nat.le_of_succ_le_succ hleft)
    have hfits := Redex.fits_of_reduction hreduction
    rw [← hfits.reduction_within h] at hreduction
    refine ⟨r :: log', result', .step hselect hreduction hrun', ?_, fun huncut => ?_⟩
    · exact List.cons_prefix_cons.2 ⟨rfl, hfirst⟩
    · obtain ⟨rfl, rfl⟩ := hend huncut
      exact ⟨rfl, rfl⟩

namespace Parser

theorem rules_within {p q : Parser} (hgrammar : p.grammar = q.grammar)
    (hsettings : p.settings.Within q.settings) : p.rules = q.rules := by
  unfold rules
  rw [hgrammar, hsettings.priority]

/-- Lower ceilings cut a run short and do nothing else: the reductions made under them are the first
of those made under higher ones, and a buffer or a failed action that a run ends with under lower
ceilings is what it ends with under higher ones, after the same reductions. -/
theorem ceilings_cut (p q : Parser) (hgrammar : p.grammar = q.grammar)
    (hsettings : p.settings.Within q.settings) (input : String) :
    p.reductions input <+: q.reductions input ∧
    (∀ b, p.reduce input = .ok b →
      q.reduce input = .ok b ∧ q.parse input = p.parse input ∧
        q.reductions input = p.reductions input) ∧
    ∀ rule message, p.reduce input = .error (.actionFailed rule message) →
      q.reduce input = .error (.actionFailed rule message) ∧ q.parse input = p.parse input ∧
        q.reductions input = p.reductions input := by
  obtain ⟨log, result, hp⟩ := p.exists_runs input
  obtain ⟨log', result', hrun, hfirst, hend⟩ := hp.exists_within hsettings hsettings.reductions
  rw [rules_within hgrammar hsettings] at hrun
  have hq : q.Runs input log' result' := hrun
  rw [hp.reductions_eq, hq.reductions_eq, hp.reduce_eq, hq.reduce_eq, hp.parse_eq, hq.parse_eq,
    hgrammar]
  refine ⟨hfirst, ?_, ?_⟩
  · rintro b rfl
    obtain ⟨rfl, rfl⟩ := hend fun _ => nofun
    exact ⟨rfl, rfl, rfl⟩
  · rintro rule message rfl
    obtain ⟨rfl, rfl⟩ := hend fun _ => nofun
    exact ⟨rfl, rfl, rfl⟩

def hastySumParser : Parser :=
  { sumParser with settings := { maxReductions := 2, maxGrowth := 0 } }

/-- Two reductions are too few for a sum; a number too great for its word fails under all ceilings
that let the run come to it. -/
theorem ceilings_cut_sum :
    hastySumParser.settings.Within sumParser.settings ∧
      hastySumParser.reduce "12+3" = .error (.limitExceeded (.reductions 2)) ∧
      hastySumParser.reductions "12+3" <+: sumParser.reductions "12+3" ∧
      sumParser.settings.Within generousSumParser.settings ∧
      sumParser.reduce "12+3" = .ok ⟨[.reduced "Sum" (.int 15)]⟩ ∧
      generousSumParser.reduce "12+3" = .ok ⟨[.reduced "Sum" (.int 15)]⟩ ∧
      ∃ message,
        hastySumParser.reduce "9223372036854775808" = .error (.actionFailed 3 message) ∧
        sumParser.reduce "9223372036854775808" = .error (.actionFailed 3 message) := by
  have hhasty : hastySumParser.settings.Within sumParser.settings :=
    ⟨rfl, by decide, by decide⟩
  have hgenerous : sumParser.settings.Within generousSumParser.settings :=
    ⟨rfl, by decide, by decide⟩
  have hcut : hastySumParser.reduce "12+3" = .error (.limitExceeded (.reductions 2)) := by
    decide +kernel
  have hsum : sumParser.reduce "12+3" = .ok ⟨[.reduced "Sum" (.int 15)]⟩ := by decide +kernel
  have hfailed : hastySumParser.reduce "9223372036854775808" =
      .error (.actionFailed 3 "invalid number: \"9223372036854775808\"") := by decide +kernel
  have hfirst := (ceilings_cut hastySumParser sumParser rfl hhasty "12+3").1
  obtain ⟨-, hok, -⟩ := ceilings_cut sumParser generousSumParser rfl hgenerous "12+3"
  obtain ⟨-, -, herror⟩ := ceilings_cut hastySumParser sumParser rfl hhasty "9223372036854775808"
  exact ⟨hhasty, hcut, hfirst, hgenerous, hsum, (hok _ hsum).1, _, hfailed,
    (herror _ _ hfailed).1⟩

end Parser

end ReductionGrammar
