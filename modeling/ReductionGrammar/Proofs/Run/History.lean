import Mathlib.Data.List.Basic
import ReductionGrammar.Proofs.Run.Steps

/-!
# Histories of runs

A run makes the same reductions and ends in the same way whoever watches it. Its history is the list
of these reductions and its result; what an observer is told follows from the history.
-/

namespace ReductionGrammar

/-- A run from the buffer on makes the reductions of the log and ends with the result. The first two
numbers are how many reductions are still allowed and which pass comes next. -/
inductive RunFrom (rules : List Rule) (settings : Settings) (inputSize : Nat) :
    Nat → Nat → Buffer → List Reduction → Except Fault Buffer → Prop where
  | done {left pass : Nat} {b : Buffer} (hselect : Redex.select? rules b = none) :
      RunFrom rules settings inputSize left pass b [] (.ok b)
  | exhausted {pass : Nat} {b : Buffer} {redex : Redex}
      (hselect : Redex.select? rules b = some redex) :
      RunFrom rules settings inputSize 0 pass b []
        (.error (.limitExceeded (.reductions settings.maxReductions)))
  | refused {left pass : Nat} {b : Buffer} {redex : Redex} {fault : Fault}
      (hselect : Redex.select? rules b = some redex)
      (hreduction : redex.reduction settings inputSize pass b = .error fault) :
      RunFrom rules settings inputSize (left + 1) pass b [] (.error fault)
  | step {left pass : Nat} {b : Buffer} {redex : Redex} {r : Reduction} {log : List Reduction}
      {result : Except Fault Buffer} (hselect : Redex.select? rules b = some redex)
      (hreduction : redex.reduction settings inputSize pass b = .ok r)
      (rest : RunFrom rules settings inputSize left (pass + 1) (r.applyTo b) log result) :
      RunFrom rules settings inputSize (left + 1) pass b (r :: log) result

/-- What is told of the reductions of a log, of the passes in which they are made and of the pass
after the last of them. -/
def transcript (pass : Nat) (b : Buffer) : List Reduction → List Notice
  | [] => [.pass pass b]
  | r :: log => .pass pass b :: .reduced r :: transcript (pass + 1) (r.applyTo b) log

section RunFrom

variable {rules : List Rule} {settings : Settings} {inputSize : Nat}

theorem exists_runFrom (left pass : Nat) (b : Buffer) :
    ∃ log result, RunFrom rules settings inputSize left pass b log result := by
  induction left generalizing pass b with
  | zero =>
    cases hs : Redex.select? rules b with
    | none => exact ⟨[], _, .done hs⟩
    | some redex => exact ⟨[], _, .exhausted hs⟩
  | succ left ih =>
    cases hs : Redex.select? rules b with
    | none => exact ⟨[], _, .done hs⟩
    | some redex =>
      cases hr : redex.reduction settings inputSize pass b with
      | error fault => exact ⟨[], _, .refused hs hr⟩
      | ok r =>
        obtain ⟨log, result, hrest⟩ := ih (pass + 1) (r.applyTo b)
        exact ⟨r :: log, result, .step hs hr hrest⟩

theorem RunFrom.runPasses_eq {left pass : Nat} {b : Buffer} {log : List Reduction}
    {result : Except Fault Buffer} (h : RunFrom rules settings inputSize left pass b log result)
    {σ : Type} (tell : σ → Notice → σ) (s : σ) :
    runPasses rules settings inputSize tell left pass b s =
      ((transcript pass b log).foldl tell s, result) := by
  induction h generalizing s with
  | done hs => unfold runPasses; simp [hs, transcript]
  | exhausted hs => unfold runPasses; simp [hs, transcript]
  | refused hs hr => unfold runPasses; simp [hs, hr, transcript]
  | step hs hr rest ih =>
    unfold runPasses
    simp only [hs, hr, transcript, List.foldl_cons]
    exact ih _

theorem RunFrom.fault_cases {left pass : Nat} {b : Buffer} {log : List Reduction} {fault : Fault}
    (h : RunFrom rules settings inputSize left pass b log (.error fault)) :
    fault = .limitExceeded (.reductions settings.maxReductions) ∨
      fault = .limitExceeded (.growth settings.maxGrowth) ∨
      ∃ rule message, fault = .actionFailed rule message := by
  generalize hresult : (Except.error fault : Except Fault Buffer) = result at h
  induction h with
  | done => cases hresult
  | exhausted =>
    cases hresult
    exact .inl rfl
  | refused hselect hreduction =>
    cases hresult
    rcases Redex.reduction_eq_error_iff.1 hreduction with ⟨-, rfl⟩ | ⟨-, cause, -, rfl⟩
    · exact .inr (.inl rfl)
    · exact .inr (.inr ⟨_, _, rfl⟩)
  | step hselect hreduction rest ih => exact ih hresult

theorem RunFrom.keeps {P : Buffer → Prop} (hP : KeptBySteps rules P) {left pass : Nat} {b : Buffer}
    {log : List Reduction} {result : Except Fault Buffer}
    (h : RunFrom rules settings inputSize left pass b log result) (hb : P b) :
    ∀ b' ∈ log.scanl (fun b r => r.applyTo b) b, P b' := by
  induction h with
  | done | exhausted | refused => simpa using hb
  | step hselect hreduction rest ih =>
    rw [List.scanl_cons, List.forall_mem_cons]
    exact ⟨hb, ih (hP _ _ _ _ _ _ hselect hreduction hb)⟩

end RunFrom

theorem foldl_told (told : List Notice) :
    told.foldl (fun told notice => told ++ [notice]) [] = told := by
  rw [List.foldl_append_eq_append, ← List.flatMap_def, List.flatMap_singleton', List.nil_append]

/-! ### The run of a parser -/

namespace Notice

def reduction? : Notice → Option Reduction
  | reduced r => some r
  | _ => none

def buffer? : Notice → Option Buffer
  | pass _ b => some b
  | _ => none

def ending (start : String) : Except Fault Buffer → Notice
  | .ok b => ended (.ofBuffer start b)
  | .error fault => aborted fault

end Notice

theorem reductions_transcript (pass : Nat) (b : Buffer) (log : List Reduction) :
    (transcript pass b log).filterMap Notice.reduction? = log := by
  induction log generalizing pass b with
  | nil => rfl
  | cons r log ih => simp [transcript, List.filterMap_cons, Notice.reduction?, ih]

theorem buffers_transcript (pass : Nat) (b : Buffer) (log : List Reduction) :
    (transcript pass b log).filterMap Notice.buffer? =
      log.scanl (fun b r => r.applyTo b) b := by
  induction log generalizing pass b with
  | nil => rfl
  | cons r log ih => simp [transcript, List.filterMap_cons, Notice.buffer?, ih]

theorem RunFrom.unique {rules : List Rule} {settings : Settings} {inputSize left pass : Nat}
    {b : Buffer} {log log' : List Reduction} {result result' : Except Fault Buffer}
    (h : RunFrom rules settings inputSize left pass b log result)
    (h' : RunFrom rules settings inputSize left pass b log' result') :
    log = log' ∧ result = result' := by
  have hrun := h.runPasses_eq (fun told notice => told ++ [notice]) []
  rw [h'.runPasses_eq, foldl_told, foldl_told] at hrun
  obtain ⟨htold, hresult⟩ := Prod.mk.inj hrun
  have hlog := congrArg (List.filterMap Notice.reduction?) htold
  rw [reductions_transcript, reductions_transcript] at hlog
  exact ⟨hlog.symm, hresult.symm⟩

namespace Parser

def Runs (p : Parser) (input : String) (log : List Reduction) (result : Except Fault Buffer) :
    Prop :=
  RunFrom p.rules p.settings input.length p.settings.maxReductions 1 (.ofInput input) log result

/-- Everything that an observer of a parse is told, in order. -/
def notices (p : Parser) (input : String) : List Notice :=
  (p.observe input (fun told notice => told ++ [notice]) []).1

def reductions (p : Parser) (input : String) : List Reduction :=
  (p.notices input).filterMap Notice.reduction?

/-- The buffers with which the passes begin, as an observer is told. -/
def buffers (p : Parser) (input : String) : List Buffer :=
  (p.notices input).filterMap Notice.buffer?

theorem exists_runs (p : Parser) (input : String) : ∃ log result, p.Runs input log result :=
  exists_runFrom _ _ _

section Runs

variable {p : Parser} {input : String} {log : List Reduction} {result : Except Fault Buffer}

theorem Runs.run_eq (h : p.Runs input log result) {σ : Type} (tell : σ → Notice → σ) (s : σ) :
    p.run input tell s = ((transcript 1 (.ofInput input) log).foldl tell s, result) :=
  RunFrom.runPasses_eq h tell s

theorem Runs.reduce_eq (h : p.Runs input log result) : p.reduce input = result := by
  unfold reduce
  rw [h.run_eq]

theorem Runs.observe_eq (h : p.Runs input log result) {σ : Type} (tell : σ → Notice → σ) (s : σ) :
    p.observe input tell s =
      ((Notice.started input :: transcript 1 (.ofInput input) log ++
          [Notice.ending p.grammar.start result]).foldl tell s,
        result.map (.ofBuffer p.grammar.start)) := by
  unfold observe
  rw [h.run_eq]
  cases result with
  | ok b => simp [Notice.ending, Except.map]
  | error fault => simp [Notice.ending, Except.map]

theorem Runs.parse_eq (h : p.Runs input log result) :
    p.parse input = result.map (.ofBuffer p.grammar.start) := by
  unfold parse
  rw [h.observe_eq]

theorem Runs.notices_eq (h : p.Runs input log result) :
    p.notices input = .started input :: transcript 1 (.ofInput input) log ++
      [.ending p.grammar.start result] := by
  unfold notices
  rw [h.observe_eq, foldl_told]

theorem Runs.reductions_eq (h : p.Runs input log result) : p.reductions input = log := by
  unfold reductions
  rw [h.notices_eq]
  cases result <;>
    simp [Notice.ending, List.filterMap_cons, Notice.reduction?, reductions_transcript]

theorem Runs.buffers_eq (h : p.Runs input log result) :
    p.buffers input = log.scanl (fun b r => r.applyTo b) (.ofInput input) := by
  unfold buffers
  rw [h.notices_eq]
  cases result <;> simp [Notice.ending, List.filterMap_cons, Notice.buffer?, buffers_transcript]

end Runs

end Parser

end ReductionGrammar
