import Mathlib.Data.List.Nodup
import ReductionGrammar.Proofs.Run.Erasure
import ReductionGrammar.Proofs.Run.Nullable

/-!
# Runs stay within bounds

No index that a run uses lies outside what it indexes, and no number that it keeps outgrows its
word. The order of the rules names every rule once. A match begins at an entry, and the cursor that
goes through its tokens never leaves the buffer, so every slice from which captures are made and the
span that is replaced lie in it. Buffers and pass numbers are bounded by the settings.
-/

namespace ReductionGrammar

/-- The cursor goes from the first place to the second one through the tokens: each takes the slice
of the entries up to where it stops, and what these contribute are the captures. -/
inductive Slices (es : List Entry) : List Token → Nat → Nat → List Value → Prop where
  | nil {start : Nat} (inside : start ≤ es.length) : Slices es [] start start []
  | cons {t : Token} {ts : List Token} {start next stop : Nat} {ws : List Value}
      (ordered : start ≤ next) (inside : next ≤ es.length) (token : t.stop? es start = some next)
      (rest : Slices es ts next stop ws) :
      Slices es (t :: ts) start stop (t.captures (es.extract start next) ++ ws)

structure Match.InBounds (m : Match) (pattern : Pattern) (b : Buffer) : Prop where
  start_lt : m.span.start < b.size
  start_le : m.span.start ≤ m.span.stop
  stop_le : m.span.stop ≤ b.size
  slices : Slices b.entries pattern.tokens m.span.start m.span.stop m.captures
  splice : ∀ e, b.splice? m.span e = some (b.splice m.span e)
  nullable : m.span.size = 0 → pattern.isNullable = true

/-- What holds whenever a pass begins. -/
structure Parser.SafeAt (p : Parser) (input : String) (pass : Nat) (b : Buffer) : Prop where
  pass_pos : 1 ≤ pass
  pass_le : pass ≤ p.settings.maxReductions + 1
  counter : p.settings.maxReductions < greatestSize → pass ≤ greatestSize
  size_le : input.length ≤ greatestSize →
    b.size ≤ min (input.length + p.settings.maxGrowth) greatestSize
  size_pos : input ≠ "" → 0 < b.size
  cursor : ∀ (t : Token), ∀ start ≤ b.size, ∀ next, t.stop? b.entries start = some next →
    start ≤ next ∧ next ≤ b.size
  inBounds : ∀ rule ∈ p.grammar.rules, ∀ i m, rule.MatchesAt b i m → m.InBounds rule.pattern b
  selected : ∀ redex, Redex.select? p.rules b = some redex →
    redex.rule ∈ p.grammar.rules ∧ redex.found.InBounds redex.rule.pattern b

/-! ### Slices of a match -/

theorem slices_of_blocks? {tokens : List Token} {es : List Entry} {start : Nat}
    {blocks : List (List Entry)} (hstart : start ≤ es.length)
    (h : blocks? tokens (es.drop start) = some blocks) :
    Slices es tokens start (start + blocks.flatten.length) (capturesOf tokens blocks) := by
  induction tokens generalizing start blocks with
  | nil =>
    cases h
    exact .nil hstart
  | cons t ts ih =>
    unfold blocks? at h
    cases ht : t.block? (es.drop start) with
    | none => simp [ht] at h
    | some taken =>
      simp only [ht, List.drop_drop, Option.map_eq_some_iff] at h
      obtain ⟨rest, hrest, rfl⟩ := h
      obtain ⟨hinside, hstop, hslice⟩ := Token.slice_of_block? hstart ht
      have hslices := Slices.cons (Nat.le_add_right ..) hinside hstop (ih hinside hrest)
      rw [hslice, Nat.add_assoc, ← List.length_append] at hslices
      exact hslices

theorem Slices.stop_le {es : List Entry} {tokens : List Token} {start stop : Nat}
    {vs : List Value} (h : Slices es tokens start stop vs) : start ≤ stop ∧ stop ≤ es.length := by
  induction h with
  | nil inside => exact ⟨Nat.le_refl _, inside⟩
  | cons ordered inside token rest ih => exact ⟨Nat.le_trans ordered ih.1, ih.2⟩

theorem Rule.MatchesAt.inBounds {rule : Rule} {b : Buffer} {i : Nat} {m : Match}
    (h : rule.MatchesAt b i m) : m.InBounds rule.pattern b := by
  obtain ⟨hi, hhere⟩ := h
  obtain ⟨blocks, hblocks, rfl⟩ := Option.map_eq_some_iff.1 hhere
  have hslices := slices_of_blocks? (Nat.le_of_lt hi) hblocks
  obtain ⟨hle, hstop⟩ := hslices.stop_le
  refine ⟨hi, hle, hstop, hslices, fun e => if_pos ⟨hle, hstop⟩, fun hempty => ?_⟩
  -- an empty match splits no entries among the tokens, so each of them may take nothing
  obtain ⟨hsplits, -⟩ := splits_of_blocks? hblocks
  have hflat : blocks.flatten = [] := by
    simp only [Span.size, Nat.add_sub_cancel_left] at hempty
    exact List.eq_nil_of_length_eq_zero hempty
  rw [hflat] at hsplits
  exact Pattern.isNullable_iff.2 hsplits.allowsZero_of_nil

/-! ### The order of the rules -/

theorem Priority.lt_of_mem_order {priority : Priority} {count i : Nat}
    (h : i ∈ priority.order count) : i < count :=
  List.mem_range.1 (priority.mem_arrange.1 h)

theorem Priority.count_order (priority : Priority) {count i : Nat} (h : i < count) :
    (priority.order count).count i = 1 := by
  have hmem : i ∈ priority.order count := priority.mem_arrange.2 (List.mem_range.2 h)
  have hnodup : (priority.order count).Nodup := by
    cases priority with
    | lastFirst => exact List.nodup_reverse.2 List.nodup_range
    | declared => exact List.nodup_range
  exact List.count_eq_one_of_mem hnodup hmem

theorem Parser.map_rules_eq_order (p : Parser) :
    p.rules.map some =
      (p.settings.priority.order p.grammar.size).map (p.grammar.rules[·]?) := by
  have hrules : p.grammar.rules.map some =
      (List.range p.grammar.size).map (p.grammar.rules[·]?) := by
    refine List.ext_getElem (by simp [Grammar.rules, Grammar.size]) fun i hi hi' => ?_
    rw [List.length_map] at hi
    simp [List.getElem?_eq_getElem hi]
  unfold rules Priority.order
  rw [Priority.map_arrange, Priority.map_arrange, hrules]

/-! ### Sizes and counters -/

section RunFrom

variable {rules : List Rule} {settings : Settings} {inputSize left pass : Nat} {b : Buffer}
  {log : List Reduction} {result : Except Fault Buffer}

/-- Only an empty match makes the buffer longer, and it is not reduced if there is no room. -/
theorem RunFrom.size_le (h : RunFrom rules settings inputSize left pass b log result)
    (hb : b.size ≤ settings.maxSize inputSize) :
    ∀ b' ∈ log.scanl (fun b r => r.applyTo b) b, b'.size ≤ settings.maxSize inputSize := by
  induction h with
  | done | exhausted | refused => simpa using hb
  | @step left pass b redex r log result hselect hreduction rest ih =>
    have hsize := Redex.size_applyTo hselect hreduction
    have hfits := Redex.fits_of_reduction hreduction
    unfold Redex.Fits at hfits
    rw [List.scanl_cons, List.forall_mem_cons]
    exact ⟨hb, ih (by omega)⟩

theorem RunFrom.length_le (h : RunFrom rules settings inputSize left pass b log result) :
    log.length ≤ left := by
  induction h with
  | done | exhausted | refused => exact Nat.zero_le _
  | step hselect hreduction rest ih => exact Nat.succ_le_succ ih

end RunFrom

theorem pass_mem_transcript {pass n : Nat} {b b' : Buffer} {log : List Reduction}
    (h : Notice.pass n b' ∈ transcript pass b log) :
    pass ≤ n ∧ n ≤ pass + log.length ∧ b' ∈ log.scanl (fun b r => r.applyTo b) b := by
  induction log generalizing pass b with
  | nil =>
    rw [transcript, List.mem_singleton] at h
    cases h
    exact ⟨Nat.le_refl _, Nat.le_refl _, List.mem_singleton.2 rfl⟩
  | cons r log ih =>
    rw [transcript, List.mem_cons, List.mem_cons] at h
    rw [List.scanl_cons, List.length_cons]
    rcases h with h | h | h
    · cases h
      exact ⟨Nat.le_refl _, by omega, List.mem_cons_self ..⟩
    · cases h
    · obtain ⟨hle, hle', hmem⟩ := ih h
      exact ⟨by omega, by omega, List.mem_cons_of_mem _ hmem⟩

namespace Parser

theorem Runs.pass_mem {p : Parser} {input : String} {log : List Reduction}
    {result : Except Fault Buffer} (h : p.Runs input log result) {pass : Nat} {b : Buffer}
    (hpass : Notice.pass pass b ∈ p.notices input) :
    Notice.pass pass b ∈ transcript 1 (.ofInput input) log := by
  rw [h.notices_eq, List.mem_append, List.mem_cons, List.mem_singleton] at hpass
  rcases hpass with (hpass | hpass) | hpass
  · cases hpass
  · exact hpass
  · cases result with
    | ok b => cases hpass
    | error fault => cases hpass

theorem Runs.safeAt {p : Parser} {input : String} {log : List Reduction}
    {result : Except Fault Buffer} (h : p.Runs input log result) {pass : Nat} {b : Buffer}
    (hpass : Notice.pass pass b ∈ p.notices input) : p.SafeAt input pass b := by
  obtain ⟨hpos, hle, hmem⟩ := pass_mem_transcript (h.pass_mem hpass)
  have hlength := RunFrom.length_le h
  have hsize : (Buffer.ofInput input).size = input.length := by
    rw [Buffer.size, Buffer.ofInput, List.length_map, String.length_toList]
  refine ⟨hpos, by omega, fun hmax => by omega, fun hinput => ?_, fun hinput => ?_,
    fun t start hstart next => Token.stop_le hstart, fun rule _ i m => Rule.MatchesAt.inBounds,
    fun redex hselect => ?_⟩
  · refine RunFrom.size_le h ?_ b hmem
    unfold Settings.maxSize
    omega
  · have hentries : (Buffer.ofInput input).entries ≠ [] := by simpa [Buffer.ofInput] using hinput
    exact List.length_pos_iff.2 (RunFrom.keeps (entries_ne_nil_kept p.rules) h hentries b hmem)
  · have hselected := Redex.selected_iff.2 hselect
    exact ⟨hselected.declared, hselected.matchesAt.inBounds⟩

/-- Every index and every number of a run is in its bounds: those of the order in which rules are
tried, those of every pass, and the number of reductions. -/
theorem run_safe (p : Parser) (input : String) :
    (∀ i ∈ p.settings.priority.order p.grammar.size, i < p.grammar.size) ∧
    (∀ i < p.grammar.size, (p.settings.priority.order p.grammar.size).count i = 1) ∧
    p.rules.map some =
      (p.settings.priority.order p.grammar.size).map (p.grammar.rules[·]?) ∧
    (∀ pass b, .pass pass b ∈ p.notices input → p.SafeAt input pass b) ∧
    (p.reductions input).length ≤ p.settings.maxReductions := by
  obtain ⟨log, result, hruns⟩ := p.exists_runs input
  refine ⟨fun i => Priority.lt_of_mem_order, fun i => p.settings.priority.count_order,
    p.map_rules_eq_order, fun pass b => hruns.safeAt, ?_⟩
  rw [hruns.reductions_eq]
  exact RunFrom.length_le hruns

theorem run_safe_star :
    starParser.settings.maxReductions < greatestSize ∧
      ∃ b, .pass 2 b ∈ starParser.notices "q" ∧ 2 ≤ greatestSize ∧ b.size ≤ 1 + 1000 ∧
        ∃ redex, Redex.select? starParser.rules b = some redex ∧
          redex.found.InBounds redex.rule.pattern b := by
  have hmax : starParser.settings.maxReductions < greatestSize := by decide
  have hpass : .pass 2 ⟨[.reduced "A" .nil, .char 'q']⟩ ∈ starParser.notices "q" := by
    decide +kernel
  have hsafe := (run_safe starParser "q").2.2.2.1 _ _ hpass
  obtain ⟨redex, hselect⟩ :
      ∃ redex, Redex.select? starParser.rules ⟨[.reduced "A" .nil, .char 'q']⟩ = some redex :=
    ⟨_, rfl⟩
  exact ⟨hmax, _, hpass, hsafe.counter hmax, hsafe.size_le (by decide), redex, hselect,
    (hsafe.selected redex hselect).2⟩

end Parser

end ReductionGrammar
