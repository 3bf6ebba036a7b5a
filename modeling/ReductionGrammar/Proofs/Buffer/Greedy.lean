import Mathlib.Order.Bounds.Basic
import ReductionGrammar.Pattern.Basic
import ReductionGrammar.Proofs.Run.Selection

/-!
# The greedy split

What greedy matching finds, said without the matcher. From where the token before it has stopped
each token takes the longest run of entries that it accepts, or only the first of them if it may not
take more; the split fails if a token may not take so many. A search finds the split at the least
index where there is one, and its captures are what the blocks contribute.
-/

namespace ReductionGrammar

/-- The `n` entries from `start` on are all accepted. -/
def Atom.AcceptsRun (a : Atom) (es : List Entry) (start n : Nat) : Prop :=
  start + n ≤ es.length ∧ ∀ e ∈ es.extract start (start + n), a.accepts e = true

/-- How many of the entries in a run are taken. -/
def Repetition.cut : Repetition → Nat → Nat
  | once, n | zeroOrOne, n => min n 1
  | oneOrMore, n | zeroOrMore, n => n

/-- From `start` on the token takes the entries before `stop`. -/
def Token.StopsAt (t : Token) (es : List Entry) (start stop : Nat) : Prop :=
  ∃ n, IsGreatest {n | t.atom.AcceptsRun es start n} n ∧ stop = start + t.repetition.cut n ∧
    t.repetition.accepts (t.repetition.cut n) = true

/-- The tokens take the entries from `start` up to `stop`, with their captures. -/
inductive GreedySplit (es : List Entry) : List Token → Nat → Nat → List Value → Prop where
  | nil (start : Nat) : GreedySplit es [] start start []
  | cons {t : Token} {ts : List Token} {start next stop : Nat} {vs ws : List Value}
      (stops : t.StopsAt es start next) (contributes : t.Contributes (es.extract start next) vs)
      (rest : GreedySplit es ts next stop ws) : GreedySplit es (t :: ts) start stop (vs ++ ws)

/-! ### One token -/

theorem le_length_takeWhile_iff {α : Type} {p : α → Bool} {l : List α} {n : Nat} :
    n ≤ (l.takeWhile p).length ↔ n ≤ l.length ∧ ∀ a ∈ l.take n, p a = true := by
  induction l generalizing n with
  | nil => simp
  | cons a l ih =>
    cases n with
    | zero => simp
    | succ n =>
      by_cases ha : p a = true
      · simp [ha, ih]
      · simp [ha]

theorem Token.length_block (t : Token) (es : List Entry) :
    (t.block es).length = t.repetition.cut (es.takeWhile t.atom.accepts).length := by
  cases es with
  | nil => cases t.repetition <;> rfl
  | cons e rest =>
    unfold Token.block
    by_cases ha : t.atom.accepts e = true
    · cases hr : t.repetition <;> simp [ha, Repetition.allowsMany, Repetition.cut]
    · cases hr : t.repetition <;> simp [ha, Repetition.cut]

theorem Atom.acceptsRun_iff {a : Atom} {es : List Entry} {start n : Nat}
    (hstart : start ≤ es.length) :
    a.AcceptsRun es start n ↔ n ≤ ((es.drop start).takeWhile a.accepts).length := by
  have hlength : start + n ≤ es.length ↔ n ≤ (es.drop start).length := by
    rw [List.length_drop]
    omega
  rw [le_length_takeWhile_iff, AcceptsRun, List.extract_eq_take_drop, Nat.add_sub_cancel_left,
    hlength]

theorem Token.stopsAt_iff {t : Token} {es : List Entry} {start stop : Nat}
    (hstart : start ≤ es.length) :
    t.StopsAt es start stop ↔ t.stop? es start = some stop := by
  have hgreatest : ∀ n, IsGreatest {n | t.atom.AcceptsRun es start n} n ↔
      n = ((es.drop start).takeWhile t.atom.accepts).length := by
    intro n
    have hset : {n | t.atom.AcceptsRun es start n} =
        Set.Iic ((es.drop start).takeWhile t.atom.accepts).length :=
      Set.ext fun k => Atom.acceptsRun_iff hstart
    rw [hset]
    exact ⟨fun h => h.unique isGreatest_Iic, fun h => h ▸ isGreatest_Iic⟩
  unfold StopsAt
  simp only [hgreatest, exists_eq_left, ← length_block]
  unfold stop? block?
  dsimp only
  split
  · rename_i haccepts
    simp [haccepts, eq_comm]
  · rename_i haccepts
    simp [haccepts]

/-! ### All tokens -/

theorem greedySplit_of_blocks? {tokens : List Token} {es : List Entry} {start : Nat}
    {blocks : List (List Entry)} (hstart : start ≤ es.length)
    (h : blocks? tokens (es.drop start) = some blocks) :
    GreedySplit es tokens start (start + blocks.flatten.length) (capturesOf tokens blocks) := by
  induction tokens generalizing start blocks with
  | nil =>
    cases h
    exact .nil start
  | cons t ts ih =>
    unfold blocks? at h
    cases ht : t.block? (es.drop start) with
    | none => simp [ht] at h
    | some taken =>
      simp only [ht, List.drop_drop, Option.map_eq_some_iff] at h
      obtain ⟨rest, hrest, rfl⟩ := h
      obtain ⟨hinside, hstop, hslice⟩ := Token.slice_of_block? hstart ht
      have hcontributes := (Token.takes_of_block? ht).2.contributes
      rw [← hslice] at hcontributes
      have hsplit := GreedySplit.cons ((Token.stopsAt_iff hstart).2 hstop) hcontributes
        (ih hinside hrest)
      rw [hslice, Nat.add_assoc, ← List.length_append] at hsplit
      exact hsplit

theorem GreedySplit.exists_blocks? {tokens : List Token} {es : List Entry} {start stop : Nat}
    {vs : List Value} (h : GreedySplit es tokens start stop vs) (hstart : start ≤ es.length) :
    ∃ blocks, blocks? tokens (es.drop start) = some blocks ∧
      stop = start + blocks.flatten.length ∧ vs = capturesOf tokens blocks := by
  induction h with
  | nil start => exact ⟨[], rfl, rfl, rfl⟩
  | @cons t ts start next stop vs ws stops contributes rest ih =>
    obtain ⟨taken, htaken, rfl⟩ := Option.map_eq_some_iff.1 ((Token.stopsAt_iff hstart).1 stops)
    obtain ⟨hinside, -, hslice⟩ := Token.slice_of_block? hstart htaken
    obtain ⟨blocks, hblocks, rfl, rfl⟩ := ih hinside
    obtain rfl := contributes.eq_captures
    refine ⟨taken :: blocks, ?_, ?_, ?_⟩
    · unfold blocks?
      simp only [htaken, List.drop_drop, hblocks, Option.map_some]
    · rw [List.flatten_cons, List.length_append, Nat.add_assoc]
    · rw [hslice, capturesOf]

theorem Match.at?_eq_some_iff {tokens : List Token} {es : List Entry} {start : Nat} {m : Match}
    (hstart : start ≤ es.length) :
    at? tokens es start = some m ↔
      m.span.start = start ∧ GreedySplit es tokens start m.span.stop m.captures := by
  unfold at? here?
  constructor
  · intro h
    obtain ⟨blocks, hblocks, rfl⟩ := Option.map_eq_some_iff.1 h
    exact ⟨rfl, greedySplit_of_blocks? hstart hblocks⟩
  · rintro ⟨hspan, hsplit⟩
    obtain ⟨blocks, hblocks, hstop, hcaptures⟩ := hsplit.exists_blocks? hstart
    rw [hblocks, Option.map_some, ← hstop, ← hcaptures, ← hspan]

theorem Match.at?_eq_none_iff {tokens : List Token} {es : List Entry} {start : Nat}
    (hstart : start ≤ es.length) :
    at? tokens es start = none ↔ ¬∃ stop vs, GreedySplit es tokens start stop vs := by
  rw [Option.eq_none_iff_forall_ne_some]
  constructor
  · rintro hnone ⟨stop, vs, hsplit⟩
    exact hnone ⟨⟨start, stop⟩, vs⟩ ((at?_eq_some_iff hstart).2 ⟨rfl, hsplit⟩)
  · rintro hsplits m hm
    exact hsplits ⟨m.span.stop, m.captures, ((at?_eq_some_iff hstart).1 hm).2⟩

theorem Match.find?_eq_some_iff_greedySplit {tokens : List Token} {es : List Entry} {m : Match} :
    find? tokens es = some m ↔
      m.span.start < es.length ∧ GreedySplit es tokens m.span.start m.span.stop m.captures ∧
        ∀ start < m.span.start, ¬∃ stop vs, GreedySplit es tokens start stop vs := by
  unfold find?
  rw [findFrom?_eq_some_iff]
  simp only [Nat.zero_add]
  constructor
  · rintro ⟨i, hi, hat, hbefore⟩
    obtain ⟨rfl, hsplit⟩ := (at?_eq_some_iff (Nat.le_of_lt hi)).1 hat
    exact ⟨hi, hsplit, fun j hj =>
      (at?_eq_none_iff (Nat.le_of_lt (hj.trans hi))).1 (hbefore j hj)⟩
  · rintro ⟨hi, hsplit, hbefore⟩
    exact ⟨m.span.start, hi, (at?_eq_some_iff (Nat.le_of_lt hi)).2 ⟨rfl, hsplit⟩, fun j hj =>
      (at?_eq_none_iff (Nat.le_of_lt (hj.trans hi))).2 (hbefore j hj)⟩

theorem Match.exists_find?_iff {tokens : List Token} {es : List Entry} :
    (∃ m, find? tokens es = some m) ↔
      ∃ start < es.length, ∃ stop vs, GreedySplit es tokens start stop vs := by
  constructor
  · rintro ⟨m, hm⟩
    obtain ⟨hstart, hsplit, -⟩ := find?_eq_some_iff_greedySplit.1 hm
    exact ⟨m.span.start, hstart, m.span.stop, m.captures, hsplit⟩
  · intro hsome
    -- the search stops at the least index at which there is a split
    classical
    obtain ⟨hstart, stop, vs, hsplit⟩ := Nat.find_spec hsome
    refine ⟨⟨⟨Nat.find hsome, stop⟩, vs⟩, find?_eq_some_iff_greedySplit.2
      ⟨hstart, hsplit, fun i hi hsplits => ?_⟩⟩
    exact Nat.find_min hsome hi ⟨hi.trans hstart, hsplits⟩

theorem Token.Takes.length_captures {t : Token} {es : List Entry} {vs : List Value}
    (h : t.Takes es vs) (hquantifier : t.captured = true → t.atom.isTerminal = false →
      t.repetition = .once) : vs.length = if t.captured then 1 else 0 := by
  have hcount := h.count
  cases h.contributes with
  | nothing es hc => simp [hc]
  | text cs hc ha => simp [hc]
  | values symbol vs hc ha =>
    have honce := hquantifier hc (by simp [ha, Atom.isTerminal])
    simpa [honce, Repetition.accepts, hc] using hcount

theorem Splits.length_captures {tokens : List Token} {es : List Entry} {vs : List Value}
    (h : Splits tokens es vs) (hquantifier : ∀ t ∈ tokens, t.captured = true →
      t.atom.isTerminal = false → t.repetition = .once) :
    vs.length = tokens.countP (·.captured) := by
  induction h with
  | nil => rfl
  | cons head tail ih =>
    obtain ⟨ht, hts⟩ := List.forall_mem_cons.1 hquantifier
    rw [List.length_append, head.length_captures ht, ih hts, List.countP_cons, Nat.add_comm]

/-- A search finds a match exactly if there is a greedy split at some entry: the one at the least
index, with its span and its captures. If no captured token for a name has a quantifier, the match
has as many captures as the pattern has captured tokens. -/
theorem Pattern.find?_eq_greedySplit (p : Pattern) (es : List Entry) :
    ((∃ m, Match.find? p.tokens es = some m) ↔
      ∃ start < es.length, ∃ stop vs, GreedySplit es p.tokens start stop vs) ∧
    (∀ m, Match.find? p.tokens es = some m ↔
      m.span.start < es.length ∧ GreedySplit es p.tokens m.span.start m.span.stop m.captures ∧
        ∀ start < m.span.start, ¬∃ stop vs, GreedySplit es p.tokens start stop vs) ∧
    ((∀ t ∈ p.tokens, t.captured = true → t.atom.isTerminal = false → t.repetition = .once) →
      ∀ m, Match.find? p.tokens es = some m → m.captures.length = p.captureCount) := by
  refine ⟨Match.exists_find?_iff, fun m => Match.find?_eq_some_iff_greedySplit,
    fun hquantifier m hm => ?_⟩
  obtain ⟨before, found, after, -, -, hsplits⟩ := Match.isSplit_of_find? hm
  exact hsplits.length_captures hquantifier

/-- Letters, a number, and perhaps a mark. -/
def labelledPattern : Pattern :=
  ⟨"('[a-b]'+) (N) 'c'* ('x'?)",
    [⟨.charSet (.ofRange 'a' 'b'), .oneOrMore, true⟩, ⟨.name "N", .once, true⟩,
      ⟨.char 'c', .zeroOrMore, false⟩, ⟨.char 'x', .zeroOrOne, true⟩]⟩

theorem Pattern.find?_eq_greedySplit_labelled :
    (∀ t ∈ labelledPattern.tokens, t.captured = true → t.atom.isTerminal = false →
      t.repetition = .once) ∧
    Match.find? labelledPattern.tokens
        [.char 'a', .char 'c', .char 'b', .char 'a', .reduced "N" (.int 7), .char 'c'] =
      some ⟨⟨2, 6⟩, [.string "ba", .int 7, .string ""]⟩ ∧
    GreedySplit [.char 'a', .char 'c', .char 'b', .char 'a', .reduced "N" (.int 7), .char 'c']
      labelledPattern.tokens 2 6 [.string "ba", .int 7, .string ""] ∧
    [Value.string "ba", .int 7, .string ""].length = labelledPattern.captureCount := by
  have hquantifier : ∀ t ∈ labelledPattern.tokens, t.captured = true →
      t.atom.isTerminal = false → t.repetition = .once := by decide
  have hfind : Match.find? labelledPattern.tokens
      [.char 'a', .char 'c', .char 'b', .char 'a', .reduced "N" (.int 7), .char 'c'] =
        some ⟨⟨2, 6⟩, [.string "ba", .int 7, .string ""]⟩ := by decide
  obtain ⟨-, hiff, hcount⟩ := Pattern.find?_eq_greedySplit labelledPattern
    [.char 'a', .char 'c', .char 'b', .char 'a', .reduced "N" (.int 7), .char 'c']
  exact ⟨hquantifier, hfind, ((hiff _).1 hfind).2.1, hcount hquantifier _ hfind⟩

end ReductionGrammar
