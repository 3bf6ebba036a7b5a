import ReductionGrammar.Proofs.Buffer.Greedy
import ReductionGrammar.Proofs.Run.Nullable

/-!
# Greedy matching and regular matching

The tokens of a pattern stand for a regular language of entry sequences: those that can be cut, in
any way, into one acceptable block for each token. Greedy matching finds sequences of this language
only. It may miss some, for it never gives an entry back; but if no token that may take several
entries, or none, accepts an entry that a later token accepts too, it misses none and finds the
longest.
-/

namespace ReductionGrammar

/-- The entries can be cut into blocks, one for each token, that the tokens may take. -/
inductive InLanguage : List Token → List Entry → Prop where
  | nil : InLanguage [] []
  | cons {t : Token} {ts : List Token} {block rest : List Entry}
      (count : t.repetition.accepts block.length = true)
      (accepted : ∀ e ∈ block, t.atom.accepts e = true) (tail : InLanguage ts rest) :
      InLanguage (t :: ts) (block ++ rest)

/-- No token with a quantifier accepts an entry that a token after it accepts. -/
def Separated (tokens : List Token) : Prop :=
  tokens.Pairwise fun t u => t.repetition ≠ .once →
    ∀ e, t.atom.accepts e = true → u.atom.accepts e = false

/-! ### The language -/

theorem Splits.inLanguage {tokens : List Token} {es : List Entry} {vs : List Value}
    (h : Splits tokens es vs) : InLanguage tokens es := by
  induction h with
  | nil => exact .nil
  | cons head tail ih => exact .cons head.count head.accepted ih

theorem InLanguage.allowsZero_of_nil {tokens : List Token} (h : InLanguage tokens []) :
    ∀ t ∈ tokens, t.repetition.allowsZero = true := by
  generalize hes : ([] : List Entry) = es at h
  induction h with
  | nil => simp
  | @cons t ts block rest count accepted tail ih =>
    obtain ⟨rfl, rfl⟩ := List.append_eq_nil_iff.1 hes.symm
    exact List.forall_mem_cons.2 ⟨t.repetition.accepts_zero ▸ count, ih rfl⟩

theorem InLanguage.exists_accepts {tokens : List Token} {es : List Entry} (h : InLanguage tokens es)
    {e : Entry} (he : e ∈ es) : ∃ t ∈ tokens, t.atom.accepts e = true := by
  induction h with
  | nil => cases he
  | @cons t ts block rest count accepted tail ih =>
    rcases List.mem_append.1 he with he | he
    · exact ⟨t, List.mem_cons_self .., accepted e he⟩
    · obtain ⟨u, hu, haccepts⟩ := ih he
      exact ⟨u, List.mem_cons_of_mem _ hu, haccepts⟩

/-! ### One token -/

/-- If some number of entries is acceptable, so is the greedy one, and it is no less. -/
theorem Repetition.accepts_cut {r : Repetition} {count n : Nat} (h : r.accepts count = true)
    (hn : count ≤ n) : r.accepts (r.cut n) = true ∧ count ≤ r.cut n := by
  cases r with
  | once =>
    simp only [accepts, cut, beq_iff_eq] at h ⊢
    omega
  | oneOrMore | zeroOrOne =>
    unfold cut
    simp only [accepts, decide_eq_true_eq] at h ⊢
    omega
  | zeroOrMore => exact ⟨rfl, hn⟩

theorem Token.block?_of_prefix {t : Token} {block es : List Entry}
    (hcount : t.repetition.accepts block.length = true)
    (haccepted : ∀ e ∈ block, t.atom.accepts e = true) (hbegins : block <+: es) :
    t.block? es = some (t.block es) ∧ block <+: t.block es := by
  have hrun : block.length ≤ (es.takeWhile t.atom.accepts).length := by
    rw [le_length_takeWhile_iff, ← List.prefix_iff_eq_take.1 hbegins]
    exact ⟨hbegins.length_le, haccepted⟩
  obtain ⟨hgreedy, hle⟩ := Repetition.accepts_cut hcount hrun
  rw [← Token.length_block] at hgreedy hle
  have htaken : t.block es <+: es := ⟨_, t.block_append_drop es⟩
  refine ⟨?_, List.prefix_of_prefix_length_le hbegins htaken hle⟩
  unfold Token.block?
  exact if_pos hgreedy

/-! ### All tokens -/

/-- If greedy matching takes an entry more than a block has, the word of the language ends there:
otherwise a later token would accept that entry. -/
theorem InLanguage.tail_eq_nil {t : Token} {ts : List Token} {block rest more after : List Entry}
    {e : Entry} (hseparated : Separated (t :: ts))
    (hcount : t.repetition.accepts block.length = true) (htail : InLanguage ts rest)
    (hmore : block ++ e :: more = t.block (block ++ (rest ++ after))) : rest = [] := by
  obtain ⟨hfirst, -⟩ := List.pairwise_cons.1 hseparated
  have honce : t.repetition ≠ .once := by
    intro honce
    have hlength := t.length_block (block ++ (rest ++ after))
    rw [← hmore, honce, Repetition.cut, List.length_append, List.length_cons] at hlength
    rw [honce, Repetition.accepts, beq_iff_eq] at hcount
    omega
  have haccepts : t.atom.accepts e = true := by
    have hmem : e ∈ t.block (block ++ (rest ++ after)) := by
      rw [← hmore]
      exact List.mem_append_right _ (List.mem_cons_self ..)
    exact Token.accepts_of_mem_block hmem
  have htaken := t.block_append_drop (block ++ (rest ++ after))
  rw [← hmore, List.append_assoc, List.append_cancel_left_eq, List.cons_append] at htaken
  cases rest with
  | nil => rfl
  | cons e' rest =>
    obtain rfl : e = e' := (List.cons.inj htaken).1
    obtain ⟨u, hu, hlater⟩ := htail.exists_accepts (List.mem_cons_self ..)
    rw [hfirst u hu honce e haccepts] at hlater
    cases hlater

/-- Whatever sequence of the language the entries begin with, greedy matching takes as many. -/
theorem InLanguage.exists_blocks? {tokens : List Token} {word es : List Entry}
    (h : InLanguage tokens word) (hseparated : Separated tokens) (hbegins : word <+: es) :
    ∃ blocks, blocks? tokens es = some blocks ∧ word.length ≤ blocks.flatten.length := by
  induction h generalizing es with
  | nil => exact ⟨[], rfl, Nat.le_refl _⟩
  | @cons t ts block rest count accepted tail ih =>
    obtain ⟨after, rfl⟩ := hbegins
    rw [List.append_assoc]
    obtain ⟨htaken, more, hmore⟩ :=
      Token.block?_of_prefix count accepted (List.prefix_append block (rest ++ after))
    unfold blocks?
    rw [htaken, ← hmore]
    cases more with
    | nil =>
      obtain ⟨blocks, hblocks, hle⟩ := ih hseparated.of_cons (List.prefix_append rest after)
      refine ⟨block :: blocks, ?_, ?_⟩
      · simp [hblocks]
      · rw [List.flatten_cons, List.length_append, List.length_append]
        exact Nat.add_le_add_left hle _
    | cons e more =>
      obtain rfl := tail.tail_eq_nil hseparated count hmore
      obtain ⟨blocks, hblocks⟩ := Option.isSome_iff_exists.1
        (isSome_blocks? tail.allowsZero_of_nil ((block ++ ([] ++ after)).drop
          (block ++ e :: more).length))
      refine ⟨(block ++ e :: more) :: blocks, ?_, ?_⟩
      · dsimp only
        rw [hblocks]
        rfl
      · simp only [List.flatten_cons, List.length_append, List.length_nil]
        omega

/-- A greedy match is a sequence of the language. If the tokens are separated there is a greedy
match whenever the entries there begin with a sequence of the language, and it is the longest. -/
theorem Match.at?_inLanguage (tokens : List Token) (es : List Entry) (start : Nat)
    (hstart : start ≤ es.length) :
    (∀ m, at? tokens es start = some m → m.span.start = start ∧ start ≤ m.span.stop ∧
      m.span.stop ≤ es.length ∧ InLanguage tokens (es.extract start m.span.stop)) ∧
    (Separated tokens →
      ((∃ m, at? tokens es start = some m) ↔
        ∃ stop, start ≤ stop ∧ stop ≤ es.length ∧ InLanguage tokens (es.extract start stop)) ∧
      ∀ m, at? tokens es start = some m → ∀ stop, start ≤ stop → stop ≤ es.length →
        InLanguage tokens (es.extract start stop) → stop ≤ m.span.stop) := by
  have hsound : ∀ m, at? tokens es start = some m → m.span.start = start ∧
      start ≤ m.span.stop ∧ m.span.stop ≤ es.length ∧
        InLanguage tokens (es.extract start m.span.stop) := by
    intro m hm
    obtain ⟨found, after, hes, hspan, hsplits⟩ := splits_of_here? hm
    have hlength := congrArg List.length hes
    rw [List.length_drop, List.length_append] at hlength
    have hword : es.extract start (start + found.length) = found := by
      rw [List.extract_eq_take_drop, Nat.add_sub_cancel_left, hes, List.take_left]
    have hinside : start + found.length ≤ es.length := by omega
    rw [hspan, hword]
    exact ⟨rfl, Nat.le_add_right .., hinside, hsplits.inLanguage⟩
  refine ⟨hsound, fun hseparated => ?_⟩
  have hcomplete : ∀ stop, start ≤ stop → stop ≤ es.length →
      InLanguage tokens (es.extract start stop) →
        ∃ m, at? tokens es start = some m ∧ stop ≤ m.span.stop := by
    intro stop hle hstop hword
    have hprefix : es.extract start stop <+: es.drop start := by
      rw [List.extract_eq_take_drop]
      exact List.take_prefix ..
    obtain ⟨blocks, hblocks, hlength⟩ := hword.exists_blocks? hseparated hprefix
    rw [List.extract_eq_take_drop, List.length_take, List.length_drop] at hlength
    refine ⟨_, Option.map_eq_some_iff.2 ⟨blocks, hblocks, rfl⟩, ?_⟩
    show stop ≤ start + blocks.flatten.length
    omega
  refine ⟨⟨?_, ?_⟩, ?_⟩
  · rintro ⟨m, hm⟩
    exact ⟨m.span.stop, (hsound m hm).2⟩
  · rintro ⟨stop, hle, hstop, hword⟩
    obtain ⟨m, hm, -⟩ := hcomplete stop hle hstop hword
    exact ⟨m, hm⟩
  · intro m hm stop hle hstop hword
    obtain ⟨m', hm', hlonger⟩ := hcomplete stop hle hstop hword
    cases hm.symm.trans hm'
    exact hlonger

/-- Letters before a number, and perhaps a mark after it. -/
def separatedTokens : List Token :=
  [⟨.char 'a', .zeroOrMore, true⟩, ⟨.name "N", .once, true⟩, ⟨.char 'x', .zeroOrOne, false⟩]

theorem separated_separatedTokens : Separated separatedTokens := by
  refine List.pairwise_cons.2 ⟨fun u hu _ e he => ?_, List.pairwise_cons.2
    ⟨fun u _ honce => absurd rfl honce, List.pairwise_singleton ..⟩⟩
  cases e with
  | reduced symbol value => cases he
  | char c =>
    obtain rfl : 'a' = c := beq_iff_eq.1 he
    rcases List.mem_pair.1 hu with rfl | rfl
    · rfl
    · rfl

theorem Match.at?_inLanguage_separated :
    1 ≤ [Entry.char 'a', .char 'a', .reduced "N" (.int 7), .char 'x', .char 'x'].length ∧
    Separated separatedTokens ∧
    at? separatedTokens [.char 'a', .char 'a', .reduced "N" (.int 7), .char 'x', .char 'x'] 1 =
      some ⟨⟨1, 4⟩, [.string "a", .int 7]⟩ ∧
    InLanguage separatedTokens [.char 'a', .reduced "N" (.int 7), .char 'x'] ∧
    InLanguage separatedTokens [.char 'a', .reduced "N" (.int 7)] ∧ 3 ≤ 4 := by
  have hat : at? separatedTokens
      [.char 'a', .char 'a', .reduced "N" (.int 7), .char 'x', .char 'x'] 1 =
        some ⟨⟨1, 4⟩, [.string "a", .int 7]⟩ := by decide
  have hshorter : InLanguage separatedTokens
      ([.char 'a'] ++ ([.reduced "N" (.int 7)] ++ ([] ++ []))) :=
    .cons (by decide) (by decide) (.cons (by decide) (by decide)
      (.cons (by decide) (by decide) .nil))
  obtain ⟨hsound, hcomplete⟩ := at?_inLanguage separatedTokens
    [.char 'a', .char 'a', .reduced "N" (.int 7), .char 'x', .char 'x'] 1 (by decide)
  exact ⟨by decide, separated_separatedTokens, hat, (hsound _ hat).2.2.2, hshorter,
    (hcomplete separated_separatedTokens).2 _ hat 3 (by decide) (by decide) hshorter⟩

/-- Tokens that are not separated: the first one leaves nothing for the second. -/
example : Match.at? [⟨.char 'a', .oneOrMore, false⟩, ⟨.char 'a', .once, false⟩]
    [.char 'a', .char 'a'] 0 = none := by
  decide

end ReductionGrammar
