import Mathlib.Data.List.Basic
import Mathlib.Data.List.TakeWhile
import ReductionGrammar.Buffer.Matching

/-!
# Splitting entries among tokens

What it means that a sequence of entries is a match of tokens, whatever the way in which the match
was found: the entries are cut into one block for each token, every block is acceptable to its
token, and the blocks determine the captures. The greedy matcher only finds such splits, and it
finds them where it says.
-/

namespace ReductionGrammar

/-- What a block contributes to the captures: nothing, its characters as one string, or its values
one by one. -/
inductive Token.Contributes (t : Token) : List Entry → List Value → Prop where
  | nothing (es : List Entry) (h : t.captured = false) : t.Contributes es []
  | text (cs : List Char) (h : t.captured = true) (ha : t.atom.isTerminal = true) :
      t.Contributes (cs.map .char) [.string (String.ofList cs)]
  | values (symbol : String) (vs : List Value) (h : t.captured = true)
      (ha : t.atom = .name symbol) : t.Contributes (vs.map (.reduced symbol)) vs

/-- The entries `es` are a block that the token may take, with the captures `vs`. -/
structure Token.Takes (t : Token) (es : List Entry) (vs : List Value) : Prop where
  count : t.repetition.accepts es.length = true
  accepted : ∀ e ∈ es, t.atom.accepts e = true
  contributes : t.Contributes es vs

/-- The entries are cut into consecutive blocks, one for each token in order; the captures of the
blocks stand one after the other. -/
inductive Splits : List Token → List Entry → List Value → Prop where
  | nil : Splits [] [] []
  | cons {t : Token} {ts : List Token} {block es : List Entry} {vs ws : List Value}
      (head : t.Takes block vs) (tail : Splits ts es ws) :
      Splits (t :: ts) (block ++ es) (vs ++ ws)

/-! ### One token -/

theorem Token.block_append_drop (t : Token) (es : List Entry) :
    t.block es ++ es.drop (t.block es).length = es := by
  cases es with
  | nil => rfl
  | cons e rest =>
    unfold Token.block
    by_cases ha : t.atom.accepts e = true
    · by_cases hm : t.repetition.allowsMany = true
      · have hp := List.takeWhile_prefix t.atom.accepts (l := rest)
        simp only [ha, hm, ite_true, List.length_cons, List.drop_succ_cons, List.cons_append]
        rw [List.prefix_iff_eq_append.1 hp]
      · simp [ha, hm]
    · simp [ha]

theorem Token.accepts_of_mem_block {t : Token} {es : List Entry} {e : Entry}
    (h : e ∈ t.block es) : t.atom.accepts e = true := by
  cases es with
  | nil => simp [Token.block] at h
  | cons first rest =>
    unfold Token.block at h
    by_cases ha : t.atom.accepts first = true
    · by_cases hm : t.repetition.allowsMany = true
      · simp only [ha, hm, ite_true, List.mem_cons] at h
        rcases h with rfl | h
        · exact ha
        · exact List.mem_takeWhile_imp h
      · simp only [ha, hm, ite_true, Bool.false_eq_true, ite_false, List.mem_singleton] at h
        rw [h]
        exact ha
    · simp [ha] at h

/-- A terminal accepts characters only. -/
theorem Atom.map_char_of_accepts {a : Atom} (hterm : a.isTerminal = true) {es : List Entry}
    (h : ∀ e ∈ es, a.accepts e = true) : (es.filterMap Entry.char?).map .char = es := by
  induction es with
  | nil => rfl
  | cons e es ih =>
    have he : a.accepts e = true := h e (List.mem_cons_self ..)
    have hes := ih fun x hx => h x (List.mem_cons_of_mem _ hx)
    cases e with
    | char c => simp [Entry.char?, hes]
    | reduced symbol value =>
      have hnot : a.acceptsSymbol symbol = false := by
        cases a with
        | name expected => simp [Atom.isTerminal] at hterm
        | char d => rfl
        | charSet set => rfl
      rw [Atom.accepts, hnot] at he
      cases he

/-- A name accepts only entries reduced to it. -/
theorem Atom.map_reduced_of_accepts {symbol : String} {es : List Entry}
    (h : ∀ e ∈ es, (Atom.name symbol).accepts e = true) :
    (es.filterMap Entry.value?).map (.reduced symbol) = es := by
  induction es with
  | nil => rfl
  | cons e es ih =>
    have he : (Atom.name symbol).accepts e = true := h e (List.mem_cons_self ..)
    have hes := ih fun x hx => h x (List.mem_cons_of_mem _ hx)
    cases e with
    | char c => simp [Atom.accepts, Atom.acceptsChar] at he
    | reduced other value =>
      obtain rfl : symbol = other := by simpa [Atom.accepts, Atom.acceptsSymbol] using he
      simp [Entry.value?, hes]

theorem Token.contributes_captures {t : Token} {es : List Entry}
    (h : ∀ e ∈ es, t.atom.accepts e = true) : t.Contributes es (t.captures es) := by
  unfold Token.captures
  cases hc : t.captured with
  | false => exact .nothing es hc
  | true =>
    by_cases hterm : t.atom.isTerminal = true
    · have htext := Token.Contributes.text (es.filterMap Entry.char?) hc hterm
      rw [Atom.map_char_of_accepts hterm h] at htext
      simpa [hterm] using htext
    · obtain ⟨symbol, ha⟩ : ∃ symbol, t.atom = .name symbol := by
        cases ha : t.atom <;> simp_all [Atom.isTerminal]
      have hvalues := Token.Contributes.values symbol (es.filterMap Entry.value?) hc ha
      rw [Atom.map_reduced_of_accepts (ha ▸ h)] at hvalues
      simpa [hterm] using hvalues

theorem Token.Contributes.eq_captures {t : Token} {es : List Entry} {vs : List Value}
    (h : t.Contributes es vs) : vs = t.captures es := by
  unfold Token.captures
  cases h with
  | nothing es h => simp [h]
  | text cs h ha => simp [h, ha, List.filterMap_map, Function.comp_def, Entry.char?]
  | values symbol vs h ha =>
    simp [h, ha, Atom.isTerminal, List.filterMap_map, Function.comp_def, Entry.value?]

theorem Token.takes_of_block? {t : Token} {es taken : List Entry} (h : t.block? es = some taken) :
    taken = t.block es ∧ t.Takes taken (t.captures taken) := by
  unfold Token.block? at h
  dsimp only at h
  split at h
  · rename_i hcount
    cases h
    have haccepted : ∀ e ∈ t.block es, t.atom.accepts e = true := fun _ => accepts_of_mem_block
    exact ⟨rfl, hcount, haccepted, contributes_captures haccepted⟩
  · cases h

theorem Token.slice_of_block? {t : Token} {es taken : List Entry} {start : Nat}
    (hstart : start ≤ es.length) (h : t.block? (es.drop start) = some taken) :
    start + taken.length ≤ es.length ∧ t.stop? es start = some (start + taken.length) ∧
      es.extract start (start + taken.length) = taken := by
  have htaken := (Token.takes_of_block? h).1
  have happend := t.block_append_drop (es.drop start)
  rw [← htaken] at happend
  have hle : taken.length ≤ (es.drop start).length := by
    rw [← happend, List.length_append]
    exact Nat.le_add_right ..
  rw [List.length_drop] at hle
  refine ⟨by omega, ?_, ?_⟩
  · unfold Token.stop?
    rw [h, Option.map_some]
  · rw [List.extract_eq_take_drop, Nat.add_sub_cancel_left, ← happend, List.take_left]

theorem Token.stop_le {t : Token} {es : List Entry} {start next : Nat} (hstart : start ≤ es.length)
    (h : t.stop? es start = some next) : start ≤ next ∧ next ≤ es.length := by
  obtain ⟨taken, htaken, rfl⟩ := Option.map_eq_some_iff.1 h
  exact ⟨Nat.le_add_right .., (slice_of_block? hstart htaken).1⟩

/-! ### All tokens -/

theorem splits_of_blocks? {tokens : List Token} {es : List Entry} {blocks : List (List Entry)}
    (h : blocks? tokens es = some blocks) :
    Splits tokens blocks.flatten (capturesOf tokens blocks) ∧ blocks.flatten <+: es := by
  induction tokens generalizing es blocks with
  | nil =>
    cases h
    exact ⟨.nil, List.nil_prefix⟩
  | cons t ts ih =>
    unfold blocks? at h
    cases ht : t.block? es with
    | none => simp [ht] at h
    | some taken =>
      simp only [ht, Option.map_eq_some_iff] at h
      obtain ⟨rest, hrest, rfl⟩ := h
      obtain ⟨htaken, htakes⟩ := Token.takes_of_block? ht
      obtain ⟨hsplits, after, hafter⟩ := ih hrest
      have hes := Token.block_append_drop t es
      rw [← htaken, ← hafter, ← List.append_assoc] at hes
      exact ⟨.cons htakes hsplits, after, hes⟩

theorem Splits.allowsZero_of_nil {tokens : List Token} {vs : List Value}
    (h : Splits tokens [] vs) : ∀ t ∈ tokens, t.repetition.allowsZero = true := by
  generalize hes : ([] : List Entry) = es at h
  induction h with
  | nil => simp
  | @cons t ts block es vs ws head tail ih =>
    obtain ⟨rfl, rfl⟩ := List.append_eq_nil_iff.1 hes.symm
    have hzero : t.repetition.allowsZero = true := t.repetition.accepts_zero ▸ head.count
    exact List.forall_mem_cons.2 ⟨hzero, ih rfl⟩

theorem Splits.eq_nil {es : List Entry} {vs : List Value} (h : Splits [] es vs) :
    es = [] ∧ vs = [] := by
  cases h
  exact ⟨rfl, rfl⟩

/-- A token without a quantifier takes the first entry. -/
theorem Splits.exists_of_once {t : Token} (ht : t.repetition = .once) {ts : List Token}
    {es : List Entry} {vs : List Value} (h : Splits (t :: ts) es vs) :
    ∃ e rest us ws, es = e :: rest ∧ vs = us ++ ws ∧ t.Takes [e] us ∧ Splits ts rest ws := by
  cases h with
  | @cons t ts block rest us ws head tail =>
    have hcount := head.count
    rw [ht, Repetition.accepts, beq_iff_eq, List.length_eq_one_iff] at hcount
    obtain ⟨e, rfl⟩ := hcount
    exact ⟨e, rest, us, ws, rfl, rfl, head, tail⟩

theorem Splits.exists_of_char {c : Char} {ts : List Token} {es : List Entry} {vs : List Value}
    (h : Splits (⟨.char c, .once, false⟩ :: ts) es vs) :
    ∃ rest, es = .char c :: rest ∧ Splits ts rest vs := by
  obtain ⟨e, rest, us, ws, rfl, rfl, htakes, hrest⟩ := h.exists_of_once rfl
  have haccepts := htakes.accepted e (List.mem_singleton.2 rfl)
  have hcaptures := htakes.contributes.eq_captures
  cases e with
  | char d =>
    obtain rfl : c = d := by simpa [Atom.accepts, Atom.acceptsChar] using haccepts
    rw [hcaptures]
    exact ⟨rest, rfl, hrest⟩
  | reduced symbol value => cases haccepts

theorem Splits.exists_of_name {symbol : String} {ts : List Token} {es : List Entry}
    {vs : List Value} (h : Splits (⟨.name symbol, .once, true⟩ :: ts) es vs) :
    ∃ v rest ws, es = .reduced symbol v :: rest ∧ vs = v :: ws ∧ Splits ts rest ws := by
  obtain ⟨e, rest, us, ws, rfl, rfl, htakes, hrest⟩ := h.exists_of_once rfl
  have haccepts := htakes.accepted e (List.mem_singleton.2 rfl)
  have hcaptures := htakes.contributes.eq_captures
  cases e with
  | char d => cases haccepts
  | reduced other v =>
    obtain rfl : symbol = other := by simpa [Atom.accepts, Atom.acceptsSymbol] using haccepts
    rw [hcaptures]
    exact ⟨v, rest, ws, rfl, rfl, hrest⟩

/-- If all tokens together take a single entry, one of them takes it and the others take none. -/
theorem Splits.exists_of_singleton {tokens : List Token} {e : Entry} {vs : List Value}
    (h : Splits tokens [e] vs) :
    ∃ before t after, tokens = before ++ t :: after ∧ t.atom.accepts e = true ∧
      ∀ other ∈ before ++ after, other.repetition.allowsZero = true := by
  generalize hes : [e] = es at h
  induction h with
  | nil => cases hes
  | @cons t ts block es vs ws head tail ih =>
    rcases List.append_eq_cons_iff.1 hes.symm with ⟨rfl, rfl⟩ | ⟨rest, rfl, hrest⟩
    · obtain ⟨before, u, after, rfl, haccepts, hzero⟩ := ih rfl
      have ht : t.repetition.allowsZero = true := t.repetition.accepts_zero ▸ head.count
      exact ⟨t :: before, u, after, rfl, haccepts, List.forall_mem_cons.2 ⟨ht, hzero⟩⟩
    · obtain ⟨rfl, rfl⟩ := List.append_eq_nil_iff.1 hrest.symm
      exact ⟨[], t, ts, rfl, head.accepted e (List.mem_singleton.2 rfl), tail.allowsZero_of_nil⟩

/-- The span and the captures of a match belong to entries that split among the tokens. -/
def Match.IsSplit (m : Match) (tokens : List Token) (es : List Entry) : Prop :=
  ∃ before found after, es = before ++ found ++ after ∧
    m.span = ⟨before.length, before.length + found.length⟩ ∧ Splits tokens found m.captures

theorem Match.splits_of_here? {tokens : List Token} {start : Nat} {es : List Entry} {m : Match}
    (h : here? tokens start es = some m) :
    ∃ found after, es = found ++ after ∧ m.span = ⟨start, start + found.length⟩ ∧
      Splits tokens found m.captures := by
  obtain ⟨blocks, hblocks, rfl⟩ := Option.map_eq_some_iff.1 h
  obtain ⟨hsplits, after, hafter⟩ := splits_of_blocks? hblocks
  exact ⟨blocks.flatten, after, hafter.symm, rfl, hsplits⟩

theorem Match.isSplit_of_findFrom? {tokens : List Token} {before es : List Entry} {m : Match}
    (h : findFrom? tokens before.length es = some m) : m.IsSplit tokens (before ++ es) := by
  induction es generalizing before with
  | nil => cases h
  | cons e rest ih =>
    unfold findFrom? at h
    cases hhere : here? tokens before.length (e :: rest) with
    | some found =>
      simp only [hhere, Option.some.injEq] at h
      subst h
      obtain ⟨block, after, hes, hspan, hsplits⟩ := splits_of_here? hhere
      exact ⟨before, block, after, by rw [hes, List.append_assoc], hspan, hsplits⟩
    | none =>
      simp only [hhere] at h
      have hnext : findFrom? tokens (before ++ [e]).length rest = some m := by
        simpa using h
      simpa using ih hnext

theorem Match.isSplit_of_find? {tokens : List Token} {es : List Entry} {m : Match}
    (h : find? tokens es = some m) : m.IsSplit tokens es := by
  have hfrom : findFrom? tokens ([] : List Entry).length es = some m := h
  simpa using isSplit_of_findFrom? hfrom

end ReductionGrammar
