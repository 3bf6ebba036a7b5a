import Mathlib.Data.List.TakeWhile
import ReductionGrammar.Buffer.Outcome

/-!
# How a buffer is classified

A buffer is accepted with a value exactly if it is the start symbol with this value and nothing
else. Any other buffer is stuck as it is. The span that it reports shows where: the first entries in
a row that are not the start symbol, or all but the first if every entry is one.
-/

namespace ReductionGrammar

namespace Outcome

/-- The span shows where a buffer with these entries is stuck. -/
structure Locates (start : String) (es : List Entry) (span : Span) : Prop where
  start_le_stop : span.start ≤ span.stop
  stop_le : span.stop ≤ es.length
  eq_nil_of_empty : span.start = span.stop → es = []
  first : (∃ e ∈ es, e.isReducedTo start = false) →
    (∀ e ∈ es.take span.start, e.isReducedTo start = true) ∧
      (∀ e ∈ es.extract span.start span.stop, e.isReducedTo start = false) ∧
      (span.stop = es.length ∨ ∃ e, es[span.stop]? = some e ∧ e.isReducedTo start = true)
  repeated : es ≠ [] → (∀ e ∈ es, e.isReducedTo start = true) →
    2 ≤ es.length ∧ span = ⟨1, es.length⟩

/-! ### Accepted buffers -/

theorem entries_of_accepted {start : String} {b : Buffer} {value : Value}
    (h : ofBuffer start b = .accepted value) : b.entries = [.reduced start value] := by
  unfold ofBuffer at h
  split at h
  · rename_i symbol v hentries
    split at h
    · rename_i hstart
      cases h
      rw [hentries, hstart]
    · cases h
  · cases h

theorem ofBuffer_eq_accepted_iff {start : String} {b : Buffer} {value : Value} :
    ofBuffer start b = .accepted value ↔ b.entries = [.reduced start value] := by
  constructor
  · exact entries_of_accepted
  · intro h
    simp only [ofBuffer, h, ite_true]

theorem ofBuffer_of_ne {start : String} {b : Buffer}
    (h : ∀ value, b.entries ≠ [.reduced start value]) :
    ofBuffer start b = .stuck b (unmatched start b.entries) := by
  unfold ofBuffer
  split
  · rename_i symbol value hentries
    have hsymbol : symbol ≠ start := by
      intro heq
      exact h value (heq ▸ hentries)
    rw [if_neg hsymbol, hentries]
  · rfl

theorem eq_reduced_of_isReducedTo {e : Entry} {start : String} (h : e.isReducedTo start = true) :
    ∃ value, e = .reduced start value := by
  cases e with
  | char c => cases h
  | reduced symbol value =>
    have hsymbol : symbol = start := by simpa [Entry.isReducedTo] using h
    exact ⟨value, by rw [hsymbol]⟩

/-! ### Where a buffer is stuck -/

/-- The entries that are not the start symbol stand between some that all are and the end, or one
that is again. -/
theorem exists_unmatched {start : String} {es : List Entry}
    (h : ∃ e ∈ es, e.isReducedTo start = false) :
    ∃ before run after : List Entry, es = before ++ (run ++ after) ∧ run ≠ [] ∧
      unmatched start es = ⟨before.length, before.length + run.length⟩ ∧
      (∀ e ∈ before, e.isReducedTo start = true) ∧ (∀ e ∈ run, e.isReducedTo start = false) ∧
      ∀ e ∈ after.head?, e.isReducedTo start = true := by
  have hes := List.takeWhile_append_dropWhile (p := (·.isReducedTo start)) (l := es)
  unfold unmatched
  cases hrest : es.dropWhile (·.isReducedTo start) with
  | nil =>
    obtain ⟨e, he, hnot⟩ := h
    have hall := List.dropWhile_eq_nil_iff.1 hrest e he
    rw [hnot] at hall
    cases hall
  | cons e rest =>
    have he : e.isReducedTo start = false := by
      have hhead := List.head?_dropWhile_not (·.isReducedTo start) es
      simpa [hrest] using hhead
    refine ⟨es.takeWhile (·.isReducedTo start), e :: rest.takeWhile (!·.isReducedTo start),
      rest.dropWhile (!·.isReducedTo start), ?_, by simp, rfl, ?_, ?_, ?_⟩
    · rw [List.cons_append, List.takeWhile_append_dropWhile, ← hrest, hes]
    · exact fun d hd => List.mem_takeWhile_imp (p := fun e : Entry => e.isReducedTo start) hd
    · intro d hd
      rcases List.mem_cons.1 hd with rfl | hd
      · exact he
      · simpa using List.mem_takeWhile_imp hd
    · intro d hd
      have hhead := List.head?_dropWhile_not (fun e : Entry => !e.isReducedTo start) rest
      rw [Option.mem_def.1 hd] at hhead
      simpa using hhead

theorem unmatched_of_forall {start : String} {es : List Entry}
    (h : ∀ e ∈ es, e.isReducedTo start = true) :
    unmatched start es = ⟨min 1 es.length, es.length⟩ := by
  have hrest : es.dropWhile (·.isReducedTo start) = [] := List.dropWhile_eq_nil_iff.2 h
  simp only [unmatched, hrest]

theorem locates_of_exists {start : String} {es : List Entry}
    (h : ∃ e ∈ es, e.isReducedTo start = false) : Locates start es (unmatched start es) := by
  obtain ⟨before, run, after, hes, hne, hspan, hbefore, hrun, hafter⟩ := exists_unmatched h
  have hpos := List.length_pos_iff.2 hne
  have hlength : es.length = before.length + (run.length + after.length) := by
    rw [hes, List.length_append, List.length_append]
  have hextract : es.extract before.length (before.length + run.length) = run := by
    rw [List.extract_eq_take_drop, Nat.add_sub_cancel_left, hes, List.drop_left, List.take_left]
  rw [hspan]
  constructor
  case start_le_stop => exact Nat.le_add_right ..
  case stop_le =>
    simp only [hlength]
    omega
  case eq_nil_of_empty =>
    simp only
    omega
  case first =>
    intro _
    refine ⟨?_, ?_, ?_⟩
    · simp only [hes, List.take_left]
      exact hbefore
    · rw [hextract]
      exact hrun
    · cases after with
      | nil =>
        left
        simp only [hlength, List.length_nil, Nat.add_zero]
      | cons e after =>
        refine .inr ⟨e, ?_, hafter e rfl⟩
        simp only [hes, ← List.append_assoc, ← List.length_append]
        rw [List.getElem?_append_right (Nat.le_refl _), Nat.sub_self, List.getElem?_cons_zero]
  case repeated =>
    intro _ hall
    obtain ⟨e, he, hnot⟩ := h
    rw [hall e he] at hnot
    cases hnot

/-- The classification has dealt with a single start symbol already, so there is a second one. -/
theorem locates_of_forall {start : String} {es : List Entry}
    (hne : ∀ value, es ≠ [.reduced start value]) (h : ∀ e ∈ es, e.isReducedTo start = true) :
    Locates start es (unmatched start es) := by
  have hlength : es = [] ∨ 2 ≤ es.length := by
    match es with
    | [] => exact .inl rfl
    | [e] =>
      obtain ⟨value, rfl⟩ := eq_reduced_of_isReducedTo (h e (List.mem_cons_self ..))
      exact absurd rfl (hne value)
    | _ :: _ :: rest => exact .inr (by simp)
  rw [unmatched_of_forall h]
  constructor
  case start_le_stop =>
    simp only
    omega
  case stop_le => exact Nat.le_refl _
  case eq_nil_of_empty =>
    intro hempty
    rcases hlength with hnil | htwo
    · exact hnil
    · simp only at hempty
      omega
  case first =>
    intro hexists
    obtain ⟨e, he, hnot⟩ := hexists
    rw [h e he] at hnot
    cases hnot
  case repeated =>
    intro hcons _
    rcases hlength with hnil | htwo
    · exact absurd hnil hcons
    · rw [Nat.min_eq_left (by omega)]
      exact ⟨htwo, rfl⟩

theorem locates_unmatched {start : String} {es : List Entry}
    (hne : ∀ value, es ≠ [.reduced start value]) : Locates start es (unmatched start es) := by
  by_cases h : ∃ e ∈ es, e.isReducedTo start = false
  · exact locates_of_exists h
  · exact locates_of_forall hne (by simpa using h)

/-- A buffer is accepted exactly if it is one entry, reduced to the start symbol, and then with the
value of this entry; every other buffer is stuck unchanged, and the span shows where. -/
theorem ofBuffer_classifies (start : String) (b : Buffer) :
    (∀ value, ofBuffer start b = .accepted value ↔ b.entries = [.reduced start value]) ∧
      ((∀ value, b.entries ≠ [.reduced start value]) →
        ∃ span, ofBuffer start b = .stuck b span ∧ Locates start b.entries span) := by
  constructor
  · exact fun value => ofBuffer_eq_accepted_iff
  · intro h
    exact ⟨unmatched start b.entries, ofBuffer_of_ne h, locates_unmatched h⟩

/-- Between two start symbols stand a character and another symbol. -/
def mixed : Buffer :=
  ⟨[.reduced "Expr" (.int 1), .char '+', .reduced "Num" (.int 2), .reduced "Expr" (.int 3),
    .char '?']⟩

theorem ofBuffer_classifies_mixed :
    (∀ value, mixed.entries ≠ [.reduced "Expr" value]) ∧
      ofBuffer "Expr" mixed = .stuck mixed ⟨1, 3⟩ ∧ Locates "Expr" mixed.entries ⟨1, 3⟩ ∧
      ofBuffer "Expr" ⟨[.reduced "Expr" (.int 22)]⟩ = .accepted (.int 22) := by
  have hne : ∀ value, mixed.entries ≠ [.reduced "Expr" value] := by
    intro value h
    cases h
  have hstuck : ofBuffer "Expr" mixed = .stuck mixed ⟨1, 3⟩ := by decide
  obtain ⟨span, hspan, hlocates⟩ := (ofBuffer_classifies "Expr" mixed).2 hne
  rw [hstuck] at hspan
  injection hspan with _ hspan
  rw [← hspan] at hlocates
  exact ⟨hne, hstuck, hlocates, ((ofBuffer_classifies "Expr" ⟨_⟩).1 _).2 rfl⟩

end Outcome

end ReductionGrammar
