import ReductionGrammar.Proofs.Trace.Summary

/-!
# Parse numbers of a log

A log is given events of any parses, in any order, and is cleared from time to time. Its parses are
what is left of the parse numbers of its records without those that repeat the one before them. Main
statement: this names each parse once, and counts the parses, exactly as long as no parse number
comes back after another one.
-/

namespace ReductionGrammar.Trace

/-! ### Numbers that come back -/

/-- A number stands before another one and after it. -/
def Interleaved (ns : List Nat) : Prop :=
  ∃ m n, m ≠ n ∧ [m, n, m].Sublist ns

/-- The numbers of `ns`, each of them once, in the order in which they first occur. -/
structure ListsFirsts (ps ns : List Nat) : Prop where
  nodup : ps.Nodup
  mem_iff : ∀ n, n ∈ ps ↔ n ∈ ns
  inOrder : ps.Pairwise fun m n => ns.idxOf m < ns.idxOf n

theorem Interleaved.cons {ns : List Nat} (h : Interleaved ns) (k : Nat) : Interleaved (k :: ns) := by
  obtain ⟨m, n, hne, hsub⟩ := h
  exact ⟨m, n, hne, hsub.cons k⟩

theorem not_interleaved_of_length {ns : List Nat} (h : ns.length < 3) : ¬ Interleaved ns := by
  rintro ⟨m, n, -, hsub⟩
  exact absurd hsub.length_le (Nat.not_le.2 h)

theorem interleaved_repeat {m : Nat} {rest : List Nat} :
    Interleaved (m :: m :: rest) ↔ Interleaved (m :: rest) := by
  constructor
  · rintro ⟨a, b, hne, hsub⟩
    rcases List.sublist_cons_iff.1 hsub with hsub | ⟨r, hr, hsub⟩
    · exact ⟨a, b, hne, hsub⟩
    · obtain ⟨rfl, rfl⟩ := List.cons.inj hr
      -- the number in between is another one, so it stands after the repeated one
      have hrest : [b, a].Sublist rest := by
        rcases List.sublist_cons_iff.1 hsub with hsub | ⟨_, hb, -⟩
        · exact hsub
        · exact absurd (List.cons.inj hb).1.symm hne
      exact ⟨a, b, hne, hrest.cons_cons a⟩
  · exact fun h => h.cons m

theorem interleaved_change {m k : Nat} {rest : List Nat} (hne : m ≠ k) :
    Interleaved (m :: k :: rest) ↔ m ∈ k :: rest ∨ Interleaved (k :: rest) := by
  constructor
  · rintro ⟨a, b, hab, hsub⟩
    rcases List.sublist_cons_iff.1 hsub with hsub | ⟨r, hr, hsub⟩
    · exact .inr ⟨a, b, hab, hsub⟩
    · obtain ⟨rfl, rfl⟩ := List.cons.inj hr
      exact .inl (hsub.subset (List.mem_cons_of_mem _ (List.mem_singleton_self a)))
  · rintro (hm | h)
    · have hrest : [m].Sublist rest := List.singleton_sublist.2 (List.mem_of_ne_of_mem hne hm)
      exact ⟨m, k, hne, (hrest.cons_cons k).cons_cons m⟩
    · exact h.cons m

/-! ### Leaving out repeats -/

theorem nodup_dropRepeats_iff {l : List Nat} : (dropRepeats l).Nodup ↔ ¬ Interleaved l := by
  fun_induction dropRepeats l with
  | case1 m rest ih => rw [ih, interleaved_repeat]
  | case2 m k rest hne ih =>
    rw [List.nodup_cons, mem_dropRepeats, ih, interleaved_change hne, not_or]
  | case3 l hl =>
    obtain rfl | ⟨m, rfl⟩ := eq_nil_or_singleton hl
    · exact iff_of_true List.nodup_nil (not_interleaved_of_length (by decide))
    · exact iff_of_true (List.nodup_singleton m) (not_interleaved_of_length (by simp))

theorem idxOf_lt_cons {l : List Nat} {a b m : Nat} (h : l.idxOf a < l.idxOf b) (hb : m ≠ b) :
    (m :: l).idxOf a < (m :: l).idxOf b := by
  rw [List.idxOf_cons_ne l hb]
  by_cases ha : m = a
  · rw [ha, List.idxOf_cons_self]
    exact Nat.succ_pos _
  · rw [List.idxOf_cons_ne l ha]
    exact Nat.succ_lt_succ h

theorem pairwise_idxOf_dropRepeats {l : List Nat} (h : (dropRepeats l).Nodup) :
    (dropRepeats l).Pairwise fun m n => l.idxOf m < l.idxOf n := by
  fun_induction dropRepeats l with
  | case1 m rest ih =>
    refine (ih h).imp fun {a b} hab => idxOf_lt_cons hab ?_
    -- what comes later than another number is not the first one
    rintro rfl
    rw [List.idxOf_cons_self] at hab
    exact absurd hab (Nat.not_lt_zero _)
  | case2 m k rest hne ih =>
    obtain ⟨hm, hrest⟩ := List.nodup_cons.1 h
    have hother : ∀ n ∈ dropRepeats (k :: rest), m ≠ n := fun n hn heq => hm (heq ▸ hn)
    refine List.pairwise_cons.2 ⟨fun n hn => ?_, ?_⟩
    · rw [List.idxOf_cons_self, List.idxOf_cons_ne _ (hother n hn)]
      exact Nat.succ_pos _
    · exact (ih hrest).imp_of_mem fun _ hb hab => idxOf_lt_cons hab (hother _ hb)
  | case3 l hl =>
    obtain rfl | ⟨m, rfl⟩ := eq_nil_or_singleton hl
    · exact .nil
    · exact List.pairwise_singleton ..

theorem listsFirsts_dropRepeats_iff {l : List Nat} :
    ListsFirsts (dropRepeats l) l ↔ ¬ Interleaved l := by
  rw [← nodup_dropRepeats_iff]
  exact ⟨ListsFirsts.nodup, fun h => ⟨h, fun _ => mem_dropRepeats, pairwise_idxOf_dropRepeats h⟩⟩

/-! ### Histories of a log -/

/-- What can be done to a log. -/
inductive LogOp where
  | push (parse timestamp : Nat) (event : Event)
  | clear

namespace LogOp

def apply (l : Log) : LogOp → Log
  | push parse timestamp event => l.push parse timestamp event
  | clear => l.clear

def isClear : LogOp → Bool
  | clear => true
  | _ => false

def parse? : LogOp → Option Nat
  | push parse _ _ => some parse
  | clear => none

end LogOp

/-- The parse numbers of the events since the log was cleared last. -/
def pushedSinceClear (ops : List LogOp) : List Nat :=
  (ops.rtakeWhile (!·.isClear)).filterMap LogOp.parse?

theorem pushedSinceClear_concat (ops : List LogOp) (op : LogOp) :
    pushedSinceClear (ops ++ [op]) =
      if op.isClear then [] else pushedSinceClear ops ++ op.parse?.toList := by
  unfold pushedSinceClear
  rw [List.rtakeWhile_concat]
  cases op with
  | push parse timestamp event => exact List.filterMap_append
  | clear => rfl

namespace Log

def afterAll (l : Log) (ops : List LogOp) : Log :=
  ops.foldl LogOp.apply l

/-- The log has the newest of the records since it was cleared last, as many as it may. -/
def KeepsNewest (l : Log) (ops : List LogOp) : Prop :=
  ∃ rs : List Record, l.toList = rs.rtake l.capacity ∧ rs.map (·.parse) = pushedSinceClear ops

theorem KeepsNewest.apply {l : Log} {ops : List LogOp} (h : l.KeepsNewest ops) (op : LogOp) :
    (op.apply l).KeepsNewest (ops ++ [op]) := by
  obtain ⟨rs, hrs, hparses⟩ := h
  unfold KeepsNewest
  rw [pushedSinceClear_concat]
  cases op with
  | push parse timestamp event =>
    refine ⟨_, toList_push_of_rtake hrs parse timestamp event, ?_⟩
    rw [List.map_append, hparses]
    rfl
  | clear => exact ⟨[], (List.rtake_nil _).symm, rfl⟩

theorem keepsNewest_afterAll (capacity : Nat) (ops : List LogOp) :
    ((empty capacity).afterAll ops).KeepsNewest ops := by
  induction ops using List.reverseRecOn with
  | nil => exact ⟨[], (List.rtake_nil _).symm, rfl⟩
  | append_singleton ops op ih =>
    have hlast : (empty capacity).afterAll (ops ++ [op]) =
        op.apply ((empty capacity).afterAll ops) := List.foldl_append
    exact hlast ▸ ih.apply op

theorem capacity_afterAll (l : Log) (ops : List LogOp) :
    (l.afterAll ops).capacity = l.capacity := by
  induction ops generalizing l with
  | nil => rfl
  | cons op ops ih =>
    have hop : (op.apply l).capacity = l.capacity := by cases op <;> rfl
    exact (ih (op.apply l)).trans hop

theorem map_parse_afterAll (capacity : Nat) (ops : List LogOp) :
    ((empty capacity).afterAll ops).toList.map (·.parse) =
      (pushedSinceClear ops).rtake capacity := by
  obtain ⟨rs, hrs, hparses⟩ := keepsNewest_afterAll capacity ops
  have hcapacity : ((empty capacity).afterAll ops).capacity = capacity :=
    capacity_afterAll (empty capacity) ops
  rw [hrs, hcapacity, ← hparses, List.rtake, List.rtake, List.map_drop, List.length_map]

theorem card_le_parseCount (l : Log) :
    (l.toList.map (·.parse)).toFinset.card ≤ l.stats.parseCount := by
  rw [← toFinset_parses]
  exact List.toFinset_card_le l.parses

theorem parseCount_eq_iff (l : Log) :
    l.stats.parseCount = (l.toList.map (·.parse)).toFinset.card ↔
      ¬ Interleaved (l.toList.map (·.parse)) := by
  rw [← nodup_dropRepeats_iff, ← toFinset_parses, eq_comm]
  exact Multiset.toFinset_card_eq_card_iff_nodup

/-- Whatever was pushed to a log and whenever it was cleared, it keeps the newest records, and its
parses are those of the records. They are named once each, in the order in which they first occur,
and counted, if no parse number comes back among the records after another one; if one does, some
parse is named twice and the count is too large. -/
theorem parses_firsts_iff (capacity : Nat) (ops : List LogOp) :
    let l := (empty capacity).afterAll ops
    let retained := l.toList.map (·.parse)
    retained = (pushedSinceClear ops).rtake capacity ∧
    (∀ n, n ∈ l.parses ↔ n ∈ retained) ∧
    retained.toFinset.card ≤ l.stats.parseCount ∧
    (ListsFirsts l.parses retained ↔ ¬ Interleaved retained) ∧
    (l.stats.parseCount = retained.toFinset.card ↔ ¬ Interleaved retained) := by
  intro l retained
  have hretained : retained = (pushedSinceClear ops).rtake capacity :=
    map_parse_afterAll capacity ops
  exact ⟨hretained, fun _ => mem_dropRepeats, l.card_le_parseCount, listsFirsts_dropRepeats_iff,
    l.parseCount_eq_iff⟩

/-- A number does not come back if its first record has left. -/
example :
    ((empty 2).afterAll
      [.push 1 0 (.parseStart "a"), .push 2 0 (.parseStart "b"),
        .push 1 0 (.parseAbort "c")]).parses = [2, 1] := by
  decide

/-- The events of a parse stand around one of another parse. -/
theorem parses_interleaved :
    let l := (empty 10).afterAll
      [.push 1 0 (.parseStart "a"), .push 2 0 (.parseStart "b"), .push 1 0 (.parseAbort "c")]
    let retained := l.toList.map (·.parse)
    l.parses = [1, 2, 1] ∧ ¬ ListsFirsts l.parses retained ∧
      l.stats.parseCount = 3 ∧ retained.toFinset.card = 2 := by
  intro l retained
  have hparses : l.parses = [1, 2, 1] := by decide
  refine ⟨hparses, fun h => ?_, by decide, by decide⟩
  have hnodup : [1, 2, 1].Nodup := hparses ▸ h.nodup
  exact absurd hnodup (by decide)

end Log

end ReductionGrammar.Trace
