import Mathlib.Algebra.GroupWithZero.Nat
import Mathlib.Data.Finset.Card
import Mathlib.Data.Finset.Dedup
import Mathlib.Data.List.DropRight
import ReductionGrammar.Trace.Log

/-!
# Summaries of logs

What the numbers that are shown of a log say about its records, as long as no record belongs to an
earlier parse than the one before it: which parses there are records of, in order and each once, and
how many records there are of every type of event.
-/

namespace ReductionGrammar.Trace

/-! ### Types of events -/

/-- The name of the type of an event, by which filters and summaries know it. -/
def Event.typeName : Event → String
  | parseStart _ => "parse-start"
  | passStart _ _ => "pass-start"
  | reduction _ => "reduction"
  | parseEnd _ _ _ => "parse-end"
  | parseAbort _ => "parse-abort"

theorem Event.name_kind (event : Event) : event.kind.name = event.typeName := by
  cases event <;> rfl

theorem EventKind.name_inj {k k' : EventKind} : k.name = k'.name ↔ k = k' := by
  cases k <;> cases k' <;> decide

/-! ### Leaving out repeats -/

theorem mem_dropRepeats {l : List Nat} {n : Nat} : n ∈ dropRepeats l ↔ n ∈ l := by
  fun_induction dropRepeats l with
  | case1 m rest ih => simp [ih]
  | case2 m k rest hne ih => simp only [List.mem_cons, ih]
  | case3 l hl => exact Iff.rfl

theorem head?_dropRepeats (l : List Nat) : (dropRepeats l).head? = l.head? := by
  fun_induction dropRepeats l with
  | case1 m rest ih => rw [ih, List.head?_cons, List.head?_cons]
  | case2 m k rest hne ih => rw [List.head?_cons, List.head?_cons]
  | case3 l hl => rfl

theorem getLast?_dropRepeats (l : List Nat) : (dropRepeats l).getLast? = l.getLast? := by
  fun_induction dropRepeats l with
  | case1 m rest ih => rw [ih, List.getLast?_cons_cons]
  | case2 m k rest hne ih => rw [List.getLast?_cons, ih, ← List.getLast?_cons]
  | case3 l hl => rfl

/-- Where nothing can repeat, there is one element at most. -/
theorem eq_nil_or_singleton {l : List Nat} (h : ∀ m k rest, l = m :: k :: rest → False) :
    l = [] ∨ ∃ m, l = [m] := by
  cases l with
  | nil => exact .inl rfl
  | cons m rest =>
    cases rest with
    | nil => exact .inr ⟨m, rfl⟩
    | cons k rest => exact (h m k rest rfl).elim

/-- In a list that does not decrease, equal elements stand next to each other. -/
theorem pairwise_lt_dropRepeats {l : List Nat} (h : l.Pairwise (· ≤ ·)) :
    (dropRepeats l).Pairwise (· < ·) := by
  fun_induction dropRepeats l with
  | case1 m rest ih => exact ih h.of_cons
  | case2 m k rest hne ih =>
    refine List.pairwise_cons.2 ⟨fun n hn => ?_, ih h.of_cons⟩
    have hk : m ≤ k := List.rel_of_pairwise_cons h (List.mem_cons_self ..)
    rcases List.mem_cons.1 (mem_dropRepeats.1 hn) with rfl | hn
    · exact Nat.lt_of_le_of_ne hk hne
    · have hkn : k ≤ n := List.rel_of_pairwise_cons h.of_cons hn
      omega
  | case3 l hl =>
    obtain rfl | ⟨m, rfl⟩ := eq_nil_or_singleton hl
    · exact .nil
    · exact List.pairwise_singleton ..

/-! ### Logs -/

namespace Log

/-- The numbers shown of a log agree with its records. -/
structure Summarized (l : Log) : Prop where
  increasing : l.parses.Pairwise (· < ·)
  mem_parses : ∀ n, n ∈ l.parses ↔ ∃ r ∈ l.toList, r.parse = n
  oldest : l.parses.head? = l.oldestParse? ∧ l.stats.oldestParse = l.oldestParse?
  newest : l.parses.getLast? = l.newestParse? ∧ l.stats.newestParse = l.newestParse?
  parseCount : l.stats.parseCount = (l.toList.map (·.parse)).toFinset.card
  recordCount : l.stats.recordCount = l.toList.length
  types : (l.stats.eventCounts.map (·.1.name)).Nodup
  mem_eventCounts : ∀ name n, (name, n) ∈ l.stats.eventCounts.map (fun c => (c.1.name, c.2)) ↔
    n = (l.toList.filter (·.event.typeName = name)).length ∧ 0 < n
  total : (l.stats.eventCounts.map (·.2)).sum = l.stats.recordCount

theorem toFinset_parses (l : Log) : l.parses.toFinset = (l.toList.map (·.parse)).toFinset := by
  ext n
  rw [List.mem_toFinset, List.mem_toFinset]
  exact mem_dropRepeats

theorem countOf_eq (l : Log) (kind : EventKind) :
    l.countOf kind = (l.toList.filter (·.event.typeName = kind.name)).length := by
  have hkind : ∀ r : Record, (r.event.kind == kind) = decide (r.event.typeName = kind.name) := by
    intro r
    rw [← Event.name_kind, Bool.beq_eq_decide_eq, decide_eq_decide, EventKind.name_inj]
  unfold countOf
  rw [List.countP_eq_length_filter]
  simp only [hkind]

theorem exists_kind_of_filter {l : Log} {name : String}
    (h : 0 < (l.toList.filter (·.event.typeName = name)).length) :
    ∃ kind : EventKind, kind.name = name := by
  obtain ⟨r, -, hr⟩ := List.length_filter_pos_iff.1 h
  exact ⟨r.event.kind, r.event.name_kind.trans (of_decide_eq_true hr)⟩

theorem mem_stats_eventCounts (l : Log) (kind : EventKind) (n : Nat) :
    (kind, n) ∈ l.stats.eventCounts ↔ n = l.countOf kind ∧ 0 < n := by
  have hall : kind ∈ EventKind.all := by cases kind <;> decide
  simp only [stats, List.mem_filter, List.mem_map, Prod.mk.injEq, decide_eq_true_eq]
  constructor
  · rintro ⟨⟨k, -, rfl, rfl⟩, hpos⟩
    exact ⟨rfl, hpos⟩
  · rintro ⟨rfl, hpos⟩
    exact ⟨⟨kind, hall, rfl, rfl⟩, hpos⟩

theorem mem_named_eventCounts (l : Log) (name : String) (n : Nat) :
    (name, n) ∈ l.stats.eventCounts.map (fun c => (c.1.name, c.2)) ↔
      n = (l.toList.filter (·.event.typeName = name)).length ∧ 0 < n := by
  rw [List.mem_map]
  constructor
  · rintro ⟨⟨kind, m⟩, hmem, heq⟩
    obtain ⟨rfl, rfl⟩ := Prod.mk.inj heq
    rw [← countOf_eq]
    exact (l.mem_stats_eventCounts kind m).1 hmem
  · intro h
    obtain ⟨kind, rfl⟩ := exists_kind_of_filter (h.1 ▸ h.2)
    rw [← countOf_eq] at h
    exact ⟨(kind, n), (l.mem_stats_eventCounts kind n).2 h, rfl⟩

theorem nodup_names (l : Log) : (l.stats.eventCounts.map (·.1.name)).Nodup := by
  have hall : (EventKind.all.map fun k => (k, l.countOf k)).map (·.1.name) =
      EventKind.all.map EventKind.name := by
    simp [Function.comp_def]
  have hsub : (l.stats.eventCounts.map (·.1.name)).Sublist (EventKind.all.map EventKind.name) := by
    rw [← hall]
    exact List.filter_sublist.map _
  exact hsub.nodup (by decide)

theorem sum_countOf (rs : List Record) :
    (EventKind.all.map fun k => rs.countP (·.event.kind == k)).sum = rs.length := by
  induction rs with
  | nil => rfl
  | cons r rs ih =>
    simp only [EventKind.all, List.map_cons, List.map_nil, List.sum_cons, List.sum_nil,
      List.countP_cons, List.length_cons] at ih ⊢
    cases r.event.kind <;> simp <;> omega

theorem sum_eventCounts (l : Log) : (l.stats.eventCounts.map (·.2)).sum = l.toList.length := by
  have hzero : ∀ counts : List (EventKind × Nat),
      ((counts.filter (0 < ·.2)).map (·.2)).sum = (counts.map (·.2)).sum := by
    intro counts
    induction counts with
    | nil => rfl
    | cons c counts ih =>
      by_cases hc : 0 < c.2
      · simp [hc, ih]
      · simp [ih, Nat.eq_zero_of_not_pos hc]
  have hsum := sum_countOf l.toList
  simp only [stats, hzero, List.map_map]
  exact hsum

theorem summarized {l : Log} (h : (l.toList.map (·.parse)).Pairwise (· ≤ ·)) : l.Summarized := by
  have hincreasing : l.parses.Pairwise (· < ·) := pairwise_lt_dropRepeats h
  refine ⟨hincreasing, fun n => ?_, ⟨?_, rfl⟩, ⟨?_, rfl⟩, ?_, l.length_toList.symm, l.nodup_names,
    l.mem_named_eventCounts, ?_⟩
  · rw [parses, mem_dropRepeats, List.mem_map]
  · rw [parses, head?_dropRepeats, List.head?_map]
    rfl
  · rw [parses, getLast?_dropRepeats, List.getLast?_map]
    rfl
  · rw [← toFinset_parses]
    exact (List.toFinset_card_of_nodup (hincreasing.imp Nat.ne_of_lt)).symm
  · rw [sum_eventCounts]
    exact l.length_toList

/-- A log that holds the newest records, as many as it may, still does when it is given one more. -/
theorem toList_push_of_rtake {l : Log} {rs : List Record} (h : l.toList = rs.rtake l.capacity)
    (parse timestamp : Nat) (event : Event) :
    (l.push parse timestamp event).toList =
      (rs ++ [Record.mk l.nextId parse timestamp event]).rtake l.capacity := by
  have hsize : l.size = min rs.length l.capacity := by
    rw [← length_toList, h, List.rtake, List.length_drop]
    omega
  rw [toList_push, h]
  by_cases hfull : l.capacity < l.size + 1
  · have hlength : rs.length + 1 - (l.capacity + 1) + 1 = rs.length + 1 - l.capacity := by omega
    rw [if_pos hfull, ← List.rtake_concat_succ]
    simp only [List.rtake, List.tail_drop, List.length_append, List.length_singleton, hlength]
  · have hlength : rs.length - l.capacity = 0 ∧ rs.length + 1 - l.capacity = 0 := by omega
    rw [if_neg hfull]
    simp only [List.rtake, List.length_append, List.length_singleton, hlength, List.drop_zero]

end Log

end ReductionGrammar.Trace
