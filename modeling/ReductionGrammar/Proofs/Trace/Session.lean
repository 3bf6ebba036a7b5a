import ReductionGrammar.Proofs.Trace.Summary
import ReductionGrammar.Trace.Tracer

/-!
# Sessions of a tracer

A tracer is told of parses, is handed events, is turned on and off and is cleared, in any order.
From the list of these operations alone it is said here which events are admitted and what their
records are. The tracer keeps exactly the newest of the records since it was cleared last, and its
summary agrees with them.
-/

namespace ReductionGrammar.Trace

/-- What can be done to a tracer. -/
inductive Op where
  | observe (timestamp : Nat) (notice : Notice)
  | record (timestamp : Nat) (event : Event)
  | enable
  | disable
  | showJson (asJson : Bool)
  | clear

namespace Op

def apply (t : Tracer) : Op → Tracer
  | observe timestamp notice => t.observe timestamp notice
  | record timestamp event => t.record timestamp event
  | enable => t.setEnabled true
  | disable => t.setEnabled false
  | showJson asJson => t.setJson asJson
  | clear => t.clear

/-- The event that arrives with the operation, and when. Buffers and faults come as their texts; an
accepted parse ends with its value and no buffer, a stuck one with the place where it is stuck and
its buffer. -/
def arrival? : Op → Option (Nat × Event)
  | observe timestamp (.started input) => some (timestamp, .parseStart input)
  | observe timestamp (.pass number buffer) => some (timestamp, .passStart number buffer.display)
  | observe timestamp (.reduced reduction) => some (timestamp, .reduction reduction)
  | observe timestamp (.ended (.accepted value)) => some (timestamp, .parseEnd (some value) none "")
  | observe timestamp (.ended (.stuck buffer unmatched)) =>
    some (timestamp, .parseEnd none (some unmatched) buffer.display)
  | observe timestamp (.aborted fault) => some (timestamp, .parseAbort fault.message)
  | record timestamp event => some (timestamp, event)
  | enable | disable | showJson _ | clear => none

def startsParse : Op → Bool
  | observe _ (.started _) => true
  | _ => false

/-- Whether the operation turns the tracer on or off. -/
def switch? : Op → Option Bool
  | enable => some true
  | disable => some false
  | _ => none

def isClear : Op → Bool
  | clear => true
  | _ => false

theorem arrival?_observe (timestamp : Nat) (notice : Notice) :
    (observe timestamp notice).arrival? = some (timestamp, .ofNotice notice) := by
  cases notice with
  | started input | pass number buffer | reduced r | aborted fault => rfl
  | ended outcome =>
    cases outcome with
    | accepted value => rfl
    | stuck buffer unmatched => rfl

theorem of_arrival? {op : Op} {arrival : Nat × Event} (h : op.arrival? = some arrival) :
    op.switch? = none ∧ op.isClear = false := by
  cases op with
  | observe timestamp notice | record timestamp event => exact ⟨rfl, rfl⟩
  | enable | disable | showJson asJson | clear => cases h

end Op

/-! ### Records of a session -/

/-- Every operation with those before it. -/
def withPast (ops : List Op) : List (List Op × Op) :=
  ops.zipIdx.map fun e => (ops.take e.2, e.1)

def parsesStarted (ops : List Op) : Nat :=
  ops.countP Op.startsParse

namespace TracerSettings

/-- Whether the tracer is on after the operations: the last one that turned it on or off decides. -/
def enabledAfter (s : TracerSettings) (ops : List Op) : Bool :=
  (ops.filterMap Op.switch?).getLast?.getD s.enabled

/-- An event is admitted if it arrives while the tracer is on, and the filter is empty or has the
name of its type. -/
def admits (s : TracerSettings) (past : List Op) (event : Event) : Bool :=
  s.enabledAfter past && (s.filter.isEmpty || s.filter.contains event.typeName)

def admittedCount (s : TracerSettings) (ops : List Op) : Nat :=
  (withPast ops).countP fun e => e.2.arrival?.any fun arrival => s.admits e.1 arrival.2

/-- The record of the event that arrives with an operation, if it is admitted: its number is how
many events were admitted before it, its parse how many parses had started with it. -/
def record? (s : TracerSettings) (past : List Op) (op : Op) : Option Record :=
  match op.arrival? with
  | none => none
  | some (timestamp, event) =>
    if s.admits past event then
      some ⟨s.admittedCount past, parsesStarted (past ++ [op]), timestamp, event⟩
    else none

/-- The records of all events admitted since the tracer was set up. -/
def records (s : TracerSettings) (ops : List Op) : List Record :=
  (withPast ops).filterMap fun e => s.record? e.1 e.2

/-- The records of the events admitted since the tracer was cleared last. -/
def recordsSinceClear (s : TracerSettings) (ops : List Op) : List Record :=
  ((withPast ops).drop (ops.rdropWhile (!·.isClear)).length).filterMap fun e => s.record? e.1 e.2

end TracerSettings

def Tracer.afterAll (t : Tracer) (ops : List Op) : Tracer :=
  ops.foldl Op.apply t

/-! ### One more operation -/

theorem withPast_concat (ops : List Op) (op : Op) :
    withPast (ops ++ [op]) = withPast ops ++ [(ops, op)] := by
  have hpast : ∀ e ∈ ops.zipIdx, ((ops ++ [op]).take e.2, e.1) = (ops.take e.2, e.1) := by
    intro e he
    have hlt : e.2 < ops.length := List.snd_lt_of_mem_zipIdx he
    rw [List.take_append_of_le_length (Nat.le_of_lt hlt)]
  unfold withPast
  rw [List.zipIdx_append, List.map_append, List.map_congr_left hpast]
  simp

theorem length_withPast (ops : List Op) : (withPast ops).length = ops.length := by
  simp [withPast]

theorem parsesStarted_concat (ops : List Op) (op : Op) :
    parsesStarted (ops ++ [op]) = parsesStarted ops + if op.startsParse then 1 else 0 := by
  simp [parsesStarted, List.countP_append, List.countP_cons]

namespace TracerSettings

variable (s : TracerSettings)

theorem enabledAfter_concat (ops : List Op) (op : Op) :
    s.enabledAfter (ops ++ [op]) = op.switch?.getD (s.enabledAfter ops) := by
  unfold enabledAfter
  rw [List.filterMap_append]
  cases h : op.switch? with
  | none => simp [h]
  | some enabled => simp [h]

theorem isSome_record? (past : List Op) (op : Op) :
    (s.record? past op).isSome = op.arrival?.any fun arrival => s.admits past arrival.2 := by
  unfold record?
  cases op.arrival? with
  | none => rfl
  | some arrival => cases h : s.admits past arrival.2 <;> simp [h]

theorem records_concat (ops : List Op) (op : Op) :
    s.records (ops ++ [op]) = s.records ops ++ (s.record? ops op).toList := by
  unfold records
  rw [withPast_concat, List.filterMap_append]
  cases h : s.record? ops op <;> simp [h]

theorem admittedCount_eq (ops : List Op) : s.admittedCount ops = (s.records ops).length := by
  unfold admittedCount records
  rw [List.length_filterMap_eq_countP]
  exact List.countP_congr fun e _ => by rw [isSome_record?]

theorem recordsSinceClear_concat (ops : List Op) (op : Op) :
    s.recordsSinceClear (ops ++ [op]) =
      if op.isClear then [] else s.recordsSinceClear ops ++ (s.record? ops op).toList := by
  unfold recordsSinceClear
  rw [withPast_concat, List.rdropWhile_concat]
  cases hclear : op.isClear with
  | true =>
    have hle : (withPast ops ++ [(ops, op)]).length ≤ (ops ++ [op]).length := by
      simp [length_withPast]
    simp only [Bool.not_true, Bool.false_eq_true, ite_false, ite_true,
      List.drop_eq_nil_of_le hle, List.filterMap_nil]
  | false =>
    have hle : (ops.rdropWhile (!·.isClear)).length ≤ (withPast ops).length := by
      rw [length_withPast]
      exact (List.rdropWhile_prefix _ ops).length_le
    simp only [Bool.not_false, ite_true, Bool.false_eq_true, ite_false,
      List.drop_append_of_le_length hle, List.filterMap_append]
    cases h : s.record? ops op <;> simp [h]

/-! ### Numbers of records -/

theorem of_record? {past : List Op} {op : Op} {r : Record} (h : s.record? past op = some r) :
    r.id = s.admittedCount past ∧ r.parse = parsesStarted (past ++ [op]) := by
  unfold record? at h
  split at h
  · cases h
  · split at h
    · cases h
      exact ⟨rfl, rfl⟩
    · cases h

theorem map_id_records (ops : List Op) :
    (s.records ops).map (·.id) = List.range (s.admittedCount ops) := by
  induction ops using List.reverseRecOn with
  | nil => rfl
  | append_singleton ops op ih =>
    rw [admittedCount_eq, records_concat, List.map_append, ih, admittedCount_eq]
    cases h : s.record? ops op with
    | none => simp
    | some r =>
      have hid := (s.of_record? h).1
      rw [admittedCount_eq] at hid
      simp [hid, List.range_succ]

theorem parse_le_of_mem_records {ops : List Op} {r : Record} (h : r ∈ s.records ops) :
    r.parse ≤ parsesStarted ops := by
  induction ops using List.reverseRecOn with
  | nil => cases h
  | append_singleton ops op ih =>
    rw [records_concat, List.mem_append, Option.mem_toList] at h
    rcases h with h | h
    · exact Nat.le_trans (ih h) (by rw [parsesStarted_concat]; exact Nat.le_add_right ..)
    · exact Nat.le_of_eq (s.of_record? h).2

theorem pairwise_parse_records (ops : List Op) :
    ((s.records ops).map (·.parse)).Pairwise (· ≤ ·) := by
  induction ops using List.reverseRecOn with
  | nil => exact .nil
  | append_singleton ops op ih =>
    rw [records_concat, List.map_append]
    refine List.pairwise_append.2 ⟨ih, ?_, fun n hn k hk => ?_⟩
    · cases s.record? ops op <;> simp
    · obtain ⟨r, hr, rfl⟩ := List.mem_map.1 hn
      obtain ⟨r', hr', rfl⟩ := List.mem_map.1 hk
      rw [(s.of_record? (Option.mem_toList.1 hr')).2, parsesStarted_concat]
      exact Nat.le_trans (s.parse_le_of_mem_records hr) (Nat.le_add_right ..)

theorem recordsSinceClear_suffix (ops : List Op) : s.recordsSinceClear ops <:+ s.records ops :=
  (List.drop_suffix _ _).filterMap _

end TracerSettings

/-! ### Steps of a tracer -/

/-- The tracer is in the state that the operations say. -/
structure Tracer.After (t : Tracer) (s : TracerSettings) (ops : List Op) : Prop where
  enabled : t.settings.enabled = s.enabledAfter ops
  filter : t.settings.filter = s.filter
  capacity : t.log.capacity = s.capacity
  currentParse : t.currentParse = parsesStarted ops
  nextId : t.log.nextId = s.admittedCount ops
  kept : t.log.toList = (s.recordsSinceClear ops).rtake s.capacity

namespace Tracer

theorem after_ofSettings (s : TracerSettings) : (ofSettings s).After s [] :=
  ⟨rfl, rfl, rfl, rfl, rfl, (List.rtake_nil _).symm⟩

variable {t : Tracer} {s : TracerSettings} {ops : List Op}

/-- An observed notice is an event that arrives, after the parse is counted if it starts one. -/
theorem observe_eq (t : Tracer) (timestamp : Nat) (notice : Notice) :
    t.observe timestamp notice =
      { t with
        currentParse := t.currentParse +
          if (Op.observe timestamp notice).startsParse then 1 else 0 }.record timestamp
            (.ofNotice notice) := by
  cases notice with
  | started input => rfl
  | pass number buffer | reduced r | ended outcome | aborted fault =>
    cases henabled : t.settings.enabled <;>
      simp [observe, Op.startsParse, record, admits, henabled]

/-- An event arrives with the operation. `t'` is the tracer that has counted the parse which the
operation starts, if it starts one. -/
theorem After.arrive {t' : Tracer} (h : t.After s ops) {op : Op} {timestamp : Nat} {event : Event}
    (harrival : op.arrival? = some (timestamp, event)) (hsettings : t'.settings = t.settings)
    (hlog : t'.log = t.log) (hparse : t'.currentParse = parsesStarted (ops ++ [op])) :
    (t'.record timestamp event).After s (ops ++ [op]) := by
  have hadmits : t'.admits event.kind = s.admits ops event := by
    unfold admits TracerSettings.admits
    rw [hsettings, h.enabled, h.filter, Event.name_kind]
  obtain ⟨hswitch, hclear⟩ := Op.of_arrival? harrival
  have henabled : t'.settings.enabled = s.enabledAfter (ops ++ [op]) := by
    rw [s.enabledAfter_concat, hswitch, Option.getD_none, hsettings, h.enabled]
  have hsince := s.recordsSinceClear_concat ops op
  rw [hclear] at hsince
  have hcount := s.admittedCount_eq (ops ++ [op])
  rw [s.records_concat, List.length_append, ← s.admittedCount_eq, ← h.nextId] at hcount
  unfold record
  cases hadmitted : s.admits ops event with
  | true =>
    have hrecord : s.record? ops op =
        some ⟨t.log.nextId, t'.currentParse, timestamp, event⟩ := by
      simp [TracerSettings.record?, harrival, hadmitted, h.nextId, hparse]
    have hkept := h.kept
    rw [← h.capacity] at hkept
    have hpush := Log.toList_push_of_rtake hkept t'.currentParse timestamp event
    rw [if_pos (hadmits.trans hadmitted), hlog]
    refine ⟨henabled, hsettings ▸ h.filter, h.capacity, hparse, ?_, ?_⟩
    · rw [hcount, hrecord]
      rfl
    · rw [hsince, hrecord, ← h.capacity]
      exact hpush
  | false =>
    have hrecord : s.record? ops op = none := by
      simp [TracerSettings.record?, harrival, hadmitted]
    rw [if_neg (by rw [hadmits, hadmitted]; exact Bool.false_ne_true)]
    refine ⟨henabled, hsettings ▸ h.filter, hlog ▸ h.capacity, hparse, ?_, ?_⟩
    · rw [hlog, hcount, hrecord]
      rfl
    · rw [hlog, h.kept, hsince, hrecord]
      simp

/-- No event arrives with the operation. -/
theorem After.quiet {t' : Tracer} (h : t.After s ops) {op : Op} (harrival : op.arrival? = none)
    (henabled : t'.settings.enabled = op.switch?.getD t.settings.enabled)
    (hfilter : t'.settings.filter = t.settings.filter) (hparse : t'.currentParse = t.currentParse)
    (hlog : t'.log = if op.isClear then t.log.clear else t.log) : t'.After s (ops ++ [op]) := by
  have hrecord : s.record? ops op = none := by
    unfold TracerSettings.record?
    rw [harrival]
  have hstarts : op.startsParse = false := by
    cases op with
    | observe timestamp notice => cases (Op.arrival?_observe timestamp notice).symm.trans harrival
    | record timestamp event => cases harrival
    | enable | disable | showJson asJson | clear => rfl
  have hcount : s.admittedCount (ops ++ [op]) = s.admittedCount ops := by
    rw [s.admittedCount_eq, s.admittedCount_eq, s.records_concat, hrecord]
    simp
  have hsince := s.recordsSinceClear_concat ops op
  rw [hrecord] at hsince
  refine ⟨?_, hfilter.trans h.filter, ?_, ?_, ?_, ?_⟩
  · rw [henabled, h.enabled, s.enabledAfter_concat]
  · rw [hlog, ← h.capacity]
    cases op.isClear <;> rfl
  · rw [hparse, h.currentParse, parsesStarted_concat, hstarts]
    rfl
  · rw [hlog, hcount, ← h.nextId]
    cases op.isClear <;> rfl
  · rw [hlog, hsince]
    cases op.isClear with
    | true => exact (List.rtake_nil _).symm
    | false => simpa using h.kept

theorem After.apply (h : t.After s ops) (op : Op) : (op.apply t).After s (ops ++ [op]) := by
  have hparse := parsesStarted_concat ops op
  cases op with
  | observe timestamp notice =>
    rw [Op.apply, observe_eq]
    refine h.arrive (Op.arrival?_observe timestamp notice) rfl rfl ?_
    rw [hparse, h.currentParse]
  | record timestamp event => exact h.arrive rfl rfl rfl (h.currentParse.trans hparse.symm)
  | enable | disable | showJson asJson | clear => exact h.quiet rfl rfl rfl rfl rfl

theorem after_afterAll (s : TracerSettings) (ops : List Op) :
    ((ofSettings s).afterAll ops).After s ops := by
  induction ops using List.reverseRecOn with
  | nil => exact after_ofSettings s
  | append_singleton ops op ih =>
    have hlast : (ofSettings s).afterAll (ops ++ [op]) = op.apply ((ofSettings s).afterAll ops) :=
      List.foldl_append
    exact hlast ▸ ih.apply op

end Tracer

/-- Numbers that go up by one in a row still do in its last part. -/
theorem eq_range'_of_suffix {l : List Nat} {n : Nat} (h : l <:+ List.range n) :
    l = List.range' (n - l.length) l.length := by
  have hle := h.length_le
  rw [List.length_range] at hle
  have hdrop := List.suffix_iff_eq_drop.1 h
  rw [List.length_range, List.range_eq_range', List.drop_range', Nat.sub_sub_self hle] at hdrop
  simpa using hdrop

/-- After any operations a tracer keeps the newest of the records since it was cleared last,
numbered in a row, and its summary agrees with them. Its counters are the numbers of admitted events
and of started parses, and no operation adds more than one to them. -/
theorem Tracer.session_kept (s : TracerSettings) (ops : List Op) :
    let t := (Tracer.ofSettings s).afterAll ops
    t.log.toList =
      (s.recordsSinceClear ops).rtake (min s.capacity (s.recordsSinceClear ops).length) ∧
    t.log.size = min s.capacity (s.recordsSinceClear ops).length ∧
    t.log.toList.map (·.id) = List.range' (s.admittedCount ops - t.log.size) t.log.size ∧
    t.log.Summarized ∧
    (t.log.nextId = s.admittedCount ops ∧ t.log.nextId ≤ ops.length) ∧
    t.currentParse = parsesStarted ops ∧ t.currentParse ≤ ops.length := by
  intro t
  have hafter : t.After s ops := after_afterAll s ops
  have hkept := hafter.kept
  have hsize : t.log.size = min s.capacity (s.recordsSinceClear ops).length := by
    rw [← Log.length_toList, hkept, List.rtake, List.length_drop]
    omega
  have hsuffix : t.log.toList <:+ s.records ops := by
    rw [hkept]
    exact (List.drop_suffix _ _).trans (s.recordsSinceClear_suffix ops)
  have hidSuffix := hsuffix.map fun r => r.id
  rw [s.map_id_records] at hidSuffix
  have hids := eq_range'_of_suffix hidSuffix
  rw [List.length_map, Log.length_toList] at hids
  have hparses := (s.pairwise_parse_records ops).sublist (hsuffix.map fun r => r.parse).sublist
  refine ⟨?_, hsize, hids, Log.summarized hparses, ⟨hafter.nextId, ?_⟩, hafter.currentParse, ?_⟩
  · rw [hkept, List.rtake, List.rtake]
    congr 1
    omega
  · rw [hafter.nextId, ← length_withPast ops]
    exact List.countP_le_length
  · rw [hafter.currentParse]
    exact List.countP_le_length

/-- Of three admitted events the first has left; the parse that began while the tracer was off is
counted. -/
example :
    ((Tracer.ofSettings { enabled := true, capacity := 2 }).afterAll
      [.observe 0 (.started "a"), .observe 1 (.pass 1 ⟨[]⟩), .disable, .observe 2 (.started "b"),
        .enable, .record 3 (.parseAbort "c")]).log.toList.map (fun r => (r.id, r.parse)) =
      [(1, 1), (2, 2)] := by
  decide

end ReductionGrammar.Trace
