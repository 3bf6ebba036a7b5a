import ReductionGrammar.Trace.Human
import ReductionGrammar.Trace.Json
import ReductionGrammar.Trace.Log

/-!
# Tracers

A tracer observes parses and keeps the events that it admits in a log. While it is off it admits
none, but it goes on counting parses.
-/

namespace ReductionGrammar.Trace

structure TracerSettings where
  enabled : Bool := false
  capacity : Nat := defaultCapacity
  /-- Records are shown as JSON. -/
  asJson : Bool := false
  /-- The names of the kinds of events that are admitted; if there are none, all are. -/
  filter : List String := []

/-- An observer that keeps a log of parses. -/
structure Tracer where
  settings : TracerSettings
  log : Log
  /-- The number of the parse that began last; 0 before the first one. -/
  currentParse : Nat

namespace Tracer

def ofSettings (s : TracerSettings) : Tracer :=
  ⟨s, .empty s.capacity, 0⟩

def setEnabled (t : Tracer) (enabled : Bool) : Tracer :=
  { t with settings := { t.settings with enabled } }

def setJson (t : Tracer) (asJson : Bool) : Tracer :=
  { t with settings := { t.settings with asJson } }

def clear (t : Tracer) : Tracer :=
  { t with log := t.log.clear }

def admits (t : Tracer) (kind : EventKind) : Bool :=
  t.settings.enabled && (t.settings.filter.isEmpty || t.settings.filter.contains kind.name)

def record (t : Tracer) (timestamp : Nat) (event : Event) : Tracer :=
  if t.admits event.kind then { t with log := t.log.push t.currentParse timestamp event } else t

def observe (t : Tracer) (timestamp : Nat) (notice : Notice) : Tracer :=
  match notice with
  | .started input =>
    { t with currentParse := t.currentParse + 1 }.record timestamp (.parseStart input)
  | notice =>
    if t.settings.enabled then t.record timestamp (.ofNotice notice) else t

def format (t : Tracer) (r : Record) : String :=
  if t.settings.asJson then Json.formatRecord r
  else (⟨true, false⟩ : HumanFormat).line r

def formatAll (t : Tracer) (rs : List Record) : String :=
  if t.settings.asJson then Json.formatRecords false rs
  else (⟨true, false⟩ : HumanFormat).lines rs

end Tracer

end ReductionGrammar.Trace
