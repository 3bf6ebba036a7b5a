import ReductionGrammar.Trace.Queue
import ReductionGrammar.Trace.Record

/-!
# Trace logs

A log keeps the newest records up to its capacity, oldest first. Records are numbered in the order
of their arrival, also across a clearing of the log.
-/

namespace ReductionGrammar.Trace

structure Log where
  records : Queue Record
  capacity : Nat
  nextId : Nat

def defaultCapacity : Nat :=
  10000

structure Stats where
  recordCount : Nat
  capacity : Nat
  oldestParse : Option Nat
  newestParse : Option Nat
  parseCount : Nat
  /-- The kinds of which there are records, each with their number. -/
  eventCounts : List (EventKind × Nat)
deriving DecidableEq

/-- The list without the elements that repeat the one before them. -/
def dropRepeats : List Nat → List Nat
  | m :: n :: rest => if m = n then dropRepeats (n :: rest) else m :: dropRepeats (n :: rest)
  | l => l

namespace Log

def empty (capacity : Nat) : Log :=
  ⟨.empty, capacity, 0⟩

/-- Adds an event of a parse; where there is no room the oldest record has to leave. -/
def push (l : Log) (parse timestamp : Nat) (event : Event) : Log :=
  let records := l.records.push ⟨l.nextId, parse, timestamp, event⟩
  { l with
    records := if l.capacity < records.size then records.dropOldest else records
    nextId := l.nextId + 1 }

def clear (l : Log) : Log :=
  { l with records := .empty }

def toList (l : Log) : List Record :=
  l.records.toList

def size (l : Log) : Nat :=
  l.records.size

theorem length_toList (l : Log) : l.toList.length = l.size :=
  l.records.length_toList

theorem toList_push (l : Log) (parse timestamp : Nat) (event : Event) :
    (l.push parse timestamp event).toList =
      if l.capacity < l.size + 1 then
        (l.toList ++ [Record.mk l.nextId parse timestamp event]).tail
      else l.toList ++ [Record.mk l.nextId parse timestamp event] := by
  show Queue.toList (if l.capacity < l.size + 1 then _ else _) = _
  split
  · rw [Queue.toList_dropOldest, Queue.toList_push]
    rfl
  · rw [Queue.toList_push]
    rfl

def last? (l : Log) : Option Record :=
  l.toList.getLast?

def ofParse (l : Log) (parse : Nat) : List Record :=
  l.toList.filter (·.parse == parse)

def ofKind (l : Log) (name : String) : List Record :=
  l.toList.filter (·.event.kind.name == name)

def boundaries (l : Log) : List Record :=
  l.toList.filter (·.event.kind.isBoundary)

def recent (l : Log) (count : Nat) : List Record :=
  l.toList.drop (l.size - count)

def oldestParse? (l : Log) : Option Nat :=
  l.toList.head?.map (·.parse)

def newestParse? (l : Log) : Option Nat :=
  l.last?.map (·.parse)

/-- The parses of the records in order; one that several records in a row belong to is named once
for them. -/
def parses (l : Log) : List Nat :=
  dropRepeats (l.toList.map (·.parse))

def countOf (l : Log) (kind : EventKind) : Nat :=
  l.toList.countP (·.event.kind == kind)

def stats (l : Log) : Stats where
  recordCount := l.size
  capacity := l.capacity
  oldestParse := l.oldestParse?
  newestParse := l.newestParse?
  parseCount := l.parses.length
  eventCounts := (EventKind.all.map fun k => (k, l.countOf k)).filter (0 < ·.2)

end Log

end ReductionGrammar.Trace
