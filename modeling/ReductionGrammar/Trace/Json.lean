import ReductionGrammar.Number.Positional
import ReductionGrammar.Trace.Record

/-!
# Traces as JSON

A record is one JSON object on one line: its numbers, the kind of its event, and the members of the
event in order. Control characters are escaped, so no text breaks the line; numbers that JSON does
not have are strings.
-/

namespace ReductionGrammar.Trace.Json

def number (n : Nat) : List Char :=
  Nat.toDigits 10 n

def isControl (c : Char) : Bool :=
  c.toNat < 0x20 || (0x7F ≤ c.toNat && c.toNat ≤ 0x9F)

/-- A character inside a JSON string. -/
def escapedChar (c : Char) : List Char :=
  if c = '\\' then ['\\', '\\']
  else if c = '"' then ['\\', '"']
  else if c = '\n' then ['\\', 'n']
  else if c = '\r' then ['\\', 'r']
  else if c = '\t' then ['\\', 't']
  else if isControl c then ['\\', 'u'] ++ (Nat.toDigits 16 c.toNat).leftpad 4 '0'
  else [c]

def string (s : String) : List Char :=
  '"' :: s.toList.flatMap escapedChar ++ ['"']

def commaSeparated : List (List Char) → List Char
  | [] => []
  | [item] => item
  | item :: rest => item ++ ',' :: commaSeparated rest

def array (items : List (List Char)) : List Char :=
  '[' :: commaSeparated items ++ [']']

def object (members : List (String × List Char)) : List Char :=
  '\x7b' :: commaSeparated (members.map fun m => string m.1 ++ ':' :: m.2) ++ ['\x7d']

/-- A floating-point number; one that is not finite is a string. -/
def float (x : Binary64) : List Char :=
  if x.isNaN then string "NaN"
  else if x.isFinite then x.text.toList
  else if x.isNegative then string "-Infinity"
  else string "Infinity"

def null : List Char :=
  "null".toList

def bool (b : Bool) : List Char :=
  if b then "true".toList else "false".toList

mutual

def value : Value → List Char
  | .nil => null
  | .bool b => bool b
  | .int n => (toString n.toInt).toList
  | .float x => float x
  | .string s => string s
  | .vec items => array (values items)

def values : List Value → List (List Char)
  | [] => []
  | v :: rest => value v :: values rest

end

theorem values_eq_map (vs : List Value) : values vs = vs.map value := by
  induction vs with
  | nil => rfl
  | cons v rest ih => simp only [values, List.map_cons, ih]

def span (s : Span) : List Char :=
  array [number s.start, number s.stop]

def optional {α : Type} (write : α → List Char) : Option α → List Char
  | none => null
  | some a => write a

def eventMembers : Event → List (String × List Char)
  | .parseStart input => [("input", string input)]
  | .passStart pass buffer => [("pass", number pass), ("buffer", string buffer)]
  | .reduction r =>
    [("pass", number r.pass), ("rule", number r.rule), ("lhs", string r.lhs),
      ("span", span r.span), ("captures", array (values r.captures)), ("value", value r.value)]
  | .parseEnd v unmatched buffer =>
    [("accepted", bool v.isSome), ("value", optional value v),
      ("unmatched", optional span unmatched), ("buffer", string buffer)]
  | .parseAbort message => [("message", string message)]

def recordMembers (r : Record) : List (String × List Char) :=
  [("id", number r.id), ("parse", number r.parse), ("timestamp_ns", number r.timestamp),
    ("type", string r.event.kind.name)] ++ eventMembers r.event

def record (r : Record) : List Char :=
  object (recordMembers r)

/-- Texts with a comma and the beginning of an indented line between them. -/
def lineSeparated : List (List Char) → List Char
  | [] => []
  | [item] => item
  | item :: rest => item ++ ",\n  ".toList ++ lineSeparated rest

/-- Records as a JSON array, if `pretty` with each of them on a line of its own. -/
def records (pretty : Bool) (rs : List Record) : List Char :=
  if pretty then "[\n  ".toList ++ lineSeparated (rs.map record) ++ "\n]".toList
  else array (rs.map record)

def formatRecord (r : Record) : String :=
  String.ofList (record r)

def formatRecords (pretty : Bool) (rs : List Record) : String :=
  String.ofList (records pretty rs)

end ReductionGrammar.Trace.Json
