import Mathlib.Data.List.Forall2
import ReductionGrammar.Proofs.Number.Digits
import ReductionGrammar.Proofs.Trace.JsonGrammar
import ReductionGrammar.Trace.Json

/-!
# JSON traces lose nothing

Every text that is written for a trace stands for one JSON tree, in which strings are the original
characters, integers are their values, and everything else is in its place.
-/

namespace ReductionGrammar.Trace.Json

/-! ### What is to be read from a record -/

namespace Tree

def integer (n : Int) : Tree :=
  number (toString n).toList

def int? : Tree → Option Int
  | number literal => readInt? literal
  | _ => none

def text (s : String) : Tree :=
  string s.toList

def ofFloat (x : Binary64) : Tree :=
  if x.isNaN then text "NaN"
  else if x.isFinite then number x.text.toList
  else if x.isNegative then text "-Infinity"
  else text "Infinity"

mutual

def ofValue : Value → Tree
  | .nil => null
  | .bool b => bool b
  | .int n => integer n.toInt
  | .float x => ofFloat x
  | .string s => text s
  | .vec items => array (ofValues items)

def ofValues : List Value → List Tree
  | [] => []
  | v :: rest => ofValue v :: ofValues rest

end

theorem ofValues_eq_map (vs : List Value) : ofValues vs = vs.map ofValue := by
  induction vs with
  | nil => rfl
  | cons v rest ih => simp only [ofValues, List.map_cons, ih]

def ofSpan (s : Span) : Tree :=
  array [integer s.start, integer s.stop]

def ofOption {α : Type} (tree : α → Tree) : Option α → Tree
  | none => null
  | some a => tree a

def ofEvent : Event → List (String × Tree)
  | .parseStart input => [("input", text input)]
  | .passStart pass buffer => [("pass", integer pass), ("buffer", text buffer)]
  | .reduction r =>
    [("pass", integer r.pass), ("rule", integer r.rule), ("lhs", text r.lhs),
      ("span", ofSpan r.span), ("captures", array (r.captures.map ofValue)),
      ("value", ofValue r.value)]
  | .parseEnd v unmatched buffer =>
    [("accepted", bool v.isSome), ("value", ofOption ofValue v),
      ("unmatched", ofOption ofSpan unmatched), ("buffer", text buffer)]
  | .parseAbort message => [("message", text message)]

/-- The number of the record, of its parse, its time and the kind of its event come first. -/
def ofRecord (r : Record) : Tree :=
  object (([("id", integer r.id), ("parse", integer r.parse), ("timestamp_ns", integer r.timestamp),
    ("type", text r.event.kind.name)] ++ ofEvent r.event).map fun m => (m.1.toList, m.2))

theorem int?_integer (n : Int) : (integer n).int? = some n :=
  readInt?_toString n

end Tree

/-! ### Control characters -/

def Clean (text : List Char) : Prop :=
  ∀ c ∈ text, isControl c = false

instance : DecidablePred Clean :=
  fun text => decidable_of_iff (text.all fun c => !isControl c) (by simp [Clean])

theorem clean_nil : Clean [] :=
  nofun

@[simp]
theorem clean_cons {c : Char} {text : List Char} :
    Clean (c :: text) ↔ isControl c = false ∧ Clean text :=
  List.forall_mem_cons

@[simp]
theorem clean_append {s t : List Char} : Clean (s ++ t) ↔ Clean s ∧ Clean t :=
  List.forall_mem_append

theorem clean_enclosed {first last : Char} {text : List Char} (hfirst : isControl first = false)
    (htext : Clean text) (hlast : isControl last = false) : Clean (first :: text ++ [last]) :=
  clean_append.2 ⟨clean_cons.2 ⟨hfirst, htext⟩, clean_cons.2 ⟨hlast, clean_nil⟩⟩

theorem isControl_of_isDigit {c : Char} (h : c.isDigit = true) : isControl c = false := by
  have hbounds := toNat_of_isDigit h
  simp only [isControl, Bool.or_eq_false_iff, Bool.and_eq_false_iff, decide_eq_false_iff_not]
  omega

theorem IsNumber.clean {literal : List Char} (h : IsNumber literal) : Clean literal := by
  intro c hc
  rcases isNumberChar_cases (h.isNumberChar c hc) with hdigit | rfl | rfl | rfl | rfl | rfl
  · exact isControl_of_isDigit hdigit
  all_goals rfl

theorem Clean.count_newline {text : List Char} (h : Clean text) : text.count '\n' = 0 :=
  List.count_eq_zero.2 fun hmem => Bool.noConfusion (h '\n' hmem)

/-! ### Numbers and strings -/

/-- The text is JSON for the tree, whatever follows that does not go on with a number, and it has no
control character. -/
structure Writes (text : List Char) (j : Tree) : Prop where
  begins : ∀ rest, Delimited rest → Begins (.value j) (text ++ rest) rest
  clean : Clean text

theorem isDigits_toDigits (n : Nat) : IsDigits (Nat.toDigits 10 n) :=
  ⟨toDigits_ne_nil n, isDigit_toDigits n⟩

theorem isWhole_toDigits (n : Nat) : IsWhole (Nat.toDigits 10 n) :=
  ⟨isDigits_toDigits n, toDigits_eq_of_head?⟩

theorem isNumber_toDigits (n : Nat) : IsNumber (Nat.toDigits 10 n) :=
  ⟨[], _, [], [], by simp, .none, isWhole_toDigits n, .none, .none⟩

theorem isNumber_toString (n : Int) : IsNumber (toString n).toList := by
  cases n with
  | ofNat n =>
    show IsNumber (toString (n : Int)).toList
    rw [toList_toString_natCast]
    exact isNumber_toDigits n
  | negSucc n =>
    rw [toList_toString_negSucc]
    exact ⟨['-'], _, [], [], by simp, .minus, isWhole_toDigits (n + 1), .none, .none⟩

theorem isDigit_paddedDigits (width n : Nat) : ∀ c ∈ paddedDigits width n, c.isDigit = true := by
  intro c hc
  rw [paddedDigits, List.leftpad, List.mem_append] at hc
  rcases hc with hc | hc
  · rw [List.eq_of_mem_replicate hc]
    rfl
  · exact isDigit_toDigits n c hc

theorem isDigit_dropTrailingZeros {ds : List Char} (h : ∀ c ∈ ds, c.isDigit = true) :
    ∀ c ∈ dropTrailingZeros ds, c.isDigit = true := by
  intro c hc
  rw [dropTrailingZeros, List.mem_reverse] at hc
  exact h c (List.mem_reverse.1 ((List.dropWhile_sublist _).mem hc))

theorem positional_parts (d : Decimal) :
    ∃ whole fraction, d.positional = whole ++ fraction ∧ IsWhole whole ∧ IsFraction fraction := by
  unfold Decimal.positional
  split
  · exact ⟨_, [], (List.append_nil _).symm, isWhole_toDigits _, .none⟩
  · dsimp only
    split
    · exact ⟨_, [], (List.append_nil _).symm, isWhole_toDigits _, .none⟩
    · rename_i hfraction
      exact ⟨_, _, rfl, isWhole_toDigits _,
        .point ⟨hfraction, isDigit_dropTrailingZeros (isDigit_paddedDigits _ _)⟩⟩

theorem isNumber_text {x : Binary64} (hfinite : x.isFinite = true) : IsNumber x.text.toList := by
  have hnan : x.isNaN = false := by
    have hexponent : (x.exponentField == Binary64.topExponent) = false := by
      simpa [Binary64.isFinite] using hfinite
    simp [Binary64.isNaN, hexponent]
  obtain ⟨whole, fraction, hparts, hwhole, hfraction⟩ := positional_parts x.shortest
  unfold Binary64.text
  rw [hnan, hfinite]
  simp only [Bool.false_eq_true, if_false, if_true, String.toList_ofList, hparts]
  split
  · exact ⟨['-'], whole, fraction, [], by simp, .minus, hwhole, hfraction, .none⟩
  · exact ⟨[], whole, fraction, [], by simp, .none, hwhole, hfraction, .none⟩

theorem writes_number {literal : List Char} (h : IsNumber literal) :
    Writes literal (.number literal) :=
  ⟨fun _ hrest => .number h hrest, h.clean⟩

theorem writes_integer (n : Int) : Writes (toString n).toList (.integer n) :=
  writes_number (isNumber_toString n)

theorem writes_natural (n : Nat) : Writes (number n) (.integer n) := by
  rw [number, ← toList_toString_natCast]
  exact writes_integer n

/-- Every character below 256 is escaped by digits that give it back. -/
theorem codeUnit?_leftpad :
    ∀ n < 256, codeUnit? ((Nat.toDigits 16 n).leftpad 4 '0') = some n := by
  decide +kernel

theorem clean_leftpad : ∀ n < 256, Clean ((Nat.toDigits 16 n).leftpad 4 '0') := by
  decide +kernel

theorem exists_of_codeUnit? {ds : List Char} {n : Nat} (h : codeUnit? ds = some n) :
    ∃ u v w x, ds = [u, v, w, x] := by
  unfold codeUnit? at h
  split at h
  · exact ⟨_, _, _, _, rfl⟩
  · cases h

/-- A character is escaped by one letter, by its code, or not at all. -/
theorem escapedChar_cases (c : Char) :
    (∃ e, escapedChar c = ['\\', e] ∧ shortEscape? e = some c ∧ isControl e = false) ∨
      (∃ u v w x, escapedChar c = ['\\', 'u', u, v, w, x] ∧
        codeUnit? [u, v, w, x] = some c.toNat ∧ Clean [u, v, w, x]) ∨
        (escapedChar c = [c] ∧ c ≠ '"' ∧ c ≠ '\\' ∧ isControl c = false) := by
  by_cases hshort : c = '\\' ∨ c = '"' ∨ c = '\n' ∨ c = '\r' ∨ c = '\t'
  · left
    rcases hshort with rfl | rfl | rfl | rfl | rfl
    all_goals exact ⟨_, rfl, rfl, rfl⟩
  · right
    simp only [not_or] at hshort
    obtain ⟨hbackslash, hquote, hfeed, hreturn, htab⟩ := hshort
    unfold escapedChar
    simp only [hbackslash, hquote, hfeed, hreturn, htab, if_false]
    split
    · rename_i hcontrol
      left
      have hlt : c.toNat < 256 := by
        simp only [isControl, Bool.or_eq_true, Bool.and_eq_true, decide_eq_true_eq] at hcontrol
        omega
      have hunit := codeUnit?_leftpad c.toNat hlt
      have hclean := clean_leftpad c.toNat hlt
      obtain ⟨u, v, w, x, hdigits⟩ := exists_of_codeUnit? hunit
      rw [hdigits] at hunit hclean ⊢
      exact ⟨u, v, w, x, rfl, hunit, hclean⟩
    · rename_i hcontrol
      right
      exact ⟨rfl, hquote, hbackslash, Bool.eq_false_iff.2 hcontrol⟩

theorem letter_escapedChar (c : Char) (rest : List Char) :
    Letter (escapedChar c ++ rest) c rest := by
  rcases escapedChar_cases c with
    ⟨e, hescaped, he, -⟩ | ⟨u, v, w, x, hescaped, hunit, -⟩ |
      ⟨hescaped, hquote, hbackslash, hcontrol⟩
  · rw [hescaped]
    exact .short he
  · rw [hescaped]
    exact .unit hunit
  · rw [hescaped]
    refine .plain ?_ hquote hbackslash
    simp only [isControl, Bool.or_eq_false_iff, decide_eq_false_iff_not] at hcontrol
    omega

theorem letters_escaped (cs rest : List Char) :
    Letters (cs.flatMap escapedChar ++ '"' :: rest) cs rest := by
  induction cs with
  | nil => exact .nil
  | cons c cs ih =>
    rw [List.flatMap_cons, List.append_assoc]
    exact .cons (letter_escapedChar c _) ih

theorem clean_escapedChar (c : Char) : Clean (escapedChar c) := by
  rcases escapedChar_cases c with
    ⟨e, hescaped, -, he⟩ | ⟨u, v, w, x, hescaped, -, hdigits⟩ | ⟨hescaped, -, -, hcontrol⟩
  · rw [hescaped]
    exact clean_cons.2 ⟨rfl, clean_cons.2 ⟨he, clean_nil⟩⟩
  · rw [hescaped]
    exact clean_cons.2 ⟨rfl, clean_cons.2 ⟨rfl, hdigits⟩⟩
  · rw [hescaped]
    exact clean_cons.2 ⟨hcontrol, clean_nil⟩

theorem clean_string (s : String) : Clean (string s) := by
  have hletters : Clean (s.toList.flatMap escapedChar) := by
    intro c hc
    obtain ⟨d, -, hd⟩ := List.mem_flatMap.1 hc
    exact clean_escapedChar d c hd
  exact clean_enclosed rfl hletters rfl

theorem writes_string (s : String) : Writes (string s) (.text s) := by
  refine ⟨fun rest _ => ?_, clean_string s⟩
  rw [string, List.append_assoc]
  exact .string (letters_escaped s.toList rest)

theorem writes_float (x : Binary64) : Writes (float x) (.ofFloat x) := by
  unfold float Tree.ofFloat
  split
  · exact writes_string "NaN"
  · split
    · rename_i hfinite
      exact writes_number (isNumber_text hfinite)
    · split
      · exact writes_string "-Infinity"
      · exact writes_string "Infinity"

theorem writes_null : Writes null .null :=
  ⟨fun _ _ => .null, by decide⟩

theorem writes_bool (b : Bool) : Writes (bool b) (.bool b) := by
  cases b with
  | true => exact ⟨fun _ _ => .yes, by decide⟩
  | false => exact ⟨fun _ _ => .no, by decide⟩

/-! ### Arrays and objects -/

theorem isNumberChar_of_isBlank {c : Char} (h : isBlank c = true) : isNumberChar c = false := by
  rcases isBlank_cases h with rfl | rfl | rfl | rfl
  all_goals rfl

theorem delimited_cons {c : Char} (hc : isNumberChar c = false) (rest : List Char) :
    Delimited (c :: rest) := by
  intro d hd
  obtain rfl : c = d := Option.some.inj hd
  exact hc

theorem delimited_of_gap {rest t : List Char} {c : Char} (h : Gap rest (c :: t))
    (hc : isNumberChar c = false) : Delimited rest := by
  obtain ⟨blanks, rfl, hblanks⟩ := h
  cases blanks with
  | nil => exact delimited_cons hc t
  | cons b blanks =>
    exact delimited_cons (isNumberChar_of_isBlank (hblanks b (List.mem_cons_self ..))) _

theorem commaSeparated_eq (items : List (List Char)) :
    commaSeparated items = [','].intercalate items := by
  induction items with
  | nil => rfl
  | cons item rest ih =>
    cases rest with
    | nil => simp [commaSeparated]
    | cons next rest =>
      rw [commaSeparated, ih, List.intercalate_cons_cons, List.append_assoc]
      · rfl
      · exact List.cons_ne_nil _ _

theorem lineSeparated_eq (items : List (List Char)) :
    lineSeparated items = (",\n  ".toList).intercalate items := by
  induction items with
  | nil => rfl
  | cons item rest ih =>
    cases rest with
    | nil => simp [lineSeparated]
    | cons next rest =>
      rw [lineSeparated, ih, List.intercalate_cons_cons]
      exact List.cons_ne_nil _ _

theorem clean_commaSeparated {items : List (List Char)} (h : ∀ item ∈ items, Clean item) :
    Clean (commaSeparated items) := by
  induction items with
  | nil => exact clean_nil
  | cons item rest ih =>
    obtain ⟨hitem, hrest⟩ := List.forall_mem_cons.1 h
    cases rest with
    | nil => exact hitem
    | cons next rest => exact clean_append.2 ⟨hitem, clean_cons.2 ⟨rfl, ih hrest⟩⟩

/-- Texts stand for the elements of an array if a comma and blanks stand between them. -/
theorem begins_elements {blanks : List Char} (hblanks : ∀ c ∈ blanks, isBlank c = true)
    {texts : List (List Char)} {js : List Tree} (h : List.Forall₂ Writes texts js)
    (hne : texts ≠ []) {close rest : List Char} (hclose : Gap close (']' :: rest)) :
    Begins (.elements js) ((',' :: blanks).intercalate texts ++ close) rest := by
  induction h with
  | nil => exact absurd rfl hne
  | @cons text j texts js htext htexts ih =>
    cases htexts with
    | nil =>
      rw [List.intercalate_singleton]
      exact .lastElement (htext.begins _ (delimited_of_gap hclose rfl)) hclose
    | @cons next j' texts js hnext hrest =>
      rw [List.intercalate_cons_cons, List.append_assoc, List.append_assoc]
      exact .element (htext.begins _ (delimited_cons rfl _)) (.refl _) ⟨blanks, rfl, hblanks⟩
        (ih (List.cons_ne_nil _ _))

/-- An array with blanks after its opening bracket, after its commas and before its end. -/
theorem begins_array {opened between closed : List Char}
    (hopened : ∀ c ∈ opened, isBlank c = true) (hbetween : ∀ c ∈ between, isBlank c = true)
    (hclosed : ∀ c ∈ closed, isBlank c = true) {texts : List (List Char)} {js : List Tree}
    (h : List.Forall₂ Writes texts js) (rest : List Char) :
    Begins (.value (.array js))
      ('[' :: (opened ++ ((',' :: between).intercalate texts ++ (closed ++ ']' :: rest))))
      rest := by
  by_cases hne : texts = []
  · subst hne
    cases h
    refine .emptyArray ⟨opened ++ closed, by simp, ?_⟩
    intro c hc
    exact (List.mem_append.1 hc).elim (hopened c) (hclosed c)
  · exact .array ⟨opened, rfl, hopened⟩ (begins_elements hbetween h hne ⟨closed, rfl, hclosed⟩)

theorem writes_array {texts : List (List Char)} {js : List Tree}
    (h : List.Forall₂ Writes texts js) : Writes (array texts) (.array js) := by
  have hnone : ∀ c ∈ ([] : List Char), isBlank c = true := nofun
  refine ⟨fun rest _ => ?_, ?_⟩
  · have hbegins := begins_array hnone hnone hnone h rest
    rw [← commaSeparated_eq] at hbegins
    simpa [array] using hbegins
  · have hitems : ∀ text ∈ texts, Clean text :=
      ((List.forall₂_and_left _ _).1 (h.imp fun _ _ htext => ⟨htext.clean, htext⟩)).1
    exact clean_enclosed rfl (clean_commaSeparated hitems) rfl

/-- The member of an object is written for the member of a tree. -/
structure WritesMember (m : String × List Char) (t : String × Tree) : Prop where
  key : m.1 = t.1
  value : Writes m.2 t.2

theorem begins_member {m : String × List Char} {t : String × Tree} (h : WritesMember m t)
    {rest : List Char} (hrest : Delimited rest) :
    Begins (.member t.1.toList t.2) (string m.1 ++ (':' :: m.2 ++ rest)) rest := by
  have htext : string m.1 ++ (':' :: m.2 ++ rest) =
      '"' :: (m.1.toList.flatMap escapedChar ++ '"' :: (':' :: (m.2 ++ rest))) := by
    simp [string]
  rw [htext, h.key]
  exact .member (letters_escaped _ _) (.refl _) (.refl _) (h.value.begins rest hrest)

theorem begins_members {members : List (String × List Char)} {trees : List (String × Tree)}
    (h : List.Forall₂ WritesMember members trees) (hne : members ≠ []) (rest : List Char) :
    Begins (.members (trees.map fun m => (m.1.toList, m.2)))
      (commaSeparated (members.map fun m => string m.1 ++ ':' :: m.2) ++ '\x7d' :: rest) rest := by
  rw [commaSeparated_eq]
  induction h with
  | nil => exact absurd rfl hne
  | @cons m t members trees hm hmembers ih =>
    cases hmembers with
    | nil =>
      simp only [List.map_cons, List.map_nil, List.intercalate_singleton, List.append_assoc]
      exact .lastMember (begins_member hm (delimited_cons rfl _)) (.refl _)
    | @cons next t' members trees hnext hrest =>
      simp only [List.map_cons, List.intercalate_cons_cons, List.append_assoc] at ih ⊢
      exact .moreMembers (begins_member hm (delimited_cons rfl _)) (.refl _) (.refl _)
        (ih (List.cons_ne_nil _ _))

theorem clean_member {m : String × List Char} {t : String × Tree} (h : WritesMember m t) :
    Clean (string m.1 ++ ':' :: m.2) :=
  clean_append.2 ⟨clean_string m.1, clean_cons.2 ⟨rfl, h.value.clean⟩⟩

theorem writes_object {members : List (String × List Char)} {trees : List (String × Tree)}
    (h : List.Forall₂ WritesMember members trees) (hne : members ≠ []) :
    Writes (object members) (.object (trees.map fun m => (m.1.toList, m.2))) := by
  refine ⟨fun rest _ => ?_, ?_⟩
  · have hbegins := Begins.object (.refl _) (begins_members h hne rest)
    simpa [object] using hbegins
  · have hmembers : ∀ m ∈ members, Clean (string m.1 ++ ':' :: m.2) :=
      ((List.forall₂_and_left _ _).1 (h.imp fun _ _ hm => ⟨clean_member hm, hm⟩)).1
    exact clean_enclosed rfl (clean_commaSeparated (List.forall_mem_map.2 hmembers)) rfl

/-! ### Records -/

mutual

theorem writes_value : ∀ v : Value, Writes (value v) (.ofValue v)
  | .nil => writes_null
  | .bool b => writes_bool b
  | .int n => writes_integer n.toInt
  | .float x => writes_float x
  | .string s => writes_string s
  | .vec items => writes_array (writes_values items)

theorem writes_values : ∀ vs : List Value, List.Forall₂ Writes (values vs) (Tree.ofValues vs)
  | [] => .nil
  | v :: rest => .cons (writes_value v) (writes_values rest)

end

theorem writes_span (s : Span) : Writes (span s) (.ofSpan s) :=
  writes_array (.cons (writes_natural s.start) (.cons (writes_natural s.stop) .nil))

theorem writes_optional {α : Type} {write : α → List Char} {tree : α → Tree}
    (h : ∀ a, Writes (write a) (tree a)) (o : Option α) :
    Writes (optional write o) (.ofOption tree o) := by
  cases o with
  | none => exact writes_null
  | some a => exact h a

theorem writes_captures (vs : List Value) :
    Writes (array (values vs)) (.array (vs.map Tree.ofValue)) := by
  rw [← Tree.ofValues_eq_map]
  exact writes_array (writes_values vs)

theorem writes_eventMembers (e : Event) :
    List.Forall₂ WritesMember (eventMembers e) (Tree.ofEvent e) := by
  cases e with
  | parseStart input => exact .cons ⟨rfl, writes_string input⟩ .nil
  | passStart pass buffer =>
    exact .cons ⟨rfl, writes_natural pass⟩ (.cons ⟨rfl, writes_string buffer⟩ .nil)
  | reduction r =>
    exact .cons ⟨rfl, writes_natural r.pass⟩ (.cons ⟨rfl, writes_natural r.rule⟩
      (.cons ⟨rfl, writes_string r.lhs⟩ (.cons ⟨rfl, writes_span r.span⟩
        (.cons ⟨rfl, writes_captures r.captures⟩ (.cons ⟨rfl, writes_value r.value⟩ .nil)))))
  | parseEnd v unmatched buffer =>
    exact .cons ⟨rfl, writes_bool v.isSome⟩ (.cons ⟨rfl, writes_optional writes_value v⟩
      (.cons ⟨rfl, writes_optional writes_span unmatched⟩ (.cons ⟨rfl, writes_string buffer⟩ .nil)))
  | parseAbort message => exact .cons ⟨rfl, writes_string message⟩ .nil

theorem writes_record (r : Record) : Writes (record r) (.ofRecord r) := by
  refine writes_object ?_ (List.cons_ne_nil _ _)
  exact .cons ⟨rfl, writes_natural r.id⟩ (.cons ⟨rfl, writes_natural r.parse⟩
    (.cons ⟨rfl, writes_natural r.timestamp⟩ (.cons ⟨rfl, writes_string r.event.kind.name⟩
      (writes_eventMembers r.event))))

theorem forall₂_records (rs : List Record) :
    List.Forall₂ Writes (rs.map record) (rs.map Tree.ofRecord) := by
  rw [List.forall₂_map_left_iff, List.forall₂_map_right_iff, List.forall₂_same]
  exact fun r _ => writes_record r

theorem begins_records (pretty : Bool) (rs : List Record) :
    Begins (.value (.array (rs.map Tree.ofRecord))) (records pretty rs) [] := by
  cases pretty with
  | false =>
    have hbegins := (writes_array (forall₂_records rs)).begins [] nofun
    rw [List.append_nil] at hbegins
    exact hbegins
  | true =>
    have hline : ∀ c ∈ "\n  ".toList, isBlank c = true := List.all_eq_true.1 rfl
    have hend : ∀ c ∈ ['\n'], isBlank c = true := List.all_eq_true.1 rfl
    have hbegins := begins_array hline hline hend (forall₂_records rs) []
    have hseparator : ',' :: "\n  ".toList = ",\n  ".toList := rfl
    rw [hseparator, ← lineSeparated_eq] at hbegins
    rw [records, if_pos rfl, List.append_assoc]
    exact hbegins

theorem Begins.standsFor_iff {text : List Char} {j j' : Tree} (h : Begins (.value j) text []) :
    StandsFor text j' ↔ j' = j := by
  have hstands : StandsFor text j := ⟨text, [], .refl _, h, .refl _⟩
  constructor
  · exact hstands.unique
  · intro heq
    rw [heq]
    exact hstands

theorem record_standsFor_iff (r : Record) (j : Tree) :
    StandsFor (record r) j ↔ j = .ofRecord r := by
  have hbegins := (writes_record r).begins [] nofun
  rw [List.append_nil] at hbegins
  exact hbegins.standsFor_iff

/-! ### Lines -/

theorem length_splitOn (a : Char) (text : List Char) :
    (text.splitOn a).length = text.count a + 1 := by
  induction text with
  | nil => rfl
  | cons c text ih =>
    rw [List.splitOn_cons_eq_if_modifyHead, List.count_cons]
    split
    · simp [*]
    · simp [*]

theorem count_lineSeparated {items : List (List Char)} (h : ∀ item ∈ items, Clean item) :
    (lineSeparated items).count '\n' = items.length - 1 := by
  induction items with
  | nil => rfl
  | cons item rest ih =>
    obtain ⟨hitem, hrest⟩ := List.forall_mem_cons.1 h
    cases rest with
    | nil => exact hitem.count_newline
    | cons next rest =>
      have hbetween : ",\n  ".toList.count '\n' = 1 := by decide
      rw [lineSeparated, List.count_append, List.count_append, hitem.count_newline, hbetween,
        ih hrest]
      · simp only [List.length_cons]
        omega
      · exact List.cons_ne_nil _ _

theorem count_records {rs : List Record} (hrs : rs ≠ []) :
    (records true rs).count '\n' = rs.length + 1 := by
  have hitems : ∀ item ∈ rs.map record, Clean item := by
    simpa using fun r _ => (writes_record r).clean
  have hlength := List.length_pos_iff.2 hrs
  have hopened : "[\n  ".toList.count '\n' = 1 := by decide
  have hclosed : "\n]".toList.count '\n' = 1 := by decide
  rw [records, if_pos rfl, List.count_append, List.count_append, count_lineSeparated hitems,
    hopened, hclosed, List.length_map]
  omega

/-- A JSON reader gets from a trace what was recorded: of one record an object with its numbers,
its kind and the members of its event in order, without a control character in its text; of many
records, on lines of their own or not, an array with the object of each of them. -/
theorem formats_decode :
    (∀ r j, StandsFor (formatRecord r).toList j ↔ j = .ofRecord r) ∧
      (∀ r, ∀ c ∈ (formatRecord r).toList, ¬(c.toNat < 0x20 ∨ 0x7F ≤ c.toNat ∧ c.toNat ≤ 0x9F)) ∧
      (∀ pretty rs j, StandsFor (formatRecords pretty rs).toList j ↔
        j = .array (rs.map Tree.ofRecord)) ∧
      (∀ rs, rs ≠ [] →
        ((formatRecords true rs).toList.splitOn '\n').length = rs.length + 2) ∧
      ∀ n, (Tree.integer n).int? = some n := by
  refine ⟨fun r j => ?_, fun r c hc => ?_, fun pretty rs j => ?_, fun rs hrs => ?_,
    Tree.int?_integer⟩
  · rw [formatRecord, String.toList_ofList]
    exact record_standsFor_iff r j
  · rw [formatRecord, String.toList_ofList] at hc
    have hclean := (writes_record r).clean c hc
    simpa [isControl, imp_iff_not_or] using hclean
  · rw [formatRecords, String.toList_ofList]
    exact (begins_records pretty rs).standsFor_iff
  · rw [formatRecords, String.toList_ofList, length_splitOn, count_records hrs]

def abortRecord : Record :=
  ⟨7, 2, 1500, .parseAbort "\"\x01"⟩

theorem formats_decode_abort :
    formatRecord abortRecord =
        "\x7b\"id\":7,\"parse\":2,\"timestamp_ns\":1500,\"type\":\"parse-abort\"," ++
          "\"message\":\"\\\"\\u0001\"\x7d" ∧
      StandsFor (formatRecord abortRecord).toList (.ofRecord abortRecord) ∧
      (∀ c ∈ (formatRecord abortRecord).toList,
        ¬(c.toNat < 0x20 ∨ 0x7F ≤ c.toNat ∧ c.toNat ≤ 0x9F)) ∧
      StandsFor (formatRecords true [abortRecord]).toList (.array [.ofRecord abortRecord]) ∧
      [abortRecord] ≠ [] ∧
      ((formatRecords true [abortRecord]).toList.splitOn '\n').length = 3 := by
  obtain ⟨hrecord, hclean, hrecords, hlines, -⟩ := formats_decode
  have hne : [abortRecord] ≠ [] := List.cons_ne_nil _ _
  refine ⟨?_, (hrecord _ _).2 rfl, hclean _, (hrecords true _ _).2 rfl, hne, hlines _ hne⟩
  decide +kernel

end ReductionGrammar.Trace.Json
