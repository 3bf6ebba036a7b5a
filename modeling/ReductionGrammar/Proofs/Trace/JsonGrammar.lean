import Mathlib.Data.List.TakeWhile

/-!
# The grammar of JSON

What it means that a text is JSON, and what the text stands for. Numbers stand for themselves, as
they are written; strings stand for their characters once escapes are resolved; the members of an
object keep their order. Main statement: a text stands for one tree at most, so whoever reads JSON
by its grammar reads the same from it.
-/

namespace ReductionGrammar.Trace.Json

/-- What a JSON text stands for. -/
inductive Tree where
  | null
  | bool (b : Bool)
  | number (literal : List Char)
  | string (cs : List Char)
  | array (items : List Tree)
  | object (members : List (List Char × Tree))

/-! ### Numbers -/

def IsDigits (ds : List Char) : Prop :=
  ds ≠ [] ∧ ∀ c ∈ ds, c.isDigit = true

/-- Digits without a zero that could be left out in front. -/
def IsWhole (ds : List Char) : Prop :=
  IsDigits ds ∧ (ds.head? = some '0' → ds = ['0'])

inductive IsSign : List Char → Prop where
  | none : IsSign []
  | minus : IsSign ['-']

inductive IsFraction : List Char → Prop where
  | none : IsFraction []
  | point {ds : List Char} (hds : IsDigits ds) : IsFraction ('.' :: ds)

inductive IsExponent : List Char → Prop where
  | none : IsExponent []
  | power {e : Char} {sign ds : List Char} (he : e = 'e' ∨ e = 'E')
      (hsign : sign = [] ∨ sign = ['+'] ∨ sign = ['-']) (hds : IsDigits ds) :
      IsExponent (e :: (sign ++ ds))

def IsNumber (literal : List Char) : Prop :=
  ∃ sign whole fraction exponent, literal = sign ++ (whole ++ (fraction ++ exponent)) ∧
    IsSign sign ∧ IsWhole whole ∧ IsFraction fraction ∧ IsExponent exponent

def isNumberChar (c : Char) : Bool :=
  c.isDigit || c == '-' || c == '+' || c == '.' || c == 'e' || c == 'E'

theorem isNumberChar_cases {c : Char} (h : isNumberChar c = true) :
    c.isDigit = true ∨ c = '-' ∨ c = '+' ∨ c = '.' ∨ c = 'e' ∨ c = 'E' := by
  simpa [isNumberChar, or_assoc] using h

/-- No number goes on here. -/
def Delimited (rest : List Char) : Prop :=
  ∀ c, rest.head? = some c → isNumberChar c = false

theorem IsDigits.isNumberChar {ds : List Char} (h : IsDigits ds) :
    ∀ c ∈ ds, isNumberChar c = true := by
  intro c hc
  simp [Json.isNumberChar, h.2 c hc]

theorem IsNumber.isNumberChar {literal : List Char} (h : IsNumber literal) :
    ∀ c ∈ literal, isNumberChar c = true := by
  obtain ⟨sign, whole, fraction, exponent, rfl, hsign, hwhole, hfraction, hexponent⟩ := h
  intro c hc
  simp only [List.mem_append] at hc
  rcases hc with hc | hc | hc | hc
  · cases hsign with
    | none => cases hc
    | minus =>
      obtain rfl := List.mem_singleton.1 hc
      rfl
  · exact hwhole.1.isNumberChar c hc
  · cases hfraction with
    | none => cases hc
    | point hds =>
      rcases List.mem_cons.1 hc with rfl | hc
      · rfl
      · exact hds.isNumberChar c hc
  · cases hexponent with
    | none => cases hc
    | power he hsign hds =>
      simp only [List.mem_cons, List.mem_append] at hc
      rcases hc with rfl | hc | hc
      · rcases he with rfl | rfl
        all_goals rfl
      · rcases hsign with rfl | rfl | rfl
        · cases hc
        all_goals
          obtain rfl := List.mem_singleton.1 hc
          rfl
      · exact hds.isNumberChar c hc

theorem IsNumber.exists_head {literal : List Char} (h : IsNumber literal) :
    ∃ c ds, literal = c :: ds ∧ (c = '-' ∨ c.isDigit = true) := by
  obtain ⟨sign, whole, fraction, exponent, rfl, hsign, hwhole, -, -⟩ := h
  cases hsign with
  | minus => exact ⟨'-', _, rfl, .inl rfl⟩
  | none =>
    cases whole with
    | nil => exact absurd rfl hwhole.1.1
    | cons c ds => exact ⟨c, _, rfl, .inr (hwhole.1.2 c (List.mem_cons_self ..))⟩

theorem Delimited.takeWhile_append {literal rest : List Char} (h : Delimited rest)
    (hliteral : IsNumber literal) : (literal ++ rest).takeWhile isNumberChar = literal := by
  have hstop : rest.takeWhile isNumberChar = [] := by
    cases rest with
    | nil => rfl
    | cons c rest => simp [h c rfl]
  rw [List.takeWhile_append_of_pos hliteral.isNumberChar, hstop, List.append_nil]

/-! ### Strings -/

def hexValue? (c : Char) : Option Nat :=
  if c.isDigit then some (c.toNat - 0x30)
  else if 'a' ≤ c ∧ c ≤ 'f' then some (c.toNat - 0x57)
  else if 'A' ≤ c ∧ c ≤ 'F' then some (c.toNat - 0x37)
  else none

/-- The code unit that four hexadecimal digits stand for. -/
def codeUnit? : List Char → Option Nat
  | [a, b, c, d] => do
    let a ← hexValue? a
    let b ← hexValue? b
    let c ← hexValue? c
    let d ← hexValue? d
    pure (0x1000 * a + 0x100 * b + 0x10 * c + d)
  | _ => none

/-- What a character stands for after a backslash. -/
def shortEscape? (c : Char) : Option Char :=
  if c = '"' ∨ c = '\\' ∨ c = '/' then some c
  else if c = 'b' then some '\x08'
  else if c = 'f' then some '\x0c'
  else if c = 'n' then some '\n'
  else if c = 'r' then some '\r'
  else if c = 't' then some '\t'
  else none

/-- The first letter of a string stands for the character. -/
inductive Letter : List Char → Char → List Char → Prop where
  | plain {c : Char} {rest : List Char} (hc : 0x20 ≤ c.toNat) (hquote : c ≠ '"')
      (hescape : c ≠ '\\') : Letter (c :: rest) c rest
  | short {e c : Char} {rest : List Char} (h : shortEscape? e = some c) :
      Letter ('\\' :: e :: rest) c rest
  | unit {c u v w x : Char} {rest : List Char} (h : codeUnit? [u, v, w, x] = some c.toNat) :
      Letter ('\\' :: 'u' :: u :: v :: w :: x :: rest) c rest
  /-- A character that takes two code units. -/
  | pair {c u v w x u' v' w' x' : Char} {high low : Nat} {rest : List Char}
      (hhigh : codeUnit? [u, v, w, x] = some high) (hlow : codeUnit? [u', v', w', x'] = some low)
      (hrange : 0xD800 ≤ high ∧ high < 0xDC00) (hrange' : 0xDC00 ≤ low ∧ low < 0xE000)
      (hc : c.toNat = 0x10000 + 0x400 * (high - 0xD800) + (low - 0xDC00)) :
      Letter ('\\' :: 'u' :: u :: v :: w :: x :: '\\' :: 'u' :: u' :: v' :: w' :: x' :: rest) c rest

/-- Letters up to the quote that ends the string. -/
inductive Letters : List Char → List Char → List Char → Prop where
  | nil {rest : List Char} : Letters ('"' :: rest) [] rest
  | cons {s t rest cs : List Char} {c : Char} (head : Letter s c t) (tail : Letters t cs rest) :
      Letters s (c :: cs) rest

theorem toNat_not_surrogate (c : Char) : c.toNat < 0xD800 ∨ 0xE000 ≤ c.toNat := by
  have hvalid := c.valid
  rcases hvalid with h | h
  · exact .inl h
  · exact .inr h.1

theorem Letter.unique {s t t' : List Char} {c c' : Char} (h : Letter s c t)
    (h' : Letter s c' t') : c' = c ∧ t' = t := by
  cases h with
  | plain hc hquote hescape =>
    cases h' with
    | plain => exact ⟨rfl, rfl⟩
    | short | unit | pair => exact absurd rfl hescape
  | short he =>
    cases h' with
    | plain _ _ hescape => exact absurd rfl hescape
    | short he' => exact ⟨Option.some.inj (he'.symm.trans he), rfl⟩
    | unit | pair => cases he
  | unit hu =>
    cases h' with
    | plain _ _ hescape => exact absurd rfl hescape
    | short he => cases he
    | unit hu' => exact ⟨Char.toNat_inj.1 (Option.some.inj (hu'.symm.trans hu)), rfl⟩
    | @pair _ _ _ _ _ _ _ _ _ high low _ hhigh hlow hrange =>
      obtain rfl := Option.some.inj (hu.symm.trans hhigh)
      have hsurrogate := toNat_not_surrogate c
      omega
  | @pair _ _ _ _ _ _ _ _ _ high low _ hhigh hlow hrange hrange' hc =>
    cases h' with
    | plain _ _ hescape => exact absurd rfl hescape
    | short he => cases he
    | unit hu =>
      obtain rfl := Option.some.inj (hhigh.symm.trans hu)
      have hsurrogate := toNat_not_surrogate c'
      omega
    | pair hhigh' hlow' _ _ hc' =>
      obtain rfl := Option.some.inj (hhigh.symm.trans hhigh')
      obtain rfl := Option.some.inj (hlow.symm.trans hlow')
      exact ⟨Char.toNat_inj.1 (hc'.trans hc.symm), rfl⟩

theorem Letter.not_quote {t rest : List Char} {c : Char} : ¬Letter ('"' :: rest) c t := by
  intro h
  cases h with
  | plain _ hquote => exact hquote rfl

theorem Letters.unique {s cs cs' t t' : List Char} (h : Letters s cs t) (h' : Letters s cs' t') :
    cs' = cs ∧ t' = t := by
  induction h generalizing cs' t' with
  | nil =>
    cases h' with
    | nil => exact ⟨rfl, rfl⟩
    | cons head => exact absurd head Letter.not_quote
  | cons head tail ih =>
    cases h' with
    | nil => exact absurd head Letter.not_quote
    | cons head' tail' =>
      obtain ⟨rfl, rfl⟩ := head.unique head'
      obtain ⟨rfl, rfl⟩ := ih tail'
      exact ⟨rfl, rfl⟩

/-! ### Texts -/

def isBlank (c : Char) : Bool :=
  c = ' ' || c = '\t' || c = '\n' || c = '\r'

theorem isBlank_cases {c : Char} (h : isBlank c = true) :
    c = ' ' ∨ c = '\t' ∨ c = '\n' ∨ c = '\r' := by
  simpa [isBlank, or_assoc] using h

/-- The rest follows the blanks. -/
def Gap (s rest : List Char) : Prop :=
  ∃ blanks, s = blanks ++ rest ∧ ∀ c ∈ blanks, isBlank c = true

theorem Gap.refl (s : List Char) : Gap s s :=
  ⟨[], rfl, by simp⟩

theorem Gap.dropWhile_eq {s rest : List Char} {c : Char} (h : Gap s (c :: rest))
    (hc : isBlank c = false) : s.dropWhile isBlank = c :: rest := by
  obtain ⟨blanks, rfl, hblanks⟩ := h
  rw [List.dropWhile_append_of_pos hblanks, List.dropWhile_cons_of_neg (by simp [hc])]

theorem Gap.unique {s t t' : List Char} {c c' : Char} (h : Gap s (c :: t))
    (hc : isBlank c = false) (h' : Gap s (c' :: t')) (hc' : isBlank c' = false) :
    c' = c ∧ t' = t := by
  have heq := (h'.dropWhile_eq hc').symm.trans (h.dropWhile_eq hc)
  exact List.cons.inj heq

/-- What parts of a text stand for. -/
inductive Part where
  | value (j : Tree)
  /-- What stands in an array that is not empty. -/
  | elements (js : List Tree)
  | member (key : List Char) (j : Tree)
  /-- What stands in an object that is not empty. -/
  | members (ms : List (List Char × Tree))

/-- The text begins with the part, and the rest follows. -/
inductive Begins : Part → List Char → List Char → Prop where
  | null {r : List Char} : Begins (.value .null) ('n' :: 'u' :: 'l' :: 'l' :: r) r
  | yes {r : List Char} : Begins (.value (.bool true)) ('t' :: 'r' :: 'u' :: 'e' :: r) r
  | no {r : List Char} : Begins (.value (.bool false)) ('f' :: 'a' :: 'l' :: 's' :: 'e' :: r) r
  -- in a whole text this is all that can follow a number
  | number {literal r : List Char} (h : IsNumber literal) (hr : Delimited r) :
      Begins (.value (.number literal)) (literal ++ r) r
  | string {s cs r : List Char} (h : Letters s cs r) : Begins (.value (.string cs)) ('"' :: s) r
  | emptyArray {s r : List Char} (h : Gap s (']' :: r)) : Begins (.value (.array [])) ('[' :: s) r
  | array {js : List Tree} {s t r : List Char} (hgap : Gap s t) (h : Begins (.elements js) t r) :
      Begins (.value (.array js)) ('[' :: s) r
  | lastElement {j : Tree} {s t r : List Char} (h : Begins (.value j) s t)
      (hend : Gap t (']' :: r)) : Begins (.elements [j]) s r
  | element {j : Tree} {js : List Tree} {s t u v r : List Char} (h : Begins (.value j) s t)
      (hcomma : Gap t (',' :: u)) (hgap : Gap u v) (rest : Begins (.elements js) v r) :
      Begins (.elements (j :: js)) s r
  | emptyObject {s r : List Char} (h : Gap s ('\x7d' :: r)) :
      Begins (.value (.object [])) ('\x7b' :: s) r
  | object {ms : List (List Char × Tree)} {s t r : List Char} (hgap : Gap s t)
      (h : Begins (.members ms) t r) : Begins (.value (.object ms)) ('\x7b' :: s) r
  | member {key s t u v r : List Char} {j : Tree} (hkey : Letters s key t)
      (hcolon : Gap t (':' :: u)) (hgap : Gap u v) (h : Begins (.value j) v r) :
      Begins (.member key j) ('"' :: s) r
  | lastMember {key s t r : List Char} {j : Tree} (h : Begins (.member key j) s t)
      (hend : Gap t ('\x7d' :: r)) : Begins (.members [(key, j)]) s r
  | moreMembers {key s t u v r : List Char} {j : Tree} {ms : List (List Char × Tree)}
      (h : Begins (.member key j) s t) (hcomma : Gap t (',' :: u)) (hgap : Gap u v)
      (rest : Begins (.members ms) v r) : Begins (.members ((key, j) :: ms)) s r

/-- The text stands for the tree. -/
def StandsFor (text : List Char) (j : Tree) : Prop :=
  ∃ s rest, Gap text s ∧ Begins (.value j) s rest ∧ Gap rest []

/-! ### A text stands for one tree at most -/

inductive Kind where
  | null
  | bool
  | number
  | string
  | array
  | object

def Tree.kind : Tree → Kind
  | null => .null
  | bool _ => .bool
  | number _ => .number
  | string _ => .string
  | array _ => .array
  | object _ => .object

/-- What the first character of a value tells of it. -/
def kindOf? (c : Char) : Option Kind :=
  if c = 'n' then some .null
  else if c = 't' ∨ c = 'f' then some .bool
  else if c = '-' ∨ c.isDigit = true then some .number
  else if c = '"' then some .string
  else if c = '[' then some .array
  else if c = '\x7b' then some .object
  else none

theorem kindOf?_eq_number {c : Char} (h : c = '-' ∨ c.isDigit = true) :
    kindOf? c = some .number := by
  have hletter : c ≠ 'n' ∧ c ≠ 't' ∧ c ≠ 'f' := by
    rcases h with rfl | h
    · decide
    · refine ⟨?_, ?_, ?_⟩
      all_goals
        rintro rfl
        cases h
  simp [kindOf?, hletter, h]

theorem isBlank_of_kindOf? {c : Char} {k : Kind} (h : kindOf? c = some k) : isBlank c = false := by
  by_contra hblank
  rcases isBlank_cases (by simpa using hblank) with rfl | rfl | rfl | rfl
  all_goals cases h

theorem Begins.exists_head {p : Part} {s r : List Char} (h : Begins p s r) :
    ∃ c t k, s = c :: t ∧ kindOf? c = some k ∧ ∀ j, p = .value j → k = j.kind := by
  induction h with
  | null | yes | no | string | emptyArray | array | emptyObject | object =>
    refine ⟨_, _, _, rfl, rfl, fun j hj => ?_⟩
    cases hj
    rfl
  | @number literal r hliteral =>
    obtain ⟨c, ds, rfl, hc⟩ := hliteral.exists_head
    refine ⟨c, ds ++ r, .number, rfl, kindOf?_eq_number hc, fun j hj => ?_⟩
    cases hj
    rfl
  | lastElement _ _ ih | element _ _ _ _ ih _ | lastMember _ _ ih | moreMembers _ _ _ _ ih _ =>
    obtain ⟨c, t, k, hs, hk, -⟩ := ih
    exact ⟨c, t, k, hs, hk, nofun⟩
  | member => exact ⟨_, _, .string, rfl, rfl, nofun⟩

theorem Begins.kind_eq {j : Tree} {c : Char} {s r : List Char} {k : Kind}
    (h : Begins (.value j) (c :: s) r) (hc : kindOf? c = some k) : j.kind = k := by
  obtain ⟨c', t, k', heq, hk, hkind⟩ := h.exists_head
  cases heq
  rw [← hkind j rfl]
  exact Option.some.inj (hk.symm.trans hc)

theorem Begins.of_null {j : Tree} {s r : List Char} (h : Begins (.value j) ('n' :: s) r) :
    j = .null ∧ s = 'u' :: 'l' :: 'l' :: r := by
  have hkind := h.kind_eq rfl
  cases j with
  | null =>
    cases h
    exact ⟨rfl, rfl⟩
  | _ => cases hkind

theorem Begins.of_yes {j : Tree} {s r : List Char} (h : Begins (.value j) ('t' :: s) r) :
    j = .bool true ∧ s = 'r' :: 'u' :: 'e' :: r := by
  have hkind := h.kind_eq rfl
  cases j with
  | bool =>
    cases h
    exact ⟨rfl, rfl⟩
  | _ => cases hkind

theorem Begins.of_no {j : Tree} {s r : List Char} (h : Begins (.value j) ('f' :: s) r) :
    j = .bool false ∧ s = 'a' :: 'l' :: 's' :: 'e' :: r := by
  have hkind := h.kind_eq rfl
  cases j with
  | bool =>
    cases h
    exact ⟨rfl, rfl⟩
  | _ => cases hkind

theorem Begins.of_number {j : Tree} {literal s r : List Char} (hliteral : IsNumber literal)
    (hs : Delimited s) (h : Begins (.value j) (literal ++ s) r) :
    j = .number literal ∧ r = s := by
  obtain ⟨c, ds, rfl, hc⟩ := hliteral.exists_head
  have hkind := h.kind_eq (kindOf?_eq_number hc)
  generalize htext : c :: ds ++ s = text at h
  cases j with
  | number literal' =>
    cases h with
    | number hliteral' hr =>
      have hsame : c :: ds = literal' := by
        rw [← hs.takeWhile_append hliteral, htext, hr.takeWhile_append hliteral']
      rw [← hsame] at htext
      exact ⟨congrArg Tree.number hsame.symm, (List.append_cancel_left htext).symm⟩
  | _ => cases hkind

theorem Begins.of_string {j : Tree} {s r : List Char} (h : Begins (.value j) ('"' :: s) r) :
    ∃ cs, j = .string cs ∧ Letters s cs r := by
  have hkind := h.kind_eq rfl
  cases j with
  | string cs =>
    cases h with
    | string h => exact ⟨cs, rfl, h⟩
  | _ => cases hkind

theorem Begins.of_array {j : Tree} {s r : List Char} (h : Begins (.value j) ('[' :: s) r) :
    (j = .array [] ∧ Gap s (']' :: r)) ∨
      ∃ js t, j = .array js ∧ Gap s t ∧ Begins (.elements js) t r := by
  have hkind := h.kind_eq rfl
  cases j with
  | array js =>
    cases h with
    | emptyArray hend => exact .inl ⟨rfl, hend⟩
    | array hgap hitems => exact .inr ⟨js, _, rfl, hgap, hitems⟩
  | _ => cases hkind

theorem Begins.of_object {j : Tree} {s r : List Char} (h : Begins (.value j) ('\x7b' :: s) r) :
    (j = .object [] ∧ Gap s ('\x7d' :: r)) ∨
      ∃ ms t, j = .object ms ∧ Gap s t ∧ Begins (.members ms) t r := by
  have hkind := h.kind_eq rfl
  cases j with
  | object ms =>
    cases h with
    | emptyObject hend => exact .inl ⟨rfl, hend⟩
    | object hgap hmembers => exact .inr ⟨ms, _, rfl, hgap, hmembers⟩
  | _ => cases hkind

theorem Begins.gap_unique {p p' : Part} {s t t' r r' : List Char} (hgap : Gap s t)
    (h : Begins p t r) (hgap' : Gap s t') (h' : Begins p' t' r') : t' = t := by
  obtain ⟨c, u, k, rfl, hk, -⟩ := h.exists_head
  obtain ⟨c', u', k', rfl, hk', -⟩ := h'.exists_head
  obtain ⟨rfl, rfl⟩ := hgap.unique (isBlank_of_kindOf? hk) hgap' (isBlank_of_kindOf? hk')
  rfl

/-- Where a part stands after the gap, no other character does. -/
theorem Begins.not_gap {p : Part} {s t u r : List Char} {c : Char} (hgap : Gap s t)
    (h : Begins p t r) (hc : kindOf? c = none) (hblank : isBlank c = false) :
    ¬Gap s (c :: u) := by
  intro hgap'
  obtain ⟨c', t, k, rfl, hk, -⟩ := h.exists_head
  obtain ⟨rfl, rfl⟩ := hgap.unique (isBlank_of_kindOf? hk) hgap' hblank
  cases hc.symm.trans hk

/-- No other part of the same sort is there, and it leaves no other rest. -/
def Part.Only (s r : List Char) : Part → Prop
  | value j => ∀ j' r', Begins (.value j') s r' → j' = j ∧ r' = r
  | elements js => ∀ js' r', Begins (.elements js') s r' → js' = js ∧ r' = r
  | member key j => ∀ key' j' r', Begins (.member key' j') s r' → key' = key ∧ j' = j ∧ r' = r
  | members ms => ∀ ms' r', Begins (.members ms') s r' → ms' = ms ∧ r' = r

theorem Begins.only {p : Part} {s r : List Char} (h : Begins p s r) : p.Only s r := by
  -- the other way to read the text ends with the same rule: the first character says which, or the
  -- one after a gap
  induction h with
  | null =>
    intro j' r' h'
    obtain ⟨rfl, hs⟩ := h'.of_null
    cases hs
    exact ⟨rfl, rfl⟩
  | yes =>
    intro j' r' h'
    obtain ⟨rfl, hs⟩ := h'.of_yes
    cases hs
    exact ⟨rfl, rfl⟩
  | no =>
    intro j' r' h'
    obtain ⟨rfl, hs⟩ := h'.of_no
    cases hs
    exact ⟨rfl, rfl⟩
  | number hliteral hr =>
    intro j' r' h'
    exact h'.of_number hliteral hr
  | string hletters =>
    intro j' r' h'
    obtain ⟨cs, rfl, hletters'⟩ := h'.of_string
    obtain ⟨rfl, rfl⟩ := hletters.unique hletters'
    exact ⟨rfl, rfl⟩
  | emptyArray hend =>
    intro j' r' h'
    rcases h'.of_array with ⟨rfl, hend'⟩ | ⟨js, t, rfl, hgap, hitems⟩
    · exact ⟨rfl, (hend.unique rfl hend' rfl).2⟩
    · exact absurd hend (hitems.not_gap hgap rfl rfl)
  | array hgap hitems ih =>
    intro j' r' h'
    rcases h'.of_array with ⟨rfl, hend⟩ | ⟨js, t, rfl, hgap', hitems'⟩
    · exact absurd hend (hitems.not_gap hgap rfl rfl)
    · obtain rfl := gap_unique hgap hitems hgap' hitems'
      obtain ⟨rfl, rfl⟩ := ih _ _ hitems'
      exact ⟨rfl, rfl⟩
  | lastElement hj hend ih =>
    intro js' r' h'
    cases h' with
    | lastElement hj' hend' =>
      obtain ⟨rfl, rfl⟩ := ih _ _ hj'
      exact ⟨rfl, (hend.unique rfl hend' rfl).2⟩
    | element hj' hcomma' =>
      obtain ⟨rfl, rfl⟩ := ih _ _ hj'
      cases (hend.unique rfl hcomma' rfl).1
  | element hj hcomma hgap hrest ih ihrest =>
    intro js' r' h'
    cases h' with
    | lastElement hj' hend' =>
      obtain ⟨rfl, rfl⟩ := ih _ _ hj'
      cases (hcomma.unique rfl hend' rfl).1
    | element hj' hcomma' hgap' hrest' =>
      obtain ⟨rfl, rfl⟩ := ih _ _ hj'
      obtain ⟨-, rfl⟩ := hcomma.unique rfl hcomma' rfl
      obtain rfl := gap_unique hgap hrest hgap' hrest'
      obtain ⟨rfl, rfl⟩ := ihrest _ _ hrest'
      exact ⟨rfl, rfl⟩
  | emptyObject hend =>
    intro j' r' h'
    rcases h'.of_object with ⟨rfl, hend'⟩ | ⟨ms, t, rfl, hgap, hmembers⟩
    · exact ⟨rfl, (hend.unique rfl hend' rfl).2⟩
    · exact absurd hend (hmembers.not_gap hgap rfl rfl)
  | object hgap hmembers ih =>
    intro j' r' h'
    rcases h'.of_object with ⟨rfl, hend⟩ | ⟨ms, t, rfl, hgap', hmembers'⟩
    · exact absurd hend (hmembers.not_gap hgap rfl rfl)
    · obtain rfl := gap_unique hgap hmembers hgap' hmembers'
      obtain ⟨rfl, rfl⟩ := ih _ _ hmembers'
      exact ⟨rfl, rfl⟩
  | member hkey hcolon hgap hj ih =>
    intro key' j' r' h'
    cases h' with
    | member hkey' hcolon' hgap' hj' =>
      obtain ⟨rfl, rfl⟩ := hkey.unique hkey'
      obtain ⟨-, rfl⟩ := hcolon.unique rfl hcolon' rfl
      obtain rfl := gap_unique hgap hj hgap' hj'
      obtain ⟨rfl, rfl⟩ := ih _ _ hj'
      exact ⟨rfl, rfl, rfl⟩
  | lastMember hm hend ih =>
    intro ms' r' h'
    cases h' with
    | lastMember hm' hend' =>
      obtain ⟨rfl, rfl, rfl⟩ := ih _ _ _ hm'
      exact ⟨rfl, (hend.unique rfl hend' rfl).2⟩
    | moreMembers hm' hcomma' =>
      obtain ⟨rfl, rfl, rfl⟩ := ih _ _ _ hm'
      cases (hend.unique rfl hcomma' rfl).1
  | moreMembers hm hcomma hgap hrest ih ihrest =>
    intro ms' r' h'
    cases h' with
    | lastMember hm' hend' =>
      obtain ⟨rfl, rfl, rfl⟩ := ih _ _ _ hm'
      cases (hcomma.unique rfl hend' rfl).1
    | moreMembers hm' hcomma' hgap' hrest' =>
      obtain ⟨rfl, rfl, rfl⟩ := ih _ _ _ hm'
      obtain ⟨-, rfl⟩ := hcomma.unique rfl hcomma' rfl
      obtain rfl := gap_unique hgap hrest hgap' hrest'
      obtain ⟨rfl, rfl⟩ := ihrest _ _ hrest'
      exact ⟨rfl, rfl⟩

theorem StandsFor.unique {text : List Char} {j j' : Tree} (h : StandsFor text j)
    (h' : StandsFor text j') : j' = j := by
  obtain ⟨s, rest, hgap, hj, -⟩ := h
  obtain ⟨s', rest', hgap', hj', -⟩ := h'
  obtain rfl := Begins.gap_unique hgap hj hgap' hj'
  exact (hj.only j' rest' hj').1

end ReductionGrammar.Trace.Json
