import Mathlib.Data.List.Basic
import ReductionGrammar.Pattern.Token
import ReductionGrammar.Text.Blank

/-!
# The written form of patterns

Which texts are patterns, and which tokens they stand for, as rules of a grammar that say nothing
about how a text is read:

    pattern    = blank* (item blank*)*
    item       = construct quantifier? | '(' blank* construct quantifier? blank* ')'
    construct  = name | quote terminal quote
    terminal   = letter | '[' '^'? class-item* ']'
    class-item = letter ('-' letter)?
    letter     = '%' any | any other

In a relation `R s x rest` the text `s` begins with the written form of `x`, and `rest` is the text
after it. Only three rules look at what follows: a name ends where no letter or digit follows, a
single character of a class is not followed by `-`, and a class that begins with `^` is negated.
-/

namespace ReductionGrammar.Written

/-- The text is a run of blanks. -/
def Blanks (ws : List Char) : Prop :=
  ∀ c ∈ ws, isBlank c = true

/-- A character that stands for itself, as `%` and those of `reserved` do not, or any character
after `%`. -/
inductive Letter (reserved : List Char) : List Char → Char → List Char → Prop where
  | plain {c : Char} (rest : List Char) (he : c ≠ '%') (hr : c ∉ reserved) :
      Letter reserved (c :: rest) c rest
  | escaped (c : Char) (rest : List Char) : Letter reserved ('%' :: c :: rest) c rest

/-- The ends of a range; those of a single character are the same. An unescaped `]` may end a
range, but it cannot begin an item. -/
inductive ClassItem : List Char → Char × Char → List Char → Prop where
  | single {s rest : List Char} {c : Char} (h : Letter [']'] s c rest)
      (hrest : rest.head? ≠ some '-') : ClassItem s (c, c) rest
  | range {s mid rest : List Char} {c d : Char} (h : Letter [']'] s c ('-' :: mid))
      (hd : Letter [] mid d rest) : ClassItem s (c, d) rest

inductive ClassItems : List Char → List (Char × Char) → List Char → Prop where
  | nil (rest : List Char) : ClassItems rest [] rest
  | cons {s mid rest : List Char} {item : Char × Char} {items : List (Char × Char)}
      (head : ClassItem s item mid) (tail : ClassItems mid items rest) :
      ClassItems s (item :: items) rest

/-- The code point of `c` lies between those of `a` and `b`, or is one of them. -/
def Between (a b c : Char) : Prop :=
  min a.toNat b.toNat ≤ c.toNat ∧ c.toNat ≤ max a.toNat b.toNat

/-- The set lists the characters of the ranges and no others. -/
def Lists (set : CharSet) (items : List (Char × Char)) : Prop :=
  ∀ c, set.contains c = true ↔ ∃ item ∈ items, Between item.1 item.2 c

inductive Terminal : List Char → Atom → List Char → Prop where
  | char {s rest : List Char} {c : Char} (h : Letter ['\x27', '['] s c rest) :
      Terminal s (.char c) rest
  | listed {body rest : List Char} {items : List (Char × Char)} {set : CharSet}
      (hbody : body.head? ≠ some '^') (h : ClassItems body items (']' :: rest))
      (hnegated : set.negated = false) (hset : Lists set items) :
      Terminal ('[' :: body) (.charSet set) rest
  | unlisted {body rest : List Char} {items : List (Char × Char)} {set : CharSet}
      (h : ClassItems body items (']' :: rest))
      (hnegated : set.negated = true) (hset : Lists set items) :
      Terminal ('[' :: '^' :: body) (.charSet set) rest

/-- A letter of ASCII and letters and digits of ASCII after it. -/
def Name (name : List Char) : Prop :=
  ∃ c cs, name = c :: cs ∧ c.isAlpha = true ∧ ∀ d ∈ cs, d.isAlphanum = true

inductive Construct : List Char → Atom → List Char → Prop where
  | name {name rest : List Char} (h : Name name)
      (hrest : ∀ c ∈ rest.head?, c.isAlphanum = false) :
      Construct (name ++ rest) (.name (String.ofList name)) rest
  | quoted {s rest : List Char} {a : Atom} (h : Terminal s a ('\x27' :: rest)) :
      Construct ('\x27' :: s) a rest

inductive Quantifier : List Char → Repetition → List Char → Prop where
  | once (rest : List Char) : Quantifier rest .once rest
  | oneOrMore (rest : List Char) : Quantifier ('+' :: rest) .oneOrMore rest
  | zeroOrMore (rest : List Char) : Quantifier ('*' :: rest) .zeroOrMore rest
  | zeroOrOne (rest : List Char) : Quantifier ('?' :: rest) .zeroOrOne rest

inductive Item : List Char → Token → List Char → Prop where
  | plain {s mid rest : List Char} {a : Atom} {r : Repetition}
      (h : Construct s a mid) (hr : Quantifier mid r rest) : Item s ⟨a, r, false⟩ rest
  | captured {ws s mid ws' rest : List Char} {a : Atom} {r : Repetition}
      (hws : Blanks ws) (h : Construct s a mid) (hr : Quantifier mid r (ws' ++ ')' :: rest))
      (hws' : Blanks ws') : Item ('(' :: (ws ++ s)) ⟨a, r, true⟩ rest

inductive Items : List Char → List Token → Prop where
  | nil : Items [] []
  | cons {s ws rest : List Char} {t : Token} {ts : List Token} (head : Item s t (ws ++ rest))
      (hws : Blanks ws) (tail : Items rest ts) : Items s (t :: ts)

/-- The whole text is the written form of the tokens. -/
inductive Pattern : List Char → List Token → Prop where
  | mk {ws s : List Char} {ts : List Token} (hws : Blanks ws) (h : Items s ts) :
      Pattern (ws ++ s) ts

/-! ### How written forms begin -/

theorem Blanks.nil : Blanks [] := by
  intro c hc
  cases hc

theorem Blanks.cons {c : Char} {ws : List Char} (hc : isBlank c = true) (hws : Blanks ws) :
    Blanks (c :: ws) :=
  List.forall_mem_cons.2 ⟨hc, hws⟩

theorem Letter.head_not_mem {reserved s rest : List Char} {c : Char}
    (h : Letter reserved s c rest) (hescape : '%' ∉ reserved) :
    ∃ d tail, s = d :: tail ∧ d ∉ reserved := by
  cases h with
  | plain _ he hr => exact ⟨c, rest, rfl, hr⟩
  | escaped => exact ⟨'%', c :: rest, rfl, hescape⟩

theorem ClassItem.head_ne {s rest : List Char} {item : Char × Char} (h : ClassItem s item rest) :
    ∃ d tail, s = d :: tail ∧ d ≠ ']' := by
  have hletter : ∃ c mid, Letter [']'] s c mid := by
    cases h with
    | single h _ => exact ⟨_, _, h⟩
    | range h _ => exact ⟨_, _, h⟩
  obtain ⟨c, mid, hc⟩ := hletter
  obtain ⟨d, tail, hs, hd⟩ := hc.head_not_mem (by decide)
  exact ⟨d, tail, hs, fun heq => hd (List.mem_singleton.2 heq)⟩

/-- An item begins with a letter of ASCII, a quote or a parenthesis. -/
def BeginsItem (c : Char) : Prop :=
  c.isAlpha = true ∨ c = '\x27' ∨ c = '('

theorem Construct.head {s rest : List Char} {a : Atom} (h : Construct s a rest) :
    ∃ c tail, s = c :: tail ∧ (c.isAlpha = true ∨ c = '\x27') := by
  cases h with
  | name h _ =>
    obtain ⟨c, cs, rfl, hc, -⟩ := h
    exact ⟨c, cs ++ rest, rfl, .inl hc⟩
  | quoted h => exact ⟨_, _, rfl, .inr rfl⟩

theorem Item.head {s rest : List Char} {t : Token} (h : Item s t rest) :
    ∃ c tail, s = c :: tail ∧ BeginsItem c := by
  cases h with
  | plain h _ =>
    obtain ⟨c, tail, hs, hc⟩ := h.head
    exact ⟨c, tail, hs, hc.imp_right .inl⟩
  | captured => exact ⟨_, _, rfl, .inr (.inr rfl)⟩

end ReductionGrammar.Written
