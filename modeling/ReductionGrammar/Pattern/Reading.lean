import ReductionGrammar.Pattern.Token
import ReductionGrammar.Text.Blank

/-!
# Reading patterns

The written form of a right-hand side:

    pattern   = blank* (item blank*)*
    item      = construct quantifier? | '(' blank* construct quantifier? blank* ')'
    construct = name | "'" terminal "'"
    terminal  = char | '[' '^'? class-item* ']'
    class-item = char ('-' char)?
    quantifier = '+' | '*' | '?'

A name is a letter of ASCII followed by as many letters and digits of ASCII as there are. A `char`
is any character, and one after the escape `%` stands for itself.

Every step of reading takes the text that is left. It gives what it read with the text after it;
where it fails, it gives the text from the place of the failure on, which is empty if the text
ended too early and else begins with the character that cannot stand there.
-/

namespace ReductionGrammar

/-- What a step read and the text after it, or the text at which it failed. -/
abbrev Reading (α : Type) := Except (List Char) (α × List Char)

/-- The character that makes the next one stand for itself. -/
def escape : Char := '%'

def quoteMark : Char := '\x27'

def beginsName (c : Char) : Bool :=
  c.isAlpha

def continuesName (c : Char) : Bool :=
  c.isAlphanum

/-- The text after `c`, with which it has to begin. -/
def skipChar (c : Char) : List Char → Except (List Char) (List Char)
  | [] => .error []
  | d :: rest => if d = c then .ok rest else .error (d :: rest)

def readChar : List Char → Reading Char
  | [] => .error []
  | c :: rest =>
    if c = escape then
      match rest with
      | [] => .error []
      | d :: rest => .ok (d, rest)
    else .ok (c, rest)

theorem length_of_readChar {s : List Char} {c : Char} {rest : List Char}
    (h : readChar s = .ok (c, rest)) : rest.length < s.length := by
  unfold readChar at h
  split at h
  · exact nomatch h
  · next d tail =>
    split at h
    · split at h
      · exact nomatch h
      · injection h with h
        injection h with _ h
        subst h
        simp only [List.length_cons]
        omega
    · injection h with h
      injection h with _ h
      subst h
      simp

/-- One or two characters of a class: a character, or the ends of a range. -/
def readClassItem (set : CharSet) (s : List Char) : Reading CharSet :=
  match readChar s with
  | .error stop => .error stop
  | .ok (lo, rest) =>
    match rest with
    | [] => .ok (set.insert lo, [])
    | d :: rest' =>
      if d = '-' then
        match readChar rest' with
        | .error stop => .error stop
        | .ok (hi, rest'') => .ok (set.insertRange lo hi, rest'')
      else .ok (set.insert lo, d :: rest')

theorem length_of_readClassItem {set set' : CharSet} {s rest : List Char}
    (h : readClassItem set s = .ok (set', rest)) : rest.length < s.length := by
  unfold readClassItem at h
  split at h
  · exact nomatch h
  · next lo tail hlo =>
    have hs := length_of_readChar hlo
    split at h
    · injection h with h
      injection h with _ h
      subst h
      exact hs
    · next d rest' =>
      split at h
      · split at h
        · exact nomatch h
        · next hi rest'' hhi =>
          have ht := length_of_readChar hhi
          injection h with h
          injection h with _ h
          subst h
          simp only [List.length_cons] at hs
          omega
      · injection h with h
        injection h with _ h
        subst h
        exact hs

/-- The rest of a class up to its closing bracket, added to the set read so far. -/
def readClass (set : CharSet) (s : List Char) : Reading CharSet :=
  match s with
  | [] => .error []
  | c :: rest =>
    if c = ']' then .ok (set, rest)
    else
      match _h : readClassItem set (c :: rest) with
      | .error stop => .error stop
      | .ok (set, rest) => readClass set rest
termination_by s.length
decreasing_by exact length_of_readClassItem _h

def readTerminal : List Char → Reading Atom
  | [] => .error []
  | c :: rest =>
    if c = '[' then
      match rest with
      | [] => .error []
      | d :: rest' =>
        if d = '^' then (readClass (.empty true) rest').map fun r => (.charSet r.1, r.2)
        else (readClass (.empty false) (d :: rest')).map fun r => (.charSet r.1, r.2)
    else if c = quoteMark then .error (c :: rest)
    else (readChar (c :: rest)).map fun r => (.char r.1, r.2)

def readConstruct : List Char → Reading Atom
  | [] => .error []
  | c :: rest =>
    if c = quoteMark then
      match readTerminal rest with
      | .error stop => .error stop
      | .ok (atom, rest) => (skipChar quoteMark rest).map fun rest' => (atom, rest')
    else if beginsName c then
      .ok (.name (String.ofList (c :: rest.takeWhile continuesName)), rest.dropWhile continuesName)
    else .error (c :: rest)

def readQuantifier : List Char → Repetition × List Char
  | [] => (.once, [])
  | c :: rest =>
    match Repetition.ofSuffix? c with
    | some repetition => (repetition, rest)
    | none => (.once, c :: rest)

/-- A token; the one in parentheses is captured. -/
def readItem : List Char → Reading Token
  | [] => .error []
  | c :: rest =>
    if c = '(' then
      match readConstruct (skipBlanks rest) with
      | .error stop => .error stop
      | .ok (atom, rest) =>
        (skipChar ')' (skipBlanks (readQuantifier rest).2)).map fun rest' =>
          (⟨atom, (readQuantifier rest).1, true⟩, rest')
    else
      match readConstruct (c :: rest) with
      | .error stop => .error stop
      | .ok (atom, rest) => .ok (⟨atom, (readQuantifier rest).1, false⟩, (readQuantifier rest).2)

/-! ### What is left is shorter -/

theorem length_of_skipChar {c : Char} {s rest : List Char} (h : skipChar c s = .ok rest) :
    rest.length < s.length := by
  unfold skipChar at h
  split at h
  · exact nomatch h
  · split at h
    · injection h with h
      subst h
      simp
    · exact nomatch h

theorem length_of_readClass {set set' : CharSet} {s rest : List Char}
    (h : readClass set s = .ok (set', rest)) : rest.length < s.length := by
  fun_induction readClass set s with
  | case1 => exact nomatch h
  | case2 =>
    injection h with h
    injection h with _ h
    subst h
    simp
  | case3 => exact nomatch h
  | case4 set c rest' _ set₁ rest₁ hitem ih =>
    exact Nat.lt_trans (ih h) (length_of_readClassItem hitem)

theorem exists_of_map_eq_ok {ε α β : Type} {f : α → β} {x : Except ε α} {b : β}
    (h : x.map f = .ok b) : ∃ a, x = .ok a ∧ f a = b := by
  cases x with
  | error e => exact nomatch h
  | ok a => exact ⟨a, rfl, Except.ok.inj h⟩

theorem length_of_readTerminal {s rest : List Char} {atom : Atom}
    (h : readTerminal s = .ok (atom, rest)) : rest.length < s.length := by
  unfold readTerminal at h
  split at h
  · exact nomatch h
  · next c tail =>
    simp only [List.length_cons]
    split at h
    · split at h
      · exact nomatch h
      · next d rest' =>
        simp only [List.length_cons]
        split at h
        · obtain ⟨r, hr, he⟩ := exists_of_map_eq_ok h
          injection he with _ he
          subst he
          have := length_of_readClass hr
          omega
        · obtain ⟨r, hr, he⟩ := exists_of_map_eq_ok h
          injection he with _ he
          subst he
          have := length_of_readClass hr
          simp only [List.length_cons] at this
          omega
    · split at h
      · exact nomatch h
      · obtain ⟨r, hr, he⟩ := exists_of_map_eq_ok h
        injection he with _ he
        subst he
        exact length_of_readChar hr

theorem length_of_readConstruct {s rest : List Char} {atom : Atom}
    (h : readConstruct s = .ok (atom, rest)) : rest.length < s.length := by
  unfold readConstruct at h
  split at h
  · exact nomatch h
  · next c tail =>
    simp only [List.length_cons]
    split at h
    · split at h
      · exact nomatch h
      · next a rest₁ ht =>
        have h₁ := length_of_readTerminal ht
        obtain ⟨r, hr, he⟩ := exists_of_map_eq_ok h
        injection he with _ he
        subst he
        have := length_of_skipChar hr
        omega
    · split at h
      · injection h with h
        injection h with _ h
        have := (List.dropWhile_suffix (l := tail) continuesName).length_le
        rw [h] at this
        omega
      · exact nomatch h

theorem length_readQuantifier_le (s : List Char) : (readQuantifier s).2.length ≤ s.length := by
  unfold readQuantifier
  split
  · simp
  · split <;> simp

theorem length_of_readItem {s rest : List Char} {token : Token}
    (h : readItem s = .ok (token, rest)) : rest.length < s.length := by
  unfold readItem at h
  split at h
  · exact nomatch h
  · next c tail =>
    simp only [List.length_cons]
    split at h
    · split at h
      · exact nomatch h
      · next atom rest₁ hc =>
        have h₀ := length_skipBlanks_le tail
        have h₁ := length_of_readConstruct hc
        have h₂ := length_readQuantifier_le rest₁
        have h₃ := length_skipBlanks_le (readQuantifier rest₁).2
        obtain ⟨r, hr, he⟩ := exists_of_map_eq_ok h
        injection he with _ he
        subst he
        have := length_of_skipChar hr
        omega
    · split at h
      · exact nomatch h
      · next atom rest₁ hc =>
        have h₁ := length_of_readConstruct hc
        have h₂ := length_readQuantifier_le rest₁
        injection h with h
        injection h with _ h
        subst h
        simp only [List.length_cons] at h₁
        omega

/-- All tokens of a text, or the text at which reading failed. -/
def readItems (s : List Char) : Except (List Char) (List Token) :=
  match _hs : skipBlanks s with
  | [] => .ok []
  | c :: rest =>
    match _hi : readItem (c :: rest) with
    | .error stop => .error stop
    | .ok (token, rest) => (readItems rest).map fun tokens => token :: tokens
termination_by s.length
decreasing_by
  have h₁ := length_of_readItem _hi
  have h₂ := length_skipBlanks_le s
  rw [_hs] at h₂
  omega

end ReductionGrammar
