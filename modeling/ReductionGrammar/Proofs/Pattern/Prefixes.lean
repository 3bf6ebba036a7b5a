import Mathlib.Data.List.Basic
import ReductionGrammar.Pattern.Basic

/-!
# Beginnings of patterns

How far reading has come after a text is told by one of a few modes, and the mode and the next
character alone decide whether reading can go on. Reading fails exactly where there is no next
mode; and every mode can be brought to an end, so whatever comes before the place of a failure is
the beginning of some pattern.
-/

namespace ReductionGrammar

/-- What has been read of a text, named for what was read last. Inside of an item it is known
whether the item is captured. -/
inductive Mode where
  | between
  | opened
  | name (captured : Bool)
  -- between the quotes; in a class, after an item and inside of one
  | quote (captured : Bool)
  | quoteEscape (captured : Bool)
  | bracket (captured : Bool)
  | inClass (captured : Bool)
  | itemEscape (captured : Bool)
  | lead (captured : Bool)
  | dash (captured : Bool)
  | dashEscape (captured : Bool)
  | terminal (captured : Bool)
  -- before a quantifier, and before the parenthesis that ends a captured item
  | construct (captured : Bool)
  | closing

namespace Mode

def begin? (captured : Bool) (c : Char) : Option Mode :=
  if c = quoteMark then some (quote captured)
  else if beginsName c then some (name captured)
  else none

def afterItem (captured : Bool) : Mode :=
  if captured then closing else between

def betweenNext (c : Char) : Option Mode :=
  if isBlank c then some between else if c = '(' then some opened else begin? false c

def closingNext (c : Char) : Option Mode :=
  if isBlank c then some closing else if c = ')' then some between else none

def constructNext (captured : Bool) (c : Char) : Option Mode :=
  match Repetition.ofSuffix? c with
  | some _ => some (afterItem captured)
  | none => if captured then closingNext c else betweenNext c

def classNext (captured : Bool) (c : Char) : Option Mode :=
  if c = ']' then some (terminal captured)
  else if c = escape then some (itemEscape captured)
  else some (lead captured)

/-- The mode after one more character; nothing if it cannot stand there. -/
def next? : Mode → Char → Option Mode
  | between, c => betweenNext c
  | opened, c => if isBlank c then some opened else begin? true c
  | name captured, c => if continuesName c then some (name captured) else constructNext captured c
  | quote captured, c =>
    if c = '[' then some (bracket captured)
    else if c = quoteMark then none
    else if c = escape then some (quoteEscape captured)
    else some (terminal captured)
  | quoteEscape captured, _ => some (terminal captured)
  | bracket captured, c => if c = '^' then some (inClass captured) else classNext captured c
  | inClass captured, c => classNext captured c
  | itemEscape captured, _ => some (lead captured)
  | lead captured, c => if c = '-' then some (dash captured) else classNext captured c
  | dash captured, c =>
    if c = escape then some (dashEscape captured) else some (inClass captured)
  | dashEscape captured, _ => some (inClass captured)
  | terminal captured, c => if c = quoteMark then some (construct captured) else none
  | construct captured, c => constructNext captured c
  | closing, c => closingNext c

/-- The text may end here. -/
def mayEnd : Mode → Bool
  | between => true
  | name captured | construct captured => !captured
  | _ => false

/-- Goes through a text from a mode on; fails with the text from the place of the failure on. -/
def scan : Mode → List Char → Except (List Char) Unit
  | m, [] => if m.mayEnd then .ok () else .error []
  | m, c :: rest =>
    match m.next? c with
    | some m => m.scan rest
    | none => .error (c :: rest)

/-- Goes through the text that a step has left, from a mode on, or fails as the step did. -/
def resume {α : Type} (m : Mode) : Reading α → Except (List Char) Unit
  | .ok r => m.scan r.2
  | .error stop => .error stop

/-! ### Every step goes through the modes -/

theorem scan_cons_of_next? {m m' : Mode} {c : Char} (h : m.next? c = some m') (rest : List Char) :
    m.scan (c :: rest) = m'.scan rest := by
  simp only [scan, h]

theorem scan_cons_of_none {m : Mode} {c : Char} (h : m.next? c = none) (rest : List Char) :
    m.scan (c :: rest) = .error (c :: rest) := by
  simp only [scan, h]

theorem scan_dropWhile {m : Mode} {p : Char → Bool} (h : ∀ c, p c = true → m.next? c = some m)
    (s : List Char) : m.scan s = m.scan (s.dropWhile p) := by
  induction s with
  | nil => rfl
  | cons c rest ih =>
    cases hc : p c with
    | true =>
      rw [List.dropWhile_cons_of_pos hc, ← ih]
      exact scan_cons_of_next? (h c hc) rest
    | false => rw [List.dropWhile_cons_of_neg (by simp [hc])]

theorem resume_map {α β : Type} (m : Mode) (r : Reading α) (f : α → β) :
    m.resume (r.map fun x => (f x.1, x.2)) = m.resume r := by
  cases r with
  | error stop => rfl
  | ok x => rfl

variable (captured : Bool)

theorem scan_dash (s : List Char) :
    (dash captured).scan s = (inClass captured).resume (readChar s) := by
  cases s with
  | nil => rfl
  | cons c rest =>
    by_cases hc : c = escape
    · subst hc
      have hnext : (dash captured).next? escape = some (dashEscape captured) := rfl
      rw [scan_cons_of_next? hnext]
      cases rest with
      | nil => rfl
      | cons d rest => rfl
    · have hnext : (dash captured).next? c = some (inClass captured) := by simp [next?, hc]
      rw [scan_cons_of_next? hnext]
      simp [readChar, hc, resume]

theorem scan_lead {s : List Char} (hs : s.head? ≠ some '-') :
    (lead captured).scan s = (inClass captured).scan s := by
  cases s with
  | nil => rfl
  | cons c rest =>
    have hc : c ≠ '-' := by simpa using hs
    simp only [scan, next?, hc, ite_false]

theorem scan_classItem (set : CharSet) {c : Char} (hc : c ≠ ']') (s : List Char) :
    (inClass captured).scan (c :: s) =
      (inClass captured).resume (readClassItem set (c :: s)) := by
  have hlead : (inClass captured).scan (c :: s) = (lead captured).resume (readChar (c :: s)) := by
    by_cases he : c = escape
    · subst he
      have hnext : (inClass captured).next? escape = some (itemEscape captured) := rfl
      rw [scan_cons_of_next? hnext]
      cases s with
      | nil => rfl
      | cons d s => rfl
    · have hnext : (inClass captured).next? c = some (lead captured) := by
        simp only [next?, classNext, hc, he, ite_false]
      rw [scan_cons_of_next? hnext]
      simp [readChar, he, resume]
  rw [hlead]
  unfold readClassItem
  cases readChar (c :: s) with
  | error stop => rfl
  | ok r =>
    obtain ⟨lo, rest⟩ := r
    cases rest with
    | nil => rfl
    | cons d rest =>
      by_cases hd : d = '-'
      · subst hd
        have hnext : (lead captured).next? '-' = some (dash captured) := rfl
        simp only [resume, ite_true, scan_cons_of_next? hnext, scan_dash]
        cases readChar rest with
        | error stop => rfl
        | ok r => rfl
      · simp only [resume, hd, ite_false]
        exact scan_lead captured (by simpa using hd)

theorem scan_inClass (set : CharSet) (s : List Char) :
    (inClass captured).scan s = (terminal captured).resume (readClass set s) := by
  fun_induction readClass set s with
  | case1 => rfl
  | case2 => rfl
  | case3 set c rest hc stop hitem =>
    rw [scan_classItem captured set hc, hitem]
    rfl
  | case4 set c rest hc set₁ rest₁ hitem ih =>
    rw [scan_classItem captured set hc, hitem]
    exact ih

theorem scan_quote (s : List Char) :
    (quote captured).scan s = (terminal captured).resume (readTerminal s) := by
  cases s with
  | nil => rfl
  | cons c rest =>
    unfold readTerminal
    dsimp only
    by_cases hbracket : c = '['
    · subst hbracket
      have hnext : (quote captured).next? '[' = some (bracket captured) := rfl
      rw [scan_cons_of_next? hnext, if_pos rfl]
      cases rest with
      | nil => rfl
      | cons d body =>
        by_cases hd : d = '^'
        · subst hd
          have hneg : (bracket captured).next? '^' = some (inClass captured) := rfl
          rw [scan_cons_of_next? hneg, scan_inClass captured (.empty true)]
          exact (resume_map _ _ Atom.charSet).symm
        · have hpos : (bracket captured).scan (d :: body) =
              (inClass captured).scan (d :: body) := by
            simp only [scan, next?, hd, ite_false]
          rw [hpos, scan_inClass captured (.empty false)]
          simp only [hd, ite_false]
          exact (resume_map _ _ Atom.charSet).symm
    · rw [if_neg hbracket]
      by_cases hquote : c = quoteMark
      · subst hquote
        rfl
      · rw [if_neg hquote, resume_map _ _ Atom.char]
        by_cases he : c = escape
        · subst he
          have hnext : (quote captured).next? escape = some (quoteEscape captured) := rfl
          rw [scan_cons_of_next? hnext]
          cases rest with
          | nil => rfl
          | cons d rest => rfl
        · have hnext : (quote captured).next? c = some (terminal captured) := by
            simp only [next?, hbracket, hquote, he, ite_false]
          rw [scan_cons_of_next? hnext]
          simp [readChar, he, resume]

/-- Goes through the text that is left if `r` succeeded. -/
def resumeText (m : Mode) : Except (List Char) (List Char) → Except (List Char) Unit
  | .ok rest => m.scan rest
  | .error stop => .error stop

theorem resume_map_text {α : Type} (m : Mode) (r : Except (List Char) (List Char)) (a : α) :
    m.resume (r.map fun rest => (a, rest)) = m.resumeText r := by
  cases r with
  | error stop => rfl
  | ok rest => rfl

theorem scan_terminal (s : List Char) :
    (terminal captured).scan s = (construct captured).resumeText (skipChar quoteMark s) := by
  cases s with
  | nil => rfl
  | cons c rest =>
    by_cases hc : c = quoteMark
    · subst hc
      rfl
    · have hnext : (terminal captured).next? c = none := by simp only [next?, hc, ite_false]
      rw [scan_cons_of_none hnext, skipChar, if_neg hc]
      rfl

theorem scan_name (s : List Char) :
    (name captured).scan s = (construct captured).scan (s.dropWhile continuesName) := by
  have hstay : ∀ c, continuesName c = true → (name captured).next? c = some (name captured) := by
    intro c hc
    simp only [next?, hc, ite_true]
  rw [scan_dropWhile hstay]
  cases hs : s.dropWhile continuesName with
  | nil => rfl
  | cons c rest =>
    have hc : continuesName c = false := by
      have hnot := List.head?_dropWhile_not continuesName s
      simpa [hs] using hnot
    simp only [scan, next?, hc, Bool.false_eq_true, ite_false]

theorem scan_begin {m : Mode} {c : Char} (hm : m.next? c = begin? captured c) (rest : List Char) :
    m.scan (c :: rest) = (construct captured).resume (readConstruct (c :: rest)) := by
  unfold readConstruct
  dsimp only
  by_cases hquote : c = quoteMark
  · have hnext : m.next? c = some (quote captured) := by rw [hm, begin?, if_pos hquote]
    rw [scan_cons_of_next? hnext, scan_quote]
    simp only [hquote, ite_true]
    cases readTerminal rest with
    | error stop => rfl
    | ok r =>
      simp only [resume_map_text]
      exact scan_terminal captured r.2
  · by_cases hbegins : beginsName c = true
    · have hnext : m.next? c = some (name captured) := by
        rw [hm, begin?, if_neg hquote, if_pos hbegins]
      rw [scan_cons_of_next? hnext, scan_name, if_neg hquote, if_pos hbegins]
      rfl
    · have hnext : m.next? c = none := by
        rw [hm, begin?, if_neg hquote, if_neg hbegins]
      rw [scan_cons_of_none hnext, if_neg hquote, if_neg hbegins]
      rfl

theorem scan_construct (s : List Char) :
    (construct captured).scan s = (afterItem captured).scan (readQuantifier s).2 := by
  cases s with
  | nil => cases captured <;> rfl
  | cons c rest =>
    cases hc : Repetition.ofSuffix? c with
    | some r =>
      have hnext : (construct captured).next? c = some (afterItem captured) := by
        simp only [next?, constructNext, hc]
      simp only [scan_cons_of_next? hnext, readQuantifier, hc]
    | none =>
      have hnext : (construct captured).next? c = (afterItem captured).next? c := by
        cases captured <;> simp [next?, constructNext, hc, afterItem]
      simp only [readQuantifier, hc, scan, hnext]

theorem isBlank_of_skipBlanks {s rest : List Char} {c : Char} (h : skipBlanks s = c :: rest) :
    isBlank c = false := by
  have hnot := List.head?_dropWhile_not isBlank s
  rw [← skipBlanks, h] at hnot
  simpa using hnot

theorem scan_closing (s : List Char) :
    closing.scan s = between.resumeText (skipChar ')' (skipBlanks s)) := by
  have hstay : ∀ c, isBlank c = true → closing.next? c = some closing := by
    intro c hc
    simp only [next?, closingNext, hc, ite_true]
  rw [scan_dropWhile hstay, ← skipBlanks]
  cases hs : skipBlanks s with
  | nil => rfl
  | cons c rest =>
    have hc := isBlank_of_skipBlanks hs
    by_cases hparen : c = ')'
    · subst hparen
      rfl
    · have hnext : closing.next? c = none := by simp [next?, closingNext, hc, hparen]
      rw [scan_cons_of_none hnext, skipChar, if_neg hparen]
      rfl

theorem scan_opened (s : List Char) :
    opened.scan s = (construct true).resume (readConstruct (skipBlanks s)) := by
  have hstay : ∀ c, isBlank c = true → opened.next? c = some opened := by
    intro c hc
    simp only [next?, hc, ite_true]
  rw [scan_dropWhile hstay, ← skipBlanks]
  cases hs : skipBlanks s with
  | nil => rfl
  | cons c rest =>
    have hc := isBlank_of_skipBlanks hs
    refine scan_begin true ?_ rest
    simp only [next?, hc, Bool.false_eq_true, ite_false]

theorem scan_item {c : Char} (hc : isBlank c = false) (rest : List Char) :
    between.scan (c :: rest) = between.resume (readItem (c :: rest)) := by
  unfold readItem
  dsimp only
  by_cases hparen : c = '('
  · subst hparen
    have hnext : between.next? '(' = some opened := rfl
    rw [scan_cons_of_next? hnext, scan_opened, if_pos rfl]
    cases readConstruct (skipBlanks rest) with
    | error stop => rfl
    | ok r =>
      simp only [resume_map_text]
      exact (scan_construct true r.2).trans (scan_closing _)
  · have hnext : between.next? c = begin? false c := by
      simp only [next?, betweenNext, hc, hparen, Bool.false_eq_true, ite_false]
    rw [scan_begin false hnext, if_neg hparen]
    cases readConstruct (c :: rest) with
    | error stop => rfl
    | ok r => exact scan_construct false r.2

end Mode

theorem scan_eq_readItems (s : List Char) :
    Mode.between.scan s = (readItems s).map fun _ => () := by
  have hstay : ∀ c, isBlank c = true → Mode.between.next? c = some .between := by
    intro c hc
    simp only [Mode.next?, Mode.betweenNext, hc, ite_true]
  have hskip : ∀ s, Mode.between.scan s = Mode.between.scan (skipBlanks s) := fun s =>
    Mode.scan_dropWhile hstay s
  fun_induction readItems s with
  | case1 s hs =>
    rw [hskip, hs]
    rfl
  | case2 s c rest hs stop hitem =>
    rw [hskip, hs, Mode.scan_item (Mode.isBlank_of_skipBlanks hs), hitem]
    rfl
  | case3 s c rest hs token rest' hitem ih =>
    rw [hskip, hs, Mode.scan_item (Mode.isBlank_of_skipBlanks hs), hitem]
    refine ih.trans ?_
    cases readItems rest' with
    | error stop => rfl
    | ok tokens => rfl

/-! ### Modes on the way and their completion -/

namespace Mode

/-- The mode after a text, if it can be gone through. -/
def after? : Mode → List Char → Option Mode
  | m, [] => some m
  | m, c :: rest => (m.next? c).bind fun m => m.after? rest

theorem scan_append {m m' : Mode} {before : List Char} (h : m.after? before = some m')
    (s : List Char) : m.scan (before ++ s) = m'.scan s := by
  induction before generalizing m with
  | nil =>
    cases h
    rfl
  | cons c before ih =>
    obtain ⟨mid, hnext, hafter⟩ := Option.bind_eq_some_iff.1 h
    rw [List.cons_append, scan_cons_of_next? hnext]
    exact ih hafter

theorem exists_of_scan_error {m : Mode} {s stop : List Char} (h : m.scan s = .error stop) :
    ∃ before m', s = before ++ stop ∧ m.after? before = some m' ∧
      ∀ c ∈ stop.head?, m'.next? c = none := by
  induction s generalizing m with
  | nil =>
    simp only [scan] at h
    split at h
    · cases h
    · cases h
      exact ⟨[], m, rfl, rfl, by simp⟩
  | cons c rest ih =>
    cases hnext : m.next? c with
    | none =>
      rw [scan_cons_of_none hnext] at h
      cases h
      exact ⟨[], m, rfl, rfl, by simpa using hnext⟩
    | some mid =>
      rw [scan_cons_of_next? hnext] at h
      obtain ⟨before, m', rfl, hafter, hstop⟩ := ih h
      refine ⟨c :: before, m', rfl, ?_, hstop⟩
      rw [after?, hnext]
      exact hafter

/-- A text that brings the mode to an end. -/
def completion : Mode → List Char
  | between => []
  | opened => ['a', ')']
  | name captured | construct captured => if captured then [')'] else []
  | quote captured | quoteEscape captured => 'a' :: '\x27' :: if captured then [')'] else []
  | bracket captured | inClass captured | lead captured =>
    ']' :: '\x27' :: if captured then [')'] else []
  | itemEscape captured | dash captured | dashEscape captured =>
    'a' :: ']' :: '\x27' :: if captured then [')'] else []
  | terminal captured => '\x27' :: if captured then [')'] else []
  | closing => [')']

theorem scan_completion (m : Mode) : m.scan m.completion = .ok () := by
  cases m with
  | between => rfl
  | opened => rfl
  | closing => rfl
  | _ captured => cases captured <;> rfl

end Mode

namespace Pattern

theorem readable_iff_scan {text : String} {rule : Nat} :
    (∃ p, Pattern.read text rule = .ok p) ↔ Mode.between.scan text.toList = .ok () := by
  rw [scan_eq_readItems]
  unfold Pattern.read
  cases readItems text.toList with
  | error stop => simp [Except.map]
  | ok tokens => simp [Except.map]

theorem read_eq_error_iff_scan {text : String} {rule : Nat} {fault : Fault} :
    Pattern.read text rule = .error fault ↔
      ∃ stop, Mode.between.scan text.toList = .error stop ∧ faultAt rule text stop = fault := by
  rw [scan_eq_readItems]
  unfold Pattern.read
  cases readItems text.toList with
  | error stop => simp [Except.map]
  | ok tokens => simp [Except.map]

theorem faultAt_of_append {rule : Nat} {text : String} {before rest : List Char} {c : Char}
    (h : text.toList = before ++ c :: rest) :
    faultAt rule text (c :: rest) = .strayChar rule text c before.length := by
  have hlength := congrArg List.length h
  rw [String.length_toList, List.length_append, List.length_cons] at hlength
  have hoffset : text.length - (rest.length + 1) = before.length := by omega
  rw [faultAt, hoffset]

theorem readable_of_after? {before : List Char} {m : Mode}
    (h : Mode.between.after? before = some m) {text : String} (htext : text.toList = before)
    (rule : Nat) : ∃ rest p, Pattern.read (text ++ rest) rule = .ok p := by
  refine ⟨String.ofList m.completion, readable_iff_scan.2 ?_⟩
  rw [String.toList_append, String.toList_ofList, htext, Mode.scan_append h]
  exact m.scan_completion

/-- Where a character cannot stand, reading fails at it whatever comes after it. -/
theorem read_of_stray {before rest : List Char} {c : Char} {m : Mode}
    (h : Mode.between.after? before = some m) (hc : m.next? c = none) {text : String}
    (htext : text.toList = before ++ c :: rest) (rule : Nat) :
    Pattern.read text rule = .error (.strayChar rule text c before.length) := by
  refine read_eq_error_iff_scan.2 ⟨c :: rest, ?_, faultAt_of_append htext⟩
  rw [htext, Mode.scan_append h, Mode.scan_cons_of_none hc]

/-- A text that cannot be read ends too early, or has a first character that cannot stand where it
stands: it is the text up to there that begins some pattern, and the text with it that does not. -/
theorem read_error_located (text : String) (rule : Nat) :
    (∀ fault, Pattern.read text rule = .error fault →
      (fault = .patternEnds rule text ∧ ∃ rest p, Pattern.read (text ++ rest) rule = .ok p) ∨
      ∃ found offset, fault = .strayChar rule text found offset ∧ offset < text.length ∧
        text.toList[offset]? = some found ∧
        (∃ rest p,
          Pattern.read (String.ofList (text.toList.take offset) ++ rest) rule = .ok p) ∧
        ∀ longer : String, text.toList.take (offset + 1) <+: longer.toList →
          Pattern.read longer rule = .error (.strayChar rule longer found offset)) ∧
      ∀ rest p, Pattern.read (text ++ rest) rule = .ok p →
        (∃ q, Pattern.read text rule = .ok q) ∨
          Pattern.read text rule = .error (.patternEnds rule text) := by
  constructor
  · intro fault h
    obtain ⟨stop, hscan, rfl⟩ := read_eq_error_iff_scan.1 h
    obtain ⟨before, m, htext, hafter, hstop⟩ := Mode.exists_of_scan_error hscan
    cases stop with
    | nil =>
      rw [List.append_nil] at htext
      exact .inl ⟨rfl, readable_of_after? hafter htext rule⟩
    | cons c rest =>
      have hc : m.next? c = none := hstop c rfl
      have htake : text.toList.take before.length = before := by rw [htext, List.take_left]
      have htake' : text.toList.take (before.length + 1) = before ++ [c] := by
        rw [htext, List.take_append, List.take_of_length_le (by omega)]
        simp
      refine .inr ⟨c, before.length, faultAt_of_append htext, ?_, ?_, ?_, ?_⟩
      · rw [← String.length_toList, htext, List.length_append, List.length_cons]
        omega
      · simp [htext]
      · refine readable_of_after? hafter ?_ rule
        rw [String.toList_ofList, htake]
      · intro longer hlonger
        rw [htake'] at hlonger
        obtain ⟨after, hafter'⟩ := hlonger
        rw [List.append_assoc, List.singleton_append] at hafter'
        exact read_of_stray hafter hc hafter'.symm rule
  · intro rest p hp
    cases h : Pattern.read text rule with
    | ok q => exact .inl ⟨q, rfl⟩
    | error fault =>
      right
      obtain ⟨stop, hscan, rfl⟩ := read_eq_error_iff_scan.1 h
      obtain ⟨before, m, htext, hafter, hstop⟩ := Mode.exists_of_scan_error hscan
      cases stop with
      | nil => rfl
      | cons c tail =>
        have hlonger : (text ++ rest).toList = before ++ c :: (tail ++ rest.toList) := by
          rw [String.toList_append, htext, List.append_assoc, List.cons_append]
        rw [read_of_stray hafter (hstop c rfl) hlonger rule] at hp
        cases hp

/-- A captured item may not hold a second construct; what comes before it is only unfinished. -/
theorem read_error_located_second :
    Pattern.read "('[^a]' 'b')" 3 = .error (.strayChar 3 "('[^a]' 'b')" '\x27' 8) ∧
      (∃ rest p, Pattern.read (String.ofList ("('[^a]' 'b')".toList.take 8) ++ rest) 3 = .ok p) ∧
      (∀ longer : String, "('[^a]' 'b')".toList.take 9 <+: longer.toList →
        Pattern.read longer 3 = .error (.strayChar 3 longer '\x27' 8)) ∧
      ∃ p, Pattern.read ("('[^a]' " ++ ")") 3 = .ok p ∧
        ((∃ q, Pattern.read "('[^a]' " 3 = .ok q) ∨
          Pattern.read "('[^a]' " 3 = .error (.patternEnds 3 "('[^a]' ")) := by
  have hstray : Pattern.read "('[^a]' 'b')" 3 =
      .error (.strayChar 3 "('[^a]' 'b')" '\x27' 8) :=
    read_eq_error_iff_scan.2 ⟨"'b')".toList, by decide +kernel, by decide +kernel⟩
  obtain ⟨p, hp⟩ : ∃ p, Pattern.read ("('[^a]' " ++ ")") 3 = .ok p :=
    readable_iff_scan.2 (by decide +kernel)
  have hprefix := (read_error_located "('[^a]' " 3).2 ")" p hp
  rcases (read_error_located "('[^a]' 'b')" 3).1 _ hstray with ⟨hends, -⟩ | ⟨found, offset, h⟩
  · cases hends
  · obtain ⟨heq, -, -, hbefore, hlonger⟩ := h
    cases heq
    exact ⟨hstray, hbefore, hlonger, p, hp, hprefix⟩

end Pattern

end ReductionGrammar
