import Mathlib.Data.List.TakeWhile
import ReductionGrammar.Pattern.Basic
import ReductionGrammar.Proofs.Pattern.CharSetRuns
import ReductionGrammar.Proofs.Pattern.Written

/-!
# Reading written forms

Each step of reading a pattern accepts exactly the written forms of what it gives, and leaves
exactly the text after them. Reading a whole text succeeds exactly if it is the written form of
some tokens, and then gives these tokens.
-/

namespace ReductionGrammar

open Written

/-! ### Classes -/

theorem Written.Letter.unreserve {reserved s rest : List Char} {c : Char}
    (h : Letter reserved s c rest) : Letter [] s c rest := by
  cases h with
  | plain _ he _ => exact .plain _ he (by simp)
  | escaped => exact .escaped _ _

theorem Written.Letter.reserve {reserved tail rest : List Char} {c d : Char}
    (h : Letter [] (d :: tail) c rest) (hd : d ∉ reserved) :
    Letter reserved (d :: tail) c rest := by
  cases h with
  | plain _ he _ => exact .plain _ he hd
  | escaped => exact .escaped _ _

theorem readChar_eq_ok_iff {s rest : List Char} {c : Char} :
    readChar s = .ok (c, rest) ↔ Letter [] s c rest := by
  constructor
  · intro h
    unfold readChar at h
    split at h
    · cases h
    · rename_i d tail
      split at h
      · rename_i hd
        subst hd
        split at h
        · cases h
        · cases h
          exact .escaped c rest
      · rename_i hd
        cases h
        exact .plain rest hd (by simp)
  · intro h
    cases h with
    | plain _ he _ => simp only [readChar, escape, he, ite_false]
    | escaped => rfl

theorem classItem_of_readClassItem {set set' : CharSet} {d : Char} {tail rest : List Char}
    (h : readClassItem set (d :: tail) = .ok (set', rest)) (hd : d ≠ ']') :
    ∃ item, ClassItem (d :: tail) item rest ∧ set' = set.insertRange item.1 item.2 := by
  have hreserved : d ∉ [']'] := fun hmem => hd (List.mem_singleton.1 hmem)
  unfold readClassItem at h
  cases hlo : readChar (d :: tail) with
  | error stop => simp [hlo] at h
  | ok r =>
    obtain ⟨lo, mid⟩ := r
    have hletter := (readChar_eq_ok_iff.1 hlo).reserve hreserved
    simp only [hlo] at h
    cases mid with
    | nil =>
      cases h
      exact ⟨(lo, lo), .single hletter (by simp), set.insert_eq_insertRange lo⟩
    | cons e mid =>
      by_cases he : e = '-'
      · subst he
        simp only [ite_true] at h
        cases hhi : readChar mid with
        | error stop => simp [hhi] at h
        | ok r =>
          obtain ⟨hi, after⟩ := r
          simp only [hhi] at h
          cases h
          exact ⟨(lo, hi), .range hletter (readChar_eq_ok_iff.1 hhi), rfl⟩
      · simp only [he, ite_false] at h
        cases h
        exact ⟨(lo, lo), .single hletter (by simpa using he), set.insert_eq_insertRange lo⟩

theorem readClassItem_of_classItem {s rest : List Char} {item : Char × Char}
    (h : ClassItem s item rest) (set : CharSet) :
    readClassItem set s = .ok (set.insertRange item.1 item.2, rest) := by
  unfold readClassItem
  cases h with
  | single h hrest =>
    simp only [readChar_eq_ok_iff.2 h.unreserve]
    cases rest with
    | nil => simp only [CharSet.insert_eq_insertRange]
    | cons e rest =>
      have he : e ≠ '-' := by simpa using hrest
      simp only [he, ite_false, CharSet.insert_eq_insertRange]
  | range h hd => simp only [readChar_eq_ok_iff.2 h.unreserve, ite_true, readChar_eq_ok_iff.2 hd]

/-- The set with the characters of some ranges as well. -/
def CharSet.insertItems (set : CharSet) (items : List (Char × Char)) : CharSet :=
  items.foldl (fun set item => set.insertRange item.1 item.2) set

theorem readClass_close (set : CharSet) (rest : List Char) :
    readClass set (']' :: rest) = .ok (set, rest) := by
  rw [readClass, if_pos rfl]

theorem readClass_cons {c : Char} (hc : c ≠ ']') (set : CharSet) (s : List Char) :
    readClass set (c :: s) =
      match readClassItem set (c :: s) with
      | .error stop => .error stop
      | .ok (set, rest) => readClass set rest := by
  rw [readClass, if_neg hc]
  split <;> simp_all

theorem classItems_of_readClass {set set' : CharSet} {s rest : List Char}
    (h : readClass set s = .ok (set', rest)) :
    ∃ items, ClassItems s items (']' :: rest) ∧ set' = set.insertItems items := by
  fun_induction readClass set s with
  | case1 => cases h
  | case2 =>
    cases h
    exact ⟨[], .nil _, rfl⟩
  | case3 => cases h
  | case4 set c tail hc set₁ rest₁ hitem ih =>
    obtain ⟨item, hhead, rfl⟩ := classItem_of_readClassItem hitem hc
    obtain ⟨items, htail, rfl⟩ := ih h
    exact ⟨item :: items, .cons hhead htail, rfl⟩

theorem readClass_of_classItems {s rest : List Char} {items : List (Char × Char)}
    (h : ClassItems s items (']' :: rest)) (set : CharSet) :
    readClass set s = .ok (set.insertItems items, rest) := by
  generalize hclose : ']' :: rest = closed at h
  induction h generalizing set with
  | nil => rw [← hclose, readClass_close, CharSet.insertItems, List.foldl_nil]
  | cons head tail ih =>
    obtain ⟨c, s, rfl, hc⟩ := head.head_ne
    rw [readClass_cons hc, readClassItem_of_classItem head]
    exact ih _ hclose

theorem CharSet.negated_insertItems (set : CharSet) (items : List (Char × Char)) :
    (set.insertItems items).negated = set.negated := by
  induction items generalizing set with
  | nil => rfl
  | cons item items ih => exact (ih _).trans (negated_insertRange ..)

theorem CharSet.contains_insertRange_iff (set : CharSet) (a b c : Char) :
    (set.insertRange a b).contains c = true ↔ set.contains c = true ∨ Between a b c := by
  rw [contains_insertRange, Bool.or_eq_true, Bool.and_eq_true, decide_eq_true_eq,
    decide_eq_true_eq, or_comm]
  rfl

theorem CharSet.contains_insertItems (set : CharSet) (items : List (Char × Char)) (c : Char) :
    (set.insertItems items).contains c = true ↔
      set.contains c = true ∨ ∃ item ∈ items, Between item.1 item.2 c := by
  induction items generalizing set with
  | nil => simp [insertItems]
  | cons item items ih =>
    have hfold : set.insertItems (item :: items) =
        (set.insertRange item.1 item.2).insertItems items := rfl
    rw [hfold, ih, contains_insertRange_iff, List.exists_mem_cons_iff, or_assoc]

theorem Written.lists_insertItems (negated : Bool) (items : List (Char × Char)) :
    Lists ((CharSet.empty negated).insertItems items) items := by
  intro c
  rw [CharSet.contains_insertItems]
  simp

theorem Written.Lists.eq_insertItems {set : CharSet} {items : List (Char × Char)}
    (h : Lists set items) : set = (CharSet.empty set.negated).insertItems items := by
  have hnegated := CharSet.negated_insertItems (.empty set.negated) items
  refine CharSet.eq_of_contains_iff hnegated.symm fun c => ?_
  rw [h c, lists_insertItems set.negated items c]

/-! ### Constructs -/

theorem terminal_of_readTerminal {s rest : List Char} {a : Atom}
    (h : readTerminal s = .ok (a, rest)) : Terminal s a rest := by
  unfold readTerminal at h
  split at h
  · cases h
  · rename_i c tail
    split at h
    · rename_i hc
      subst hc
      split at h
      · cases h
      · rename_i d body
        split at h
        · rename_i hd
          subst hd
          obtain ⟨⟨set, after⟩, hclass, heq⟩ := exists_of_map_eq_ok h
          obtain ⟨items, hitems, rfl⟩ := classItems_of_readClass hclass
          cases heq
          exact .unlisted hitems (CharSet.negated_insertItems ..) (lists_insertItems _ _)
        · rename_i hd
          obtain ⟨⟨set, after⟩, hclass, heq⟩ := exists_of_map_eq_ok h
          obtain ⟨items, hitems, rfl⟩ := classItems_of_readClass hclass
          cases heq
          exact .listed (by simpa using hd) hitems (CharSet.negated_insertItems ..)
            (lists_insertItems _ _)
    · rename_i hbracket
      split at h
      · cases h
      · rename_i hquote
        obtain ⟨⟨d, after⟩, hchar, heq⟩ := exists_of_map_eq_ok h
        cases heq
        refine .char ((readChar_eq_ok_iff.1 hchar).reserve ?_)
        simp only [List.mem_cons, List.not_mem_nil, or_false, not_or]
        exact ⟨hquote, hbracket⟩

theorem readTerminal_of_terminal {s rest : List Char} {a : Atom} (h : Terminal s a rest) :
    readTerminal s = .ok (a, rest) := by
  cases h with
  | char h =>
    obtain ⟨d, tail, rfl, hd⟩ := h.head_not_mem (by decide)
    simp only [List.mem_cons, List.not_mem_nil, or_false, not_or] at hd
    simp only [readTerminal, quoteMark, hd.1, hd.2, ite_false, readChar_eq_ok_iff.2 h.unreserve,
      Except.map]
  | @listed body _ items set hbody h hnegated hset =>
    obtain ⟨d, tail, rfl⟩ : ∃ d tail, body = d :: tail := by
      cases body with
      | nil =>
        cases h with
        | cons head _ =>
          obtain ⟨_, _, hs, -⟩ := head.head_ne
          cases hs
      | cons d tail => exact ⟨d, tail, rfl⟩
    have hd : d ≠ '^' := by simpa using hbody
    have hset' := hset.eq_insertItems
    rw [hnegated] at hset'
    simp only [readTerminal, hd, ite_true, ite_false, readClass_of_classItems h, Except.map,
      ← hset']
  | unlisted h hnegated hset =>
    have hset' := hset.eq_insertItems
    rw [hnegated] at hset'
    simp only [readTerminal, ite_true, readClass_of_classItems h, Except.map, ← hset']

theorem skipChar_eq_ok_iff {c : Char} {s rest : List Char} :
    skipChar c s = .ok rest ↔ s = c :: rest := by
  cases s with
  | nil => simp [skipChar]
  | cons d s =>
    by_cases hd : d = c
    · simp [skipChar, hd]
    · simp [skipChar, hd]

theorem head?_dropWhile_not {p : Char → Bool} {s : List Char} :
    ∀ c ∈ (s.dropWhile p).head?, p c = false := by
  intro c hc
  have hnot := List.head?_dropWhile_not p s
  rw [Option.mem_def.1 hc] at hnot
  simpa using hnot

theorem construct_of_readConstruct {s rest : List Char} {a : Atom}
    (h : readConstruct s = .ok (a, rest)) : Construct s a rest := by
  unfold readConstruct at h
  split at h
  · cases h
  · rename_i c tail
    split at h
    · rename_i hc
      subst hc
      cases hterminal : readTerminal tail with
      | error stop => simp [hterminal] at h
      | ok r =>
        obtain ⟨atom, after⟩ := r
        simp only [hterminal] at h
        obtain ⟨last, hskip, heq⟩ := exists_of_map_eq_ok h
        cases heq
        rw [skipChar_eq_ok_iff] at hskip
        exact .quoted (hskip ▸ terminal_of_readTerminal hterminal)
    · split at h
      · rename_i hbegins
        cases h
        have hname : Name (c :: tail.takeWhile continuesName) :=
          ⟨c, _, rfl, hbegins, fun d hd => List.mem_takeWhile_imp hd⟩
        have hend : ∀ d ∈ (tail.dropWhile continuesName).head?, continuesName d = false :=
          head?_dropWhile_not
        have hconstruct := Construct.name hname hend
        rwa [List.cons_append, List.takeWhile_append_dropWhile] at hconstruct
      · cases h

theorem takeWhile_append_of_head? {p : Char → Bool} {cs rest : List Char}
    (hcs : ∀ d ∈ cs, p d = true) (hrest : ∀ d ∈ rest.head?, p d = false) :
    (cs ++ rest).takeWhile p = cs ∧ (cs ++ rest).dropWhile p = rest := by
  rw [List.takeWhile_append_of_pos hcs, List.dropWhile_append_of_pos hcs]
  cases rest with
  | nil => simp
  | cons d rest =>
    have hd : p d = false := hrest d rfl
    simp [hd]

theorem isAlpha_ne_quote {c : Char} (h : c.isAlpha = true) : c ≠ '\x27' := by
  rintro rfl
  cases h

theorem readConstruct_of_construct {s rest : List Char} {a : Atom} (h : Construct s a rest) :
    readConstruct s = .ok (a, rest) := by
  cases h with
  | name h hrest =>
    obtain ⟨c, cs, rfl, hc, hcs⟩ := h
    obtain ⟨htake, hdrop⟩ := takeWhile_append_of_head? (p := continuesName) hcs hrest
    have hquote : c ≠ quoteMark := isAlpha_ne_quote hc
    simp only [List.cons_append, readConstruct, hquote, ite_false, beginsName, hc, ite_true, htake,
      hdrop]
  | quoted h =>
    have hskip : skipChar quoteMark ('\x27' :: rest) = .ok rest := skipChar_eq_ok_iff.2 rfl
    simp only [readConstruct, quoteMark, ite_true, readTerminal_of_terminal h] at hskip ⊢
    simp only [hskip, Except.map]

/-! ### Items -/

theorem isBlank_of_isAlpha {c : Char} (h : c.isAlpha = true) : isBlank c = false := by
  change (decide ('A'.val ≤ c.val ∧ c.val ≤ 'Z'.val) ||
    decide ('a'.val ≤ c.val) && decide (c.val ≤ 'z'.val)) = true at h
  simp only [Bool.or_eq_true, Bool.and_eq_true, decide_eq_true_eq,
    UInt32.le_iff_toNat_le] at h
  have hval : c.val.toNat = c.toNat := rfl
  have hA : 'A'.val.toNat = 65 := rfl
  have hZ : 'Z'.val.toNat = 90 := rfl
  have ha : 'a'.val.toNat = 97 := rfl
  have hz : 'z'.val.toNat = 122 := rfl
  simp only [isBlank, Bool.or_eq_false_iff, Bool.and_eq_false_iff, decide_eq_false_iff_not,
    beq_eq_false_iff_ne]
  omega

theorem Written.BeginsItem.not_blank {c : Char} (h : BeginsItem c) : isBlank c = false := by
  rcases h with h | rfl | rfl
  · exact isBlank_of_isAlpha h
  · decide
  · decide

theorem skipBlanks_append {ws s : List Char} (hws : Blanks ws)
    (hs : ∀ c ∈ s.head?, isBlank c = false) : skipBlanks (ws ++ s) = s :=
  (takeWhile_append_of_head? hws hs).2

theorem exists_blanks_append (s : List Char) : ∃ ws, Blanks ws ∧ s = ws ++ skipBlanks s :=
  ⟨s.takeWhile isBlank, fun _ hc => List.mem_takeWhile_imp hc,
    List.takeWhile_append_dropWhile.symm⟩

/-- The text does not begin with a quantifier. -/
def NoQuantifier (s : List Char) : Prop :=
  ∀ c ∈ s.head?, Repetition.ofSuffix? c = none

theorem ofSuffix?_eq_none {c : Char} (hplus : c ≠ '+') (hstar : c ≠ '*') (hmark : c ≠ '?') :
    Repetition.ofSuffix? c = none := by
  unfold Repetition.ofSuffix?
  split <;> trivial

theorem ofSuffix?_of_isBlank {c : Char} (h : isBlank c = true) : Repetition.ofSuffix? c = none := by
  refine ofSuffix?_eq_none ?_ ?_ ?_ <;> rintro rfl <;> cases h

theorem NoQuantifier.of_blanks {ws s : List Char} (hws : Blanks ws) (hs : NoQuantifier s) :
    NoQuantifier (ws ++ s) := by
  intro c hc
  cases ws with
  | nil => exact hs c hc
  | cons d ws =>
    obtain rfl : d = c := by simpa using hc
    exact ofSuffix?_of_isBlank (hws d (List.mem_cons_self ..))

theorem Written.BeginsItem.ofSuffix? {c : Char} (h : BeginsItem c) :
    Repetition.ofSuffix? c = none := by
  rcases h with h | rfl | rfl
  · refine ofSuffix?_eq_none ?_ ?_ ?_ <;> rintro rfl <;> cases h
  · rfl
  · rfl

theorem quantifier_readQuantifier (s : List Char) :
    Quantifier s (readQuantifier s).1 (readQuantifier s).2 := by
  cases s with
  | nil => exact .once []
  | cons c s =>
    cases hc : Repetition.ofSuffix? c with
    | none =>
      simp only [readQuantifier, hc]
      exact .once (c :: s)
    | some r =>
      simp only [readQuantifier, hc]
      unfold Repetition.ofSuffix? at hc
      split at hc <;> cases hc
      · exact .oneOrMore s
      · exact .zeroOrMore s
      · exact .zeroOrOne s

theorem readQuantifier_of_quantifier {s rest : List Char} {r : Repetition}
    (h : Quantifier s r rest) (hrest : NoQuantifier rest) : readQuantifier s = (r, rest) := by
  cases h with
  | once =>
    cases s with
    | nil => rfl
    | cons c s =>
      have hc : Repetition.ofSuffix? c = none := hrest c rfl
      simp only [readQuantifier, hc]
  | oneOrMore => rfl
  | zeroOrMore => rfl
  | zeroOrOne => rfl

theorem item_of_readItem {s rest : List Char} {t : Token} (h : readItem s = .ok (t, rest)) :
    Item s t rest := by
  unfold readItem at h
  split at h
  · cases h
  · rename_i c tail
    split at h
    · rename_i hc
      subst hc
      cases hconstruct : readConstruct (skipBlanks tail) with
      | error stop => simp [hconstruct] at h
      | ok r =>
        obtain ⟨atom, mid⟩ := r
        simp only [hconstruct] at h
        obtain ⟨after, hskip, heq⟩ := exists_of_map_eq_ok h
        cases heq
        obtain ⟨ws, hws, htail⟩ := exists_blanks_append tail
        obtain ⟨ws', hws', hclose⟩ := exists_blanks_append (readQuantifier mid).2
        rw [skipChar_eq_ok_iff] at hskip
        rw [hskip] at hclose
        have hquantifier := quantifier_readQuantifier mid
        rw [hclose] at hquantifier
        rw [htail]
        exact .captured hws (construct_of_readConstruct hconstruct) hquantifier hws'
    · cases hconstruct : readConstruct (c :: tail) with
      | error stop => simp [hconstruct] at h
      | ok r =>
        obtain ⟨atom, mid⟩ := r
        simp only [hconstruct] at h
        cases h
        exact .plain (construct_of_readConstruct hconstruct) (quantifier_readQuantifier mid)

theorem readItem_of_item {s rest : List Char} {t : Token} (h : Item s t rest)
    (hrest : NoQuantifier rest) : readItem s = .ok (t, rest) := by
  cases h with
  | plain h hr =>
    obtain ⟨c, tail, rfl, hc⟩ := h.head
    have hparen : c ≠ '(' := by
      rcases hc with hc | rfl
      · rintro rfl
        cases hc
      · decide
    simp only [readItem, hparen, ite_false, readConstruct_of_construct h,
      readQuantifier_of_quantifier hr hrest]
  | @captured ws s mid ws' _ a r hws h hr hws' =>
    have hhead : ∀ c ∈ s.head?, isBlank c = false := by
      obtain ⟨c, tail, rfl, hc⟩ := h.head
      intro d hd
      cases hd
      exact BeginsItem.not_blank (hc.imp_right .inl)
    have hclose : NoQuantifier (ws' ++ ')' :: rest) := by
      refine NoQuantifier.of_blanks hws' ?_
      intro c hc
      cases hc
      rfl
    have hparen : ∀ c ∈ (')' :: rest).head?, isBlank c = false := by
      intro c hc
      cases hc
      decide
    simp only [readItem, ite_true, skipBlanks_append hws hhead, readConstruct_of_construct h,
      readQuantifier_of_quantifier hr hclose, skipBlanks_append hws' hparen,
      skipChar_eq_ok_iff.2 rfl, Except.map]

/-! ### Whole patterns -/

theorem readItems_blanks {s : List Char} (h : skipBlanks s = []) : readItems s = .ok [] := by
  rw [readItems]
  split <;> simp_all

theorem readItems_cons {s tail : List Char} {c : Char} (h : skipBlanks s = c :: tail) :
    readItems s =
      match readItem (c :: tail) with
      | .error stop => .error stop
      | .ok (token, rest) => (readItems rest).map fun tokens => token :: tokens := by
  rw [readItems]
  split
  · simp_all
  · rename_i d rest hs
    cases h.symm.trans hs
    split <;> simp_all

theorem pattern_of_readItems {s : List Char} {ts : List Token} (h : readItems s = .ok ts) :
    Written.Pattern s ts := by
  fun_induction readItems s generalizing ts with
  | case1 s hs =>
    cases h
    obtain ⟨ws, hws, heq⟩ := exists_blanks_append s
    rw [heq, hs]
    exact .mk hws .nil
  | case2 => cases h
  | case3 s c tail hs token rest hitem ih =>
    obtain ⟨tokens, htokens, rfl⟩ := exists_of_map_eq_ok h
    obtain ⟨ws, hws, heq⟩ := exists_blanks_append s
    have hpattern := ih htokens
    have hread := item_of_readItem hitem
    cases hpattern with
    | mk hws' hitems =>
      rw [heq, hs]
      exact .mk hws (.cons hread hws' hitems)

theorem Written.Items.head {s : List Char} {ts : List Token} (h : Items s ts) :
    ∀ c ∈ s.head?, BeginsItem c := by
  cases h with
  | nil => simp
  | cons head _ _ =>
    obtain ⟨c, tail, rfl, hc⟩ := head.head
    intro d hd
    cases hd
    exact hc

theorem readItems_blanks_append {ws : List Char} (hws : Blanks ws) (s : List Char) :
    readItems (ws ++ s) = readItems s := by
  have hskip : skipBlanks (ws ++ s) = skipBlanks s := List.dropWhile_append_of_pos hws
  cases hs : skipBlanks s with
  | nil => rw [readItems_blanks hs, readItems_blanks (hskip.trans hs)]
  | cons c rest => rw [readItems_cons hs, readItems_cons (hskip.trans hs)]

theorem readItems_of_item {s rest : List Char} {t : Token} (h : Item s t rest)
    (hrest : NoQuantifier rest) : readItems s = (readItems rest).map fun ts => t :: ts := by
  obtain ⟨c, body, rfl, hc⟩ := h.head
  have hskip : skipBlanks (c :: body) = c :: body := by
    refine skipBlanks_append Blanks.nil ?_
    intro d hd
    cases hd
    exact hc.not_blank
  rw [readItems_cons hskip, readItem_of_item h hrest]

theorem readItems_of_items {s : List Char} {ts : List Token} (h : Items s ts) :
    readItems s = .ok ts := by
  induction h with
  | nil => exact readItems_blanks rfl
  | cons head hws tail ih =>
    have hnext := NoQuantifier.of_blanks hws fun c hc => (tail.head c hc).ofSuffix?
    rw [readItems_of_item head hnext, readItems_blanks_append hws, ih]
    rfl

theorem readItems_eq_ok_iff {s : List Char} {ts : List Token} :
    readItems s = .ok ts ↔ Written.Pattern s ts := by
  constructor
  · exact pattern_of_readItems
  · rintro ⟨hws, h⟩
    rw [readItems_blanks_append hws, readItems_of_items h]

theorem Pattern.read_eq_ok_iff_readItems {text : String} {rule : Nat} {p : Pattern} :
    Pattern.read text rule = .ok p ↔ p.text = text ∧ readItems text.toList = .ok p.tokens := by
  unfold Pattern.read
  cases h : readItems text.toList with
  | error stop => simp
  | ok tokens =>
    constructor
    · intro heq
      cases heq
      exact ⟨rfl, rfl⟩
    · rintro ⟨rfl, htokens⟩
      cases htokens
      rfl

theorem Pattern.read_eq_error_iff_readItems {text : String} {rule : Nat} {fault : Fault} :
    Pattern.read text rule = .error fault ↔
      ∃ stop, readItems text.toList = .error stop ∧ faultAt rule text stop = fault := by
  unfold Pattern.read
  cases readItems text.toList with
  | error stop => simp
  | ok tokens => simp

/-- Reading accepts exactly the written forms of tokens, and gives exactly the tokens of which the
text is the written form; where it fails, the text is not the written form of any tokens. -/
theorem Pattern.read_iff_written (text : String) (rule : Nat) :
    (∀ p, Pattern.read text rule = .ok p ↔
      p.text = text ∧ Written.Pattern text.toList p.tokens) ∧
      ((∃ fault, Pattern.read text rule = .error fault) ↔
        ¬ ∃ ts, Written.Pattern text.toList ts) := by
  have hread : ∀ p, Pattern.read text rule = .ok p ↔
      p.text = text ∧ Written.Pattern text.toList p.tokens := by
    intro p
    rw [read_eq_ok_iff_readItems, readItems_eq_ok_iff]
  refine ⟨hread, ?_⟩
  cases h : Pattern.read text rule with
  | ok p =>
    have hpattern := ((hread p).1 h).2
    simp only [reduceCtorEq, exists_false, false_iff, not_not]
    exact ⟨p.tokens, hpattern⟩
  | error fault =>
    simp only [Except.error.injEq, exists_eq', true_iff]
    rintro ⟨ts, hts⟩
    have hok := (hread ⟨text, ts⟩).2 ⟨rfl, hts⟩
    rw [h] at hok
    cases hok

end ReductionGrammar
