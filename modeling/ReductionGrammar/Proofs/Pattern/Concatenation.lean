import ReductionGrammar.Proofs.Number.Digits
import ReductionGrammar.Proofs.Pattern.Prefixes
import ReductionGrammar.Proofs.Pattern.Reads

/-!
# Patterns one after the other

What a text begins with is not read in another way because the text goes on with a blank: a blank
makes no name longer, opens no range and is no quantifier. So a pattern, blanks and any text after
them read as the tokens of the pattern followed by what the text reads as; and where the text
cannot be read, neither can the whole, from the same character on.
-/

namespace ReductionGrammar

open Written

/-- The text has ended, or goes on with a blank. -/
def AtBlank (s : List Char) : Prop :=
  ∀ c ∈ s.head?, isBlank c = true

theorem AtBlank.of_blanks {ws : List Char} (hne : ws ≠ []) (hws : Blanks ws) (s : List Char) :
    AtBlank (ws ++ s) := by
  intro c hc
  cases ws with
  | nil => exact absurd rfl hne
  | cons d ws =>
    cases hc
    exact hws c (List.mem_cons_self ..)

theorem forall_head?_append {p : Char → Prop} {s after : List Char} (hs : ∀ c ∈ s.head?, p c)
    (hafter : ∀ c ∈ after.head?, p c) : ∀ c ∈ (s ++ after).head?, p c := by
  cases s with
  | nil => exact hafter
  | cons d s => exact hs

theorem AtBlank.head?_append_ne {s after : List Char} {d : Char} (hafter : AtBlank after)
    (hd : isBlank d = false) (hs : s.head? ≠ some d) : (s ++ after).head? ≠ some d := by
  have hne : ∀ c ∈ (s ++ after).head?, c ≠ d := by
    refine forall_head?_append ?_ ?_
    · intro c hc heq
      exact hs (heq ▸ hc)
    · intro c hc heq
      rw [← heq, hafter c hc] at hd
      cases hd
  exact fun hhead => hne d hhead rfl

theorem isAlphanum_of_isBlank {c : Char} (h : isBlank c = true) : c.isAlphanum = false := by
  rw [Bool.eq_false_iff]
  intro halphanum
  rcases Bool.or_eq_true_iff.1 halphanum with halpha | hdigit
  · rw [isBlank_of_isAlpha halpha] at h
    cases h
  · rw [isBlank_of_isDigit hdigit] at h
    cases h

/-! ### Written forms before a blank -/

namespace Written

theorem Letter.append {reserved s rest : List Char} {c : Char} (h : Letter reserved s c rest)
    (after : List Char) : Letter reserved (s ++ after) c (rest ++ after) := by
  cases h with
  | plain _ he hr => exact .plain (rest ++ after) he hr
  | escaped => exact .escaped c (rest ++ after)

variable {after : List Char}

theorem ClassItem.append {s rest : List Char} {item : Char × Char} (h : ClassItem s item rest)
    (hafter : AtBlank after) : ClassItem (s ++ after) item (rest ++ after) := by
  cases h with
  | single h hrest => exact .single (h.append after) (hafter.head?_append_ne (by decide) hrest)
  | range h hd => exact .range (h.append after) (hd.append after)

theorem ClassItems.append {s rest : List Char} {items : List (Char × Char)}
    (h : ClassItems s items rest) (hafter : AtBlank after) :
    ClassItems (s ++ after) items (rest ++ after) := by
  induction h with
  | nil => exact .nil _
  | cons head _ ih => exact .cons (head.append hafter) ih

theorem Terminal.append {s rest : List Char} {a : Atom} (h : Terminal s a rest)
    (hafter : AtBlank after) : Terminal (s ++ after) a (rest ++ after) := by
  cases h with
  | char h => exact .char (h.append after)
  | listed hbody h hnegated hset =>
    exact .listed (hafter.head?_append_ne (by decide) hbody) (h.append hafter) hnegated hset
  | unlisted h hnegated hset => exact .unlisted (h.append hafter) hnegated hset

theorem Construct.append {s rest : List Char} {a : Atom} (h : Construct s a rest)
    (hafter : AtBlank after) : Construct (s ++ after) a (rest ++ after) := by
  cases h with
  | name h hrest =>
    rw [List.append_assoc]
    exact .name h (forall_head?_append hrest fun c hc => isAlphanum_of_isBlank (hafter c hc))
  | quoted h => exact .quoted (h.append hafter)

theorem Quantifier.append {s rest : List Char} {r : Repetition} (h : Quantifier s r rest)
    (after : List Char) : Quantifier (s ++ after) r (rest ++ after) := by
  cases h with
  | once => exact .once _
  | oneOrMore => exact .oneOrMore _
  | zeroOrMore => exact .zeroOrMore _
  | zeroOrOne => exact .zeroOrOne _

theorem Item.append {s rest : List Char} {t : Token} (h : Item s t rest)
    (hafter : AtBlank after) : Item (s ++ after) t (rest ++ after) := by
  cases h with
  | plain h hr => exact .plain (h.append hafter) (hr.append after)
  | captured hws h hr hws' =>
    have hr' := hr.append after
    rw [List.append_assoc, List.cons_append] at hr'
    rw [List.cons_append, List.append_assoc]
    exact .captured hws (h.append hafter) hr' hws'

end Written

/-! ### Reading on -/

/-- The tokens that were read stand before what the rest of the text reads as. -/
theorem readItems_items_append {s after : List Char} {ts : List Token} (h : Items s ts)
    (hafter : AtBlank after) :
    readItems (s ++ after) = (readItems after).map fun us => ts ++ us := by
  induction h with
  | nil => cases hread : readItems after <;> simp [hread, Except.map]
  | @cons s ws rest t ts head hws tail ih =>
    have hitem := head.append hafter
    rw [List.append_assoc] at hitem
    have hnext : NoQuantifier (ws ++ (rest ++ after)) := by
      refine NoQuantifier.of_blanks hws (forall_head?_append ?_ ?_)
      · exact fun c hc => (tail.head c hc).ofSuffix?
      · exact fun c hc => ofSuffix?_of_isBlank (hafter c hc)
    rw [readItems_of_item hitem hnext, readItems_blanks_append hws, ih]
    cases readItems after <;> rfl

theorem readItems_append {s after : List Char} {ts : List Token} (h : readItems s = .ok ts)
    (hafter : AtBlank after) :
    readItems (s ++ after) = (readItems after).map fun us => ts ++ us := by
  cases readItems_eq_ok_iff.1 h with
  | mk hws hitems =>
    rw [List.append_assoc, readItems_blanks_append hws, readItems_items_append hitems hafter]

namespace Pattern

/-- What cannot be read of a text is the end of the text. -/
theorem suffix_of_readItems_error {s stop : List Char} (h : readItems s = .error stop) :
    stop <:+ s := by
  have hscan : Mode.between.scan s = .error stop := by
    rw [scan_eq_readItems, h]
    rfl
  obtain ⟨before, m, rfl, -⟩ := Mode.exists_of_scan_error hscan
  exact List.suffix_append before stop

/-- A pattern, blanks and any text read as the tokens of the pattern and then those of the text. If
the text ends too early, so does the whole; and a character that cannot stand in the text cannot
stand in the whole either, at its place after the pattern and the blanks. -/
theorem read_append_blanks {before : String} {declared : Nat} {p : Pattern}
    (hp : Pattern.read before declared = .ok p) {blanks : String} (hne : blanks ≠ "")
    (hblanks : Blanks blanks.toList) (after : String) (rule : Nat) :
    (∀ q, Pattern.read after rule = .ok q →
      Pattern.read (before ++ blanks ++ after) rule =
        .ok ⟨before ++ blanks ++ after, p.tokens ++ q.tokens⟩) ∧
      ∀ fault, Pattern.read after rule = .error fault →
        (fault = .patternEnds rule after ∧
          Pattern.read (before ++ blanks ++ after) rule =
            .error (.patternEnds rule (before ++ blanks ++ after))) ∨
        ∃ found offset, fault = .strayChar rule after found offset ∧
          Pattern.read (before ++ blanks ++ after) rule =
            .error (.strayChar rule (before ++ blanks ++ after) found
              (before.length + blanks.length + offset)) := by
  obtain ⟨-, hbefore⟩ := read_eq_ok_iff_readItems.1 hp
  have hne' : blanks.toList ≠ [] := by simpa using hne
  have hwhole : readItems (before ++ blanks ++ after).toList =
      (readItems after.toList).map fun us => p.tokens ++ us := by
    rw [String.toList_append, String.toList_append, List.append_assoc,
      readItems_append hbefore (AtBlank.of_blanks hne' hblanks _), readItems_blanks_append hblanks]
  constructor
  · intro q hq
    obtain ⟨-, hafter⟩ := read_eq_ok_iff_readItems.1 hq
    refine read_eq_ok_iff_readItems.2 ⟨rfl, ?_⟩
    rw [hwhole, hafter]
    rfl
  · intro fault hfault
    obtain ⟨stop, hstop, rfl⟩ := read_eq_error_iff_readItems.1 hfault
    have hread : Pattern.read (before ++ blanks ++ after) rule =
        .error (faultAt rule (before ++ blanks ++ after) stop) := by
      refine read_eq_error_iff_readItems.2 ⟨stop, ?_, rfl⟩
      rw [hwhole, hstop]
      rfl
    obtain ⟨start, hstart⟩ := suffix_of_readItems_error hstop
    cases stop with
    | nil => exact .inl ⟨rfl, hread⟩
    | cons c rest =>
      refine .inr ⟨c, start.length, faultAt_of_append hstart.symm, ?_⟩
      have htext : (before ++ blanks ++ after).toList =
          (before.toList ++ blanks.toList ++ start) ++ c :: rest := by
        rw [String.toList_append, String.toList_append, ← hstart, List.append_assoc _ start]
      rw [hread, faultAt_of_append htext]
      simp only [List.length_append, String.length_toList]

/-- No name goes on over a blank, and no quantifier belongs to what stands before one. -/
theorem read_append_blanks_name :
    Pattern.read "A" 1 = .ok ⟨"A", [⟨.name "A", .once, false⟩]⟩ ∧ Blanks " \u2003".toList ∧
      Pattern.read ("A" ++ " \u2003" ++ "B*") 2 =
        .ok ⟨"A \u2003B*", [⟨.name "A", .once, false⟩, ⟨.name "B", .zeroOrMore, false⟩]⟩ ∧
      Pattern.read ("A" ++ " \u2003" ++ "('[a-") 2 =
        .error (.patternEnds 2 "A \u2003('[a-") ∧
      Pattern.read ("A" ++ " \u2003" ++ "+") 2 = .error (.strayChar 2 "A \u2003+" '+' 3) := by
  have hname : Pattern.read "A" 1 = .ok ⟨"A", [⟨.name "A", .once, false⟩]⟩ := by decide +kernel
  have hblanks : Blanks " \u2003".toList :=
    Blanks.cons (by decide) (Blanks.cons (by decide) Blanks.nil)
  have hwhole := read_append_blanks hname (by decide) hblanks
  have htokens := (hwhole "B*" 2).1 ⟨"B*", [⟨.name "B", .zeroOrMore, false⟩]⟩ (by decide +kernel)
  refine ⟨hname, hblanks, htokens, ?_, ?_⟩
  · rcases (hwhole "('[a-" 2).2 (.patternEnds 2 "('[a-") (by decide +kernel) with h | ⟨_, _, h, -⟩
    · exact h.2
    · cases h
  · rcases (hwhole "+" 2).2 (.strayChar 2 "+" '+' 0) (by decide +kernel) with h | ⟨_, _, h, hread⟩
    · cases h.1
    · cases h
      exact hread

end Pattern

end ReductionGrammar
