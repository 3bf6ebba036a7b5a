import ReductionGrammar.Pattern.Writing
import ReductionGrammar.Proofs.Pattern.CharSetRanges

/-!
# Writing tokens and reading them back

The canonical text of tokens is a written form of them, so reading it gives the same tokens again.
The only condition is that the names can be written as names, and all tokens that were read from
some text meet it.
-/

namespace ReductionGrammar

open Written

/-- The names to which the tokens refer are letters and digits of ASCII, a letter first. -/
def WellNamed (tokens : List Token) : Prop :=
  ∀ t ∈ tokens, ∀ name, t.atom = .name name → Name name.toList

/-! ### Classes -/

theorem Written.letter_writeChar {reserved : List Char} {special : Bool} {c : Char}
    (h : special = false → c ≠ '%' ∧ c ∉ reserved) (rest : List Char) :
    Letter reserved (writeChar special c ++ rest) c rest := by
  cases special with
  | true => exact .escaped c rest
  | false => exact .plain rest (h rfl).1 (h rfl).2

theorem plain_of_isSpecialInClass {leads : Bool} {c : Char} (h : isSpecialInClass leads c = false) :
    c ≠ ']' ∧ c ≠ '-' ∧ c ≠ '%' ∧ (leads = true → c ≠ '^') := by
  simp only [isSpecialInClass, escape, Bool.or_eq_false_iff, beq_eq_false_iff_ne,
    Bool.and_eq_false_iff] at h
  obtain ⟨⟨⟨hclose, hdash⟩, hescape⟩, hlead⟩ := h
  refine ⟨hclose, hdash, hescape, ?_⟩
  intro hleads
  simpa [hleads] using hlead

theorem Written.letter_writeChar_class (leads : Bool) (c : Char) (rest : List Char) :
    Letter [']'] (writeChar (isSpecialInClass leads c) c ++ rest) c rest := by
  refine letter_writeChar (fun h => ?_) rest
  obtain ⟨hclose, -, hescape, -⟩ := plain_of_isSpecialInClass h
  exact ⟨hescape, fun hmem => hclose (List.mem_singleton.1 hmem)⟩

theorem head?_writeChar_class (leads : Bool) (c : Char) (rest : List Char) :
    (writeChar (isSpecialInClass leads c) c ++ rest).head? ≠ some '-' ∧
      (leads = true → (writeChar (isSpecialInClass leads c) c ++ rest).head? ≠ some '^') := by
  cases h : isSpecialInClass leads c with
  | true => simp [writeChar, escape]
  | false =>
    obtain ⟨-, hdash, -, hlead⟩ := plain_of_isSpecialInClass h
    simpa [writeChar] using ⟨hdash, hlead⟩

namespace CharSet

/-- The class items as which a range is written. -/
def itemsOf (lo hi : Char) : List (Char × Char) :=
  if lo = hi then [(lo, lo)]
  else if nextChar? lo = some hi then [(lo, lo), (hi, hi)]
  else [(lo, hi)]

theorem between_iff_itemsOf {lo hi : Char} (hordered : lo.toNat ≤ hi.toNat) (c : Char) :
    lo.toNat ≤ c.toNat ∧ c.toNat ≤ hi.toNat ↔
      ∃ item ∈ itemsOf lo hi, Between item.1 item.2 c := by
  unfold itemsOf
  by_cases hone : lo = hi
  · simp only [hone, ite_true, List.mem_singleton, exists_eq_left, Between]
    omega
  · by_cases htwo : nextChar? lo = some hi
    · have hnext := nextChar?_eq_some_iff.1 htwo
      simp only [hone, htwo, ite_true, ite_false, List.mem_cons, List.not_mem_nil, or_false,
        exists_eq_or_imp, exists_eq_left, Between]
      omega
    · simp only [hone, htwo, ite_false, List.mem_singleton, exists_eq_left, Between]
      omega

theorem writeRange_eq (leads : Bool) (lo hi : Char) :
    ∃ tail, writeRange leads lo hi = writeChar (isSpecialInClass leads lo) lo ++ tail := by
  unfold writeRange
  dsimp only
  split
  · exact ⟨[], (List.append_nil _).symm⟩
  · split
    · exact ⟨_, rfl⟩
    · exact ⟨_, rfl⟩

theorem head?_writeRange (leads : Bool) (lo hi : Char) (rest : List Char) :
    (writeRange leads lo hi ++ rest).head? ≠ some '-' ∧
      (leads = true → (writeRange leads lo hi ++ rest).head? ≠ some '^') := by
  obtain ⟨tail, htail⟩ := writeRange_eq leads lo hi
  rw [htail, List.append_assoc]
  exact head?_writeChar_class leads lo (tail ++ rest)

theorem classItems_writeRange (leads : Bool) (lo hi : Char) {rest last : List Char}
    {items : List (Char × Char)} (hrest : rest.head? ≠ some '-')
    (h : ClassItems rest items last) :
    ClassItems (writeRange leads lo hi ++ rest) (itemsOf lo hi ++ items) last := by
  have hhi : Letter [']'] (writeChar (isSpecialInClass false hi) hi ++ rest) hi rest :=
    letter_writeChar_class false hi rest
  unfold writeRange itemsOf
  dsimp only
  by_cases hone : lo = hi
  · simp only [hone, ite_true]
    exact .cons (.single (letter_writeChar_class leads hi rest) hrest) h
  · by_cases htwo : nextChar? lo = some hi
    · simp only [hone, htwo, ite_true, ite_false, List.append_assoc]
      have hnext := (head?_writeChar_class false hi rest).1
      exact .cons (.single (letter_writeChar_class leads lo _) hnext)
        (.cons (.single hhi hrest) h)
    · simp only [hone, htwo, ite_false, List.append_assoc, List.cons_append]
      exact .cons (.range (letter_writeChar_class leads lo _) hhi.unreserve) h

def items (set : CharSet) : List (Char × Char) :=
  set.ranges.flatMap fun r => itemsOf r.1 r.2

theorem lists_items (set : CharSet) : Lists set set.items := by
  intro c
  rw [set.areRanges_ranges.covers c]
  simp only [items, List.mem_flatMap]
  constructor
  · rintro ⟨r, hr, hc⟩
    obtain ⟨item, hitem, hbetween⟩ :=
      (between_iff_itemsOf (set.areRanges_ranges.ordered r hr) c).1 hc
    exact ⟨item, ⟨r, hr, hitem⟩, hbetween⟩
  · rintro ⟨item, ⟨r, hr, hitem⟩, hbetween⟩
    exact ⟨r, hr, (between_iff_itemsOf (set.areRanges_ranges.ordered r hr) c).2
      ⟨item, hitem, hbetween⟩⟩

theorem head?_writeRanges (leads : Bool) (ranges : List (Char × Char)) (rest : List Char) :
    (writeRanges leads ranges ++ ']' :: rest).head? ≠ some '-' ∧
      (leads = true → (writeRanges leads ranges ++ ']' :: rest).head? ≠ some '^') := by
  cases ranges with
  | nil => simp [writeRanges]
  | cons r ranges =>
    rw [writeRanges, List.append_assoc]
    exact head?_writeRange leads r.1 r.2 _

theorem classItems_writeRanges (leads : Bool) (ranges : List (Char × Char)) (rest : List Char) :
    ClassItems (writeRanges leads ranges ++ ']' :: rest)
      (ranges.flatMap fun r => itemsOf r.1 r.2) (']' :: rest) := by
  induction ranges generalizing leads with
  | nil => exact .nil _
  | cons r ranges ih =>
    rw [writeRanges, List.append_assoc, List.flatMap_cons]
    exact classItems_writeRange leads r.1 r.2 (head?_writeRanges false ranges rest).1 (ih false)

theorem terminal_write (set : CharSet) (rest : List Char) :
    Terminal (set.write ++ rest) (.charSet set) rest := by
  unfold write
  cases hnegated : set.negated with
  | true =>
    simp only [ite_true, List.cons_append, List.append_assoc, List.nil_append]
    exact .unlisted (classItems_writeRanges false set.ranges rest) hnegated set.lists_items
  | false =>
    simp only [Bool.false_eq_true, ite_false, List.cons_append, List.append_assoc, List.nil_append]
    exact .listed ((head?_writeRanges true set.ranges rest).2 rfl)
      (classItems_writeRanges true set.ranges rest) hnegated set.lists_items

end CharSet

/-! ### Tokens -/

theorem plain_of_isSpecialInQuotes {c : Char} (h : isSpecialInQuotes c = false) :
    c ≠ '%' ∧ c ∉ ['\x27', '['] := by
  simp only [isSpecialInQuotes, quoteMark, escape, Bool.or_eq_false_iff,
    beq_eq_false_iff_ne] at h
  obtain ⟨⟨hquote, hbracket⟩, hescape⟩ := h
  refine ⟨hescape, ?_⟩
  simp only [List.mem_cons, List.not_mem_nil, or_false, not_or]
  exact ⟨hquote, hbracket⟩

/-- Only a name has to end before what follows it. -/
theorem Atom.construct_write {a : Atom} (hname : ∀ name, a = .name name → Name name.toList)
    {rest : List Char} (hrest : ∀ c ∈ rest.head?, c.isAlphanum = false) :
    Construct (a.write ++ rest) a rest := by
  cases a with
  | char c =>
    have hletter := letter_writeChar plain_of_isSpecialInQuotes ('\x27' :: rest) (c := c)
    simp only [write, List.cons_append, List.append_assoc, List.nil_append]
    exact .quoted (.char hletter)
  | charSet set =>
    simp only [write, List.cons_append, List.append_assoc, List.nil_append]
    exact .quoted (set.terminal_write _)
  | name symbol =>
    have hconstruct := Construct.name (hname symbol rfl) hrest
    rwa [String.ofList_toList] at hconstruct

theorem Repetition.quantifier_suffix? (r : Repetition) (rest : List Char) :
    Quantifier (r.suffix?.toList ++ rest) r rest := by
  cases r with
  | once => exact .once rest
  | oneOrMore => exact .oneOrMore rest
  | zeroOrMore => exact .zeroOrMore rest
  | zeroOrOne => exact .zeroOrOne rest

/-- A quantifier character is no letter and no digit. -/
theorem Repetition.head?_suffix? (r : Repetition) {rest : List Char}
    (hrest : ∀ c ∈ rest.head?, c.isAlphanum = false) :
    ∀ c ∈ (r.suffix?.toList ++ rest).head?, c.isAlphanum = false := by
  cases r with
  | once => exact hrest
  | _ =>
    intro c hc
    cases hc
    decide

theorem Token.item_write {t : Token} (hname : ∀ name, t.atom = .name name → Name name.toList)
    {rest : List Char} (hrest : ∀ c ∈ rest.head?, c.isAlphanum = false) :
    Item (t.write ++ rest) t rest := by
  obtain ⟨atom, repetition, captured⟩ := t
  cases captured with
  | false =>
    simp only [write, Bool.false_eq_true, ite_false, List.append_assoc]
    exact .plain (Atom.construct_write hname (repetition.head?_suffix? hrest))
      (repetition.quantifier_suffix? rest)
  | true =>
    have hclose : ∀ c ∈ (')' :: rest).head?, c.isAlphanum = false := by
      intro c hc
      cases hc
      decide
    have hitem := Item.captured Blanks.nil
      (Atom.construct_write hname (repetition.head?_suffix? hclose))
      (repetition.quantifier_suffix? ([] ++ ')' :: rest)) Blanks.nil
    simpa only [write, ite_true, List.cons_append, List.append_assoc, List.nil_append] using hitem

theorem items_writeTokens {tokens : List Token} (h : WellNamed tokens) :
    Items (writeTokens tokens) tokens := by
  induction tokens with
  | nil => exact .nil
  | cons t ts ih =>
    have hname := h t (List.mem_cons_self ..)
    have hts : WellNamed ts := fun u hu => h u (List.mem_cons_of_mem _ hu)
    cases ts with
    | nil =>
      have hitem : Item (t.write ++ []) t ([] ++ []) := Token.item_write hname (by simp)
      rw [List.append_nil] at hitem
      exact .cons hitem Blanks.nil .nil
    | cons u ts =>
      have hblank : ∀ c ∈ ([' '] ++ writeTokens (u :: ts)).head?, c.isAlphanum = false := by
        intro c hc
        cases hc
        decide
      have hitem := Token.item_write hname hblank
      exact .cons hitem (Blanks.cons (by decide) Blanks.nil) (ih hts)

theorem read_renderTokens {tokens : List Token} (h : WellNamed tokens) (rule : Nat) :
    Pattern.read (renderTokens tokens) rule = .ok ⟨renderTokens tokens, tokens⟩ := by
  have hpattern : Written.Pattern (writeTokens tokens) tokens :=
    .mk Blanks.nil (items_writeTokens h)
  refine Pattern.read_eq_ok_iff_readItems.2 ⟨rfl, ?_⟩
  rw [renderTokens, String.toList_ofList]
  exact readItems_eq_ok_iff.2 hpattern

/-! ### Tokens that were read -/

theorem Written.Item.name_of_atom {s rest : List Char} {t : Token} (h : Item s t rest)
    {name : String} (ha : t.atom = .name name) : Name name.toList := by
  have hconstruct : ∃ s mid, Construct s t.atom mid := by
    cases h with
    | plain h _ => exact ⟨_, _, h⟩
    | captured _ h _ _ => exact ⟨_, _, h⟩
  obtain ⟨s, mid, hconstruct⟩ := hconstruct
  rw [ha] at hconstruct
  cases hconstruct with
  | name h _ => rwa [String.toList_ofList]
  | quoted h => cases h

theorem Written.Items.wellNamed {s : List Char} {ts : List Token} (h : Items s ts) :
    WellNamed ts := by
  induction h with
  | nil => simp [WellNamed]
  | cons head _ _ ih => exact List.forall_mem_cons.2 ⟨fun name ha => head.name_of_atom ha, ih⟩

theorem Written.Pattern.wellNamed {s : List Char} {ts : List Token} (h : Written.Pattern s ts) :
    WellNamed ts := by
  cases h with
  | mk _ h => exact h.wellNamed

theorem wellNamed_of_read {text : String} {rule : Nat} {p : Pattern}
    (h : Pattern.read text rule = .ok p) : WellNamed p.tokens := by
  obtain ⟨-, hitems⟩ := Pattern.read_eq_ok_iff_readItems.1 h
  exact (readItems_eq_ok_iff.1 hitems).wellNamed

theorem renderTokens_inj {ts us : List Token} (hts : WellNamed ts) (hus : WellNamed us)
    (h : renderTokens ts = renderTokens us) : ts = us := by
  have hread := read_renderTokens hts 1
  rw [h, read_renderTokens hus 1] at hread
  injection hread with hread
  injection hread with _ htokens
  exact htokens.symm

/-- The canonical text of well-named tokens reads as these tokens, whatever the rule. What was read
from any text is well-named, so writing it in canonical form and reading that changes neither the
tokens nor the text; and different tokens have different canonical texts. -/
theorem renderTokens_round_trip :
    (∀ (tokens : List Token) (rule : Nat), WellNamed tokens →
      Pattern.read (renderTokens tokens) rule = .ok ⟨renderTokens tokens, tokens⟩) ∧
    (∀ (text : String) (rule : Nat) (p : Pattern), Pattern.read text rule = .ok p →
      WellNamed p.tokens ∧ ∀ again : Nat, ∃ q, Pattern.read (renderTokens p.tokens) again = .ok q ∧
        q.tokens = p.tokens ∧ renderTokens q.tokens = renderTokens p.tokens) ∧
    ∀ ts us : List Token, WellNamed ts → WellNamed us →
      renderTokens ts = renderTokens us → ts = us := by
  refine ⟨?_, ?_, ?_⟩
  · intro tokens rule h
    exact read_renderTokens h rule
  · intro text rule p hp
    have hnamed := wellNamed_of_read hp
    exact ⟨hnamed, fun again => ⟨_, read_renderTokens hnamed again, rfl, rfl⟩⟩
  · intro ts us hts hus h
    exact renderTokens_inj hts hus h

/-- Classes that list `^`, `]` and `-`, a quote, and a name. -/
def specialTokens : List Token :=
  [⟨.charSet (.ofList ['^', 'a']), .oneOrMore, false⟩,
    ⟨.charSet (.ofList ['-', '^', ']']), .zeroOrOne, true⟩, ⟨.char '\x27', .once, true⟩,
    ⟨.name "A1", .zeroOrMore, false⟩]

theorem wellNamed_specialTokens : WellNamed specialTokens := by
  intro t ht name ha
  simp only [specialTokens, List.mem_cons, List.not_mem_nil, or_false] at ht
  rcases ht with rfl | rfl | rfl | rfl <;> cases ha
  refine ⟨'A', ['1'], by decide, by decide, ?_⟩
  intro d hd
  rw [List.mem_singleton.1 hd]
  decide

theorem wellNamed_charSet (set : CharSet) : WellNamed [⟨.charSet set, .once, false⟩] := by
  intro t ht name ha
  rw [List.mem_singleton.1 ht] at ha
  cases ha

theorem renderTokens_round_trip_special :
    WellNamed specialTokens ∧
      renderTokens specialTokens = "'[%^a]'+ ('[%-%]^]'?) ('%'') A1*" ∧
      Pattern.read (renderTokens specialTokens) 7 =
        .ok ⟨renderTokens specialTokens, specialTokens⟩ ∧
      (WellNamed specialTokens ∧ ∀ again : Nat, ∃ q,
        Pattern.read (renderTokens specialTokens) again = .ok q ∧ q.tokens = specialTokens ∧
          renderTokens q.tokens = renderTokens specialTokens) ∧
      [(⟨.charSet (.ofList ['b', 'a', 'c']), .once, false⟩ : Token)] =
        [⟨.charSet (.ofRange 'c' 'a'), .once, false⟩] := by
  have hread := renderTokens_round_trip.1 specialTokens 7 wellNamed_specialTokens
  exact ⟨wellNamed_specialTokens, by decide +kernel, hread,
    renderTokens_round_trip.2.1 _ 7 _ hread,
    renderTokens_round_trip.2.2 _ _ (wellNamed_charSet _) (wellNamed_charSet _)
      (by decide +kernel)⟩

end ReductionGrammar
