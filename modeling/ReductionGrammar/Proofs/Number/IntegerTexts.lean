import Mathlib.Algebra.Ring.Int.Defs
import ReductionGrammar.Proofs.Number.Digits
import ReductionGrammar.Proofs.Pattern.Reads
import ReductionGrammar.Value.Text

/-!
# Texts of integers

Which texts stand for an integer, as rules that say nothing about how a text is read:

    text = blank* form blank*
    form = ('+' | '-')? digit digit*

Every digit counts ten times as much as the next one, so zeros in front count nothing, however many
there are. Main statement: the texts of the integers that a word of 64 bits can hold are read, each
as its integer, and no other text is.
-/

namespace ReductionGrammar

open Written (Blanks)

/-! ### Outer blanks -/

/-- The text is `core` between blanks, and no more blanks could be left out of `core`. -/
structure Trims (s core : List Char) : Prop where
  between : ∃ left right, Blanks left ∧ Blanks right ∧ s = left ++ (core ++ right)
  head : ∀ c ∈ core.head?, isBlank c = false
  last : ∀ c ∈ core.getLast?, isBlank c = false

theorem Written.Blanks.reverse {ws : List Char} (h : Blanks ws) : Blanks ws.reverse :=
  fun c hc => h c (List.mem_reverse.1 hc)

theorem trims_trimBlanks (s : List Char) : Trims s (trimBlanks s) := by
  obtain ⟨left, hleft, hs⟩ := exists_blanks_append s
  obtain ⟨right, hright, hrest⟩ := exists_blanks_append (skipBlanks s).reverse
  have hcore : skipBlanks s = trimBlanks s ++ right.reverse := by
    rw [trimBlanks, ← List.reverse_append, ← hrest, List.reverse_reverse]
  refine ⟨⟨left, right.reverse, hleft, hright.reverse, ?_⟩, fun c hc => ?_, fun c hc => ?_⟩
  · rw [← hcore]
    exact hs
  · have hhead : c ∈ (skipBlanks s).head? := by
      rw [hcore, List.head?_append, Option.mem_def.1 hc]
      rfl
    exact head?_dropWhile_not c hhead
  · rw [trimBlanks, List.getLast?_reverse] at hc
    exact head?_dropWhile_not c hc

theorem Trims.trimBlanks_eq {s core : List Char} (h : Trims s core) : trimBlanks s = core := by
  obtain ⟨left, right, hleft, hright, rfl⟩ := h.between
  -- where nothing is left over, the blanks on the left go on into those on the right
  cases hcore : core with
  | nil =>
    have hblanks : Blanks (left ++ right) :=
      fun c hc => (List.mem_append.1 hc).elim (hleft c) (hright c)
    have hskip : skipBlanks (left ++ right) = [] := List.dropWhile_eq_nil_iff.2 hblanks
    rw [trimBlanks, List.nil_append, hskip]
    rfl
  | cons c cs =>
    have hskip : skipBlanks (left ++ (core ++ right)) = core ++ right := by
      refine skipBlanks_append hleft ?_
      rw [hcore]
      exact fun d hd => h.head d (hcore ▸ hd)
    have hreverse : skipBlanks (core ++ right).reverse = core.reverse := by
      rw [List.reverse_append]
      refine skipBlanks_append hright.reverse ?_
      rw [List.head?_reverse]
      exact h.last
    rw [← hcore, trimBlanks, hskip, hreverse, List.reverse_reverse]

/-! ### Decimal forms -/

/-- The number that digits stand for. -/
def weightedSum : List Char → Nat
  | [] => 0
  | d :: ds => (d.toNat - '0'.toNat) * 10 ^ ds.length + weightedSum ds

/-- The text is an optional sign and at least one digit, and it stands for the integer. -/
inductive DecimalForm : List Char → Int → Prop where
  | unsigned {ds : List Char} (hne : ds ≠ []) (hds : ∀ c ∈ ds, c.isDigit = true) :
      DecimalForm ds (weightedSum ds)
  | plus {ds : List Char} (hne : ds ≠ []) (hds : ∀ c ∈ ds, c.isDigit = true) :
      DecimalForm ('+' :: ds) (weightedSum ds)
  | minus {ds : List Char} (hne : ds ≠ []) (hds : ∀ c ∈ ds, c.isDigit = true) :
      DecimalForm ('-' :: ds) (-(weightedSum ds : Int))

theorem digitsValue_eq_weightedSum (ds : List Char) : digitsValue ds = weightedSum ds := by
  induction ds with
  | nil => rfl
  | cons d ds ih =>
    have hone : digitsValue [d] = d.toNat - '0'.toNat := Nat.zero_add _
    have happend := digitsValue_append [d] ds
    rw [List.singleton_append, hone, ih, Nat.mul_comm] at happend
    exact happend

theorem map_readNat?_eq_some_iff {ds : List Char} {f : Nat → Int} {z : Int} :
    (readNat? ds).map f = some z ↔
      (ds ≠ [] ∧ ∀ c ∈ ds, c.isDigit = true) ∧ f (weightedSum ds) = z := by
  unfold readNat?
  by_cases h : ds ≠ [] ∧ ∀ c ∈ ds, c.isDigit = true
  · rw [if_pos ⟨h.1, List.all_eq_true.2 h.2⟩, digitsValue_eq_weightedSum, Option.map_some,
      Option.some.injEq, and_iff_right h]
  · rw [if_neg fun hall => h ⟨hall.1, List.all_eq_true.1 hall.2⟩]
    exact iff_of_false nofun fun hand => h hand.1

theorem readInt?_cons (c : Char) (ds : List Char) :
    readInt? (c :: ds) =
      if c = '-' then (readNat? ds).map fun n : Nat => -(n : Int)
      else if c = '+' then (readNat? ds).map fun n : Nat => (n : Int)
      else (readNat? (c :: ds)).map fun n : Nat => (n : Int) := by
  rw [readInt?]
  cases readNat? ds <;> cases readNat? (c :: ds) <;> rfl

theorem readInt?_eq_some_iff {s : List Char} {z : Int} : readInt? s = some z ↔ DecimalForm s z := by
  constructor
  · intro h
    cases s with
    | nil => cases h
    | cons c ds =>
      rw [readInt?_cons] at h
      split at h
      · rename_i hminus
        obtain ⟨⟨hne, hds⟩, rfl⟩ := map_readNat?_eq_some_iff.1 h
        exact hminus ▸ .minus hne hds
      · split at h
        · rename_i hplus
          obtain ⟨⟨hne, hds⟩, rfl⟩ := map_readNat?_eq_some_iff.1 h
          exact hplus ▸ .plus hne hds
        · obtain ⟨⟨hne, hds⟩, rfl⟩ := map_readNat?_eq_some_iff.1 h
          exact .unsigned hne hds
  · intro h
    cases h with
    | unsigned hne hds => rw [readInt?_digits hne hds, digitsValue_eq_weightedSum]
    | plus hne hds =>
      rw [readInt?_cons, if_neg (by decide), if_pos rfl]
      exact map_readNat?_eq_some_iff.2 ⟨⟨hne, hds⟩, rfl⟩
    | minus hne hds =>
      rw [readInt?_cons, if_pos rfl]
      exact map_readNat?_eq_some_iff.2 ⟨⟨hne, hds⟩, rfl⟩

/-- No part of a decimal form is a blank. -/
theorem DecimalForm.isBlank {s : List Char} {z : Int} (h : DecimalForm s z) :
    ∀ c ∈ s, isBlank c = false := by
  intro c hc
  cases h with
  | unsigned hne hds => exact isBlank_of_isDigit (hds c hc)
  | plus hne hds | minus hne hds =>
    rcases List.mem_cons.1 hc with rfl | hc
    · decide
    · exact isBlank_of_isDigit (hds c hc)

theorem DecimalForm.trims {s : List Char} {z : Int} (h : DecimalForm s z) {left right : List Char}
    (hleft : Blanks left) (hright : Blanks right) : Trims (left ++ (s ++ right)) s where
  between := ⟨left, right, hleft, hright, rfl⟩
  head c hc := h.isBlank c (List.mem_of_mem_head? hc)
  last c hc := h.isBlank c (List.mem_of_mem_getLast? hc)

theorem decimalForm_toString (n : Int) : DecimalForm (toString n).toList n :=
  readInt?_eq_some_iff.1 (readInt?_toString n)

/-! ### Words -/

theorem int64?_eq_some_iff {z : Int} {n : Int64} :
    int64? z = some n ↔ (-2 ^ 63 ≤ z ∧ z ≤ 2 ^ 63 - 1) ∧ n.toInt = z := by
  constructor
  · intro h
    unfold int64? at h
    split at h
    · rename_i hrange
      obtain rfl := Option.some.inj h
      have hz : (Int64.ofInt z).toInt = z := Int64.toInt_ofInt_of_le (by omega) (by omega)
      exact ⟨⟨by omega, by omega⟩, hz⟩
    · cases h
  · rintro ⟨-, rfl⟩
    exact int64?_toInt n

/-- The text, less its outer blanks, is the decimal form of the integer. -/
def IntegerText (s : List Char) (z : Int) : Prop :=
  ∃ core, Trims s core ∧ DecimalForm core z

theorem DecimalForm.integerText {s : List Char} {z : Int} (h : DecimalForm s z) :
    IntegerText s z := by
  have htrims : Trims ([] ++ (s ++ [])) s := h.trims .nil .nil
  rw [List.nil_append, List.append_nil] at htrims
  exact ⟨s, htrims, h⟩

theorem readInt64?_eq_some_iff {s : List Char} {n : Int64} :
    readInt64? s = some n ↔
      ∃ z, IntegerText s z ∧ (-2 ^ 63 ≤ z ∧ z ≤ 2 ^ 63 - 1) ∧ n.toInt = z := by
  rw [readInt64?, Option.bind_eq_some_iff]
  constructor
  · rintro ⟨z, hread, hword⟩
    have htext : IntegerText s z := ⟨_, trims_trimBlanks s, readInt?_eq_some_iff.1 hread⟩
    exact ⟨z, htext, int64?_eq_some_iff.1 hword⟩
  · rintro ⟨z, ⟨core, htrims, hform⟩, hword⟩
    rw [htrims.trimBlanks_eq]
    exact ⟨z, readInt?_eq_some_iff.2 hform, int64?_eq_some_iff.2 hword⟩

theorem readInt64?_eq_none_iff {s : List Char} :
    readInt64? s = none ↔ ¬ ∃ z, IntegerText s z ∧ -2 ^ 63 ≤ z ∧ z ≤ 2 ^ 63 - 1 := by
  rw [Option.eq_none_iff_forall_ne_some, ← not_exists, not_iff_not]
  constructor
  · rintro ⟨n, hn⟩
    obtain ⟨z, htext, hrange, -⟩ := readInt64?_eq_some_iff.1 hn
    exact ⟨z, htext, hrange⟩
  · rintro ⟨z, htext, hrange⟩
    have hz : (Int64.ofInt z).toInt = z := Int64.toInt_ofInt_of_le hrange.1 (by omega)
    exact ⟨.ofInt z, readInt64?_eq_some_iff.2 ⟨z, htext, hrange, hz⟩⟩

namespace Value

theorem parseInt_string_eq_ok_iff {s : String} {n : Int64} :
    (string s).parseInt = .ok n ↔ readInt64? s.toList = some n := by
  unfold parseInt
  cases h : readInt64? s.toList <;> simp [h]

theorem parseInt_string_eq_error_iff {s : String} {fault : Fault} :
    (string s).parseInt = .error fault ↔
      fault = .invalidNumber s ∧ readInt64? s.toList = none := by
  unfold parseInt
  cases h : readInt64? s.toList <;> simp [h, eq_comm]

/-- A text is read as a word exactly if, less its outer blanks, it is the decimal form of an integer
in the range of words; any other text is a fault, which holds the text as it was given. What is
shown of a word is read as that word, whatever blanks are put around it. -/
theorem parseInt_decimal :
    (∀ (s : String) (n : Int64), (string s).parseInt = .ok n ↔
      ∃ z, IntegerText s.toList z ∧ (-2 ^ 63 ≤ z ∧ z ≤ 2 ^ 63 - 1) ∧ n.toInt = z) ∧
    (∀ (s : String) (fault : Fault), (string s).parseInt = .error fault ↔
      fault = .invalidNumber s ∧
        ¬ ∃ z, IntegerText s.toList z ∧ -2 ^ 63 ≤ z ∧ z ≤ 2 ^ 63 - 1) ∧
    ∀ (n : Int64) (left right : String), Blanks left.toList → Blanks right.toList →
      (string (left ++ (int n).display ++ right)).parseInt = .ok n := by
  refine ⟨fun s n => ?_, fun s fault => ?_, fun n left right hleft hright => ?_⟩
  · rw [parseInt_string_eq_ok_iff, readInt64?_eq_some_iff]
  · rw [parseInt_string_eq_error_iff, readInt64?_eq_none_iff]
  · have hform : DecimalForm (int n).display.toList n.toInt := decimalForm_toString n.toInt
    have htrims := hform.trims hleft hright
    rw [← String.toList_append, ← String.toList_append, ← String.append_assoc] at htrims
    rw [parseInt_string_eq_ok_iff, readInt64?_eq_some_iff]
    exact ⟨n.toInt, ⟨_, htrims, hform⟩, int64?_eq_some_iff.1 (int64?_toInt n)⟩

/-- The least word and the greatest one are read, and the integer after the greatest is not. -/
theorem parseInt_decimal_extremes :
    Blanks "\u2003\n".toList ∧ Blanks " ".toList ∧
      (string ("\u2003\n" ++ (int Int64.minValue).display ++ " ")).parseInt =
        .ok Int64.minValue ∧
      (∃ z, IntegerText "+0009223372036854775807".toList z ∧ (-2 ^ 63 ≤ z ∧ z ≤ 2 ^ 63 - 1) ∧
        Int64.maxValue.toInt = z) ∧
      ¬ ∃ z, IntegerText "9223372036854775808".toList z ∧ -2 ^ 63 ≤ z ∧ z ≤ 2 ^ 63 - 1 := by
  have hleft : Blanks "\u2003\n".toList := .cons (by decide) (.cons (by decide) .nil)
  have hright : Blanks " ".toList := .cons (by decide) .nil
  have hgreatest : (string "+0009223372036854775807").parseInt = .ok Int64.maxValue := by
    decide +kernel
  have hbeyond : (string "9223372036854775808").parseInt =
      .error (.invalidNumber "9223372036854775808") := by
    decide +kernel
  obtain ⟨hok, herror, hdisplay⟩ := parseInt_decimal
  exact ⟨hleft, hright, hdisplay _ _ _ hleft hright, (hok _ _).1 hgreatest,
    ((herror _ _).1 hbeyond).2⟩

/-- A sign alone, two signs, a blank inside, digits of another script. -/
example : ∀ s ∈ ["", "-", "+-1", "1 2", "\u0663"],
    (string s).parseInt = .error (.invalidNumber s) := by
  decide +kernel

end Value

end ReductionGrammar
