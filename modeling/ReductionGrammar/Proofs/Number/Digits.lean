import Mathlib.Algebra.GroupWithZero.Nat
import Mathlib.Data.List.Infix
import ReductionGrammar.Number.Integer

/-!
# Decimal digits

The value of a row of decimal digits: digits in the middle of a row are worth no more than the whole
row. What is written for a number reads back as the number, and has no zeros in front.
-/

namespace ReductionGrammar

theorem toNat_of_isDigit {c : Char} (h : c.isDigit = true) : 48 ≤ c.toNat ∧ c.toNat ≤ 57 :=
  Char.isDigit_iff_toNat.1 h

theorem isBlank_of_isDigit {c : Char} (h : c.isDigit = true) : isBlank c = false := by
  have hbounds := toNat_of_isDigit h
  simp only [isBlank, Bool.or_eq_false_iff, Bool.and_eq_false_iff, decide_eq_false_iff_not,
    beq_eq_false_iff_ne]
  omega

theorem digitsValue_eq (ds : List Char) : digitsValue ds = Nat.ofDigitChars 10 ds 0 :=
  Nat.ofDigitChars_eq_foldl.symm

theorem digitsValue_append (cs ds : List Char) :
    digitsValue (cs ++ ds) = 10 ^ ds.length * digitsValue cs + digitsValue ds := by
  simp only [digitsValue_eq]
  rw [Nat.ofDigitChars_append, Nat.ofDigitChars_eq_ofDigitChars_zero]

theorem digitsValue_le_of_isInfix {ds es : List Char} (h : ds <:+: es) :
    digitsValue ds ≤ digitsValue es := by
  obtain ⟨left, right, rfl⟩ := h
  have hright : digitsValue (left ++ ds) ≤ digitsValue (left ++ ds ++ right) := by
    have hpos : 0 < 10 ^ right.length := Nat.pow_pos (by decide)
    have hle := Nat.le_mul_of_pos_left (digitsValue (left ++ ds)) hpos
    have happend := digitsValue_append (left ++ ds) right
    omega
  have hleft := digitsValue_append left ds
  omega

/-! ### Reading what is written -/

theorem readInt?_digits {ds : List Char} (hds : ds ≠ []) (h : ∀ c ∈ ds, c.isDigit = true) :
    readInt? ds = some (digitsValue ds : Int) := by
  have hread : readNat? ds = some (digitsValue ds) := if_pos ⟨hds, List.all_eq_true.2 h⟩
  cases ds with
  | nil => exact absurd rfl hds
  | cons c ds =>
    have hminus : c ≠ '-' := by
      rintro rfl
      exact absurd (h '-' (List.mem_cons_self ..)) (by decide)
    have hplus : c ≠ '+' := by
      rintro rfl
      exact absurd (h '+' (List.mem_cons_self ..)) (by decide)
    rw [readInt?, if_neg hminus, if_neg hplus, hread]
    rfl

theorem digitsValue_toDigits (n : Nat) : digitsValue (Nat.toDigits 10 n) = n := by
  rw [digitsValue_eq, Nat.ofDigitChars_ten_toDigits]

theorem isDigit_toDigits (n : Nat) : ∀ c ∈ Nat.toDigits 10 n, c.isDigit = true :=
  fun _ hc => Nat.isDigit_of_mem_toDigits (by decide) (by decide) hc

theorem toDigits_ne_nil (n : Nat) : Nat.toDigits 10 n ≠ [] := by
  rw [Nat.toDigits_eq_if (by decide)]
  split
  · exact List.cons_ne_nil _ _
  · exact List.append_ne_nil_of_right_ne_nil _ (List.cons_ne_nil _ _)

/-- No digit in front could be left out. -/
theorem toDigits_eq_of_head? {n : Nat} (h : (Nat.toDigits 10 n).head? = some '0') :
    Nat.toDigits 10 n = ['0'] := by
  induction n using Nat.strongRecOn with
  | ind n ih =>
    rw [Nat.toDigits_eq_if (by decide)] at h ⊢
    split at h
    · rename_i hlt
      rw [if_pos hlt]
      exact congrArg (fun c => [c]) (Option.some.inj h)
    -- the digits but the last are those of `n / 10`, which would be zero
    · rename_i hle
      rw [List.head?_append_of_ne_nil _ (toDigits_ne_nil _)] at h
      have hrest := congrArg digitsValue (ih (n / 10) (by omega) h)
      rw [digitsValue_toDigits] at hrest
      have hzero : n / 10 = 0 := hrest
      omega

theorem toList_toString_natCast (n : Nat) : (toString (n : Int)).toList = Nat.toDigits 10 n :=
  Nat.toList_repr

theorem toList_toString_negSucc (n : Nat) :
    (toString (Int.negSucc n)).toList = '-' :: Nat.toDigits 10 (n + 1) := by
  show ("-" ++ Nat.repr (n + 1)).toList = _
  rw [String.toList_append, Nat.toList_repr]
  rfl

theorem readInt?_toString (n : Int) : readInt? (toString n).toList = some n := by
  cases n with
  | ofNat n =>
    show readInt? (toString (n : Int)).toList = _
    rw [toList_toString_natCast, readInt?_digits (toDigits_ne_nil n) (isDigit_toDigits n),
      digitsValue_toDigits]
    rfl
  | negSucc n =>
    have hread : readNat? (Nat.toDigits 10 (n + 1)) = some (n + 1) := by
      unfold readNat?
      rw [if_pos ⟨toDigits_ne_nil _, List.all_eq_true.2 (isDigit_toDigits _)⟩,
        digitsValue_toDigits]
    rw [toList_toString_negSucc, readInt?, if_pos rfl, hread]
    rfl

/-- The integer of a word is in range. -/
theorem int64?_toInt (n : Int64) : int64? n.toInt = some n := by
  have hrange : -0x8000000000000000 ≤ n.toInt ∧ n.toInt < 0x8000000000000000 :=
    ⟨Int64.le_toInt n, Int64.toInt_lt n⟩
  rw [int64?, if_pos hrange, Int64.ofInt_toInt]

end ReductionGrammar
