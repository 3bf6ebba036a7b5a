import Mathlib.Data.List.Basic
import ReductionGrammar.Pattern.CharSet

/-!
# Sets of characters and what they list

The runs of a set are determined by the characters that it lists, so two sets that list the same
characters are the same set however they came about.
-/

namespace ReductionGrammar

namespace CharRun

theorem contains_iff (r : CharRun) (c : Char) :
    r.contains c = true ↔ r.lo.toNat ≤ c.toNat ∧ c.toNat ≤ r.hi.toNat := by
  simp only [contains, Bool.and_eq_true, decide_eq_true_eq]

theorem contains_lo (r : CharRun) : r.contains r.lo = true :=
  r.contains_iff r.lo |>.2 ⟨Nat.le_refl _, r.ordered⟩

/-- A code point inside a run is that of a character, for no run has surrogates inside. -/
theorem toNat_ofNat {r : CharRun} {n : Nat} (hlo : r.lo.toNat ≤ n) (hhi : n ≤ r.hi.toNat) :
    (Char.ofNat n).toNat = n := by
  have hvalid : n.isValidChar := by
    have hside := r.oneSided
    have hmax := r.hi.valid
    have hhi' : r.hi.val.toNat = r.hi.toNat := rfl
    unfold UInt32.isValidChar Nat.isValidChar at hmax
    unfold Nat.isValidChar
    omega
  rw [Char.ofNat, dif_pos hvalid]
  rfl

theorem exists_char {r : CharRun} {n : Nat} (hlo : r.lo.toNat ≤ n) (hhi : n ≤ r.hi.toNat) :
    ∃ c : Char, c.toNat = n ∧ r.contains c = true := by
  have hn := toNat_ofNat hlo hhi
  exact ⟨Char.ofNat n, hn, (r.contains_iff _).2 (by omega)⟩

/-- Every listed character comes after the beginning of the first run, and those of later runs come
after a gap. -/
theorem bounds_of_contains {r : CharRun} {rest : List CharRun}
    (h : (r :: rest).Pairwise Before) {c : Char} (hc : (r :: rest).any (·.contains c) = true) :
    r.lo.toNat ≤ c.toNat ∧ (r.contains c = true ∨ r.hi.toNat + 1 < c.toNat) := by
  rw [List.any_cons, Bool.or_eq_true] at hc
  rcases hc with hc | hc
  · exact ⟨((r.contains_iff c).1 hc).1, .inl hc⟩
  · obtain ⟨s, hs, hcs⟩ := List.any_eq_true.1 hc
    have hbefore : r.hi.toNat + 1 < s.lo.toNat := (List.pairwise_cons.1 h).1 s hs
    have hlo := ((s.contains_iff c).1 hcs).1
    have hr := r.ordered
    exact ⟨by omega, .inr (by omega)⟩

variable {r s : CharRun} {rs ss : List CharRun}

theorem lo_le_of_lists (hs : (s :: ss).Pairwise Before)
    (h : (s :: ss).any (·.contains r.lo) = true) : s.lo.toNat ≤ r.lo.toNat :=
  (bounds_of_contains hs h).1

/-- The character after a run is not listed, so a run with the same beginning is no longer. -/
theorem hi_le_of_lists (hr : (r :: rs).Pairwise Before) (hlo : r.lo.toNat = s.lo.toNat)
    (h : ∀ c, s.contains c = true → (r :: rs).any (·.contains c) = true) :
    s.hi.toNat ≤ r.hi.toNat := by
  by_contra hlt
  have hordered := r.ordered
  obtain ⟨c, hc, hcs⟩ := exists_char (r := s) (n := r.hi.toNat + 1) (by omega) (by omega)
  rcases (bounds_of_contains hr (h c hcs)).2 with hin | hgap
  · have := ((r.contains_iff c).1 hin).2
    omega
  · omega

theorem rest_of_lists (hr : (r :: rs).Pairwise Before)
    (h : ∀ c, (r :: rs).any (·.contains c) = true → (r :: ss).any (·.contains c) = true) (c : Char)
    (hc : rs.any (·.contains c) = true) : ss.any (·.contains c) = true := by
  obtain ⟨t, ht, hct⟩ := List.any_eq_true.1 hc
  have hbefore : r.hi.toNat + 1 < t.lo.toNat := (List.pairwise_cons.1 hr).1 t ht
  have hnot : r.contains c = false := by
    rw [Bool.eq_false_iff]
    intro hin
    have h₁ := ((r.contains_iff c).1 hin).2
    have h₂ := ((t.contains_iff c).1 hct).1
    omega
  have hall := h c (by rw [List.any_cons, hc, Bool.or_true])
  rwa [List.any_cons, hnot, Bool.false_or] at hall

/-- Runs in order with gaps between them are determined by the characters in them. -/
theorem runs_unique (hr : rs.Pairwise Before) (hs : ss.Pairwise Before)
    (h : ∀ c, rs.any (·.contains c) = true ↔ ss.any (·.contains c) = true) : rs = ss := by
  induction rs generalizing ss with
  | nil =>
    cases ss with
    | nil => rfl
    | cons s ss =>
      have := (h s.lo).2 (by rw [List.any_cons, s.contains_lo, Bool.true_or])
      simp at this
  | cons r rs ih =>
    cases ss with
    | nil =>
      have := (h r.lo).1 (by rw [List.any_cons, r.contains_lo, Bool.true_or])
      simp at this
    | cons s ss =>
      have hfirst : ∀ (t : CharRun) (ts : List CharRun) (c : Char), t.contains c = true →
          (t :: ts).any (·.contains c) = true := by
        intro t ts c hc
        rw [List.any_cons, hc, Bool.true_or]
      have hlo : r.lo.toNat = s.lo.toNat := by
        have h₁ := lo_le_of_lists hs ((h r.lo).1 (hfirst r rs _ r.contains_lo))
        have h₂ := lo_le_of_lists hr ((h s.lo).2 (hfirst s ss _ s.contains_lo))
        omega
      have hhi : r.hi.toNat = s.hi.toNat := by
        have h₁ := hi_le_of_lists hr hlo fun c hc => (h c).2 (hfirst s ss c hc)
        have h₂ := hi_le_of_lists hs hlo.symm fun c hc => (h c).1 (hfirst r rs c hc)
        omega
      obtain rfl : r = s := CharRun.ext (Char.toNat_inj.1 hlo) (Char.toNat_inj.1 hhi)
      congr 1
      refine ih (List.pairwise_cons.1 hr).2 (List.pairwise_cons.1 hs).2 fun c => ?_
      exact ⟨rest_of_lists hr (fun d => (h d).1) c, rest_of_lists hs (fun d => (h d).2) c⟩

end CharRun

namespace CharSet

theorem eq_of_contains_iff {s t : CharSet} (hn : s.negated = t.negated)
    (h : ∀ c, s.contains c = true ↔ t.contains c = true) : s = t :=
  CharSet.ext hn (CharRun.runs_unique s.apart t.apart h)

@[simp] theorem negated_insertRange (set : CharSet) (a b : Char) :
    (set.insertRange a b).negated = set.negated := by
  unfold insertRange
  dsimp only
  split <;> rfl

@[simp] theorem negated_insertAll (set : CharSet) (cs : List Char) :
    (set.insertAll cs).negated = set.negated := by
  unfold insertAll
  induction cs generalizing set with
  | nil => rfl
  | cons c cs ih => exact ih (set.insert c)

/-- A single character is a range that ends where it begins. -/
theorem insert_eq_insertRange (set : CharSet) (c : Char) : set.insert c = set.insertRange c c := by
  refine eq_of_contains_iff (negated_insertRange set c c).symm fun d => ?_
  rw [contains_insert, contains_insertRange]
  have heq : d = c ↔ c.toNat ≤ d.toNat ∧ d.toNat ≤ c.toNat := by
    rw [← Char.toNat_inj]
    omega
  simp only [Bool.or_eq_true, beq_iff_eq, Nat.min_self, Nat.max_self, Bool.and_eq_true,
    decide_eq_true_eq, heq]

end CharSet

end ReductionGrammar
