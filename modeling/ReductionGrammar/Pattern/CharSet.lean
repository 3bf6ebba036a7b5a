/-!
# Sets of characters

A set is kept as its maximal runs in code point order, so two sets list the same characters
exactly if their runs are the same. No run contains a surrogate, for those are no characters:
U+D7FF and U+E000 end and begin a run.

`insertRange` and `insert` are the only ways to grow a set; `contains` looks a character up,
`matchesChar` takes the negation of the set into account. `ranges` goes over the listed characters
and collapses them.
-/

namespace ReductionGrammar

/-- An inclusive run of code points on one side of the surrogates. -/
@[ext] structure CharRun where
  lo : Char
  hi : Char
  ordered : lo.toNat ≤ hi.toNat
  oneSided : hi.toNat < 0xD800 ∨ 0xDFFF < lo.toNat
deriving DecidableEq

namespace CharRun

/-- No character is a surrogate. -/
theorem oneSided_char (c : Char) : c.toNat < 0xD800 ∨ 0xDFFF < c.toNat := by
  rcases c.valid with h | h
  · exact .inl h
  · exact .inr h.1

def single (c : Char) : CharRun where
  lo := c
  hi := c
  ordered := Nat.le_refl _
  oneSided := oneSided_char c

def contains (r : CharRun) (c : Char) : Bool :=
  r.lo.toNat ≤ c.toNat && c.toNat ≤ r.hi.toNat

def size (r : CharRun) : Nat :=
  r.hi.toNat + 1 - r.lo.toNat

/-- The run ends before `s` begins, and at least one code point lies between them. -/
def Before (r s : CharRun) : Prop :=
  r.hi.toNat + 1 < s.lo.toNat

instance (r s : CharRun) : Decidable (r.Before s) :=
  inferInstanceAs (Decidable (_ < _))

def lower (c d : Char) : Char :=
  if c.toNat ≤ d.toNat then c else d

def higher (c d : Char) : Char :=
  if c.toNat ≤ d.toNat then d else c

theorem toNat_lower (c d : Char) : (lower c d).toNat = min c.toNat d.toNat := by
  unfold lower
  split <;> omega

theorem toNat_higher (c d : Char) : (higher c d).toNat = max c.toNat d.toNat := by
  unfold higher
  split <;> omega

def join (r s : CharRun) (hrs : ¬ r.Before s) (hsr : ¬ s.Before r) : CharRun where
  lo := lower r.lo s.lo
  hi := higher r.hi s.hi
  ordered := by
    have h₁ := r.ordered
    rw [toNat_lower, toNat_higher]
    omega
  oneSided := by
    have h₁ := r.oneSided
    have h₂ := s.oneSided
    have h₃ := r.ordered
    have h₄ := s.ordered
    rw [toNat_lower, toNat_higher]
    unfold Before at hrs hsr
    omega

/-- Adds a run to a list of runs in order, joining it with all those it overlaps or touches. -/
def addTo (r : CharRun) : List CharRun → List CharRun
  | [] => [r]
  | s :: rest =>
    if hrs : r.Before s then r :: s :: rest
    else if hsr : s.Before r then s :: addTo r rest
    else addTo (r.join s hrs hsr) rest

theorem before_of_mem_addTo {t r : CharRun} {runs : List CharRun} (hr : t.Before r)
    (hruns : ∀ s ∈ runs, t.Before s) : ∀ s ∈ r.addTo runs, t.Before s := by
  induction runs generalizing r with
  | nil => simpa [addTo] using hr
  | cons u rest ih =>
    have hu : t.Before u := hruns u (List.mem_cons_self ..)
    have hrest : ∀ s ∈ rest, t.Before s := fun s hs => hruns s (List.mem_cons_of_mem _ hs)
    unfold addTo
    split
    · intro s hs
      rcases List.mem_cons.1 hs with rfl | hs
      · exact hr
      · exact hruns s hs
    · split
      · intro s hs
        rcases List.mem_cons.1 hs with rfl | hs
        · exact hu
        · exact ih hr hrest s hs
      · refine ih ?_ hrest
        unfold Before at hr hu ⊢
        simp only [join, toNat_lower]
        omega

theorem pairwise_addTo {r : CharRun} {runs : List CharRun} (h : runs.Pairwise Before) :
    (r.addTo runs).Pairwise Before := by
  induction runs generalizing r with
  | nil => simp [addTo]
  | cons u rest ih =>
    rw [List.pairwise_cons] at h
    unfold addTo
    split
    · next hru =>
      refine List.pairwise_cons.2 ⟨fun s hs => ?_, List.pairwise_cons.2 h⟩
      rcases List.mem_cons.1 hs with rfl | hs
      · exact hru
      · have := h.1 s hs
        have := u.ordered
        unfold Before at *
        omega
    · split
      · next hur => exact List.pairwise_cons.2 ⟨before_of_mem_addTo hur h.1, ih h.2⟩
      · exact ih h.2

theorem contains_single (c d : Char) : (single c).contains d = (d == c) := by
  rw [Bool.eq_iff_iff, beq_iff_eq]
  show (c.toNat ≤ d.toNat && d.toNat ≤ c.toNat) = true ↔ d = c
  rw [Bool.and_eq_true, decide_eq_true_eq, decide_eq_true_eq]
  constructor
  · intro h
    exact Char.toNat_inj.1 (Nat.le_antisymm h.2 h.1)
  · rintro rfl
    exact ⟨Nat.le_refl _, Nat.le_refl _⟩

theorem contains_join {r s : CharRun} (hrs : ¬ r.Before s) (hsr : ¬ s.Before r) (c : Char) :
    (r.join s hrs hsr).contains c = (r.contains c || s.contains c) := by
  have h₁ := r.ordered
  have h₂ := s.ordered
  have hc := c.valid
  rw [Bool.eq_iff_iff, Bool.or_eq_true]
  unfold Before at hrs hsr
  simp only [contains, join, toNat_lower, toNat_higher, Bool.and_eq_true, decide_eq_true_eq]
  omega

theorem any_contains_addTo (r : CharRun) (runs : List CharRun) (c : Char) :
    (r.addTo runs).any (·.contains c) = (r.contains c || runs.any (·.contains c)) := by
  induction runs generalizing r with
  | nil => rfl
  | cons s rest ih =>
    unfold addTo
    split
    · rfl
    · split
      · simp only [List.any_cons, ih]
        exact Bool.or_left_comm ..
      · simp only [List.any_cons, ih, contains_join, Bool.or_assoc]

end CharRun

/-- A set of characters, to be read as its complement if it is negated. -/
@[ext] structure CharSet where
  negated : Bool
  runs : List CharRun
  apart : runs.Pairwise CharRun.Before
deriving DecidableEq

namespace CharSet

def empty (negated : Bool) : CharSet :=
  ⟨negated, [], List.Pairwise.nil⟩

def insertRun (set : CharSet) (r : CharRun) : CharSet :=
  ⟨set.negated, r.addTo set.runs, CharRun.pairwise_addTo set.apart⟩

def insert (set : CharSet) (c : Char) : CharSet :=
  set.insertRun (CharRun.single c)

def belowSurrogates : Char := '\uD7FF'

def aboveSurrogates : Char := '\uE000'

/-- Lists every character between the two given ones as well, these included; they may be given
in either order. -/
def insertRange (set : CharSet) (a b : Char) : CharSet :=
  let lo := CharRun.lower a b
  let hi := CharRun.higher a b
  have hle : lo.toNat ≤ hi.toNat := by
    rw [CharRun.toNat_lower, CharRun.toNat_higher]
    omega
  if h : hi.toNat < 0xD800 ∨ 0xDFFF < lo.toNat then
    set.insertRun ⟨lo, hi, hle, h⟩
  else
    have hlo : lo.toNat < 0xD800 :=
      (CharRun.oneSided_char lo).resolve_right fun hv => h (.inr hv)
    have hhi : 0xDFFF < hi.toNat :=
      (CharRun.oneSided_char hi).resolve_left fun hv => h (.inl hv)
    (set.insertRun ⟨lo, belowSurrogates, Nat.le_of_lt_succ hlo, .inl (by decide)⟩).insertRun
      ⟨aboveSurrogates, hi, hhi, .inr (by decide)⟩

def insertAll (set : CharSet) (cs : List Char) : CharSet :=
  cs.foldl insert set

def ofList (cs : List Char) : CharSet :=
  (empty false).insertAll cs

def ofRange (a b : Char) : CharSet :=
  (empty false).insertRange a b

/-- `c` is listed in the set, whether it is negated or not. -/
def contains (set : CharSet) (c : Char) : Bool :=
  set.runs.any (·.contains c)

/-- `c` belongs to the class that the set describes. -/
def matchesChar (set : CharSet) (c : Char) : Bool :=
  set.contains c != set.negated

def size (set : CharSet) : Nat :=
  set.runs.foldr (fun r n => r.size + n) 0

def isEmpty (set : CharSet) : Bool :=
  set.runs.isEmpty

/-- The listed characters in the order of their code points. -/
def toList (set : CharSet) : List Char :=
  set.runs.flatMap fun r => (List.range r.size).map fun i => Char.ofNat (r.lo.toNat + i)

/-- The character at the next code point. There is none after the last character below the
surrogates and after the last one of all. -/
def nextChar? (c : Char) : Option Char :=
  if (c.toNat + 1).isValidChar then some (Char.ofNat (c.toNat + 1)) else none

/-- Lets the last range, which is the head, go on with the character if it comes next; otherwise the
character begins a range. -/
def collect (ranges : List (Char × Char)) (c : Char) : List (Char × Char) :=
  match ranges with
  | [] => [(c, c)]
  | (lo, hi) :: rest =>
    if nextChar? hi = some c then (lo, c) :: rest else (c, c) :: (lo, hi) :: rest

/-- The listed characters collapsed into ranges, each given by its first and its last character. -/
def ranges (set : CharSet) : List (Char × Char) :=
  (set.toList.foldl collect []).reverse

theorem nextChar?_eq_some_iff {c d : Char} : nextChar? c = some d ↔ d.toNat = c.toNat + 1 := by
  unfold nextChar?
  split
  · next hvalid =>
    have hnext : (Char.ofNat (c.toNat + 1)).toNat = c.toNat + 1 := by
      rw [Char.ofNat, dif_pos hvalid]
      rfl
    rw [Option.some.injEq, ← Char.toNat_inj, hnext, eq_comm]
  · next hvalid =>
    constructor
    · intro h
      cases h
    · intro h
      exact (hvalid (h ▸ d.valid)).elim

example : nextChar? '\uD7FF' = none ∧ nextChar? (Char.ofNat 0x10FFFF) = none := by
  decide

/-! ### What is listed -/

@[simp] theorem contains_empty (negated : Bool) (c : Char) : (empty negated).contains c = false :=
  rfl

theorem contains_insertRun (set : CharSet) (r : CharRun) (c : Char) :
    (set.insertRun r).contains c = (r.contains c || set.contains c) :=
  CharRun.any_contains_addTo r set.runs c

theorem contains_insert (set : CharSet) (c d : Char) :
    (set.insert c).contains d = (d == c || set.contains d) := by
  rw [insert, contains_insertRun, CharRun.contains_single]

theorem contains_insertRange (set : CharSet) (a b c : Char) :
    (set.insertRange a b).contains c =
      ((min a.toNat b.toNat ≤ c.toNat && c.toNat ≤ max a.toNat b.toNat) || set.contains c) := by
  have ha := CharRun.oneSided_char a
  have hb := CharRun.oneSided_char b
  have hc := CharRun.oneSided_char c
  unfold insertRange
  simp only
  split
  · rw [contains_insertRun, ← CharRun.toNat_lower, ← CharRun.toNat_higher]
    rfl
  · next h =>
    rw [contains_insertRun, contains_insertRun, ← Bool.or_assoc]
    congr 1
    have hlo := CharRun.toNat_lower a b
    have hhi := CharRun.toNat_higher a b
    rw [hlo, hhi] at h
    rw [Bool.eq_iff_iff, Bool.or_eq_true]
    simp only [CharRun.contains, CharRun.toNat_lower, CharRun.toNat_higher, Bool.and_eq_true,
      decide_eq_true_eq]
    have h₁ : belowSurrogates.toNat = 0xD7FF := rfl
    have h₂ : aboveSurrogates.toNat = 0xE000 := rfl
    omega

theorem contains_insertAll (set : CharSet) (cs : List Char) (d : Char) :
    (set.insertAll cs).contains d = (cs.contains d || set.contains d) := by
  unfold insertAll
  induction cs generalizing set with
  | nil => rfl
  | cons c cs ih =>
    rw [List.foldl_cons, ih, contains_insert, List.contains_cons, ← Bool.or_assoc,
      Bool.or_comm (cs.contains d)]

end CharSet

end ReductionGrammar
