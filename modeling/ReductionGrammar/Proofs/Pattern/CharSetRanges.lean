import Mathlib.Data.List.Chain
import Mathlib.Data.Set.Card
import ReductionGrammar.Proofs.Pattern.Reads

/-!
# The ranges of a set of characters

However a set has come about, it lists the characters that were brought in and no others, in order,
and its size is their number. Collapsing the list keeps the ranges of the characters so far, so it
ends with the one way to cover all of them by as few ranges as can be, in order, when no range may
go over the surrogates. These are the ends of the runs that the set keeps, and they tell sets apart.
-/

namespace ReductionGrammar

open Written

/-! ### Runs as lists of characters -/

namespace CharRun

def ends (r : CharRun) : Char × Char :=
  (r.lo, r.hi)

def toList (r : CharRun) : List Char :=
  (List.range r.size).map fun i => Char.ofNat (r.lo.toNat + i)

instance : Trans Before Before Before where
  trans {r s t} hrs hst := by
    have hs := s.ordered
    unfold Before at *
    omega

theorem toNat_ofNat_add {r : CharRun} {i : Nat} (hi : i < r.size) :
    (Char.ofNat (r.lo.toNat + i)).toNat = r.lo.toNat + i := by
  unfold size at hi
  exact toNat_ofNat (r := r) (by omega) (by omega)

theorem mem_toList (r : CharRun) (c : Char) : c ∈ r.toList ↔ r.contains c = true := by
  rw [contains_iff, toList, List.mem_map]
  constructor
  · rintro ⟨i, hi, rfl⟩
    rw [List.mem_range] at hi
    rw [toNat_ofNat_add hi]
    unfold size at hi
    omega
  · rintro ⟨hlo, hhi⟩
    refine ⟨c.toNat - r.lo.toNat, ?_, ?_⟩
    · rw [List.mem_range, size]
      omega
    · rw [Nat.add_sub_cancel' hlo, Char.ofNat_toNat]

theorem length_toList (r : CharRun) : r.toList.length = r.size := by
  rw [toList, List.length_map, List.length_range]

theorem pairwise_toList (r : CharRun) : r.toList.Pairwise fun c d => c.toNat < d.toNat := by
  refine List.pairwise_map.2 (List.pairwise_lt_range.imp_of_mem fun {i j} hi hj hij => ?_)
  rw [toNat_ofNat_add (List.mem_range.1 hi), toNat_ofNat_add (List.mem_range.1 hj)]
  omega

/-- A pair of characters in order and on one side of the surrogates is a run. -/
theorem exists_ends {p : Char × Char} (hordered : p.1.toNat ≤ p.2.toNat)
    (hside : ¬(p.1.toNat ≤ 0xD7FF ∧ 0xE000 ≤ p.2.toNat)) : ∃ r : CharRun, r.ends = p := by
  have hlo := oneSided_char p.1
  have hhi := oneSided_char p.2
  exact ⟨⟨p.1, p.2, hordered, by omega⟩, rfl⟩

end CharRun

namespace CharSet

/-! ### The number of listed characters -/

theorem mem_toList (set : CharSet) (c : Char) : c ∈ set.toList ↔ set.contains c = true := by
  have hruns : c ∈ set.toList ↔ ∃ r ∈ set.runs, c ∈ r.toList := List.mem_flatMap
  rw [hruns, contains, List.any_eq_true]
  simp only [CharRun.mem_toList]

/-- The characters are listed in the order of their code points. -/
theorem pairwise_toList (set : CharSet) : set.toList.Pairwise fun c d => c.toNat < d.toNat := by
  refine List.pairwise_flatMap.2 ⟨fun r _ => r.pairwise_toList, ?_⟩
  refine set.apart.imp fun {r s} hbefore c hc d hd => ?_
  have hc' := (r.contains_iff c).1 ((r.mem_toList c).1 hc)
  have hd' := (s.contains_iff d).1 ((s.mem_toList d).1 hd)
  unfold CharRun.Before at hbefore
  omega

theorem length_toList (set : CharSet) : set.toList.length = set.size := by
  have hruns : ∀ runs : List CharRun,
      (runs.flatMap CharRun.toList).length = runs.foldr (fun r n => r.size + n) 0 := by
    intro runs
    induction runs with
    | nil => rfl
    | cons r runs ih =>
      rw [List.flatMap_cons, List.length_append, r.length_toList, ih, List.foldr_cons]
  exact hruns set.runs

theorem encard_contains (set : CharSet) : {c | set.contains c = true}.encard = set.size := by
  have hlisted : {c | set.contains c = true} = ↑set.toList.toFinset := by
    ext c
    rw [Set.mem_ofPred_eq, Finset.mem_coe, List.mem_toFinset, mem_toList]
  have hnodup : set.toList.Nodup := set.pairwise_toList.imp fun {c d} hlt heq => by
    rw [heq] at hlt
    exact Nat.lt_irrefl _ hlt
  rw [hlisted, Set.encard_coe_eq_coe_finsetCard, List.toFinset_card_of_nodup hnodup, length_toList]

/-! ### Ranges -/

/-- The pairs are the ranges of the characters with the property: each goes from its first
character up to its last one without going over the surrogates, together they cover these
characters and no others, and each ends before the next one begins and is not continued by it. -/
structure AreRanges (p : Char → Prop) (pairs : List (Char × Char)) : Prop where
  ordered : ∀ r ∈ pairs, r.1.toNat ≤ r.2.toNat
  oneSided : ∀ r ∈ pairs, ¬(r.1.toNat ≤ 0xD7FF ∧ 0xE000 ≤ r.2.toNat)
  covers : ∀ c, p c ↔ ∃ r ∈ pairs, r.1.toNat ≤ c.toNat ∧ c.toNat ≤ r.2.toNat
  separate : pairs.IsChain fun r s => r.2.toNat < s.1.toNat ∧ r.2.toNat + 1 ≠ s.1.toNat

/-! ### Collapsing characters -/

section Collect

variable {cs : List Char} {rs : List (Char × Char)} {c : Char}

theorem areRanges_reverse {p : Char → Prop} :
    AreRanges p rs.reverse ↔ (∀ r ∈ rs, r.1.toNat ≤ r.2.toNat) ∧
      (∀ r ∈ rs, ¬(r.1.toNat ≤ 0xD7FF ∧ 0xE000 ≤ r.2.toNat)) ∧
      (∀ c, p c ↔ ∃ r ∈ rs, r.1.toNat ≤ c.toNat ∧ c.toNat ≤ r.2.toNat) ∧
      rs.IsChain fun s r => r.2.toNat < s.1.toNat ∧ r.2.toNat + 1 ≠ s.1.toNat := by
  rw [← List.isChain_reverse]
  constructor
  · rintro ⟨hordered, hside, hcovers, hseparate⟩
    simp only [List.mem_reverse] at hordered hside hcovers
    exact ⟨hordered, hside, hcovers, hseparate⟩
  · rintro ⟨hordered, hside, hcovers, hseparate⟩
    exact ⟨by simpa using hordered, by simpa using hside, by simpa using hcovers, hseparate⟩

theorem AreRanges.extendLast {lo hi : Char} (h : AreRanges (· ∈ cs) ((lo, hi) :: rs).reverse)
    (hnext : c.toNat = hi.toNat + 1) : AreRanges (· ∈ cs ++ [c]) ((lo, c) :: rs).reverse := by
  rw [areRanges_reverse] at h ⊢
  simp only [List.forall_mem_cons, List.exists_mem_cons_iff, List.isChain_cons] at h ⊢
  obtain ⟨⟨hordered, hrest⟩, ⟨hside, hsides⟩, hcovers, hseparate⟩ := h
  -- the next code point is that of a character, so it is on the same side of the surrogates
  have hhi := CharRun.oneSided_char hi
  refine ⟨⟨by omega, hrest⟩, ⟨by omega, hsides⟩, fun d => ?_, hseparate⟩
  have hgrown : lo.toNat ≤ d.toNat ∧ d.toNat ≤ c.toNat ↔
      (lo.toNat ≤ d.toNat ∧ d.toNat ≤ hi.toNat) ∨ d = c := by
    rw [← Char.toNat_inj]
    omega
  rw [List.mem_append, List.mem_singleton, hcovers, hgrown, or_right_comm]

theorem AreRanges.addSingle (h : AreRanges (· ∈ cs) rs.reverse)
    (hgap : ∀ r ∈ rs.head?, r.2.toNat < c.toNat ∧ r.2.toNat + 1 ≠ c.toNat) :
    AreRanges (· ∈ cs ++ [c]) ((c, c) :: rs).reverse := by
  rw [areRanges_reverse] at h ⊢
  simp only [List.forall_mem_cons, List.exists_mem_cons_iff, List.isChain_cons]
  obtain ⟨hordered, hsides, hcovers, hseparate⟩ := h
  refine ⟨⟨Nat.le_refl _, hordered⟩, ⟨by omega, hsides⟩, fun d => ?_, hgap, hseparate⟩
  have hsingle : c.toNat ≤ d.toNat ∧ d.toNat ≤ c.toNat ↔ d = c := by
    rw [← Char.toNat_inj]
    omega
  rw [List.mem_append, List.mem_singleton, hcovers, hsingle, or_comm]

/-- The ranges of some characters, the last one at the head, become those of one more character that
comes later than all of them. -/
theorem AreRanges.concat (h : AreRanges (· ∈ cs) rs.reverse)
    (hlast : ∀ d ∈ cs, d.toNat < c.toNat) : AreRanges (· ∈ cs ++ [c]) (collect rs c).reverse := by
  cases rs with
  | nil => exact h.addSingle (by simp)
  | cons r rest =>
    obtain ⟨lo, hi⟩ := r
    have hmem : (lo, hi) ∈ ((lo, hi) :: rest).reverse := List.mem_reverse.2 (List.mem_cons_self ..)
    have hlt : hi.toNat < c.toNat :=
      hlast hi ((h.covers hi).2 ⟨(lo, hi), hmem, h.ordered _ hmem, Nat.le_refl _⟩)
    by_cases hnext : nextChar? hi = some c
    · have hcollect : collect ((lo, hi) :: rest) c = (lo, c) :: rest := if_pos hnext
      rw [hcollect]
      exact h.extendLast (nextChar?_eq_some_iff.1 hnext)
    · have hcollect : collect ((lo, hi) :: rest) c = (c, c) :: (lo, hi) :: rest := if_neg hnext
      rw [hcollect]
      refine h.addSingle ?_
      rintro r hr
      cases hr
      exact ⟨hlt, fun heq => hnext (nextChar?_eq_some_iff.2 heq.symm)⟩

/-- Characters in order are collapsed into their ranges. -/
theorem areRanges_collect {cs : List Char} (h : cs.Pairwise fun c d => c.toNat < d.toNat) :
    AreRanges (· ∈ cs) (cs.foldl collect []).reverse := by
  induction cs using List.reverseRecOn with
  | nil => exact ⟨by simp, by simp, by simp, .nil⟩
  | append_singleton cs c ih =>
    obtain ⟨hcs, -, hlast⟩ := List.pairwise_append.1 h
    rw [List.foldl_append]
    exact (ih hcs).concat fun d hd => hlast d hd c (List.mem_singleton_self c)

end Collect

theorem areRanges_ranges (set : CharSet) : AreRanges (set.contains · = true) set.ranges := by
  have hlisted : (· ∈ set.toList) = (set.contains · = true) :=
    funext fun c => propext (set.mem_toList c)
  rw [← hlisted]
  exact areRanges_collect set.pairwise_toList

/-! ### Ranges and runs -/

theorem covers_ends (runs : List CharRun) (c : Char) :
    (∃ r ∈ runs.map CharRun.ends, r.1.toNat ≤ c.toNat ∧ c.toNat ≤ r.2.toNat) ↔
      runs.any (·.contains c) = true := by
  simp only [List.mem_map, exists_exists_and_eq_and, List.any_eq_true, CharRun.contains_iff,
    CharRun.ends]

theorem areRanges_ends (set : CharSet) :
    AreRanges (set.contains · = true) (set.runs.map CharRun.ends) where
  ordered := by
    rw [List.forall_mem_map]
    exact fun r _ => r.ordered
  oneSided := by
    rw [List.forall_mem_map]
    intro r _ hboth
    have hside := r.oneSided
    simp only [CharRun.ends] at hboth
    omega
  covers c := (covers_ends set.runs c).symm
  separate := by
    rw [List.isChain_map]
    refine set.apart.isChain.imp fun r s hbefore => ?_
    unfold CharRun.Before at hbefore
    simp only [CharRun.ends]
    omega

/-- The ranges of some characters are the ends of runs with gaps between them. -/
theorem AreRanges.exists_runs {p : Char → Prop} {pairs : List (Char × Char)}
    (h : AreRanges p pairs) :
    ∃ runs : List CharRun, runs.map CharRun.ends = pairs ∧ runs.Pairwise CharRun.Before := by
  obtain ⟨runs, rfl⟩ : ∃ runs : List CharRun, runs.map CharRun.ends = pairs := by
    have hrange : pairs ∈ Set.range (List.map CharRun.ends) := by
      rw [Set.range_list_map]
      exact fun r hr => CharRun.exists_ends (h.ordered r hr) (h.oneSided r hr)
    exact hrange
  have hseparate := h.separate
  rw [List.isChain_map] at hseparate
  have hbefore : runs.IsChain CharRun.Before := by
    refine hseparate.imp fun r s hrs => ?_
    simp only [CharRun.ends] at hrs
    unfold CharRun.Before
    omega
  exact ⟨runs, rfl, hbefore.pairwise⟩

theorem AreRanges.unique {p : Char → Prop} {pairs pairs' : List (Char × Char)}
    (h : AreRanges p pairs) (h' : AreRanges p pairs') : pairs = pairs' := by
  obtain ⟨runs, rfl, hruns⟩ := h.exists_runs
  obtain ⟨runs', rfl, hruns'⟩ := h'.exists_runs
  rw [CharRun.runs_unique hruns hruns' fun c => ?_]
  rw [← covers_ends, ← covers_ends, ← h.covers, ← h'.covers]

/-- The ranges collected from the listed characters are the ends of the runs in which the set keeps
these characters. -/
theorem ranges_eq (set : CharSet) : set.ranges = set.runs.map CharRun.ends :=
  set.areRanges_ranges.unique set.areRanges_ends

theorem areRanges_iff {p : Char → Prop} {set : CharSet} (hp : ∀ c, set.contains c = true ↔ p c)
    (pairs : List (Char × Char)) : AreRanges p pairs ↔ pairs = set.ranges := by
  obtain rfl : (set.contains · = true) = p := funext fun c => propext (hp c)
  constructor
  · exact fun h => h.unique set.areRanges_ranges
  · rintro rfl
    exact set.areRanges_ranges

theorem ranges_inj {s t : CharSet} : s.ranges = t.ranges ↔ s.runs = t.runs := by
  rw [ranges_eq, ranges_eq]
  refine List.map_inj_right fun r₁ r₂ h => ?_
  injection h with hlo hhi
  exact CharRun.ext hlo hhi

/-! ### Sets that have grown -/

/-- A way to bring characters in: one of them, all between two of them, or several. -/
inductive Addition where
  | char (c : Char)
  | range (a b : Char)
  | chars (cs : List Char)

namespace Addition

def applyTo (set : CharSet) : Addition → CharSet
  | char c => set.insert c
  | range a b => set.insertRange a b
  | chars cs => set.insertAll cs

/-- The character is among those brought in. -/
def BringsIn : Addition → Char → Prop
  | char d, c => c = d
  | range a b, c => Between a b c
  | chars cs, c => c ∈ cs

theorem contains_applyTo (set : CharSet) (a : Addition) (c : Char) :
    (a.applyTo set).contains c = true ↔ set.contains c = true ∨ a.BringsIn c := by
  cases a with
  | char d =>
    rw [applyTo, contains_insert, Bool.or_eq_true, beq_iff_eq, or_comm]
    rfl
  | range a b => exact contains_insertRange_iff set a b c
  | chars cs =>
    rw [applyTo, contains_insertAll, Bool.or_eq_true, List.contains_iff_mem, or_comm]
    rfl

theorem negated_applyTo (set : CharSet) (a : Addition) :
    (a.applyTo set).negated = set.negated := by
  cases a with
  | char c => rfl
  | range a b => exact negated_insertRange set a b
  | chars cs => exact negated_insertAll set cs

end Addition

def addAll (set : CharSet) (additions : List Addition) : CharSet :=
  additions.foldl Addition.applyTo set

theorem contains_addAll (set : CharSet) (additions : List Addition) (c : Char) :
    (set.addAll additions).contains c = true ↔
      set.contains c = true ∨ ∃ a ∈ additions, a.BringsIn c := by
  induction additions generalizing set with
  | nil => simp [addAll]
  | cons a additions ih =>
    have hstep : set.addAll (a :: additions) = (a.applyTo set).addAll additions := rfl
    rw [hstep, ih, Addition.contains_applyTo, List.exists_mem_cons_iff, or_assoc]

theorem negated_addAll (set : CharSet) (additions : List Addition) :
    (set.addAll additions).negated = set.negated := by
  induction additions generalizing set with
  | nil => rfl
  | cons a additions ih => exact (ih (a.applyTo set)).trans (a.negated_applyTo set)

/-- An empty set, negated or not, lists after some additions what these brought in, in the order of
code points. The negation turns this round for the class, and the size is the number of the
characters. The ranges into which the list is collapsed are the only pairs that have the properties
of ranges of these characters, and sets that are negated alike are told apart by their ranges. -/
theorem addAll_ranges (negated : Bool) (additions : List Addition) :
    (∀ c, ((empty negated).addAll additions).contains c = true ↔
      ∃ a ∈ additions, a.BringsIn c) ∧
      (((empty negated).addAll additions).toList.Pairwise fun c d => c.toNat < d.toNat) ∧
      (∀ c, c ∈ ((empty negated).addAll additions).toList ↔ ∃ a ∈ additions, a.BringsIn c) ∧
      (∀ c, ((empty negated).addAll additions).matchesChar c =
        (((empty negated).addAll additions).contains c ^^ negated)) ∧
      {c | ∃ a ∈ additions, a.BringsIn c}.encard = ((empty negated).addAll additions).size ∧
      (∀ pairs, AreRanges (fun c => ∃ a ∈ additions, a.BringsIn c) pairs ↔
        pairs = ((empty negated).addAll additions).ranges) ∧
      ∀ s t : CharSet,
        (s = t ↔ s.negated = t.negated ∧ ∀ c, s.contains c = true ↔ t.contains c = true) ∧
        (s = t ↔ s.negated = t.negated ∧ s.ranges = t.ranges) := by
  have hcontains : ∀ c, ((empty negated).addAll additions).contains c = true ↔
      ∃ a ∈ additions, a.BringsIn c := by
    intro c
    rw [contains_addAll, contains_empty]
    simp only [Bool.false_eq_true, false_or]
  refine ⟨hcontains, pairwise_toList _, fun c => (mem_toList _ c).trans (hcontains c), ?_, ?_, ?_,
    ?_⟩
  · intro c
    rw [matchesChar, negated_addAll]
    rfl
  · simp only [← hcontains]
    exact encard_contains _
  · exact fun pairs => areRanges_iff hcontains pairs
  · intro s t
    constructor
    · constructor
      · intro heq
        rw [heq]
        exact ⟨rfl, fun c => Iff.rfl⟩
      · exact fun h => eq_of_contains_iff h.1 h.2
    · rw [ranges_inj, CharSet.ext_iff]

/-- The characters next to the surrogates stay apart. -/
example :
    ((empty true).addAll [.range '\uE000' '\uD7FF', .chars ['b', 'a'], .char 'c']).ranges =
      [('a', 'c'), ('\uD7FF', '\uD7FF'), ('\uE000', '\uE000')] := by
  decide

end CharSet

end ReductionGrammar
