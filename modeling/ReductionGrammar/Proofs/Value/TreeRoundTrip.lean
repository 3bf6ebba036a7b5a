import Mathlib.Data.List.Basic
import ReductionGrammar.Proofs.Number.Digits
import ReductionGrammar.Value.Tagged

/-!
# Values that come back from their trees

A tree has no number that is infinite or no number at all, so a value with such a number anywhere
inside cannot be read back from its tree; reading fails as a whole. Every other value is read back
as it was, its integers as integers and its floating-point numbers bit by bit.
-/

namespace ReductionGrammar

namespace Binary64

def isInfinite (x : Binary64) : Bool :=
  x.exponentField == topExponent && x.fractionField == 0

theorem isFinite_eq_false_iff (x : Binary64) :
    x.isFinite = false ↔ x.isNaN = true ∨ x.isInfinite = true := by
  simp only [isFinite, isNaN, isInfinite, bne_eq_false_iff_eq, Bool.and_eq_true, beq_iff_eq,
    bne_iff_ne]
  by_cases hfraction : x.fractionField = 0
  · simp only [hfraction, ne_eq, not_true_eq_false, and_false, and_true, false_or]
  · simp only [hfraction, ne_eq, not_false_eq_true, and_false, and_true, or_false]

end Binary64

namespace Value

/-- `u` is the value itself or stands inside of it, at any depth. -/
inductive Occurs (u : Value) : Value → Prop where
  | here : Occurs u u
  | item {v : Value} {items : List Value} (hv : v ∈ items) (h : Occurs u v) : Occurs u (.vec items)

theorem occurs_vec_iff {u : Value} {items : List Value} (hu : ∀ vs, u ≠ .vec vs) :
    Occurs u (.vec items) ↔ ∃ v ∈ items, Occurs u v := by
  constructor
  · intro h
    cases h with
    | here => exact absurd rfl (hu items)
    | item hv h => exact ⟨_, hv, h⟩
  · intro h
    obtain ⟨v, hv, h⟩ := h
    exact .item hv h

/-! ### Values with finite numbers only -/

mutual

def allFinite : Value → Bool
  | float x => x.isFinite
  | vec items => areFinite items
  | nil | bool _ | int _ | string _ => true

def areFinite : List Value → Bool
  | [] => true
  | v :: rest => allFinite v && areFinite rest

end

mutual

theorem allFinite_eq_false_iff : ∀ v : Value,
    v.allFinite = false ↔ ∃ x, Occurs (.float x) v ∧ x.isFinite = false
  | .nil | .bool _ | .int _ | .string _ => by
    constructor
    · intro h
      cases h
    · intro h
      obtain ⟨x, hx, -⟩ := h
      cases hx
  | .float y => by
    constructor
    · intro h
      exact ⟨y, .here, h⟩
    · intro h
      obtain ⟨x, hx, hinfinite⟩ := h
      cases hx
      exact hinfinite
  | .vec items => by
    have hitems := areFinite_eq_false_iff items
    have hoccurs : ∀ x, Occurs (.float x) (.vec items) ↔ ∃ v ∈ items, Occurs (.float x) v :=
      fun x => occurs_vec_iff fun vs => by simp
    simp only [hoccurs]
    rw [allFinite, hitems]
    constructor
    · intro h
      obtain ⟨v, hv, x, hx, hinfinite⟩ := h
      exact ⟨x, ⟨v, hv, hx⟩, hinfinite⟩
    · intro h
      obtain ⟨x, ⟨v, hv, hx⟩, hinfinite⟩ := h
      exact ⟨v, hv, x, hx, hinfinite⟩

theorem areFinite_eq_false_iff : ∀ vs : List Value,
    areFinite vs = false ↔ ∃ v ∈ vs, ∃ x, Occurs (.float x) v ∧ x.isFinite = false
  | [] => by simp [areFinite]
  | v :: rest => by
    rw [areFinite, Bool.and_eq_false_iff, allFinite_eq_false_iff v, areFinite_eq_false_iff rest,
      List.exists_mem_cons_iff]

end

/-! ### Reading trees of values -/

mutual

theorem ofTree?_toTree : ∀ v : Value,
    ofTree? v.toTree = if v.allFinite then some v else none
  | .nil | .bool _ | .string _ => rfl
  | .int n => congrArg (Option.map int) (int64?_toInt n)
  | .float x => by
    rw [toTree, allFinite]
    cases x.isFinite <;> rfl
  | .vec items => by
    have hitems : ofTree? (toTree (.vec items)) = (ofTrees? (toTrees items)).map vec := rfl
    rw [hitems, ofTrees?_toTrees items, allFinite]
    cases areFinite items <;> rfl

theorem ofTrees?_toTrees : ∀ vs : List Value,
    ofTrees? (toTrees vs) = if areFinite vs then some vs else none
  | [] => rfl
  | v :: rest => by
    rw [toTrees, ofTrees?, ofTree?_toTree v, ofTrees?_toTrees rest, areFinite]
    cases v.allFinite <;> cases areFinite rest <;> rfl

end

/-- Reading the tree of a value gives the value back exactly if no number inside is a NaN or
infinite; if one is, nothing is read. -/
theorem tree_round_trip (v : Value) :
    (ofTree? v.toTree = some v ↔
      ∀ x, Occurs (.float x) v → x.isNaN = false ∧ x.isInfinite = false) ∧
      (ofTree? v.toTree = none ↔
        ∃ x, Occurs (.float x) v ∧ (x.isNaN = true ∨ x.isInfinite = true)) := by
  have hread := ofTree?_toTree v
  have hfinite := allFinite_eq_false_iff v
  simp only [Binary64.isFinite_eq_false_iff] at hfinite
  have hall : v.allFinite = true ↔
      ∀ x, Occurs (.float x) v → x.isNaN = false ∧ x.isInfinite = false := by
    rw [← Bool.not_eq_false, hfinite]
    simp only [not_exists, not_and, not_or, Bool.not_eq_true]
  rw [← hfinite, ← hall, hread]
  cases v.allFinite <;> simp

/-- A negative zero and a whole number stay what they are. -/
example : ofTree? (toTree (.vec [.vec [.float ⟨0x8000000000000000⟩], .float ⟨0x3FF0000000000000⟩])) =
    some (.vec [.vec [.float ⟨0x8000000000000000⟩], .float ⟨0x3FF0000000000000⟩]) := by
  decide

end Value

end ReductionGrammar
