import Mathlib.Algebra.BigOperators.Group.List.Basic
import Mathlib.Algebra.Ring.Int.Defs

/-!
# Chains of an operator

A row of numbers with operators between them falls into the chains of one of the operators: the
longest parts that only this operator joins. Reducing the operator from the left wherever it stands
leaves one number for every chain.
-/

namespace ReductionGrammar.Arithmetic

inductive Operator where
  | plus
  | times
deriving DecidableEq

namespace Operator

def other : Operator → Operator
  | plus => times
  | times => plus

def onInt : Operator → Int → Int → Int
  | plus => (· + ·)
  | times => (· * ·)

def ofChain : Operator → List Int → Int
  | plus => List.sum
  | times => List.prod

theorem eq_other {o o' : Operator} (h : o' ≠ o) : o' = o.other := by
  cases o with
  | plus =>
    cases o' with
    | plus => exact absurd rfl h
    | times => rfl
  | times =>
    cases o' with
    | plus => rfl
    | times => exact absurd rfl h

theorem ofChain_singleton (o : Operator) (v : Int) : o.ofChain [v] = v := by
  cases o <;> simp [ofChain]

theorem ofChain_onInt (o : Operator) (u v : Int) (vs : List Int) :
    o.ofChain (o.onInt u v :: vs) = o.ofChain (u :: v :: vs) := by
  cases o with
  | plus => simp [ofChain, onInt, Int.add_assoc]
  | times => simp [ofChain, onInt, Int.mul_assoc]

end Operator

/-- The chains of the operator in a number and those after it, each with the operator before it. -/
def chains (o : Operator) : Int → List (Operator × Int) → List (List Int)
  | v, [] => [[v]]
  | v, (o', w) :: rest =>
    if o' = o then (chains o w rest).modifyHead (v :: ·) else [v] :: chains o w rest

/-- The row after the operator was reduced wherever it stands, from the left. -/
def contract (o : Operator) : Int → List (Operator × Int) → Int × List (Operator × Int)
  | v, [] => (v, [])
  | v, (o', w) :: rest =>
    if o' = o then contract o (o.onInt v w) rest
    else (v, (o', (contract o w rest).1) :: (contract o w rest).2)

theorem exists_chains (o : Operator) (rest : List (Operator × Int)) :
    ∃ first others, ∀ v, chains o v rest = (v :: first) :: others := by
  induction rest with
  | nil => exact ⟨[], [], fun v => rfl⟩
  | cons x rest ih =>
    obtain ⟨first, others, hchains⟩ := ih
    by_cases hx : x.1 = o
    · exact ⟨x.2 :: first, others, fun v => by simp [chains, hx, hchains]⟩
    · exact ⟨[], (x.2 :: first) :: others, fun v => by simp [chains, hx, hchains]⟩

theorem values_contract (o : Operator) (v : Int) (rest : List (Operator × Int)) :
    (contract o v rest).1 :: (contract o v rest).2.map Prod.snd =
      (chains o v rest).map o.ofChain := by
  induction rest generalizing v with
  | nil => simp [contract, chains, o.ofChain_singleton]
  | cons x rest ih =>
    obtain ⟨o', w⟩ := x
    obtain ⟨first, others, hchains⟩ := exists_chains o rest
    unfold contract chains
    by_cases ho : o' = o
    · rw [if_pos ho, if_pos ho, ih, hchains, hchains, List.modifyHead_cons, List.map_cons,
        List.map_cons, o.ofChain_onInt]
    · rw [if_neg ho, if_neg ho, List.map_cons, List.map_cons, o.ofChain_singleton, ih]

theorem operators_contract (o : Operator) (v : Int) (rest : List (Operator × Int)) :
    ∀ x ∈ (contract o v rest).2, x.1 = o.other := by
  induction rest generalizing v with
  | nil => simp [contract]
  | cons x rest ih =>
    unfold contract
    by_cases ho : x.1 = o
    · rw [if_pos ho]
      exact ih _
    · rw [if_neg ho]
      exact List.forall_mem_cons.2 ⟨Operator.eq_other ho, ih _⟩

/-- Every number but those that are left was taken by one reduction. -/
theorem length_contract (o : Operator) (v : Int) (rest : List (Operator × Int)) :
    (contract o v rest).2.length + rest.countP (·.1 = o) = rest.length := by
  induction rest generalizing v with
  | nil => rfl
  | cons x rest ih =>
    unfold contract
    by_cases ho : x.1 = o
    · have hrest := ih (o.onInt v x.2)
      simp [ho]
      omega
    · have hrest := ih x.2
      simp [ho]
      omega

/-- If only the operator stands there, it makes one chain of the whole row. -/
theorem chains_of_forall {o : Operator} {rest : List (Operator × Int)} (h : ∀ x ∈ rest, x.1 = o)
    (v : Int) : chains o v rest = [v :: rest.map Prod.snd] := by
  induction rest generalizing v with
  | nil => rfl
  | cons x rest ih =>
    obtain ⟨hx, hrest⟩ := List.forall_mem_cons.1 h
    simp [chains, hx, ih hrest]

/-- Reducing one operator and then the other leaves one number: the chains of the first, each by
itself, and then their results joined by the second. -/
theorem contract_contract (o : Operator) (v : Int) (rest : List (Operator × Int)) :
    contract o.other (contract o v rest).1 (contract o v rest).2 =
      (o.other.ofChain ((chains o v rest).map o.ofChain), []) := by
  have hoperators := operators_contract o v rest
  have hvalues := values_contract o.other (contract o v rest).1 (contract o v rest).2
  rw [chains_of_forall hoperators, List.map_singleton, values_contract o v rest] at hvalues
  obtain ⟨hfirst, hrest⟩ := List.cons.inj hvalues
  exact Prod.ext hfirst (List.map_eq_nil_iff.1 hrest)

end ReductionGrammar.Arithmetic
