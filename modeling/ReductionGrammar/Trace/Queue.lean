/-!
# Queues

A queue in two lists: elements leave at the front of the first one and arrive at the front of the
second one, which is turned around when the first one is used up. The view `toList` gives the
elements oldest first, and each operation is one equation about it.
-/

namespace ReductionGrammar

/-- Elements in the order of their arrival. -/
structure Queue (α : Type) where
  /-- Oldest first. -/
  older : List α
  /-- Newest first; all of them arrived after those in `older`. -/
  newer : List α
  size : Nat
  size_eq : size = older.length + newer.length

namespace Queue

variable {α : Type}

def empty : Queue α :=
  ⟨[], [], 0, rfl⟩

def toList (q : Queue α) : List α :=
  q.older ++ q.newer.reverse

def push (q : Queue α) (a : α) : Queue α :=
  ⟨q.older, a :: q.newer, q.size + 1, by rw [q.size_eq, List.length_cons]; omega⟩

def dropOldest : Queue α → Queue α
  | ⟨_ :: rest, newer, size, h⟩ =>
    ⟨rest, newer, size - 1, by rw [List.length_cons] at h; omega⟩
  | ⟨[], newer, size, h⟩ =>
    ⟨newer.reverse.tail, [], size - 1, by
      simp only [List.length_nil, List.length_tail, List.length_reverse] at h ⊢
      omega⟩

@[simp] theorem toList_empty : (empty : Queue α).toList = [] :=
  rfl

@[simp] theorem toList_push (q : Queue α) (a : α) : (q.push a).toList = q.toList ++ [a] := by
  simp only [toList, push, List.reverse_cons, List.append_assoc]

@[simp] theorem toList_dropOldest (q : Queue α) : q.dropOldest.toList = q.toList.tail := by
  obtain ⟨older, newer, size, h⟩ := q
  cases older with
  | nil => simp only [dropOldest, toList, List.nil_append, List.reverse_nil, List.append_nil]
  | cons a rest => rfl

theorem length_toList (q : Queue α) : q.toList.length = q.size := by
  rw [q.size_eq, toList, List.length_append, List.length_reverse]

end Queue

end ReductionGrammar
