import Mathlib.Data.List.Basic

/-! The abstract bounded queue. A value is a list with the proof that it fits,
so an overfull queue cannot be built; `offer` and `discard` are total. -/

namespace AvrBridge.Fifo

universe u

/-- At most `cap` elements, oldest first. -/
@[ext] structure BoundedFifo (α : Type u) (cap : Nat) where
  items : List α
  bound : items.length ≤ cap

namespace BoundedFifo

variable {α : Type u} {cap : Nat}

def empty : BoundedFifo α cap := ⟨[], Nat.zero_le _⟩

/-- Number of elements that still fit. -/
def room (q : BoundedFifo α cap) : Nat := cap - q.items.length

/-- Append the longest prefix of `xs` that fits. -/
def offer (q : BoundedFifo α cap) (xs : List α) : BoundedFifo α cap :=
  ⟨q.items ++ xs.take q.room, by
    have := q.bound
    simp only [List.length_append, List.length_take, room]
    omega⟩

/-- Drop the `n` oldest elements. -/
def discard (q : BoundedFifo α cap) (n : Nat) : BoundedFifo α cap :=
  ⟨q.items.drop n, by have := q.bound; rw [List.length_drop]; omega⟩

@[simp] theorem items_offer (q : BoundedFifo α cap) (xs : List α) :
    (q.offer xs).items = q.items ++ xs.take q.room := rfl

@[simp] theorem items_discard (q : BoundedFifo α cap) (n : Nat) :
    (q.discard n).items = q.items.drop n := rfl

end BoundedFifo

end AvrBridge.Fifo
