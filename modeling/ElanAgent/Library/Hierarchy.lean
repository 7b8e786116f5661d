import Mathlib.Order.UpperLower.Basic

/-!
# Partial maps on a hierarchy

Objects are ordered by inclusion, a parent below its children. A partial map gives
a value to the objects that exist. `cover o v` gives a value to `o` and everything
it lies under; `prune o` takes the value away from `o` and everything under it.

The objects that exist form a lower set when no object exists without its parents.
Both operations keep that, whatever the order.
-/

namespace ElanAgent.Hierarchy

variable {α β : Type*} [Preorder α] [DecidableLE α]

/-- The objects that have a value. -/
def support (f : α → Option β) : Set α := {x | f x ≠ none}

/-- Give `o` and its ancestors the value that `v` has for them. -/
def cover (o : α) (v : α → β) (f : α → Option β) : α → Option β :=
  fun x => if x ≤ o then some (v x) else f x

/-- Take the value away from `o` and its descendants. -/
def prune (o : α) (f : α → Option β) : α → Option β :=
  fun x => if o ≤ x then none else f x

omit [Preorder α] [DecidableLE α] in
@[simp] theorem mem_support {f : α → Option β} {x : α} : x ∈ support f ↔ f x ≠ none := Iff.rfl

theorem support_cover (o : α) (v : α → β) (f : α → Option β) :
    support (cover o v f) = Set.Iic o ∪ support f := by
  ext x
  by_cases hx : x ≤ o <;> simp [cover, hx]

theorem support_prune (o : α) (f : α → Option β) :
    support (prune o f) = support f \ Set.Ici o := by
  ext x
  by_cases hx : o ≤ x <;> simp [prune, hx]

theorem lower_cover {f : α → Option β} (h : IsLowerSet (support f)) (o : α) (v : α → β) :
    IsLowerSet (support (cover o v f)) := by
  rw [support_cover]
  exact (isLowerSet_Iic o).union h

theorem lower_prune {f : α → Option β} (h : IsLowerSet (support f)) (o : α) :
    IsLowerSet (support (prune o f)) := by
  rw [support_prune]
  intro x y hyx hx
  exact ⟨h hyx hx.1, fun hy => hx.2 (le_trans hy hyx)⟩

theorem prune_of_le {o x : α} (h : o ≤ x) (f : α → Option β) : prune o f x = none := if_pos h

theorem prune_of_not_le {o x : α} (h : ¬ o ≤ x) (f : α → Option β) : prune o f x = f x := if_neg h

theorem cover_of_le {o x : α} (h : x ≤ o) (v : α → β) (f : α → Option β) :
    cover o v f x = some (v x) := if_pos h

theorem cover_of_not_le {o x : α} (h : ¬ x ≤ o) (v : α → β) (f : α → Option β) :
    cover o v f x = f x := if_neg h

end ElanAgent.Hierarchy
