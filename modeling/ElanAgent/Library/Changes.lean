import Mathlib.Data.Finset.Insert
import Mathlib.Data.Finset.Erase

/-!
# Changes of a set, one element at a time

A stream of additions and deletions is in step with a set if no change is idle: each
addition is of an absent element, each deletion of a present one. Replaying a stream
fails at the first change that is not.
-/

namespace ElanAgent

variable {α : Type} [DecidableEq α]

inductive Change (α : Type) where
  | delete (a : α)
  | add (a : α)
  deriving DecidableEq, Repr

def Change.apply (s : Finset α) : Change α → Option (Finset α)
  | .delete a => if a ∈ s then some (s.erase a) else none
  | .add a => if a ∈ s then none else some (insert a s)

/-- The set after the changes, in order, if none of them is idle. -/
def replay (s : Finset α) (changes : List (Change α)) : Option (Finset α) :=
  changes.foldlM Change.apply s

theorem replay_append (s : Finset α) (changes more : List (Change α)) :
    replay s (changes ++ more) = (replay s changes).bind fun t => replay t more :=
  List.foldlM_append

theorem replay_delete {s t : Finset α} {changes : List (Change α)} (h : replay s changes = some t)
    {a : α} (ha : a ∈ t) : replay s (changes ++ [.delete a]) = some (t.erase a) := by
  rw [replay_append, h]
  simp [replay, Change.apply, ha]

theorem replay_add {s t : Finset α} {changes : List (Change α)} (h : replay s changes = some t)
    {a : α} (ha : a ∉ t) : replay s (changes ++ [.add a]) = some (insert a t) := by
  rw [replay_append, h]
  simp [replay, Change.apply, ha]

end ElanAgent
