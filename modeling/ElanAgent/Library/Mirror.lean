import Mathlib.Data.Finset.SDiff
import Mathlib.Data.Set.Basic

/-!
# A set that is changed by differences

A program that cannot read a set back keeps a copy of it, and changes the set by the
difference between what it wants and what the copy holds. The set becomes what is wanted
up to its stale elements, those that the copy lacks.
-/

namespace ElanAgent

/-- A set, and the copy that the program keeps of it. -/
structure Mirror (α : Type) where
  copy : Finset α
  actual : Set α

namespace Mirror

variable {α : Type} [DecidableEq α] (m : Mirror α)

/-- Take away what is too much in the copy, then add what is missing in it. -/
def program (wanted : Finset α) : Mirror α where
  copy := wanted
  actual := m.actual \ ↑(m.copy \ wanted) ∪ ↑(wanted \ m.copy)

/-- The copy is that of a program that has just started. -/
def forget : Mirror α := { m with copy := ∅ }

/-- The set has nothing that the copy lacks, and the copy nothing that the set lacks. -/
def Exact : Prop := m.actual = ↑m.copy

/-- The copy has nothing that the set lacks. -/
def Contains : Prop := ↑m.copy ⊆ m.actual

variable {m} {wanted : Finset α}

omit [DecidableEq α] in
theorem Exact.contains (h : m.Exact) : m.Contains := h.symm.subset

omit [DecidableEq α] in
theorem contains_forget : m.forget.Contains := by simp [forget, Contains]

/-- What is wanted is there afterwards, and so is what was there unknown to the copy. -/
theorem program_actual (h : m.Contains) :
    (m.program wanted).actual = ↑wanted ∪ m.actual \ ↑m.copy := by
  ext a
  have known : a ∈ m.copy → a ∈ m.actual := fun ha => h (Finset.mem_coe.mpr ha)
  simp only [program, Set.mem_union, Set.mem_sdiff, Finset.mem_coe, Finset.mem_sdiff]
  tauto

theorem contains_program (h : m.Contains) : (m.program wanted).Contains := by
  rw [Contains, program_actual h]
  exact Set.subset_union_left

/-- The set becomes what is wanted if nothing else is in it that the copy lacks. -/
theorem exact_program (h : m.Contains) (stale : m.actual \ ↑m.copy ⊆ ↑wanted) :
    (m.program wanted).Exact := by
  rw [Exact, program_actual h]
  exact Set.union_eq_self_of_subset_right stale

theorem Exact.program (h : m.Exact) : (m.program wanted).Exact := by
  refine exact_program h.contains ?_
  rw [h, Set.sdiff_self]
  exact Set.empty_subset _

end Mirror

end ElanAgent
