import Mathlib.Data.List.Nodup
import Mathlib.Data.Set.Insert

/-!
# A choice among sets of candidates

Several ways to find a thing give a set of candidates each. What is chosen is the element of
the first set that has one element only, or else of what the sets have in common, where a way
that has found nothing is left aside. A program keeps each set as a list without duplicates.
-/

namespace ElanAgent.Candidates

variable {α : Type}

/-- The set has one element only. -/
def Single (s : Set α) : Prop := ∃ x, s = {x}

/-- The elements that are in every set, the empty ones left aside. -/
def common (sets : List (Set α)) : Set α :=
  {x | (∃ s ∈ sets, s.Nonempty) ∧ ∀ s ∈ sets, s.Nonempty → x ∈ s}

/-- What is chosen, if anything. -/
inductive Chosen (sets : List (Set α)) : Option α → Prop
  | first (before : List (Set α)) {after : List (Set α)} {x : α}
      (split : sets = before ++ {x} :: after) (earlier : ∀ s ∈ before, ¬Single s) :
      Chosen sets (some x)
  | common {x : α} (several : ∀ s ∈ sets, ¬Single s) (only : common sets = {x}) :
      Chosen sets (some x)
  | none (several : ∀ s ∈ sets, ¬Single s) (differ : ¬Single (common sets)) : Chosen sets none

/-! ## Sets that are kept as lists -/

/-- The list has each element of the set once, and no other. -/
structure Lists (l : List α) (s : Set α) : Prop where
  nodup : l.Nodup
  mem : ∀ x, x ∈ l ↔ x ∈ s

namespace Lists

variable {l : List α} {s : Set α}

theorem empty : Lists ([] : List α) ∅ := ⟨List.nodup_nil, by simp⟩

theorem nonempty (h : Lists l s) : s.Nonempty ↔ l ≠ [] := by
  constructor
  · rintro ⟨x, hx⟩
    exact List.ne_nil_of_mem ((h.mem x).mpr hx)
  · intro some
    obtain ⟨x, hx⟩ := List.exists_mem_of_ne_nil l some
    exact ⟨x, (h.mem x).mp hx⟩

theorem eq_singleton (h : Lists l s) {x : α} : s = {x} ↔ l = [x] := by
  constructor
  · intro only
    have all (y : α) (hy : y ∈ l) : y = x := by simpa [only] using (h.mem y).mp hy
    have here : x ∈ l := (h.mem x).mpr (by simp [only])
    exact List.perm_singleton.mp ((List.perm_ext_iff_of_nodup h.nodup (List.nodup_singleton x)).mpr
      fun y => ⟨fun hy => by simp [all y hy], fun hy => List.mem_singleton.mp hy ▸ here⟩)
  · rintro rfl
    ext y
    rw [← h.mem, List.mem_singleton, Set.mem_singleton_iff]

theorem single (h : Lists l s) : Single s ↔ l.length = 1 := by
  rw [List.length_eq_one_iff]
  exact exists_congr fun x => h.eq_singleton

variable {lists : List (List α)} {sets : List (Set α)}

theorem all_nodup (h : List.Forall₂ Lists lists sets) : ∀ l ∈ lists, l.Nodup := by
  induction h with
  | nil => simp
  | cons first _ ih => exact List.forall_mem_cons.mpr ⟨first.nodup, ih⟩

theorem exists_mem (h : List.Forall₂ Lists lists sets) (x : α) :
    (∃ l ∈ lists, x ∈ l) ↔ ∃ s ∈ sets, x ∈ s := by
  induction h with
  | nil => simp
  | cons first _ ih => simp [first.mem, ih]

theorem forall_mem (h : List.Forall₂ Lists lists sets) (x : α) :
    (∀ l ∈ lists, l ≠ [] → x ∈ l) ↔ ∀ s ∈ sets, s.Nonempty → x ∈ s := by
  induction h with
  | nil => simp
  | cons first _ ih =>
    rw [List.forall_mem_cons, List.forall_mem_cons, ih, first.mem, first.nonempty]

end Lists

section Intersection

variable [DecidableEq α] {lists : List (List α)} {sets : List (Set α)}

/-- What the lists have in common, found by going through them twice. -/
def intersection (lists : List (List α)) : List α :=
  lists.foldl (fun common l => if l = [] then common else common.filter (· ∈ l))
    (lists.foldl (fun union l => union.union l) [])

theorem mem_foldl_union (lists : List (List α)) (union : List α) (x : α) :
    x ∈ lists.foldl (fun union l => union.union l) union ↔ x ∈ union ∨ ∃ l ∈ lists, x ∈ l := by
  induction lists generalizing union with
  | nil => simp
  | cons l lists ih =>
    have here : x ∈ union.union l ↔ x ∈ union ∨ x ∈ l := List.mem_union_iff
    rw [List.foldl_cons, ih, here, or_assoc]
    simp

theorem nodup_foldl_union (nodup : ∀ l ∈ lists, l.Nodup) {union : List α} (h : union.Nodup) :
    (lists.foldl (fun union l => union.union l) union).Nodup := by
  induction lists generalizing union with
  | nil => exact h
  | cons l lists ih =>
    have nodup_l : l.Nodup := nodup l List.mem_cons_self
    exact ih (fun l' hl' => nodup l' (List.mem_cons_of_mem l hl')) (List.Nodup.union union nodup_l)

theorem mem_foldl_filter (lists : List (List α)) (common : List α) (x : α) :
    x ∈ lists.foldl (fun common l => if l = [] then common else common.filter (· ∈ l)) common ↔
      x ∈ common ∧ ∀ l ∈ lists, l ≠ [] → x ∈ l := by
  induction lists generalizing common with
  | nil => simp
  | cons l lists ih =>
    rw [List.foldl_cons, ih]
    by_cases empty : l = []
    · simp [empty]
    · simp [empty, and_assoc]

theorem nodup_foldl_filter (lists : List (List α)) {common : List α} (h : common.Nodup) :
    (lists.foldl (fun common l => if l = [] then common else common.filter (· ∈ l))
      common).Nodup := by
  induction lists generalizing common with
  | nil => exact h
  | cons l lists ih =>
    rw [List.foldl_cons]
    refine ih ?_
    split
    · exact h
    · exact h.filter _

/-- The lists of the sets give the list of what the sets have in common. -/
theorem Lists.intersection (h : List.Forall₂ Lists lists sets) :
    Lists (intersection lists) (common sets) := by
  constructor
  · exact nodup_foldl_filter lists (nodup_foldl_union (Lists.all_nodup h) List.nodup_nil)
  · intro x
    rw [Candidates.intersection, mem_foldl_filter, mem_foldl_union, Lists.exists_mem h,
      Lists.forall_mem h]
    constructor
    · rintro ⟨none | ⟨s, hs, hx⟩, all⟩
      · exact absurd none List.not_mem_nil
      · exact ⟨⟨s, hs, x, hx⟩, all⟩
    · rintro ⟨⟨s, hs, some⟩, all⟩
      exact ⟨.inr ⟨s, hs, all s hs some⟩, all⟩

end Intersection

end ElanAgent.Candidates
