import Mathlib.Data.Finset.SDiff
import Mathlib.Logic.Function.Basic

/-!
# An index that is kept by differences

A table gives every record a set of keys, and an index leads from a key to a record. When
a record is replaced, the index drops the keys that it lost and points those that it
gained to it. What the index leads to is right ever after, but a key that two records had
is lost to the index with the first of them.
-/

namespace ElanAgent

/-- The keys of every record, none for an absent one, and where the index leads. -/
structure Index (ι κ : Type) where
  keys : ι → Finset κ
  lookup : κ → Option ι

namespace Index

variable {ι κ : Type} [DecidableEq ι] [DecidableEq κ]

/-- Give a record new keys, and change the index by the difference. -/
def replace (x : Index ι κ) (i : ι) (keys : Finset κ) : Index ι κ where
  keys := Function.update x.keys i keys
  lookup k :=
    if k ∈ x.keys i \ keys then none
    else if k ∈ keys \ x.keys i then some i
    else x.lookup k

/-- The index leads to records that have the key. -/
def Sound (x : Index ι κ) : Prop := ∀ k i, x.lookup k = some i → k ∈ x.keys i

/-- The index leads somewhere for every key that a record has. -/
def Complete (x : Index ι κ) : Prop := ∀ i k, k ∈ x.keys i → x.lookup k ≠ none

/-- No other record has a key that `i` is about to lose. -/
def Exclusive (x : Index ι κ) (i : ι) (keys : Finset κ) : Prop :=
  ∀ k ∈ x.keys i \ keys, ∀ j ≠ i, k ∉ x.keys j

variable {x : Index ι κ} {i : ι} {keys : Finset κ}

theorem keys_replace_of_ne {j : ι} (h : j ≠ i) : (x.replace i keys).keys j = x.keys j :=
  Function.update_of_ne h ..

@[simp] theorem keys_replace_self : (x.replace i keys).keys i = keys := Function.update_self ..

/-- A record that keeps its keys is replaced without a change. -/
theorem replace_self (h : x.keys i = keys) : x.replace i keys = x := by
  subst h
  obtain ⟨_, _⟩ := x
  simp [replace]

theorem Sound.replace (h : x.Sound) : (x.replace i keys).Sound := by
  intro k j hk
  by_cases hj : j = i
  · subst hj
    rw [keys_replace_self]
    have := h k j
    simp only [Index.replace, Finset.mem_sdiff] at hk
    grind
  · rw [keys_replace_of_ne hj]
    have := h k j
    simp only [Index.replace, Finset.mem_sdiff] at hk
    grind

/-- A replacement keeps the index complete if and only if nothing that it takes from the
index is still needed. -/
theorem complete_replace_iff (h : x.Complete) :
    (x.replace i keys).Complete ↔ x.Exclusive i keys := by
  constructor
  · intro complete k hk j hj hother
    rw [← keys_replace_of_ne hj] at hother
    exact complete j k hother (if_pos hk)
  · intro exclusive j k hk
    by_cases hj : j = i
    · subst hj
      rw [keys_replace_self] at hk
      have := h j k
      simp only [Index.replace, Finset.mem_sdiff]
      grind
    · rw [keys_replace_of_ne hj] at hk
      have kept : k ∉ x.keys i \ keys := fun lost => exclusive k lost j hj hk
      have := h j k hk
      simp only [Index.replace, if_neg kept]
      split <;> simp [this]

end Index

end ElanAgent
