import Mathlib.Data.List.Nodup
import Mathlib.Data.List.Induction
import Mathlib.Data.Option.Basic

/-!
# Insertion-ordered dictionaries

A dictionary is a list of items with distinct keys, in the order in which the keys
were first set. Setting a key that is present replaces its value in place, and
erasing a key keeps the order of the others.
`Dict.keyed` is the loop that files every element of a list under its own key, where
a later element replaces an earlier one of the same key.
-/

namespace ElanAgent

variable {κ α : Type*} [DecidableEq κ]

/-- Replace the value of `k` where it stands, or append the item. -/
def setItem (k : κ) (a : α) : List (κ × α) → List (κ × α)
  | [] => [(k, a)]
  | e :: items => if e.1 = k then (k, a) :: items else e :: setItem k a items

theorem map_fst_setItem (k : κ) (a : α) (items : List (κ × α)) :
    (setItem k a items).map Prod.fst =
      if k ∈ items.map Prod.fst then items.map Prod.fst else items.map Prod.fst ++ [k] := by
  induction items with
  | nil => simp [setItem]
  | cons e items ih =>
    by_cases he : e.1 = k
    · simp [setItem, he]
    · have hne : k ≠ e.1 := fun h => he h.symm
      simp only [setItem, he, if_false, List.map_cons, ih, List.mem_cons, hne, false_or]
      split <;> simp

theorem mem_setItem {k k' : κ} {a b : α} {items : List (κ × α)}
    (nodup : (items.map Prod.fst).Nodup) :
    (k', b) ∈ setItem k a items ↔ if k' = k then b = a else (k', b) ∈ items := by
  induction items with
  | nil => simp [setItem]
  | cons e items ih =>
    obtain ⟨hout, nodup⟩ := List.nodup_cons.mp nodup
    have := ih nodup
    by_cases he : e.1 = k
    · subst k
      have : (e.1, b) ∉ items := fun h => hout (List.mem_map.mpr ⟨_, h, rfl⟩)
      simp only [setItem, if_true, List.mem_cons, Prod.mk.injEq]
      split <;> grind
    · simp only [setItem, he, if_false, List.mem_cons]
      grind

/-- A dictionary that keeps the order of insertion. -/
structure Dict (κ α : Type*) where
  items : List (κ × α)
  nodup : (items.map Prod.fst).Nodup

namespace Dict

def empty : Dict κ α := ⟨[], List.nodup_nil⟩

def keys (d : Dict κ α) : List κ := d.items.map Prod.fst

/-- `d.get(k)`. -/
def get (d : Dict κ α) (k : κ) : Option α := (d.items.find? fun e => e.1 = k).map Prod.snd

/-- `d[k] = a`. -/
def set (d : Dict κ α) (k : κ) (a : α) : Dict κ α where
  items := setItem k a d.items
  nodup := by
    rw [map_fst_setItem]
    split
    · exact d.nodup
    · rename_i h
      exact d.nodup.append (List.nodup_singleton k) (by simpa using h)

/-- `d.pop(k, None)`, its result dropped. -/
def erase (d : Dict κ α) (k : κ) : Dict κ α where
  items := d.items.filter fun e => e.1 ≠ k
  nodup := d.nodup.sublist (List.filter_sublist.map Prod.fst)

theorem mem_items {d : Dict κ α} {k : κ} {a : α} : (k, a) ∈ d.items ↔ d.get k = some a := by
  obtain ⟨items, nodup⟩ := d
  induction items with
  | nil => simp [get]
  | cons e items ih =>
    obtain ⟨hout, nodup⟩ := List.nodup_cons.mp nodup
    have ih := ih nodup
    by_cases he : e.1 = k
    · subst k
      have : (e.1, a) ∉ items := fun h => hout (List.mem_map.mpr ⟨_, h, rfl⟩)
      simp only [get, List.mem_cons, List.find?_cons_of_pos, decide_true, Option.map_some]
      grind
    · have hne : e ≠ (k, a) := by grind
      simpa [get, he, List.mem_cons, Ne.symm hne] using ih

theorem mem_keys {d : Dict κ α} {k : κ} : k ∈ d.keys ↔ ∃ a, d.get k = some a := by
  simp only [keys, List.mem_map, Prod.exists, exists_and_right, exists_eq_right, mem_items]

@[simp] theorem get_empty (k : κ) : (empty : Dict κ α).get k = none := rfl

theorem get_set (d : Dict κ α) (k k' : κ) (a : α) :
    (d.set k a).get k' = if k' = k then some a else d.get k' := by
  ext b
  rw [← mem_items, set, mem_setItem d.nodup]
  split
  · simp [eq_comm]
  · exact mem_items

theorem get_erase (d : Dict κ α) (k k' : κ) :
    (d.erase k).get k' = if k' = k then none else d.get k' := by
  ext b
  rw [← mem_items, erase, List.mem_filter, mem_items]
  split <;> simp [*]

theorem mem_keys_erase {d : Dict κ α} {k k' : κ} :
    k' ∈ (d.erase k).keys ↔ k' ≠ k ∧ k' ∈ d.keys := by
  simp only [mem_keys, get_erase]
  by_cases same : k' = k <;> simp [same]

theorem mem_keys_set {d : Dict κ α} {k k' : κ} {a : α} :
    k' ∈ (d.set k a).keys ↔ k' = k ∨ k' ∈ d.keys := by
  simp only [mem_keys, get_set]
  by_cases same : k' = k <;> simp [same]

/-- File every element that has a key under it, in order. -/
def keyed (key : α → Option κ) (xs : List α) : Dict κ α :=
  xs.foldl (fun d x => match key x with | some k => d.set k x | none => d) empty

/-- What is found under a key is the last element that has it. -/
theorem get_keyed (key : α → Option κ) (xs : List α) (k : κ) :
    (keyed key xs).get k = xs.reverse.find? fun x => key x = some k := by
  induction xs using List.reverseRecOn with
  | nil => rfl
  | append_singleton xs x ih =>
    simp only [keyed, List.foldl_append, List.foldl_cons, List.foldl_nil, List.reverse_append,
      List.reverse_singleton, List.singleton_append, List.find?_cons] at ih ⊢
    cases hk : key x with
    | none => simpa using ih
    | some k' =>
      by_cases h : k = k'
      · simp [get_set, h]
      · simpa [get_set, h, Ne.symm h] using ih

theorem get_keyed_some {key : α → Option κ} {xs : List α} {k : κ} {x : α}
    (h : (keyed key xs).get k = some x) : x ∈ xs ∧ key x = some k := by
  rw [get_keyed] at h
  exact ⟨List.mem_reverse.mp (List.mem_of_find?_eq_some h),
    by simpa using List.find?_some h⟩

theorem exists_get_keyed {key : α → Option κ} {xs : List α} {k : κ} {x : α} (hx : x ∈ xs)
    (hk : key x = some k) : ∃ y, (keyed key xs).get k = some y := by
  rw [← Option.isSome_iff_exists, get_keyed, List.find?_isSome]
  exact ⟨x, List.mem_reverse.mpr hx, by simpa using hk⟩

end Dict

end ElanAgent
