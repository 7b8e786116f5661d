import Mathlib.Data.List.AList
import Mathlib.Data.List.MinMax
import Mathlib.Data.List.Sort
import Mathlib.Data.Rat.Defs
import Mathlib.Algebra.Order.Ring.Rat
import Mathlib.Order.WithBot

/-!
# Redis hashes, sorted sets and sets

Hashes and sorted sets are association lists with distinct keys; a sorted set maps
each member to its score. A set is a list of members, since the order in which
Redis enumerates one is unspecified and callers only test membership or iterate.

The lemmas here say what a read returns after a write, as a test on the key.
-/

namespace ElanAgent.Redis

/-- A Redis hash: fields with their values. -/
abbrev Hash (κ α : Type) := AList fun _ : κ => α

/-- A Redis sorted set: members with their scores. -/
abbrev SortedSet (α : Type) := AList fun _ : α => ℚ

variable {κ α : Type} [DecidableEq κ]

theorem lookup_insert_ite (k k' : κ) (v : α) (h : Hash κ α) :
    (h.insert k' v).lookup k = if k = k' then some v else h.lookup k := by
  split
  · subst k'
    exact AList.lookup_insert h
  · exact AList.lookup_insert_ne ‹_›

theorem lookup_erase_ite (k k' : κ) (h : Hash κ α) :
    (h.erase k').lookup k = if k = k' then none else h.lookup k := by
  split
  · subst k'
    exact AList.lookup_erase k h
  · exact AList.lookup_erase_ne ‹_›

/-- What holds of every field still does, if it holds of the one that is set. -/
theorem fields_insert {P : κ → Prop} {h : Hash κ α} {k : κ} (new : P k)
    (fields : ∀ k', h.lookup k' ≠ none → P k') (v : α) (k' : κ)
    (present : (h.insert k v).lookup k' ≠ none) : P k' := by
  rw [lookup_insert_ite] at present
  split at present
  · exact ‹k' = k› ▸ new
  · exact fields k' present

theorem fields_erase {P : κ → Prop} {h : Hash κ α} (fields : ∀ k', h.lookup k' ≠ none → P k')
    (k k' : κ) (present : (h.erase k).lookup k' ≠ none) : P k' := by
  rw [lookup_erase_ite] at present
  split at present
  · exact absurd rfl present
  · exact fields k' present

theorem erase_absent {k : κ} {h : Hash κ α} (absent : h.lookup k = none) : h.erase k = h :=
  AList.ext (List.kerase_of_notMem_keys (AList.lookup_eq_none.mp absent))

namespace SortedSet

variable {α : Type} [DecidableEq α]

/-- The members with their scores, as the commands that enumerate return them. -/
def pairs (s : SortedSet α) : List (α × ℚ) := s.entries.map fun e => (e.1, e.2)

/-- `ZRANGEBYSCORE s -inf max WITHSCORES`: ascending scores, both ends included. -/
def rangeByScore (s : SortedSet α) (max : ℚ) : List (α × ℚ) :=
  ((pairs s).filter fun e => decide (e.2 ≤ max)).insertionSort fun x y => x.2 ≤ y.2

/-- `ZRANGE s 0 0 WITHSCORES`: a member of lowest score. -/
def first (s : SortedSet α) : Option (α × ℚ) := (pairs s).argmin fun e => e.2

theorem mem_pairs {s : SortedSet α} {a : α} {q : ℚ} : (a, q) ∈ pairs s ↔ s.lookup a = some q := by
  rw [← Option.mem_def, AList.mem_lookup_iff]
  constructor
  · intro h
    obtain ⟨⟨b, r⟩, hb, he⟩ := List.mem_map.mp h
    obtain ⟨rfl, rfl⟩ := Prod.mk.inj he
    exact hb
  · exact fun h => List.mem_map.mpr ⟨⟨a, q⟩, h, rfl⟩

theorem mem_rangeByScore {s : SortedSet α} {max : ℚ} {a : α} {q : ℚ} :
    (a, q) ∈ rangeByScore s max ↔ s.lookup a = some q ∧ q ≤ max := by
  simp only [rangeByScore, List.mem_insertionSort, List.mem_filter, mem_pairs, decide_eq_true_eq]

omit [DecidableEq α] in
theorem nodup_rangeByScore (s : SortedSet α) (max : ℚ) :
    ((rangeByScore s max).map (·.1)).Nodup := by
  have keys : ((pairs s).map (·.1)).Nodup := by
    rw [pairs, List.map_map]
    exact s.nodupKeys
  have sorted := (List.perm_insertionSort (fun x y : α × ℚ => x.2 ≤ y.2)
    ((pairs s).filter fun e => decide (e.2 ≤ max))).map (·.1)
  exact sorted.nodup_iff.mpr (keys.sublist (List.filter_sublist.map _))

theorem first_eq_none {s : SortedSet α} : first s = none ↔ ∀ a, s.lookup a = none := by
  rw [first, List.argmin_eq_none, List.eq_nil_iff_forall_not_mem]
  constructor
  · intro h a
    by_contra hne
    obtain ⟨q, hq⟩ := Option.ne_none_iff_exists'.mp hne
    exact h (a, q) (mem_pairs.mpr hq)
  · rintro h ⟨a, q⟩ hm
    have hq := mem_pairs.mp hm
    rw [h a] at hq
    cases hq

theorem first_mem {s : SortedSet α} {e : α × ℚ} (h : first s = some e) :
    s.lookup e.1 = some e.2 :=
  mem_pairs.mp (List.argmin_mem h)

theorem first_le {s : SortedSet α} {e : α × ℚ} (h : first s = some e) {a : α} {q : ℚ}
    (ha : s.lookup a = some q) : e.2 ≤ q :=
  List.le_of_mem_argmin (f := fun e : α × ℚ => e.2) (mem_pairs.mpr ha) h

end SortedSet

/-- A Redis sorted set whose scores may be `+inf`. -/
abbrev ExpirySet (α : Type) := AList fun _ : α => WithTop ℚ

namespace ExpirySet

variable {α : Type} [DecidableEq α]

/-- `ZRANGEBYSCORE s -inf max`: ascending scores, both ends included. -/
def rangeByScore (s : ExpirySet α) (max : ℚ) : List α :=
  ((s.entries.filter fun e => decide (e.2 ≤ (max : WithTop ℚ))).insertionSort
    fun x y => x.2 ≤ y.2).map Sigma.fst

/-- `ZRANGE s 0 0 WITHSCORES`: a member of lowest score. -/
def first (s : ExpirySet α) : Option (α × WithTop ℚ) :=
  (s.entries.argmin fun e => e.2).map fun e => (e.1, e.2)

theorem mem_rangeByScore {s : ExpirySet α} {max : ℚ} {a : α} :
    a ∈ rangeByScore s max ↔ ∃ q : ℚ, s.lookup a = some q ∧ q ≤ max := by
  simp only [rangeByScore, List.mem_map, List.mem_insertionSort, List.mem_filter,
    decide_eq_true_eq]
  constructor
  · rintro ⟨⟨b, score⟩, ⟨hb, due⟩, rfl⟩
    obtain ⟨q, rfl, hq⟩ := WithTop.le_coe_iff.mp due
    exact ⟨q, AList.mem_lookup_iff.mpr hb, hq⟩
  · rintro ⟨q, hq, due⟩
    exact ⟨⟨a, q⟩, ⟨AList.mem_lookup_iff.mp hq, WithTop.coe_le_coe.mpr due⟩, rfl⟩

omit [DecidableEq α] in
theorem nodup_rangeByScore (s : ExpirySet α) (max : ℚ) : (rangeByScore s max).Nodup := by
  have keys : (s.entries.map Sigma.fst).Nodup := s.nodupKeys
  have sorted := (List.perm_insertionSort (fun x y : (_ : α) × WithTop ℚ => x.2 ≤ y.2)
    (s.entries.filter fun e => decide (e.2 ≤ (max : WithTop ℚ)))).map Sigma.fst
  exact sorted.nodup_iff.mpr (keys.sublist (List.filter_sublist.map _))

theorem first_eq_none {s : ExpirySet α} : first s = none ↔ ∀ a, s.lookup a = none := by
  rw [first, Option.map_eq_none_iff, List.argmin_eq_none, List.eq_nil_iff_forall_not_mem]
  constructor
  · intro h a
    by_contra hne
    obtain ⟨q, hq⟩ := Option.ne_none_iff_exists'.mp hne
    exact h ⟨a, q⟩ (AList.mem_lookup_iff.mp hq)
  · rintro h ⟨a, q⟩ hm
    exact Option.some_ne_none q ((AList.mem_lookup_iff.mpr hm).symm.trans (h a))

theorem first_mem {s : ExpirySet α} {a : α} {q : WithTop ℚ} (h : first s = some (a, q)) :
    s.lookup a = some q := by
  obtain ⟨⟨b, r⟩, least, pair⟩ := Option.map_eq_some_iff.mp h
  obtain ⟨rfl, rfl⟩ := Prod.mk.inj pair
  exact AList.mem_lookup_iff.mpr (List.argmin_mem least)

theorem first_le {s : ExpirySet α} {a : α} {q : WithTop ℚ} (h : first s = some (a, q)) {b : α}
    {r : WithTop ℚ} (hb : s.lookup b = some r) : q ≤ r := by
  obtain ⟨e, least, pair⟩ := Option.map_eq_some_iff.mp h
  obtain rfl : e.2 = q := (Prod.mk.inj pair).2
  exact List.le_of_mem_argmin (f := fun e : (_ : α) × WithTop ℚ => e.2)
    (AList.mem_lookup_iff.mp hb) least

end ExpirySet

end ElanAgent.Redis
