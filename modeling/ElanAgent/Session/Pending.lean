import ElanAgent.Session.Interleaving

/-!
# Ids that are still to be stored

`seen` adds an object to `LAST_SEEN` in one step and stores its id in a later one.
`Pending` says that nothing is lost in between: an object has been seen when it has an
id, or else exactly one thread is about to store it. Each lemma is about the steps of
one kind; what the other threads are about to store is the same before and after.
-/

namespace ElanAgent.Session

open Atomic Redis Hierarchy

variable {N : Set Obj} {n : Nat}

/-- An object is seen when it has an id or a thread is about to store it, and then only one. -/
structure Pending (N : Set Obj) (c : Config synapse World Unit (Fin n)) : Prop where
  ids : ∀ x ∈ N, x ∈ support c.state.seenAt ↔
    x ∈ support c.state.idOf ∨ ∃ i, Stores x.field (c.threads i)
  missing : ∀ i, ∀ x ∈ N, Stores x.field (c.threads i) → x ∉ support c.state.idOf
  once : ∀ i j, ∀ x ∈ N, Stores x.field (c.threads i) → Stores x.field (c.threads j) → i = j

/-- Calls start on a store whose present objects have ids, if none is about to store one. -/
theorem pending_pool {w : World} {calls : List Call}
    (ids : ∀ x ∈ N, x ∈ support w.seenAt ↔ x ∈ support w.idOf)
    (idle : ∀ i f, ¬ Stores f ((pool w calls).threads i)) : Pending N (pool w calls) := by
  refine ⟨fun x hx => ?_, fun i x _ h => (idle i _ h).elim, fun i j x _ h => (idle i _ h).elim⟩
  have none : ¬ ∃ i, Stores x.field ((pool w calls).threads i) := fun ⟨i, hi⟩ => idle i _ hi
  rw [or_iff_left none]
  exact ids x hx

variable {c : Config synapse World Unit (Fin n)} {i : Fin n} {w : World} {p : Prog synapse Unit}

theorem Pending.move (hc : Pending N c)
    (ids : ∀ x ∈ N, x ∈ support w.seenAt ↔
      x ∈ support w.idOf ∨ Stores x.field p ∨ ∃ j, j ≠ i ∧ Stores x.field (c.threads j))
    (missing : ∀ x ∈ N, Stores x.field p ∨ (∃ j, j ≠ i ∧ Stores x.field (c.threads j)) →
      x ∉ support w.idOf)
    (once : ∀ j, j ≠ i → ∀ x ∈ N, Stores x.field p → ¬ Stores x.field (c.threads j)) :
    Pending N ⟨w, Function.update c.threads i p⟩ := by
  obtain ⟨t, ht⟩ : ∃ t, t = Function.update c.threads i p := ⟨_, rfl⟩
  have self : t i = p := by rw [ht, Function.update_self]
  have other : ∀ {j}, j ≠ i → t j = c.threads j := fun hj => by
    rw [ht, Function.update_of_ne hj]
  have spread : ∀ f, (∃ j, Stores f (t j)) ↔
      Stores f p ∨ ∃ j, j ≠ i ∧ Stores f (c.threads j) := by
    intro f
    constructor
    · rintro ⟨j, h⟩
      rcases eq_or_ne j i with rfl | hj
      · exact .inl (self ▸ h)
      · exact .inr ⟨j, hj, other hj ▸ h⟩
    · rintro (h | ⟨j, hj, h⟩)
      · exact ⟨i, self ▸ h⟩
      · exact ⟨j, (other hj).symm ▸ h⟩
  rw [← ht]
  refine ⟨fun x hx => ?_, fun j x hx h => missing x hx ((spread _).mp ⟨j, h⟩),
    fun j j' x hx (h : Stores _ (t j)) (h' : Stores _ (t j')) => ?_⟩
  · rw [spread]
    exact ids x hx
  · by_contra hne
    by_cases hj : j = i
    · have hj' : j' ≠ i := fun e => hne (hj.trans e.symm)
      rw [hj, self] at h
      rw [other hj'] at h'
      exact once j' hj' x hx h h'
    · rw [other hj] at h
      by_cases hj' : j' = i
      · rw [hj', self] at h'
        exact once j hj x hx h' h
      · rw [other hj'] at h'
        exact hne (hc.once j j' x hx h h')

/-- A step that changes no session, of a thread that goes on to store the same ids. -/
theorem Pending.move_same (hc : Pending N c) (seenAt : w.seenAt = c.state.seenAt)
    (idOf : w.idOf = c.state.idOf) (stores : ∀ f, Stores f p ↔ Stores f (c.threads i)) :
    Pending N ⟨w, Function.update c.threads i p⟩ := by
  have split : ∀ f, (Stores f p ∨ ∃ j, j ≠ i ∧ Stores f (c.threads j)) ↔
      ∃ j, Stores f (c.threads j) := by
    intro f
    rw [stores]
    constructor
    · rintro (h | ⟨j, -, h⟩)
      · exact ⟨i, h⟩
      · exact ⟨j, h⟩
    · rintro ⟨j, h⟩
      rcases eq_or_ne j i with rfl | hj
      · exact .inl h
      · exact .inr ⟨j, hj, h⟩
  refine hc.move (fun x hx => ?_) (fun x hx h => ?_)
    fun j hj x hx h h' => hj (hc.once j i x hx h' ((stores _).mp h))
  · rw [seenAt, idOf, split]
    exact hc.ids x hx
  · obtain ⟨j, hj⟩ := (split _).mp h
    rw [idOf]
    exact hc.missing j x hx hj

/-- When thread `i` stores nothing, whoever does is another. -/
theorem exists_other {f : String} (idle : ∀ f, ¬ Stores f (c.threads i)) :
    (∃ j, j ≠ i ∧ Stores f (c.threads j)) ↔ ∃ j, Stores f (c.threads j) := by
  refine ⟨fun ⟨j, _, h⟩ => ⟨j, h⟩, fun ⟨j, h⟩ => ⟨j, ?_, h⟩⟩
  rintro rfl
  exact idle f h

/-- The objects below `o` are seen, and the thread goes on to store the ids of the new ones. -/
theorem Pending.cover (hc : Pending N c) (idle : ∀ f, ¬ Stores f (c.threads i)) {o : Obj}
    {time : ℚ} (seenAt : w.seenAt = Hierarchy.cover o (fun _ => time) c.state.seenAt)
    (idOf : w.idOf = c.state.idOf)
    (new : ∀ x ∈ N, Stores x.field p ↔ x ≤ o ∧ c.state.seenAt x = none) :
    Pending N ⟨w, Function.update c.threads i p⟩ := by
  refine hc.move (fun x hx => ?_) (fun x hx h => ?_) fun j _ x hx h h' => ?_
  · have := hc.ids x hx
    rw [exists_other idle, idOf, seenAt, support_cover, new x hx]
    simp only [Set.mem_union, Set.mem_Iic, mem_support] at this ⊢
    tauto
  · have := hc.ids x hx
    rw [exists_other idle, new x hx] at h
    rw [idOf]
    rcases h with ⟨-, hnone⟩ | ⟨j, hj⟩
    · exact fun hid => this.mpr (.inl hid) hnone
    · exact hc.missing j x hx hj
  · exact (hc.ids x hx).mpr (.inr ⟨j, h'⟩) ((new x hx).mp h).2

/-- The thread stores its ids. -/
theorem Pending.store (hc : Pending N c) (after : ∀ f, ¬ Stores f p)
    (seenAt : w.seenAt = c.state.seenAt)
    (idOf : ∀ x : Obj, x ∈ support w.idOf ↔
      x ∈ support c.state.idOf ∨ Stores x.field (c.threads i)) :
    Pending N ⟨w, Function.update c.threads i p⟩ := by
  refine hc.move (fun x hx => ?_) (fun x hx h => ?_) fun j _ x _ h => (after _ h).elim
  · have := after x.field
    rw [seenAt, idOf, hc.ids x hx]
    constructor
    · rintro (h | ⟨j, h⟩)
      · exact .inl (.inl h)
      · rcases eq_or_ne j i with rfl | hj
        · exact .inl (.inr h)
        · exact .inr (.inr ⟨j, hj, h⟩)
    · rintro ((h | h) | h | ⟨j, -, h⟩)
      · exact .inl h
      · exact .inr ⟨i, h⟩
      · contradiction
      · exact .inr ⟨j, h⟩
  · rw [idOf]
    rcases h with h | ⟨j, hj, h⟩
    · exact (after _ h).elim
    · rintro (hid | hi)
      · exact hc.missing j x hx h hid
      · exact hj (hc.once j i x hx h hi)

/-! ## The steps of `seen` -/

theorem touchPipe_seenAt (mac vlan ip : Value) (time : ℚ) (w : World) :
    (execute (touchPipe mac vlan ip time) w).2.seenAt =
      Hierarchy.cover (objOf mac vlan ip) (fun _ => time) w.seenAt :=
  funext fun x => touchPipe_lastSeen mac vlan ip time w x

theorem Pending.touch (fields : Fields N) (hc : Pending N c)
    (idle : ∀ f, ¬ Stores f (c.threads i)) (now : ℚ) {mac vlan ip : Value}
    (hN : objOf mac vlan ip ∈ N) (port oldPort : Option Port) (time : ℚ) :
    Pending N ⟨(execute (touchPipe mac vlan ip time) c.state).2, Function.update c.threads i
      (finish (seenAllocate now mac vlan port oldPort ip time
        (c.state.isNew mac vlan ip (.mac mac)) (c.state.isNew mac vlan ip (.vlan mac vlan))
        (c.state.isNew mac vlan ip (.ip mac vlan ip))))⟩ := by
  obtain ⟨stores, -⟩ := seenAllocate_gaps now mac vlan ip port oldPort time
    (c.state.isNew mac vlan ip (.mac mac)) (c.state.isNew mac vlan ip (.vlan mac vlan))
    (c.state.isNew mac vlan ip (.ip mac vlan ip))
  exact hc.cover idle (touchPipe_seenAt mac vlan ip time c.state)
    (funext fun x => congrArg (·.lookup x.field) (touchPipe_rest mac vlan ip time c.state).2)
    fun x hx => (stores _).trans (flags_isNew fields hN c.state hx)

/-- The thread takes the id that it goes on to store. -/
theorem Pending.allocate (hc : Pending N c) {next : Nat → Prog synapse Unit}
    (hi : c.threads i = .op .getUniqueId next) {F : String → Prop}
    (stores : ∀ localId f, Stores f (next localId) ↔ F f) (localId : Nat) :
    Pending N ⟨{ c.state with sequence := localId },
      Function.update c.threads i (next localId)⟩ := by
  refine hc.move_same rfl rfl fun f => ?_
  rw [hi, stores]
  exact ⟨fun h => ⟨0, (stores 0 f).mpr h⟩, fun ⟨id, h⟩ => (stores id f).mp h⟩

section Ids

variable {mac vlan ip : Value} {macAdded vlanAdded ipAdded : Bool} {localId : Nat}

theorem stores_idsPipe {next : List Reply → Prog synapse Unit} (hi : c.threads i =
      .op (.execute (idsPipe mac vlan ip macAdded vlanAdded ipAdded localId)) next) (f : String) :
    Stores f (c.threads i) ↔ Flags mac vlan ip macAdded vlanAdded ipAdded f := by
  simp [hi, Stores, hset_mem_idsPipe]

theorem Pending.idsPipe (hc : Pending N c) {next : List Reply → Prog synapse Unit}
    (hi : c.threads i =
      .op (.execute (idsPipe mac vlan ip macAdded vlanAdded ipAdded localId)) next)
    (after : ∀ f, ¬ Stores f p) :
    Pending N ⟨(execute (idsPipe mac vlan ip macAdded vlanAdded ipAdded localId) c.state).2,
      Function.update c.threads i p⟩ := by
  obtain ⟨-, hlast, -⟩ := idsPipe_rest mac vlan ip macAdded vlanAdded ipAdded localId c.state
  refine hc.store after (funext fun x => congrArg (·.lookup x) hlast) fun x => ?_
  rw [stores_idsPipe hi, mem_support, World.idOf, idsPipe_sessionIds]
  split <;> simp [*, World.idOf]

end Ids

end ElanAgent.Session
