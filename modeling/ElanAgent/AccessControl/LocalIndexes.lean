import ElanAgent.AccessControl.Interfaces
import ElanAgent.Library.Machines
import Mathlib.Data.Fintype.Card
import Mathlib.Data.Finset.Card

/-!
# Local indexes, allocated by several processes

`get_vlan_local_index` reads the hash, and gives an interface that is not there the next
index in a transaction that watches the counter only. The calls interleave at the grain of
Redis commands. `Step` says once what a call can do; `Consistent` holds after any number of
steps because nothing is written to the hash without the counter, so that what a call has
read stands for as long as its `WATCH` does.
-/

namespace ElanAgent.AccessControl

open Redis Machines

/-- The two keys, and how often the counter has been written, which is what `WATCH` sees. -/
structure IndexKeys where
  byIfname : Hash String Nat
  index : Option Nat
  writes : Nat

namespace IndexKeys

/-- `HGET conf:local_index:by_ifname nic`, where neither an absent index nor `0` is true. -/
def hget (keys : IndexKeys) (nic : String) : Option Nat :=
  (keys.byIfname.lookup nic).filter (· ≠ 0)

/-- `GET conf:local_index:index`, or 0. -/
def counter (keys : IndexKeys) : Nat := keys.index.getD 0

/-- The commands of the transaction, executed together. -/
def execute (keys : IndexKeys) (nic : String) (index : Nat) : IndexKeys where
  byIfname := keys.byIfname.insert nic index
  index := some index
  writes := keys.writes + 1

/-- The keys that hold these indexes. The counter is absent until it is first written. -/
def of (indexes : LocalIndexes) : IndexKeys where
  byIfname := indexes.byIfname
  index := if indexes.index = 0 then none else some indexes.index
  writes := 0

end IndexKeys

/-- Where a call of `get_vlan_local_index` stands: the command that it sends next, with the
writes that its connection watches and the index that it is about to store. -/
inductive Phase where
  | start
  | watch
  | check (watched : Nat)
  | read (watched : Nat)
  | exec (watched index : Nat)
  | last
  | returned (index : Option Nat)
  deriving DecidableEq

/-- A call, and the interface that it is for. -/
structure IndexCall where
  nic : String
  phase : Phase

/-- One Redis command of a call, and what it computes until the next one. -/
def getVlanLocalIndex : Machine IndexKeys IndexCall := fun keys call =>
  match call.phase with
  | .start =>
    match keys.hget call.nic with
    | some index => some (keys, { call with phase := .returned (some index) })
    | none => some (keys, { call with phase := .watch })
  | .watch => some (keys, { call with phase := .check keys.writes })
  | .check watched =>
    match keys.hget call.nic with
    -- no command is queued, and executing none only ends the transaction
    | some _ => some (keys, { call with phase := .last })
    | none => some (keys, { call with phase := .read watched })
  | .read watched => some (keys, { call with phase := .exec watched (keys.counter + 1) })
  | .exec watched index =>
    if keys.writes = watched then
      some (keys.execute call.nic index, { call with phase := .last })
    else some (keys, { call with phase := .watch })
  | .last => some (keys, { call with phase := .returned (keys.byIfname.lookup call.nic) })
  | .returned _ => none

/-! ## Ports of nginx -/

/-- The server of the allowed MACs. -/
def allowedMacsPorts : List Nat := [20000, 20001]

/-- The captive portal of an interface, for HTTP and for HTTPS. -/
def captivePortalPorts (localIndex : Nat) : List Nat :=
  [20000 + localIndex * 2, 20000 + localIndex * 2 + 1]

/-- The firewall redirects to the ports that nginx listens on. -/
theorem configureVlan_ports {byId : Dict Value Vlan} {old : Option Vlan} {nic : String}
    {vlan : Vlan} {localIndex : Nat} (protocol : Protocol)
    (h : (configureVlan byId old nic vlan localIndex).error = none) :
    ∃ http https, captivePortalPorts localIndex = [http, https] ∧
      .addCaptivePortals protocol localIndex http https ∈
        (configureVlan byId old nic vlan localIndex).commands :=
  ⟨_, _, rfl, (mem_configureVlan (by simp) h).mpr (.inr (.inr ⟨protocol, rfl⟩))⟩

theorem nodup_captivePortalPorts {i j : Nat} (hi : 0 < i) (hj : 0 < j) (distinct : i ≠ j) :
    (allowedMacsPorts ++ captivePortalPorts i ++ captivePortalPorts j).Nodup := by
  simp only [allowedMacsPorts, captivePortalPorts, List.cons_append, List.nil_append,
    List.nodup_cons, List.mem_cons, List.not_mem_nil, or_false, not_false_eq_true, List.nodup_nil,
    and_true]
  omega

/-! ## What a step does -/

variable {ι : Type} [DecidableEq ι] {keys keys' : IndexKeys} {call call' : IndexCall}

/-- A call stays for its interface, and either the keys stay as they are or the transaction
is executed on a counter that nobody has written since it was watched. -/
inductive Step (keys : IndexKeys) (nic : String) : Phase → IndexKeys → Phase → Prop where
  | known {index} : keys.hget nic = some index →
      Step keys nic .start keys (.returned (some index))
  | unknown : keys.hget nic = none → Step keys nic .start keys .watch
  | watch : Step keys nic .watch keys (.check keys.writes)
  | present {watched index} : keys.hget nic = some index →
      Step keys nic (.check watched) keys .last
  | absent {watched} : keys.hget nic = none →
      Step keys nic (.check watched) keys (.read watched)
  | read {watched} : Step keys nic (.read watched) keys (.exec watched (keys.counter + 1))
  | commit {index} : Step keys nic (.exec keys.writes index) (keys.execute nic index) .last
  | conflict {watched index} : keys.writes ≠ watched →
      Step keys nic (.exec watched index) keys .watch
  | last : Step keys nic .last keys (.returned (keys.byIfname.lookup nic))

theorem step_of_some (h : getVlanLocalIndex keys call = some (keys', call')) :
    call'.nic = call.nic ∧ Step keys call.nic call.phase keys' call'.phase := by
  obtain ⟨nic, phase⟩ := call
  cases phase with
  | start =>
    cases hget : keys.hget nic with
    | none =>
      simp only [getVlanLocalIndex, hget] at h
      cases h
      exact ⟨rfl, .unknown hget⟩
    | some index =>
      simp only [getVlanLocalIndex, hget] at h
      cases h
      exact ⟨rfl, .known hget⟩
  | watch =>
    cases h
    exact ⟨rfl, .watch⟩
  | check watched =>
    cases hget : keys.hget nic with
    | none =>
      simp only [getVlanLocalIndex, hget] at h
      cases h
      exact ⟨rfl, .absent hget⟩
    | some index =>
      simp only [getVlanLocalIndex, hget] at h
      cases h
      exact ⟨rfl, .present hget⟩
  | read watched =>
    cases h
    exact ⟨rfl, .read⟩
  | exec watched index =>
    by_cases same : keys.writes = watched
    · subst watched
      simp only [getVlanLocalIndex, if_true] at h
      cases h
      exact ⟨rfl, .commit⟩
    · simp only [getVlanLocalIndex, same, if_false] at h
      cases h
      exact ⟨rfl, .conflict same⟩
  | last =>
    cases h
    exact ⟨rfl, .last⟩
  | returned index => cases h

theorem getVlanLocalIndex_eq_none :
    getVlanLocalIndex keys call = none ↔ ∃ index, call.phase = .returned index := by
  obtain ⟨nic, phase⟩ := call
  cases phase with
  | start | check => simp only [getVlanLocalIndex]; split <;> simp
  | exec => simp only [getVlanLocalIndex]; split_ifs <;> simp
  | watch | read | last | returned => simp [getVlanLocalIndex]

/-! ## The indexes that the keys hold -/

/-- The keys hold these indexes. -/
structure Holds (keys : IndexKeys) (indexes : LocalIndexes) : Prop where
  byIfname : keys.byIfname = indexes.byIfname
  counter : keys.counter = indexes.index

theorem holds_of (indexes : LocalIndexes) : Holds (.of indexes) indexes := by
  refine ⟨rfl, ?_⟩
  unfold IndexKeys.counter IndexKeys.of
  split <;> simp_all

variable {indexes : LocalIndexes} {nic : String} {index : Nat}

theorem Holds.hget (holds : Holds keys indexes) (nic : String) :
    keys.hget nic = indexes.byIfname.lookup nic := by
  rw [IndexKeys.hget, holds.byIfname]
  cases h : indexes.byIfname.lookup nic with
  | none => rfl
  | some index => exact Option.filter_some_pos (by simpa using (indexes.pos nic index h).ne')

theorem Holds.execute (holds : Holds keys indexes) (nic : String) :
    Holds (keys.execute nic (keys.counter + 1)) (indexes.create nic) where
  byIfname := by simp only [IndexKeys.execute, LocalIndexes.create, holds.byIfname, holds.counter]
  counter := congrArg (· + 1) holds.counter

/-- What a call knows: its `WATCH` is in the past and, if nothing has been written since, then
its interface has no index and the one it stores is the next; when the transaction is over,
the interface has an index, and it is the one that is returned. -/
def Phase.Knows (keys : IndexKeys) (indexes : LocalIndexes) (nic : String) : Phase → Prop
  | .start | .watch => True
  | .check watched => watched ≤ keys.writes
  | .read watched => watched ≤ keys.writes ∧
      (keys.writes = watched → indexes.byIfname.lookup nic = none)
  | .exec watched index => watched ≤ keys.writes ∧
      (keys.writes = watched → indexes.byIfname.lookup nic = none ∧ index = keys.counter + 1)
  | .last => indexes.byIfname.lookup nic ≠ none
  | .returned index => index ≠ none ∧ indexes.byIfname.lookup nic = index

/-- The keys hold these indexes, and every call knows where it stands. -/
structure Consistent (p : Pool IndexKeys IndexCall ι) (indexes : LocalIndexes) : Prop where
  holds : Holds p.state indexes
  knows : ∀ i, (p.threads i).phase.Knows p.state indexes (p.threads i).nic

omit [DecidableEq ι] in
theorem Consistent.returned {p : Pool IndexKeys IndexCall ι} (consistent : Consistent p indexes)
    {i : ι} {index : Option Nat} (returned : (p.threads i).phase = .returned index) :
    ∃ k, index = some k ∧ indexes.byIfname.lookup (p.threads i).nic = some k := by
  have knows := consistent.knows i
  rw [returned] at knows
  obtain ⟨k, rfl⟩ := Option.ne_none_iff_exists'.mp knows.1
  exact ⟨k, rfl, knows.2⟩

theorem LocalIndexes.create_keeps {nic nic' : String} {index : Nat}
    (absent : indexes.byIfname.lookup nic = none)
    (h : indexes.byIfname.lookup nic' = some index) :
    (indexes.create nic).byIfname.lookup nic' = some index := by
  have keeps : (indexes.getVlanLocalIndex nic).2.byIfname.lookup nic' = some index :=
    getVlanLocalIndex_keeps h
  simpa only [getVlanLocalIndex, absent] using keeps

/-- Nobody else's commit takes anything from a call that knows where it stands. -/
theorem Phase.Knows.execute {phase : Phase} {nic nic' : String}
    (knows : phase.Knows keys indexes nic') (absent : indexes.byIfname.lookup nic = none)
    (index : Nat) : phase.Knows (keys.execute nic index) (indexes.create nic) nic' := by
  have present : ∀ i, indexes.byIfname.lookup nic' = some i →
      (indexes.create nic).byIfname.lookup nic' = some i :=
    fun _ => LocalIndexes.create_keeps absent
  cases phase with
  | start | watch => trivial
  | check watched => exact Nat.le_succ_of_le knows
  | read watched =>
    have : watched ≤ keys.writes := knows.1
    exact ⟨Nat.le_succ_of_le this, fun same => by simp only [IndexKeys.execute] at same; omega⟩
  | exec watched index =>
    have : watched ≤ keys.writes := knows.1
    exact ⟨Nat.le_succ_of_le this, fun same => by simp only [IndexKeys.execute] at same; omega⟩
  | last =>
    obtain ⟨i, hi⟩ := Option.ne_none_iff_exists'.mp knows
    exact Option.ne_none_iff_exists'.mpr ⟨i, present i hi⟩
  | returned index =>
    obtain ⟨i, rfl⟩ := Option.ne_none_iff_exists'.mp knows.1
    exact ⟨knows.1, present i knows.2⟩

/-- A step leaves the indexes as they are, or creates one for an interface that has none. -/
theorem Step.knows {nic : String} {phase phase' : Phase} (step : Step keys nic phase keys' phase')
    (holds : Holds keys indexes) (knows : phase.Knows keys indexes nic) :
    (keys' = keys ∧ phase'.Knows keys indexes nic) ∨
    indexes.byIfname.lookup nic = none ∧ keys' = keys.execute nic (keys.counter + 1) ∧
      phase'.Knows keys' (indexes.create nic) nic := by
  cases step with
  | known hget => exact .inl ⟨rfl, by simp, holds.hget nic ▸ hget⟩
  | unknown hget => exact .inl ⟨rfl, trivial⟩
  | watch => exact .inl ⟨rfl, Nat.le_refl _⟩
  | present hget => exact .inl ⟨rfl, by simp [Phase.Knows, ← holds.hget nic, hget]⟩
  | absent hget => exact .inl ⟨rfl, knows, fun _ => holds.hget nic ▸ hget⟩
  | read => exact .inl ⟨rfl, knows.1, fun same => ⟨knows.2 same, rfl⟩⟩
  | commit =>
    obtain ⟨absent, rfl⟩ := knows.2 rfl
    refine .inr ⟨absent, rfl, ?_⟩
    simp [Phase.Knows, LocalIndexes.create]
  | conflict => exact .inl ⟨rfl, trivial⟩
  | last => exact .inl ⟨rfl, holds.byIfname ▸ knows, by rw [holds.byIfname]⟩

theorem Consistent.step {p : Pool IndexKeys IndexCall ι} {i : ι} (consistent : Consistent p indexes)
    (moved : getVlanLocalIndex p.state (p.threads i) = some (keys', call')) :
    Consistent ⟨keys', Function.update p.threads i call'⟩ indexes ∨
    Consistent ⟨keys', Function.update p.threads i call'⟩
      (indexes.getVlanLocalIndex (p.threads i).nic).2 := by
  obtain ⟨same, step⟩ := step_of_some moved
  rcases step.knows consistent.holds (consistent.knows i) with
    ⟨rfl, knows⟩ | ⟨absent, rfl, knows⟩
  · refine .inl ⟨consistent.holds, fun j => ?_⟩
    by_cases mine : j = i
    · subst j
      simpa only [Function.update_self, same] using knows
    · simpa only [Function.update_of_ne mine] using consistent.knows j
  · simp only [LocalIndexes.getVlanLocalIndex, absent]
    refine .inr ⟨consistent.holds.execute _, fun j => ?_⟩
    by_cases mine : j = i
    · subst j
      simpa only [Function.update_self, same] using knows
    · simpa only [Function.update_of_ne mine] using (consistent.knows j).execute absent _

/-! ## Any number of calls -/

/-- The indexes after calls that are made one at a time. -/
def LocalIndexes.serve (indexes : LocalIndexes) (nics : List String) : LocalIndexes :=
  nics.foldl (fun indexes nic => (indexes.getVlanLocalIndex nic).2) indexes

theorem LocalIndexes.serve_keeps {nic : String} {index : Nat}
    (h : indexes.byIfname.lookup nic = some index) (nics : List String) :
    (indexes.serve nics).byIfname.lookup nic = some index := by
  induction nics generalizing indexes with
  | nil => exact h
  | cons _ _ ih => exact ih (getVlanLocalIndex_keeps h)

/-- Calls that are about to begin, one for each `i`. -/
def IndexKeys.calls (keys : IndexKeys) (nic : ι → String) : Pool IndexKeys IndexCall ι :=
  ⟨keys, fun i => ⟨nic i, .start⟩⟩

/-- Whatever the interleaving, the keys are as after calls made one at a time. -/
theorem exists_serve (before : LocalIndexes) (nic : ι → String) (schedule : List ι) :
    ∃ nics, Consistent (((IndexKeys.of before).calls nic).follow getVlanLocalIndex schedule)
      (before.serve nics) := by
  have start : Consistent ((IndexKeys.of before).calls nic) before :=
    ⟨holds_of before, fun _ => trivial⟩
  refine Pool.follow_induction (P := fun p => ∃ nics, Consistent p (before.serve nics)) ?_
    ⟨[], start⟩ schedule
  rintro p i keys' call' ⟨nics, consistent⟩ moved
  rcases consistent.step moved with next | next
  · exact ⟨nics, next⟩
  · refine ⟨nics ++ [(p.threads i).nic], ?_⟩
    simpa only [LocalIndexes.serve, List.foldl_append, List.foldl_cons, List.foldl_nil] using next

theorem follow_nic (keys : IndexKeys) (nic : ι → String) (schedule : List ι) (i : ι) :
    (((keys.calls nic).follow getVlanLocalIndex schedule).threads i).nic = nic i := by
  refine Pool.follow_induction (P := fun p : Pool IndexKeys IndexCall ι =>
    ∀ i, (p.threads i).nic = nic i) ?_ (fun _ => rfl) schedule i
  intro p j keys' call' same moved i
  by_cases mine : i = j
  · subst i
    simpa only [Function.update_self, same] using (step_of_some moved).1
  · simpa only [Function.update_of_ne mine] using same i

/-! ## How often a call has to move -/

/-- The call may still execute its transaction. -/
def Phase.mayCommit : Phase → Bool
  | .last | .returned _ => false
  | _ => true

/-- The steps that a call has left if no other one commits: a `WATCH` that has been overtaken
costs four of them. -/
def Phase.rank (writes : Nat) : Phase → Nat
  | .start => 6
  | .watch => 5
  | .check watched => if writes = watched then 4 else 8
  | .read watched => if writes = watched then 3 else 7
  | .exec watched _ => if writes = watched then 2 else 6
  | .last => 1
  | .returned _ => 0

theorem Phase.rank_le (phase : Phase) (writes writes' : Nat) :
    phase.rank writes' ≤ phase.rank writes + 4 := by
  cases phase <;> simp only [rank] <;> (try split_ifs) <;> omega

/-- A step brings the call closer to its end. If it writes, the call never writes again. -/
theorem Step.rank_lt {nic : String} {phase phase' : Phase}
    (step : Step keys nic phase keys' phase') :
    phase'.rank keys'.writes < phase.rank keys.writes := by
  cases step with
  | known | unknown | watch | commit | last => simp [Phase.rank]
  | present | absent | read => simp only [Phase.rank]; split_ifs <;> omega
  | conflict other => simp [Phase.rank, other]

theorem Step.mayCommit {nic : String} {phase phase' : Phase}
    (step : Step keys nic phase keys' phase') :
    (phase'.mayCommit → phase.mayCommit) ∧
    (keys' = keys ∨ phase.mayCommit ∧ ¬ phase'.mayCommit) := by
  cases step <;> simp [Phase.mayCommit]

variable [Fintype ι]

/-- The other calls that may still execute their transactions. -/
def rivals (p : Pool IndexKeys IndexCall ι) (i : ι) : Finset ι :=
  {j | j ≠ i ∧ (p.threads j).phase.mayCommit}

/-- The steps that call `i` has left at most. -/
def stepsLeft (i : ι) (p : Pool IndexKeys IndexCall ι) : Nat :=
  (p.threads i).phase.rank p.state.writes + 4 * (rivals p i).card

theorem stepsLeft_calls (keys : IndexKeys) (nic : ι → String) (i : ι) :
    stepsLeft i (keys.calls nic) = 4 * Fintype.card ι + 2 := by
  have rivals_eq : rivals (keys.calls nic) i = Finset.univ.erase i := by
    ext j
    simp [rivals, IndexKeys.calls, Phase.mayCommit]
  have : 0 < Fintype.card ι := Fintype.card_pos_iff.mpr ⟨i⟩
  rw [stepsLeft, rivals_eq, Finset.card_erase_of_mem (Finset.mem_univ i), Finset.card_univ]
  simp only [IndexKeys.calls, Phase.rank]
  omega

variable {p : Pool IndexKeys IndexCall ι} {i j : ι}

theorem stepsLeft_mine (moved : getVlanLocalIndex p.state (p.threads i) = some (keys', call')) :
    stepsLeft i ⟨keys', Function.update p.threads i call'⟩ < stepsLeft i p := by
  have same : rivals ⟨keys', Function.update p.threads i call'⟩ i = rivals p i := by
    ext k
    by_cases hk : k = i
    · simp [rivals, hk]
    · simp [rivals, Function.update_of_ne hk]
  have := (step_of_some moved).2.rank_lt
  simp only [stepsLeft, same, Function.update_self]
  omega

theorem stepsLeft_others (other : j ≠ i)
    (moved : getVlanLocalIndex p.state (p.threads j) = some (keys', call')) :
    stepsLeft i ⟨keys', Function.update p.threads j call'⟩ ≤ stepsLeft i p := by
  obtain ⟨before, commits⟩ := (step_of_some moved).2.mayCommit
  have fewer : rivals ⟨keys', Function.update p.threads j call'⟩ i ⊆ rivals p i := by
    intro k hk
    by_cases mine : k = j
    · subst k
      simp_all [rivals]
    · simpa [rivals, Function.update_of_ne mine] using hk
  have card := Finset.card_le_card fewer
  simp only [stepsLeft, Function.update_of_ne other.symm]
  rcases commits with rfl | ⟨was, isn't⟩
  · omega
  · -- the watch of `i` may have been overtaken, but `j` will never do that again
    have lost : rivals ⟨keys', Function.update p.threads j call'⟩ i ⊂ rivals p i := by
      refine Finset.ssubset_iff_subset_ne.mpr ⟨fewer, fun same => ?_⟩
      have rival : j ∈ rivals p i := by simp [rivals, other, was]
      rw [← same] at rival
      simp [rivals, isn't] at rival
    have := Finset.card_lt_card lost
    have := (p.threads i).phase.rank_le p.state.writes keys'.writes
    omega

/-- A call returns after a bounded number of its own steps, whatever the others do. -/
theorem exists_returned (keys : IndexKeys) (nic : ι → String) {schedule : List ι}
    (enough : 4 * Fintype.card ι + 2 ≤ schedule.count i) :
    ∃ index, (((keys.calls nic).follow getVlanLocalIndex schedule).threads i).phase =
      .returned index := by
  have stops : ∀ call s t, getVlanLocalIndex s call = none → getVlanLocalIndex t call = none :=
    fun _ _ _ stopped => getVlanLocalIndex_eq_none.mpr (getVlanLocalIndex_eq_none.mp stopped)
  refine getVlanLocalIndex_eq_none.mp (Pool.follow_returned (P := fun _ => True)
    (fun _ _ _ _ _ _ => trivial) (fun _ _ _ _ => stepsLeft_mine)
    (fun _ _ _ _ _ => stepsLeft_others) stops trivial ?_ keys)
  rwa [stepsLeft_calls]

/-! ## What the calls return -/

/-- Calls of any number of processes: each returns, with a positive index that is the same for
all calls and all processes, now and later, and different for different interfaces; so the
ports of their captive portals are different as well. -/
theorem vlanLocalIndex_concurrent (before : LocalIndexes) (nic : ι → String)
    (schedule : List ι) :
    let final := ((IndexKeys.of before).calls nic).follow getVlanLocalIndex schedule
    let returns := fun i index => (final.threads i).phase = .returned index
    (∀ i, 4 * Fintype.card ι + 2 ≤ schedule.count i → ∃ index, returns i index) ∧
    (∀ i index, returns i index → ∃ k, index = some k ∧ 0 < k ∧
      ∀ known, before.byIfname.lookup (nic i) = some known → k = known) ∧
    (∀ i j index index', returns i index → returns j index' →
      (index = index' ↔ nic i = nic j)) ∧
    (∀ i j k k', returns i (some k) → returns j (some k') → nic i ≠ nic j →
      (allowedMacsPorts ++ captivePortalPorts k ++ captivePortalPorts k').Nodup) := by
  intro final returns
  obtain ⟨nics, consistent⟩ := exists_serve before nic schedule
  have found : ∀ i index, returns i index → ∃ k, index = some k ∧
      (before.serve nics).byIfname.lookup (nic i) = some k := by
    intro i index h
    have known := consistent.returned h
    rwa [follow_nic] at known
  have agree : ∀ i j index index', returns i index → returns j index' →
      (index = index' ↔ nic i = nic j) := by
    intro i j index index' hi hj
    obtain ⟨k, rfl, hk⟩ := found i index hi
    obtain ⟨k', rfl, hk'⟩ := found j index' hj
    refine ⟨fun same => ?_, fun same => ?_⟩
    · obtain rfl := Option.some.inj same
      exact (before.serve nics).inj _ _ _ hk hk'
    · rw [← hk, ← hk', same]
  refine ⟨fun i enough => exists_returned _ nic enough, fun i index h => ?_, agree,
    fun i j k k' hi hj distinct => ?_⟩
  · obtain ⟨k, rfl, hk⟩ := found i index h
    refine ⟨k, rfl, (before.serve nics).pos _ _ hk, fun known h => ?_⟩
    exact Option.some.inj (hk.symm.trans (LocalIndexes.serve_keeps h nics))
  · obtain ⟨_, rfl, hk⟩ : ∃ l, k = l ∧ _ := by simpa using found i _ hi
    obtain ⟨_, rfl, hk'⟩ : ∃ l, k' = l ∧ _ := by simpa using found j _ hj
    refine nodup_captivePortalPorts ((before.serve nics).pos _ _ hk)
      ((before.serve nics).pos _ _ hk') fun same => distinct ?_
    exact (agree i j _ _ hi hj).mp (congrArg some same)

-- two processes configure the same interface at once, and the second one loses the race
example :
    let final := ((IndexKeys.of .empty).calls fun _ : Bool => "eth0.10").follow getVlanLocalIndex
      ([false, true, false, true, false, true, false, true, false, true, false, true] ++
        [true, true, true, true])
    (final.threads false).phase = .returned (some 1) ∧
      (final.threads true).phase = .returned (some 1) := by
  decide +kernel

end ElanAgent.AccessControl
