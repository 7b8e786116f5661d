import ElanAgent.Session.Pending
import ElanAgent.Session.Runs

/-!
# The store after concurrent calls

`Settling` is what every undisturbed interleaving keeps: besides `Pending`, no object is
seen without its parents, and the index sets lead to every object below those that a
call is about to end. Each kind of operation has its own lemma; together they give `Settling.step`.
-/

namespace ElanAgent.Session

open Atomic Redis Hierarchy

variable {N : Set Obj} {P : Set Port} {n : Nat}

/-- The store on its own: parents, index sets and names. -/
structure Indexed (N : Set Obj) (P : Set Port) (w : World) : Prop where
  lower : IsLowerSet (support w.seenAt)
  named : support w.seenAt ⊆ N
  index : ∀ k ∈ keysOf N ∅, ∀ v, k.below v ∈ support w.seenAt → v ∈ w.sets k.path
  indexNamed : ∀ k ∈ keysOf N ∅, ∀ v ∈ w.sets k.path, k.below v ∈ N
  ports : PortsNamed N P w

/-- Whatever the program is about to forget, it removes. -/
def Covers (N : Set Obj) (w : World) (p : Prog synapse Unit) : Prop :=
  ∀ k ∈ keysOf N ∅, Forgets k.path p → ∀ v ∈ w.sets k.path, Removes (k.below v) p

/-- What undisturbed interleavings keep. -/
structure Settling (N : Set Obj) (P : Set Port) (c : Config synapse World Unit (Fin n)) : Prop
    extends Pending N c where
  indexed : Indexed N P c.state
  stage : ∀ i, Stage N P (c.threads i)
  covers : ∀ i, Covers N c.state (c.threads i)

theorem keysOf_cases {k : Key} (hk : k ∈ keysOf N ∅) :
    (∃ m, k = .vlans m ∧ Obj.mac m ∈ N) ∨ ∃ m v, k = .ips m v ∧ Obj.vlan m v ∈ N := by
  cases k with
  | vlans m => exact .inl ⟨m, rfl, hk⟩
  | ips m v => exact .inr ⟨m, v, rfl, hk⟩
  | portMacs l i =>
    obtain ⟨p, hp, -⟩ := hk
    exact hp.elim

theorem path_inj (names : Names N P) {k k' : Key} (hk : k ∈ keysOf N ∅) (hk' : k' ∈ keysOf N ∅)
    (h : k.path = k'.path) : k = k' := by
  refine names.key k hk k' ?_ h
  rcases keysOf_cases hk' with ⟨m, rfl, hm⟩ | ⟨m, v, rfl, hv⟩
  · exact hm
  · exact hv

/-! ## Stores that agree on sessions -/

theorem Kept.seenAt {w w' : World} (h : Kept N P w w') : w'.seenAt = w.seenAt :=
  funext fun x => congrArg (·.lookup x) h.lastSeen

theorem Kept.idOf {w w' : World} (h : Kept N P w w') : w'.idOf = w.idOf :=
  funext fun x => congrArg (·.lookup x.field) h.sessionIds

theorem Indexed.of_eq {w w' : World} (h : Indexed N P w) (hseen : w'.lastSeen = w.lastSeen)
    (hsets : ∀ k ∈ keysOf N ∅, w'.sets k.path = w.sets k.path) (hports : PortsNamed N P w') :
    Indexed N P w' := by
  have seenAt : w'.seenAt = w.seenAt := funext fun x => congrArg (·.lookup x) hseen
  refine ⟨seenAt ▸ h.lower, seenAt ▸ h.named, fun k hk v hv => ?_, fun k hk v hv => ?_, hports⟩
  · rw [hsets k hk]
    exact h.index k hk v (seenAt ▸ hv)
  · exact h.indexNamed k hk v (hsets k hk ▸ hv)

variable {c : Config synapse World Unit (Fin n)} {i : Fin n}

/-- A thread moves on and no index set that another one has read gets a new member. -/
theorem Settling.move (hc : Settling N P c) {w : World} {p : Prog synapse Unit}
    (pending : Pending N ⟨w, Function.update c.threads i p⟩) (indexed : Indexed N P w)
    (stage : Stage N P p) (covers : Covers N w p)
    (sets : ∀ j, j ≠ i → ∀ k ∈ keysOf N ∅, Forgets k.path (c.threads j) →
      ∀ v ∈ w.sets k.path, v ∈ c.state.sets k.path) :
    Settling N P ⟨w, Function.update c.threads i p⟩ where
  toPending := pending
  indexed := indexed
  stage := by
    intro j
    rcases eq_or_ne j i with rfl | hj
    · simpa using stage
    · simpa [hj] using hc.stage j
  covers := by
    intro j
    rcases eq_or_ne j i with rfl | hj
    · simpa using covers
    · have : Covers N w (c.threads j) := fun k hk hf v hv =>
        hc.covers j k hk hf v (sets j hj k hk hf v hv)
      simpa [hj] using this

/-- The same, when no session changes either. -/
theorem Settling.move_same (hc : Settling N P c) {w : World} {p : Prog synapse Unit}
    (kept : Kept N P c.state w) (stage : Stage N P p) (covers : Covers N w p)
    (stores : ∀ f, Stores f p ↔ Stores f (c.threads i)) :
    Settling N P ⟨w, Function.update c.threads i p⟩ :=
  hc.move (hc.toPending.move_same kept.seenAt kept.idOf stores)
    (hc.indexed.of_eq kept.lastSeen kept.sets (kept.ports hc.indexed.ports)) stage covers
    fun _ _ k hk _ _ hv => kept.sets k hk ▸ hv

/-! ## One operation of each kind -/

theorem Idle.covers {p : Prog synapse Unit} (h : Idle N P p) (w : World) : Covers N w p :=
  fun k _ hf => (h.not_forgets k.path hf).elim

theorem Settling.quiet (names : Names N P) (hc : Settling N P c) {o : Op}
    {next : synapse.Reply o → Prog synapse Unit} (hi : c.threads i = .op o next)
    (ho : o.Quiet N P) (rest : ∀ w, PortsNamed N P w → Idle N P (next (handler o w).1)) :
    Settling N P ⟨(handler o c.state).2,
      Function.update c.threads i (next (handler o c.state).1)⟩ := by
  have after := rest c.state hc.indexed.ports
  have before : Idle N P (c.threads i) := hi ▸ .quiet ho rest
  exact hc.move_same (ho.kept names c.state) (.idle after) (after.covers _)
    fun f => iff_of_false (after.not_stores f) (before.not_stores f)

theorem touchPipe_below (names : Names N P) {mac vlan ip : Value} (hN : objOf mac vlan ip ∈ N)
    (time : ℚ) (w : World) {k : Key} (hk : k ∈ keysOf N ∅) (v : Value) :
    v ∈ (execute (touchPipe mac vlan ip time) w).2.sets k.path ↔
      v ∈ w.sets k.path ∨ k.below v ≤ objOf mac vlan ip := by
  have hmac : Key.vlans mac ∈ keysOf N ∅ := names.lower (mac_le_objOf mac vlan ip) hN
  rw [touchPipe_sets]
  refine or_congr_right ?_
  rcases keysOf_cases hk with ⟨m, rfl, -⟩ | ⟨m, u, rfl, -⟩
  · simp only [Key.below, vlan_le_objOf]
    constructor
    · rintro (⟨hv, he, rfl⟩ | ⟨hv, -, he, -⟩)
      · exact ⟨hv, Key.vlans.inj (path_inj names hk hmac he), rfl⟩
      · have hvlan : Key.ips mac vlan ∈ keysOf N ∅ :=
          names.lower (vlan_le_objOf.mpr ⟨hv, rfl, rfl⟩) hN
        cases path_inj names hk hvlan he
    · rintro ⟨hv, rfl, rfl⟩
      exact .inl ⟨hv, rfl, rfl⟩
  · simp only [Key.below, ip_le_objOf]
    constructor
    · rintro (⟨-, he, -⟩ | ⟨hv, hi, he, rfl⟩)
      · cases path_inj names hk hmac he
      · have hvlan : Key.ips mac vlan ∈ keysOf N ∅ :=
          names.lower (vlan_le_objOf.mpr ⟨hv, rfl, rfl⟩) hN
        obtain ⟨rfl, rfl⟩ := Key.ips.inj (path_inj names hk hvlan he)
        exact ⟨hv, hi, rfl, rfl, rfl⟩
    · rintro ⟨hv, hi, rfl, rfl, rfl⟩
      exact .inr ⟨hv, hi, rfl, rfl⟩

theorem Indexed.touch (names : Names N P) {w : World} (h : Indexed N P w) {mac vlan ip : Value}
    (hN : objOf mac vlan ip ∈ N) (time : ℚ) :
    Indexed N P (execute (touchPipe mac vlan ip time) w).2 := by
  have seenAt := touchPipe_seenAt mac vlan ip time w
  have ports : PortsNamed N P (execute (touchPipe mac vlan ip time) w).2 := by
    rw [PortsNamed, (touchPipe_rest mac vlan ip time w).1.macPort]
    exact h.ports
  refine ⟨seenAt ▸ lower_cover h.lower _ _, ?_, fun k hk v hv => ?_, fun k hk v hv => ?_, ports⟩
  · rw [seenAt, support_cover]
    exact Set.union_subset (fun x hx => names.lower hx hN) h.named
  · rw [seenAt, support_cover] at hv
    rw [touchPipe_below names hN time w hk]
    exact hv.symm.imp (h.index k hk v) id
  · rcases (touchPipe_below names hN time w hk v).mp hv with hv | hle
    · exact h.indexNamed k hk v hv
    · exact names.lower hle hN

theorem sadd_mem_touchPipe {mac vlan ip : Value} {time : ℚ} {w : World} {key : String} {v : Value}
    (h : v ∈ (execute (touchPipe mac vlan ip time) w).2.sets key) (hv : v ∉ w.sets key) :
    .sadd key v ∈ touchPipe mac vlan ip time := by
  rcases (touchPipe_sets mac vlan ip time w key v).mp h with h | ⟨hvn, rfl, rfl⟩ |
    ⟨hvn, hi, rfl, rfl⟩
  · contradiction
  · simp [touchPipe, hvn]
  · simp [touchPipe, hvn, hi]

theorem Settling.touch (names : Names N P) (hc : Settling N P c) (guard : Undisturbed c i)
    {now : ℚ} {mac vlan ip : Value} {port oldPort : Option Port} {time : ℚ}
    {next : List Reply → Prog synapse Unit}
    (hi : c.threads i = .op (.execute (touchPipe mac vlan ip time)) next)
    (hN : objOf mac vlan ip ∈ N) (hport : ∀ p ∈ port, p.Named N P)
    (rest : ∀ results : List Reply, next results = finish (seenAllocate now mac vlan port oldPort
      ip time (results.getD 0 default).truthy (resultFlag results 1) (resultFlag results 3))) :
    Settling N P ⟨(execute (touchPipe mac vlan ip time) c.state).2, Function.update c.threads i
      (next (execute (touchPipe mac vlan ip time) c.state).1)⟩ := by
  have idle : Idle N P (c.threads i) := hi ▸ .touch hN hport rest
  obtain ⟨h0, h1, h3⟩ := touchPipe_replies mac vlan ip time c.state
  rw [rest, h0, h1, h3]
  refine hc.move (hc.toPending.touch names.toFields idle.not_stores now hN port oldPort time)
    (hc.indexed.touch names hN time) (seenAllocate_stage now hN hport oldPort time _ _ _)
    (fun k _ hf => ((seenAllocate_gaps now mac vlan ip port oldPort time _ _ _).2 k.path hf).elim)
    fun j hj k hk hf v hv => ?_
  by_contra hnew
  exact (guard _ _ hi j hj).2 k.path v (sadd_mem_touchPipe hv hnew) hnew hf

/-- A call that ends sessions reads the index set of a VLAN's IPs. -/
theorem Settling.read (names : Names N P) (hc : Settling N P c) {mac v : Value}
    {pipe : List Cmd} {vlans : List Value} {k : List Reply → Prog synapse Unit}
    (hi : c.threads i = collect mac pipe (v :: vlans) k) (ending : Ending N pipe)
    (hvlans : ∀ u ∈ v :: vlans, Obj.vlan mac u ∈ N) (rest : ∀ results, Idle N P (k results)) :
    Settling N P ⟨c.state, Function.update c.threads i
      (collect mac (pipe ++ vlanPipe mac v (c.state.sets (macVlanIpsPath mac v))) vlans k)⟩ := by
  have hv : Key.ips mac v ∈ keysOf N ∅ := hvlans v List.mem_cons_self
  have ending' : Ending N (pipe ++ vlanPipe mac v (c.state.sets (macVlanIpsPath mac v))) :=
    ending.append (ending_vlanPipe hv (names.mac hv) fun j hj => hc.indexed.indexNamed _ hv j hj)
  refine hc.move_same (.refl _)
    (.collect ending' (fun u hu => hvlans u (List.mem_cons_of_mem v hu)) rest rfl)
    (fun key hk hf u hu => ?_) fun f => ?_
  · obtain ⟨hdel, hpending⟩ := forgets_collect.mp hf
    by_cases he : macVlanIpsPath mac v = key.path
    · obtain rfl : Key.ips mac v = key := path_inj names hv hk he
      refine removes_collect (.inl (List.mem_append_right _ (List.mem_append_right _ ?_)))
      exact List.mem_flatMap.mpr ⟨u, hu, by simp [Key.below]⟩
    · -- the set was read before, so the program already removed all its members
      have hbefore : Forgets key.path (c.threads i) := by
        rw [hi, forgets_collect]
        refine ⟨?_, by simpa [he] using hpending⟩
        simpa [vlanPipe, endIps, Ne.symm he] using hdel
      have := hc.covers i key hk hbefore u hu
      rw [hi, collect_cons] at this
      exact this _
  · rw [hi]
    exact iff_of_false (not_stores_collect ending'.removes f) (not_stores_collect ending.removes f)

/-- A call that ends a MAC reads the index set of its VLANs. -/
theorem Settling.readVlans (names : Names N P) (hc : Settling N P c) {mac : Value}
    {k : List Reply → Prog synapse Unit} (hi : c.threads i = ending mac .none .none k)
    (hmac : Obj.mac mac ∈ N) (rest : ∀ results, Idle N P (k results)) :
    Settling N P ⟨c.state, Function.update c.threads i (collect mac
      [.hget (Obj.mac mac).field, .hdel (Obj.mac mac).field, .zrem (.mac mac),
        .delete (macVlansPath mac)] (c.state.sets (macVlansPath mac)) k)⟩ := by
  have hkey : Key.vlans mac ∈ keysOf N ∅ := hmac
  have ending := ending_macPipe hmac
  refine hc.move_same (.refl _)
    (.collect ending (fun v hv => hc.indexed.indexNamed _ hkey v hv) rest rfl)
    (fun key hk hf v hv => ?_) fun f => ?_
  · obtain ⟨hdel, -⟩ := forgets_collect.mp hf
    obtain rfl : key = .vlans mac := path_inj names hk hkey (by simpa [Key.path] using hdel)
    exact removes_collect (.inr ⟨v, hv, rfl⟩)
  · rw [hi]
    exact iff_of_false (not_stores_collect ending.removes f) id

theorem Ending.present {pipe : List Cmd} (h : Ending N pipe) (w : World) (x : Obj) :
    x ∈ support (execute pipe w).2.seenAt ↔ x ∈ support w.seenAt ∧ .zrem x ∉ pipe := by
  rw [mem_support, World.seenAt, execute_removes_lastSeen h.removes]
  split <;> simp [*, World.seenAt]

theorem Ending.hdel_iff (names : Names N P) {pipe : List Cmd} (h : Ending N pipe) {x : Obj}
    (hx : x ∈ N) : .hdel x.field ∈ pipe ↔ .zrem x ∈ pipe := by
  rw [h.hdel]
  refine ⟨fun ⟨y, hy, he⟩ => ?_, fun hz => ⟨x, hz, rfl⟩⟩
  rwa [← names.field (h.named y hy) hx he]

theorem Ending.identified (names : Names N P) {pipe : List Cmd} (h : Ending N pipe) (w : World)
    {x : Obj} (hx : x ∈ N) :
    x ∈ support (execute pipe w).2.idOf ↔ x ∈ support w.idOf ∧ .zrem x ∉ pipe := by
  rw [← h.hdel_iff names hx, mem_support, World.idOf, execute_removes_sessionIds h.removes]
  split <;> simp [*, World.idOf]

/-- A removing pipeline takes along everything below what it removes, since the index sets
lead to it. -/
theorem Settling.removes_up (hc : Settling N P c) {pipe : List Cmd}
    {next : List Reply → Prog synapse Unit} (hi : c.threads i = .op (.execute pipe) next)
    (ending : Ending N pipe) {x y : Obj} (hxy : x ≤ y) (hx : .zrem x ∈ pipe)
    (hy : y ∈ support c.state.seenAt) : .zrem y ∈ pipe := by
  have below : ∀ k ∈ keysOf N ∅, .zrem k.above ∈ pipe → ∀ v, k.below v ∈ support c.state.seenAt →
      .zrem (k.below v) ∈ pipe := by
    intro k hk hx v hv
    have hf : Forgets k.path (c.threads i) := by
      rw [hi]
      exact ending.closed k hk hx
    have := hc.covers i k hk hf v (hc.indexed.index k hk v hv)
    rwa [hi] at this
  have viaMac : ∀ m v, .zrem (.mac m) ∈ pipe → Obj.vlan m v ∈ support c.state.seenAt →
      .zrem (.vlan m v) ∈ pipe := fun m v hm hv =>
    below (.vlans m) (ending.named _ hm) hm v hv
  have viaVlan : ∀ m v j, .zrem (.vlan m v) ∈ pipe → Obj.ip m v j ∈ support c.state.seenAt →
      .zrem (.ip m v j) ∈ pipe := fun m v j hv hj =>
    below (.ips m v) (ending.named _ hv) hv j hj
  cases y with
  | mac m =>
    cases x with
    | mac m' => exact Obj.mac_le_mac.mp hxy ▸ hx
    | vlan m' v' => exact absurd hxy Obj.not_vlan_le_mac
    | ip m' v' j' => exact absurd hxy Obj.not_ip_le_mac
  | vlan m v =>
    cases x with
    | mac m' =>
      obtain rfl := Obj.mac_le_vlan.mp hxy
      exact viaMac m' v hx hy
    | vlan m' v' =>
      obtain ⟨rfl, rfl⟩ := Obj.vlan_le_vlan.mp hxy
      exact hx
    | ip m' v' j' => exact absurd hxy Obj.not_ip_le_vlan
  | ip m v j =>
    have hvlan := hc.indexed.lower (show Obj.vlan m v ≤ .ip m v j by simp) hy
    cases x with
    | mac m' =>
      obtain rfl := Obj.mac_le_ip.mp hxy
      exact viaVlan m' v j (viaMac m' v hx hvlan) hy
    | vlan m' v' =>
      obtain ⟨rfl, rfl⟩ := Obj.vlan_le_ip.mp hxy
      exact viaVlan m' v' j hx hy
    | ip m' v' j' =>
      obtain ⟨rfl, rfl, rfl⟩ := Obj.ip_le_ip.mp hxy
      exact hx

theorem Settling.remove_indexed (names : Names N P) (hc : Settling N P c) {pipe : List Cmd}
    {next : List Reply → Prog synapse Unit} (hi : c.threads i = .op (.execute pipe) next)
    (ending : Ending N pipe) : Indexed N P (execute pipe c.state).2 := by
  have sets := execute_removes_sets ending.removes c.state
  refine ⟨fun x y hyx hx => ?_, fun x hx => ?_, fun k hk v hv => ?_, fun k hk v hv => ?_, ?_⟩
  · obtain ⟨hx, hz⟩ := (ending.present _ x).mp hx
    exact (ending.present _ y).mpr ⟨hc.indexed.lower hyx hx, fun hy =>
      hz (hc.removes_up hi ending hyx hy hx)⟩
  · exact hc.indexed.named ((ending.present _ x).mp hx).1
  · obtain ⟨hv, hz⟩ := (ending.present _ _).mp hv
    have hmem := hc.indexed.index k hk v hv
    refine (sets _ _).mpr ⟨hmem, fun hd => hz ?_, fun hs => hz ?_⟩
    · have := hc.covers i k hk (by rwa [hi]) v hmem
      rwa [hi] at this
    · obtain ⟨k', hk', he, hz⟩ := ending.srem _ _ hs
      rwa [← path_inj names hk' hk he]
  · exact hc.indexed.indexNamed k hk v ((sets _ _).mp hv).1
  · rw [PortsNamed, (execute_removes_rest ending.removes c.state).macPort]
    exact hc.indexed.ports

/-- The pipeline of a call that ends sessions. -/
theorem Settling.remove (names : Names N P) (hc : Settling N P c) (guard : Undisturbed c i)
    {pipe : List Cmd} {next : List Reply → Prog synapse Unit}
    (hi : c.threads i = .op (.execute pipe) next) (ending : Ending N pipe)
    (rest : ∀ results, Idle N P (next results)) :
    Settling N P ⟨(execute pipe c.state).2,
      Function.update c.threads i (next (execute pipe c.state).1)⟩ := by
  have sets := execute_removes_sets ending.removes c.state
  have after := rest (execute pipe c.state).1
  have idle : ∀ f, ¬ Stores f (c.threads i) := by
    rw [hi]
    exact fun f ⟨id, hid⟩ => ending.removes _ hid
  have safe : ∀ x ∈ N, (∃ j, Stores x.field (c.threads j)) → .zrem x ∉ pipe := by
    rintro x hx ⟨j, hj⟩ hz
    have hne : j ≠ i := by
      rintro rfl
      exact idle _ hj
    exact (guard _ _ hi j hne).1 _ ((ending.hdel_iff names hx).mpr hz) hj
  refine hc.move (hc.toPending.move (fun x hx => ?_) (fun x hx h => ?_)
    fun j _ x _ h => (after.not_stores _ h).elim) (hc.remove_indexed names hi ending) (.idle after)
    (after.covers _) fun j _ k _ _ v hv => ((sets _ _).mp hv).1
  · rw [ending.present, ending.identified names _ hx, exists_other idle, hc.ids x hx,
      or_iff_right (after.not_stores x.field), or_and_right, and_iff_left_of_imp (safe x hx)]
  · rw [exists_other idle] at h
    rw [ending.identified names _ hx]
    rcases h with h | ⟨j, hj⟩
    · exact (after.not_stores _ h).elim
    · exact fun hid => hc.missing j x hx hj hid.1

/-- A call takes the id that it is going to store. -/
theorem Settling.allocate (hc : Settling N P c) {mac vlan ip : Value}
    {macAdded vlanAdded ipAdded : Bool} {next : Nat → Prog synapse Unit}
    (hi : c.threads i = .op .getUniqueId next) (hN : objOf mac vlan ip ∈ N)
    (rest : ∀ localId : Nat, ∃ next', next localId =
      .op (.execute (idsPipe mac vlan ip macAdded vlanAdded ipAdded localId)) next' ∧
      ∀ results, Idle N P (next' results)) :
    Settling N P ⟨{ c.state with sequence := c.state.sequence + 1 },
      Function.update c.threads i (next (c.state.sequence + 1))⟩ := by
  have stores : ∀ localId f, Stores f (next localId) ↔
      Flags mac vlan ip macAdded vlanAdded ipAdded f := by
    intro localId f
    obtain ⟨next', hnext, -⟩ := rest localId
    simp [hnext, Stores, hset_mem_idsPipe]
  obtain ⟨next', hnext, idle⟩ := rest (c.state.sequence + 1)
  have kept : Kept N P c.state { c.state with sequence := c.state.sequence + 1 } :=
    ⟨rfl, rfl, fun _ _ => rfl, id⟩
  refine hc.move (hc.toPending.allocate hi stores _)
    (hc.indexed.of_eq kept.lastSeen kept.sets hc.indexed.ports) (hnext ▸ .store hN idle)
    (fun k _ hf => ?_) fun j _ k _ _ v hv => hv
  rw [hnext] at hf
  rcases mem_idsPipe hf with ⟨_, _, h⟩ | ⟨_, h⟩ <;> cases h

/-- A call stores its id. -/
theorem Settling.store (hc : Settling N P c) {mac vlan ip : Value}
    {macAdded vlanAdded ipAdded : Bool} {localId : Nat} {next : List Reply → Prog synapse Unit}
    (hi : c.threads i =
      .op (.execute (idsPipe mac vlan ip macAdded vlanAdded ipAdded localId)) next)
    (rest : ∀ results, Idle N P (next results)) :
    Settling N P ⟨(execute (idsPipe mac vlan ip macAdded vlanAdded ipAdded localId) c.state).2,
      Function.update c.threads i
        (next (execute (idsPipe mac vlan ip macAdded vlanAdded ipAdded localId) c.state).1)⟩ := by
  obtain ⟨same, hlast, hsets⟩ := idsPipe_rest mac vlan ip macAdded vlanAdded ipAdded localId c.state
  have after := rest (execute (idsPipe mac vlan ip macAdded vlanAdded ipAdded localId) c.state).1
  have ports : PortsNamed N P
      (execute (idsPipe mac vlan ip macAdded vlanAdded ipAdded localId) c.state).2 := by
    rw [PortsNamed, same.macPort]
    exact hc.indexed.ports
  exact hc.move (hc.toPending.idsPipe hi after.not_stores)
    (hc.indexed.of_eq hlast (fun k _ => congrFun hsets _) ports) (.idle after) (after.covers _)
    fun j _ k _ _ v hv => congrFun hsets k.path ▸ hv

/-! ## Whole interleavings -/

theorem Settling.step (names : Names N P) {d : Config synapse World Unit (Fin n)}
    (hc : Settling N P c) (guard : Undisturbed c i) (step : Step handler c i d) :
    Settling N P d := by
  cases step with
  | @mk s t i o next hi =>
    have stage : Stage N P (.op o next) := hi ▸ hc.stage i
    cases stage with
    | idle idle =>
      cases idle with
      | quiet ho rest => exact hc.quiet names hi ho rest
      | touch hN hport rest => exact hc.touch names guard hi hN hport rest
      | @ends mac vlan ip k _ hN h rest hp =>
        by_cases hv : vlan = .none
        · obtain rfl : ip = .none := by tauto
          subst hv
          have hmac := names.lower (mac_le_objOf mac .none .none) hN
          have := hc.readVlans names (hi.trans hp) hmac rest
          rw [ending_mac] at hp
          cases hp
          exact this
        · have hvlan := names.lower (vlan_le_objOf.mpr ⟨hv, rfl, rfl⟩) hN
          by_cases hip : ip = .none
          · subst hip
            rw [ending_vlan mac hv] at hp
            have := hc.read names (hi.trans hp) (ending_hgets [_, _]) (by simpa using hvlan) rest
            rw [collect_cons] at hp
            cases hp
            exact this
          · rw [ending_ip mac hv hip] at hp
            cases hp
            rw [objOf_ip hv hip] at hN
            exact hc.remove names guard hi ((ending_hgets [_, _, _]).append
              (ending_endIps (by simpa using hN))) rest
    | allocate hN rest => exact hc.allocate hi hN rest
    | store hN rest => exact hc.store hi rest
    | @collect mac pipe vlans k _ ending hvlans rest hp =>
      cases vlans with
      | nil =>
        rw [collect_nil] at hp
        cases hp
        exact hc.remove names guard hi ending rest
      | cons v vlans =>
        have := hc.read names (hi.trans hp) ending hvlans rest
        rw [collect_cons] at hp
        cases hp
        exact this

theorem settling_pool (names : Names N P) {w : World} (inv : Invariant N P w) {calls : List Call}
    (h : ∀ c ∈ calls, c.Uses N P) : Settling N P (pool w calls) := by
  have idle : ∀ i, Idle N P ((pool w calls).threads i) := fun i =>
    idle_prog names (h _ (List.get_mem calls i))
  refine { pending_pool inv.ids fun i => (idle i).not_stores with
    indexed := ⟨inv.lower, inv.named, fun k hk v hv => ?_, fun k hk v hv => ?_, inv.portNamed⟩
    stage := fun i => .idle (idle i)
    covers := fun i => (idle i).covers _ }
  · rcases keysOf_cases hk with ⟨m, rfl, hm⟩ | ⟨m, u, rfl, hu⟩
    · exact (inv.vlans m v hm).mpr hv
    · exact inv.ips m u v hv
  · rcases keysOf_cases hk with ⟨m, rfl, hm⟩ | ⟨m, u, rfl, hu⟩
    · exact inv.named ((inv.vlans m v hm).mp hv)
    · exact (inv.ipsUnder m u v hu hv).2

/-- The objects in `LAST_SEEN` are those that have an id, and none is without its parents. -/
structure Settled (N : Set Obj) (w : World) : Prop where
  ids : ∀ x ∈ N, x ∈ support w.idOf ↔ x ∈ support w.seenAt
  lower : IsLowerSet (support w.seenAt)

/-- Calls that run concurrently, on a store that calls run one at a time have left, leave it
settled when all have completed, in every undisturbed interleaving. -/
theorem settled_of_undisturbed (names : Names N P) (before calls : List Call)
    (h : ∀ c ∈ before ++ calls, c.Uses N P)
    {c : Config synapse World Unit (Fin calls.length)}
    (run : Run handler Undisturbed (pool (World.empty.calls before) calls) c) (done : c.Done) :
    Settled N c.state := by
  have inv := invariant_calls names before fun c hc => h c (List.mem_append_left _ hc)
  have start := settling_pool names inv fun c hc => h c (List.mem_append_right _ hc)
  have settling : Settling N P c :=
    run.invariant (fun _ _ _ hc guard step => hc.step names guard step) start
  refine ⟨fun x hx => ?_, settling.indexed.lower⟩
  have none : ¬ ∃ i, Stores x.field (c.threads i) := by
    rintro ⟨i, hi⟩
    obtain ⟨a, ha⟩ := done i
    rw [ha] at hi
    exact hi
  rw [settling.ids x hx, or_iff_left none]

/-- A VLAN session that ends while the call that opened it has still to publish. -/
def overlappingCalls : List Call :=
  [.seen 100 "00:11" "eth0" none "10.0.0.2" none, .ends 101 "00:11" "eth0" .none none]

def overlapping : List (Fin overlappingCalls.length) :=
  show List (Fin 2) from [0, 1, 0, 0, 1, 0, 1]

theorem overlappingCalls_uses :
    ∀ c ∈ overlappingCalls, c.Uses {o | o ∈ roamingObjs} {p | p ∈ roamingPorts} := by
  simp [overlappingCalls, Call.Uses, Call.obj, Call.port, objOf, roamingObjs]

theorem overlapping_guarded :
    Config.Guarded handler Undisturbed (pool .empty overlappingCalls) overlapping := by
  refine ⟨?_, ?_, ?_, ?_, ?_, ?_, ?_, trivial⟩
  · exact undisturbed_of_idle fun j _ =>
      idle_prog roamingNames (overlappingCalls_uses _ (List.get_mem overlappingCalls j))
  · exact undisturbed_of_op rfl (by simp)
  · exact undisturbed_of_op rfl (by simp)
  · exact undisturbed_of_idsPipe rfl
  · have other : ∀ j : Fin 2, j ≠ 1 → j = 0 := by decide
    refine undisturbed_of_idle (N := {o | o ∈ roamingObjs}) (P := {p | p ∈ roamingPorts})
      fun j hj => ?_
    rw [other j hj]
    exact .quiet trivial fun _ _ => .done
  · exact undisturbed_of_op rfl (by simp)
  · exact undisturbed_of_op rfl (by simp)

theorem settled_overlapping : Settled {o | o ∈ roamingObjs}
    ((pool (World.empty.calls []) overlappingCalls).follow handler overlapping).state :=
  settled_of_undisturbed roamingNames [] overlappingCalls overlappingCalls_uses
    (Config.follow_run overlapping_guarded) (Config.done_iff.mpr (by decide))

/-! ## Interleavings that leave the store unsettled -/

/-- A device is seen while its session ends. -/
def lostCalls : List Call :=
  [.seen 100 "00:11" .none none .none none, .ends 101 "00:11" .none .none none]

/-- A VLAN is seen on a device whose VLANs have just been read. -/
def orphanCalls : List Call :=
  [.seen 100 "00:11" .none none .none none, .ends 101 "00:11" .none .none none,
    .seen 101 "00:11" "eth0" none .none none]

/-- Two index sets have one key, as for `sharedKeyCalls`. -/
def sharedIndexCalls : List Call := sharedKeyCalls ++ [.ends 102 "a" "b:vlan:c" .none none]

/-- Some interleaving, in which all calls complete, leaves the store unsettled. -/
def Unsettles (calls : List Call) : Prop :=
  ∃ c, Run handler (fun _ _ => True) (pool .empty calls) c ∧ c.Done ∧ ¬ Settled Set.univ c.state

/-- An id is stored after its session has ended; a VLAN outlives its MAC; an IP outlives its
VLAN because ending a VLAN of the same index key has deleted the index of its IPs. -/
theorem unsettling : Unsettles lostCalls ∧ Unsettles orphanCalls ∧ Unsettles sharedIndexCalls := by
  have follow : ∀ (calls : List Call) (schedule : List (Fin calls.length)),
      ((pool .empty calls).follow handler schedule).Done →
      ¬ Settled Set.univ ((pool .empty calls).follow handler schedule).state → Unsettles calls :=
    fun calls schedule done unsettled =>
      ⟨_, Config.follow_run (Config.guarded_true _ schedule), done, unsettled⟩
  refine ⟨follow lostCalls (show List (Fin 2) from [0, 1, 1, 0, 0, 0]) ?_ fun h => ?_,
    follow orphanCalls (show List (Fin 3) from [0, 0, 0, 0, 1, 2, 2, 2, 2, 1, 1, 1, 1, 1]) ?_
      fun h => ?_,
    follow sharedIndexCalls (show List (Fin 3) from [0, 0, 0, 0, 1, 1, 2, 2, 2]) ?_ fun h => ?_⟩
  · exact Config.done_iff.mpr (by decide)
  · have := h.ids (.mac "00:11") trivial
    revert this
    simp only [mem_support]
    decide
  · exact Config.done_iff.mpr (by decide)
  · have := h.lower (show Obj.mac "00:11" ≤ .vlan "00:11" "eth0" by simp)
    revert this
    simp only [mem_support]
    decide
  · exact Config.done_iff.mpr (by decide)
  · have := h.lower (show Obj.vlan "a" "b:vlan:c" ≤ .ip "a" "b:vlan:c" "10.0.0.2" by simp)
    revert this
    simp only [mem_support]
    decide

end ElanAgent.Session
