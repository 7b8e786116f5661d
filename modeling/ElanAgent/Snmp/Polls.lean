import ElanAgent.Library.Index
import ElanAgent.Snmp.Manager

/-!
# Runs of polls

Successful polls, one after the other, and the index from MACs to device ids that they
keep by differences. The index never leads to a device without the MAC; it covers the MACs
of every cached device as long as no device loses a MAC that another one has too.
-/

namespace ElanAgent.Snmp

open Raising

/-- A poll that finds a device, with its list of ports. -/
structure Found where
  ip : Value
  device : Device
  ports : device.ports.isSome

/-- The store after a poll that finds the device. -/
def World.found (w : World) (p : Found) : World :=
  (exec (poll p.ip) { w with polled := fun _ => ⟨.device p.device, none⟩ }).2

/-- The store after the polls, in order, from an empty cache. -/
def World.polls (ps : List Found) : World :=
  ps.foldl World.found (.empty (fun _ => ⟨.null, none⟩) fun _ => none)

/-- The id under which a poll caches its device. -/
def World.pollId (w : World) (p : Found) : Nat := (w.knownId p.ip p.device).getD (w.counter + 1)

/-- The MACs of the cached devices, and the ids that they lead to. -/
def World.macIndex (w : World) : Index Nat String where
  keys id := ((w.byId id).map Device.macs).getD ∅
  lookup := w.idByMac

variable {w : World} {p : Found}

theorem mem_macs {device : Device} {mac : String} : mac ∈ device.macs ↔
    mac ≠ "" ∧ ∃ ports, device.ports = some ports ∧ ∃ port ∈ ports, port.mac = some mac := by
  unfold Device.macs
  cases device.ports with
  | none => simp
  | some ports => simp [and_comm]

theorem sortedPorts_perm (ports : List SwitchPort) : (sortedPorts ports).Perm ports :=
  List.perm_insertionSort ..

theorem macs_sorted (device : Device) {ports : List SwitchPort} (h : device.ports = some ports) :
    { device with ports := some (sortedPorts ports) }.macs = device.macs := by
  ext mac
  simp [mem_macs, h, (sortedPorts_perm ports).mem_iff]

theorem same_ports {a b : Device} (h : a.same b) : a.ports = b.ports := by
  simp only [Device.same, Bool.and_eq_true, decide_eq_true_eq] at h
  exact h.1.1.1.1.2

theorem macs_eq_of_ports {a b : Device} (h : a.ports = b.ports) : a.macs = b.macs := by
  unfold Device.macs
  rw [h]

/-! ## One poll -/

theorem ask_exec (ip : Value) (w : World) : exec (ask ip) w =
    (.ok (w.polled w.asked).answer, { w with
      asked := w.asked + 1
      readParams := Function.update w.readParams ip.format (w.polled w.asked).readParams }) := rfl

theorem save_exec (ip : Value) (id : Nat) (cached : Option Device) (device : Device)
    (h : device.ports.isSome) (w : World) :
    exec (save ip id cached device) w = (.ok device, w.cache ip id cached device) := by
  simp [save, Option.isSome_iff_ne_none.mp h, Except.map]

theorem publish_exec (device : Device) (w : World) : exec (publish device) w =
    (.ok (), { w with published := w.published ++ [device.relevant] }) := rfl

/-- What `update` comes to when both records have ports: either the record is the cached
one, or a record with the same MACs is cached. -/
theorem update_exec (ip : Value) (id : Nat) {cached : Option Device} (device : Device)
    (hcached : ∀ old, cached = some old → old.ports.isSome) (hports : device.ports.isSome)
    (w : World) :
    ∃ device' w', exec (update ip id cached device) w = (.ok device', w') ∧
      device'.macs = device.macs ∧ device'.ports.isSome ∧
      ((∃ old, cached = some old ∧ old.ports = device.ports ∧ w' = w) ∨
        ∃ published, w' = { w.cache ip id cached device' with published := published }) := by
  cases cached with
  | none =>
    refine ⟨device, _, ?_, rfl, hports, .inr ⟨w.published ++ [device.relevant], rfl⟩⟩
    simp only [update, publish, exec_modify_bind, save_exec _ _ _ _ hports]
    rfl
  | some old =>
    by_cases hsame : old.same device
    · exact ⟨device, w, by simp [update, hsame], rfl, hports,
        .inl ⟨old, rfl, same_ports hsame, rfl⟩⟩
    · obtain ⟨ports1, h1⟩ := Option.isSome_iff_exists.mp (hcached old rfl)
      obtain ⟨ports2, h2⟩ := Option.isSome_iff_exists.mp hports
      set device' := { device with ports := some (sortedPorts ports2) } with hdevice
      have macs : device'.macs = device.macs := macs_sorted device h2
      have compared : ∃ changed,
          exec (switchHasChanged old device) w = (.ok (changed, device'), w) :=
        ⟨_, by simp only [switchHasChanged, h1, h2]; rfl⟩
      obtain ⟨changed, compared⟩ := compared
      rw [update, if_neg hsame, exec_bind_ok compared]
      cases changed with
      | true =>
        exact ⟨device', _, (exec_bind_ok (publish_exec device' w)).trans
          (save_exec ip id (some old) device' rfl _), macs, rfl, .inr ⟨_, rfl⟩⟩
      | false =>
        exact ⟨device', _, save_exec ip id (some old) device' rfl w, macs, rfl,
          .inr ⟨w.published, rfl⟩⟩

/-- Every cached device has ports and an id that was given out, and an IP leads to one. -/
structure Filed (w : World) : Prop where
  ports : ∀ id d, w.byId id = some d → d.ports.isSome
  counted : ∀ id d, w.byId id = some d → id ≤ w.counter
  known : ∀ ip id, w.idByIp ip = some id → w.byId id ≠ none
  sound : w.macIndex.Sound

theorem filed_empty (polled : Nat → Polled) (resolved : Nat → Option (List Value)) :
    Filed (.empty polled resolved) := by
  constructor <;> simp [World.empty, Index.Sound, World.macIndex]

/-- A device that is found by its IP or by a MAC is cached. -/
theorem Filed.cached (h : Filed w) {ip : Value} {device : Device} {id : Nat}
    (known : w.knownId ip device = some id) : w.byId id ≠ none := by
  rcases Option.or_eq_some_iff.mp known with hip | ⟨-, hmac⟩
  · exact h.known _ id hip
  · obtain ⟨port, -, hport⟩ := List.exists_of_findSome?_eq_some hmac
    intro absent
    have indexed := h.sound _ id hport
    simp [World.macIndex, absent] at indexed

/-- The index of MACs after the pipeline. -/
theorem macIndex_cache (w : World) (ip : Value) (id : Nat) (device : Device)
    (published : List Notice) :
    { w.cache ip id (w.byId id) device with published := published }.macIndex =
      w.macIndex.replace id device.macs := by
  unfold World.macIndex World.cache Index.replace
  congr 1
  funext other
  by_cases h : other = id
  · subst h
    simp
  · simp [h]

theorem Filed.cache (h : Filed w) (ip : Value) {id : Nat} (counted : id ≤ w.counter)
    {device : Device} (ports : device.ports.isSome) (published : List Notice) :
    Filed { w.cache ip id (w.byId id) device with published := published } where
  ports other d hd := by
    by_cases same : other = id
    · subst same
      obtain rfl : device = d := by simpa [World.cache] using hd
      exact ports
    · exact h.ports other d (by simpa [World.cache, same] using hd)
  counted other d hd := by
    by_cases same : other = id
    · exact same.trans_le counted
    · exact h.counted other d (by simpa [World.cache, same] using hd)
  known ip' other hip := by
    by_cases same : other = id
    · simp [World.cache, same]
    · by_cases hfield : ip' = ip.format
      · exact absurd hip (by simpa [World.cache, hfield] using Ne.symm same)
      · simpa [World.cache, same] using h.known ip' other (by simpa [World.cache, hfield] using hip)
  sound := by
    rw [macIndex_cache]
    exact h.sound.replace

/-- A poll that finds a device goes on with the id of its record and with what is cached
there. -/
theorem identify_exec (h : Filed w) (ip : Value) (device : Device) :
    ∃ w', exec (identify ip device) w =
        (.ok ((w.knownId ip device).getD (w.counter + 1),
          w'.byId ((w.knownId ip device).getD (w.counter + 1))), w') ∧
      Filed w' ∧ w'.macIndex = w.macIndex ∧
      (w.knownId ip device).getD (w.counter + 1) ≤ w'.counter := by
  cases known : w.knownId ip device with
  | some id =>
    obtain ⟨d, hd⟩ := Option.ne_none_iff_exists'.mp (h.cached known)
    exact ⟨w, by simp [identify, known], h, rfl, h.counted id d hd⟩
  | none =>
    have fresh : w.byId (w.counter + 1) = none := by
      by_contra present
      obtain ⟨d, hd⟩ := Option.ne_none_iff_exists'.mp present
      have := h.counted _ d hd
      omega
    exact ⟨{ w with counter := w.counter + 1 }, by simp [identify, known, fresh, Except.map],
      ⟨h.ports, fun id d hd => (h.counted id d hd).trans (Nat.le_succ _), h.known, h.sound⟩,
      rfl, le_rfl⟩

/-- A poll that finds a device replaces the MACs of its record, and changes nothing else
of the index. -/
theorem found_effect (h : Filed w) (p : Found) : Filed (w.found p) ∧
    (w.found p).macIndex = w.macIndex.replace (w.pollId p) p.device.macs := by
  set asked : World := { w with
    polled := fun _ => ⟨.device p.device, none⟩
    asked := w.asked + 1
    readParams := Function.update w.readParams p.ip.format none } with hasked
  have filed : Filed asked := ⟨h.ports, h.counted, h.known, h.sound⟩
  obtain ⟨w', identified, filed', index, counted⟩ := identify_exec filed p.ip p.device
  have hcached : ∀ old, w'.byId (w.pollId p) = some old → old.ports.isSome :=
    filed'.ports (w.pollId p)
  obtain ⟨device', w'', updated, macs, ports, effect⟩ := update_exec p.ip (w.pollId p)
    { p.device with localId := some (w.pollId p) } hcached p.ports w'
  have polled : w.found p = w'' := by
    rw [World.found, poll, exec_bind_ok (ask_exec ..), exec_bind_ok identified]
    exact congrArg Prod.snd (exec_bind_ok updated)
  rw [polled]
  rcases effect with ⟨old, hold, hports, rfl⟩ | ⟨published, rfl⟩
  · refine ⟨filed', ?_⟩
    rw [index, Index.replace_self]
    · rfl
    · have cached : w''.macIndex.keys (w.pollId p) = p.device.macs :=
        (congrArg (fun d => (d.map Device.macs).getD ∅) hold).trans (macs_eq_of_ports hports)
      rw [← cached, index]
      rfl
  · refine ⟨filed'.cache p.ip counted ports published, ?_⟩
    rw [macIndex_cache, index, macs]
    rfl

/-! ## Runs -/

/-- What is asked of the index, for one MAC: it leads to a cached device that has the MAC,
and it leads somewhere if there is such a device. -/
def World.Answers (w : World) (mac : String) : Prop :=
  (∀ id, w.idByMac mac = some id → ∃ d, w.byId id = some d ∧ mac ∈ d.macs) ∧
  ((∃ id d, w.byId id = some d ∧ mac ∈ d.macs) → w.idByMac mac ≠ none)

theorem mem_keys_macIndex {id : Nat} {mac : String} :
    mac ∈ w.macIndex.keys id ↔ ∃ d, w.byId id = some d ∧ mac ∈ d.macs := by
  unfold World.macIndex
  cases h : w.byId id <;> simp [h]

theorem answers_iff (h : Filed w) :
    (∀ mac ≠ "", w.Answers mac) ↔ w.macIndex.Complete := by
  constructor
  · intro answers id mac hmac
    obtain ⟨d, hd, hm⟩ := mem_keys_macIndex.mp hmac
    exact (answers mac (mem_macs.mp hm).1).2 ⟨id, d, hd, hm⟩
  · intro complete mac _
    refine ⟨fun id hid => mem_keys_macIndex.mp (h.sound mac id hid), ?_⟩
    rintro ⟨id, cached⟩
    exact complete id mac (mem_keys_macIndex.mpr cached)

/-- The poll takes no MAC from its device that another cached device has too. -/
def World.Harmless (w : World) (p : Found) : Prop :=
  ∀ old, w.byId (w.pollId p) = some old → ∀ mac ∈ old.macs, mac ∉ p.device.macs →
    ∀ id ≠ w.pollId p, ∀ other, w.byId id = some other → mac ∉ other.macs

theorem harmless_iff (w : World) (p : Found) :
    w.Harmless p ↔ w.macIndex.Exclusive (w.pollId p) p.device.macs := by
  simp only [World.Harmless, Index.Exclusive, Finset.mem_sdiff, mem_keys_macIndex]
  grind

theorem filed_polls (ps : List Found) : Filed (.polls ps) := by
  induction ps using List.reverseRecOn with
  | nil => exact filed_empty ..
  | append_singleton ps p ih =>
    rw [World.polls, List.foldl_append]
    exact (found_effect ih p).1

theorem polls_snoc (ps : List Found) (p : Found) :
    World.polls (ps ++ [p]) = (World.polls ps).found p := List.foldl_append

/-- The index is right after every poll of a run if and only if every poll of it is
harmless where it is made. -/
theorem answers_after_polls (ps : List Found) :
    (∀ before, before <+: ps → ∀ mac ≠ "", (World.polls before).Answers mac) ↔
      ∀ before p, before ++ [p] <+: ps → (World.polls before).Harmless p := by
  constructor
  · intro h before p hp
    have complete := (answers_iff (filed_polls before)).mp
      (h before ((List.prefix_append before [p]).trans hp))
    rw [harmless_iff, ← Index.complete_replace_iff complete,
      ← (found_effect (filed_polls before) p).2, ← polls_snoc]
    exact (answers_iff (filed_polls _)).mp (h _ hp)
  · intro h before hbefore
    rw [answers_iff (filed_polls before)]
    induction before using List.reverseRecOn with
    | nil => simp [World.polls, World.empty, World.macIndex, Index.Complete]
    | append_singleton before p ih =>
      have complete := ih ((List.prefix_append before [p]).trans hbefore)
      rw [polls_snoc, (found_effect (filed_polls before) p).2,
        Index.complete_replace_iff complete, ← harmless_iff]
      exact h before p hbefore

/-- A switch with one port, or with a second one. -/
def switchWith (macs : List String) : Device where
  localId := none
  ports := some (macs.map fun mac => ⟨mac, mac, .none, some mac, .none, none⟩)
  fwMac := .absent
  fwPort := .absent
  ignored := ∅
  rest := ∅

/-- A MAC moves to a second switch and leaves it before the first one is polled again. -/
def movingMac : List Found :=
  [⟨"10.0.0.1", switchWith ["m"], rfl⟩, ⟨"10.0.0.2", switchWith ["n"], rfl⟩,
    ⟨"10.0.0.2", switchWith ["n", "m"], rfl⟩, ⟨"10.0.0.2", switchWith ["n"], rfl⟩]

/-- The first switch is cached with the MAC, which leads nowhere. -/
theorem movingMac_lost :
    (World.polls movingMac).idByMac "m" = none ∧
    ((World.polls movingMac).byId 1).map Device.macs = some {"m"} ∧
    ¬ ∀ before, before <+: movingMac → ∀ mac ≠ "", (World.polls before).Answers mac := by
  have lost : (World.polls movingMac).idByMac "m" = none := by decide +kernel
  have cached : ((World.polls movingMac).byId 1).map Device.macs = some {"m"} := by decide +kernel
  refine ⟨lost, cached, fun h => ?_⟩
  obtain ⟨d, hd, hmacs⟩ := Option.map_eq_some_iff.mp cached
  exact (h movingMac List.prefix_rfl "m" (by decide)).2 ⟨1, d, hd, by simp [hmacs]⟩ lost

end ElanAgent.Snmp
