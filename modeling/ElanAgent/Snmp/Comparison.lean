import ElanAgent.Snmp.PortIndex

/-!
# Messages about polled devices

`poll` publishes a device if its record differs from the cached one in a key that matters.
The poller lists the ports of a device, and the SSIDs of a port, in no particular order; the
comparison sorts the ports, but not their SSIDs.
-/

namespace ElanAgent.Snmp

open Raising

/-! ## Sorted ports -/

/-- No two ports have the same index. -/
def Indexes (ports : List SwitchPort) : Prop := (ports.map SwitchPort.index).Nodup

section Sorted

variable {ports ports' : List SwitchPort}

theorem Indexes.eq (h : Indexes ports) {p q : SwitchPort} (hp : p ∈ ports) (hq : q ∈ ports)
    (same : p.index = q.index) : p = q := List.inj_on_of_nodup_map h hp hq same

theorem sortedPorts_pairwise (ports : List SwitchPort) :
    (sortedPorts ports).Pairwise fun p q => p.index ≤ q.index := by
  have total : Std.Total fun p q : SwitchPort => p.index ≤ q.index :=
    ⟨fun p q => le_total p.index q.index⟩
  have trans : IsTrans SwitchPort fun p q => p.index ≤ q.index :=
    ⟨fun _ _ _ => le_trans⟩
  exact List.pairwise_insertionSort _ ports

/-- Sorting tells whether the ports are the same in another order. -/
theorem sortedPorts_eq_iff (h : Indexes ports) :
    sortedPorts ports = sortedPorts ports' ↔ ports.Perm ports' := by
  constructor
  · intro same
    exact (sortedPorts_perm ports).symm.trans (same ▸ sortedPorts_perm ports')
  · intro perm
    have perms := (sortedPorts_perm ports).trans (perm.trans (sortedPorts_perm ports').symm)
    refine List.Perm.eq_of_pairwise (fun p q hp hq le le' => ?_) (sortedPorts_pairwise ports)
      (sortedPorts_pairwise ports') perms
    have hq' : q ∈ sortedPorts ports := perms.mem_iff.mpr hq
    exact h.eq ((sortedPorts_perm ports).mem_iff.mp hp) ((sortedPorts_perm ports).mem_iff.mp hq')
      (le_antisymm le le')

end Sorted

/-! ## Records up to order -/

/-- The ports are the same, but for the order of their SSIDs. -/
structure SwitchPort.Alike (p q : SwitchPort) : Prop where
  index : p.index = q.index
  interface : p.interface = q.interface
  name : p.name = q.name
  mac : p.mac = q.mac
  description : p.description = q.description
  ssids : Option.Rel List.Perm p.ssids q.ssids

/-- The records do not differ in a key that matters, but for the order of the ports and of
the SSIDs of each port. -/
structure Device.Alike (a b : Device) : Prop where
  localId : a.localId = b.localId
  rest : a.rest = b.rest
  ports : ∃ ports, (a.ports.getD []).Perm ports ∧
    List.Forall₂ SwitchPort.Alike ports (b.ports.getD [])

/-- Each port lists its SSIDs in the same order in both records. -/
def Device.KeepsSsids (a b : Device) : Prop :=
  ∀ p ∈ a.ports.getD [], ∀ q ∈ b.ports.getD [], p.index = q.index → p.ssids = q.ssids

/-- What the poller sends: a list of ports, by index. -/
structure Device.Produced (d : Device) : Prop where
  ports : d.ports.isSome
  indexes : Indexes (d.ports.getD [])

theorem Device.Produced.withId {d : Device} (h : d.Produced) (id : Nat) :
    Device.Produced { d with localId := some id } := ⟨h.ports, h.indexes⟩

theorem SwitchPort.Alike.refl (p : SwitchPort) : p.Alike p where
  index := rfl
  interface := rfl
  name := rfl
  mac := rfl
  description := rfl
  ssids := by cases p.ssids <;> constructor; exact .refl _

theorem SwitchPort.Alike.eq {p q : SwitchPort} (h : p.Alike q) (ssids : p.ssids = q.ssids) :
    p = q := by
  obtain ⟨index, interface, name, mac, description, -⟩ := h
  cases p
  cases q
  simp_all

theorem eq_of_forall₂ {α : Type} {R : α → α → Prop} {l l' : List α} (h : List.Forall₂ R l l')
    (eq : ∀ a ∈ l, ∀ b ∈ l', R a b → a = b) : l = l' := by
  induction h with
  | nil => rfl
  | cons first _ ih =>
    rw [eq _ List.mem_cons_self _ List.mem_cons_self first,
      ih fun a ha b hb => eq a (List.mem_cons_of_mem _ ha) b (List.mem_cons_of_mem _ hb)]

section Records

variable {a b : Device}

/-- The ports are compared as sets. -/
theorem Device.Alike.perm_iff (h : a.Alike b) (produced : b.Produced) :
    (a.ports.getD []).Perm (b.ports.getD []) ↔ a.KeepsSsids b := by
  constructor
  · intro perm p hp q hq same
    rw [produced.indexes.eq (perm.mem_iff.mp hp) hq same]
  · intro keeps
    obtain ⟨ports, perm, alike⟩ := h.ports
    have same : ports = b.ports.getD [] := eq_of_forall₂ alike fun p hp q hq alike =>
      alike.eq (keeps p (perm.mem_iff.mpr hp) q hq alike.index)
    exact same ▸ perm

theorem Device.alike_of_perm (localId : a.localId = b.localId) (rest : a.rest = b.rest)
    (perm : (a.ports.getD []).Perm (b.ports.getD [])) : a.Alike b :=
  ⟨localId, rest, _, perm, List.forall₂_same.mpr fun p _ => .refl p⟩

end Records

/-! ## What a poll publishes -/

/-- The keys that matter, with the ports in any order. -/
def Device.Unchanged (a b : Device) : Prop :=
  a.localId = b.localId ∧ a.rest = b.rest ∧ (a.ports.getD []).Perm (b.ports.getD [])

/-- `poll` publishes a message. -/
def Publishes (ip : Value) (w : World) : Prop :=
  ∃ notice, (exec (poll ip) w).2.published = w.published ++ [notice]

section Poll

variable {ip : Value} {w : World} {id : Nat} {old device : Device}

theorem unchanged_of_same (same : old.same device) : old.Unchanged device := by
  have ports := same_ports same
  simp only [Device.same, Bool.and_eq_true, decide_eq_true_eq] at same
  exact ⟨same.1.1.1.1.1, same.2, by rw [ports]⟩

theorem relevant_sorted_eq_iff {ports ports' : List SwitchPort} (hold : old.ports = some ports)
    (hdevice : device.ports = some ports') (indexes : Indexes ports) :
    ({ old with ports := some (sortedPorts ports) } : Device).relevant =
      ({ device with ports := some (sortedPorts ports') } : Device).relevant ↔
      old.Unchanged device := by
  simp only [Device.relevant, Notice.mk.injEq, Option.some.injEq, sortedPorts_eq_iff indexes,
    Device.Unchanged, hold, hdevice, Option.getD_some]
  tauto

/-- The comparison that `poll` makes. -/
theorem switchHasChanged_exec (hold : old.Produced) (hdevice : device.Produced) (w : World) :
    ∃ changed sorted, exec (switchHasChanged old device) w = (.ok (changed, sorted), w) ∧
      sorted.ports.isSome ∧ (changed = true ↔ ¬old.Unchanged device) := by
  obtain ⟨ports, h1⟩ := Option.isSome_iff_exists.mp hold.ports
  obtain ⟨ports', h2⟩ := Option.isSome_iff_exists.mp hdevice.ports
  have indexes : Indexes ports := by simpa [h1] using hold.indexes
  refine ⟨_, { device with ports := some (sortedPorts ports') },
    by simp only [switchHasChanged, h1, h2]; rfl, rfl, ?_⟩
  rw [decide_eq_true_eq, Ne, relevant_sorted_eq_iff h1 h2 indexes]

theorem update_publishes_iff (hold : old.Produced) (hdevice : device.Produced) (w : World) :
    (∃ notice, (exec (update ip id (some old) device) w).2.published =
      w.published ++ [notice]) ↔ ¬old.Unchanged device := by
  rw [update]
  split
  · rename_i same
    exact iff_of_false (by simp) (not_not_intro (unchanged_of_same same))
  · obtain ⟨changed, sorted, compared, ports, changed_iff⟩ :=
      switchHasChanged_exec hold hdevice w
    rw [exec_bind_ok compared, ← changed_iff]
    cases changed with
    | true =>
      refine iff_of_true ⟨sorted.relevant, ?_⟩ rfl
      simp only [if_true, exec_bind_ok (publish_exec sorted w), save_exec _ _ _ _ ports]
      rfl
    | false =>
      refine iff_of_false ?_ (by simp)
      simp only [Bool.false_eq_true, if_false, save_exec _ _ _ _ ports]
      simp [World.cache]

/-- A poll of a device that is in the cache. -/
structure Repolled (ip : Value) (w : World) (id : Nat) (old device : Device) : Prop where
  answer : (w.polled w.asked).answer = .device device
  known : w.knownId ip device = some id
  cached : w.byId id = some old
  localId : old.localId = some id
  old : old.Produced
  produced : device.Produced

theorem Repolled.publishes_iff (h : Repolled ip w id old device) :
    Publishes ip w ↔ ¬old.Unchanged { device with localId := some id } := by
  have known : (w.asking ip).knownId ip device = some id := h.known
  have identified : exec (identify ip device) (w.asking ip) =
      (.ok (id, some old), w.asking ip) := by
    have cached : (w.asking ip).byId id = some old := h.cached
    simp [identify, known, cached]
  have asked : exec (ask ip) w = (.ok (.device device), w.asking ip) :=
    h.answer ▸ ask_exec ip w
  have polled : exec (poll ip) w =
      exec (some <$> update ip id (some old) { device with localId := some id }) (w.asking ip) := by
    rw [poll, exec_bind_ok asked]
    exact (exec_bind_ok identified).trans (by rw [map_eq_pure_bind])
  rw [Publishes, polled, exec_map]
  exact update_publishes_iff h.old (h.produced.withId id) (w.asking ip)

/-- A poll publishes exactly if the records differ up to order, if they do or if each port
lists its SSIDs in the same order in both. -/
theorem poll_publishes_iff (h : Repolled ip w id old device) :
    (Publishes ip w ↔ ¬old.Alike { device with localId := some id }) ↔
      ¬old.Alike { device with localId := some id } ∨ old.KeepsSsids device := by
  rw [h.publishes_iff]
  by_cases alike : old.Alike { device with localId := some id }
  · have perm := alike.perm_iff (h.produced.withId id)
    have unchanged : old.Unchanged { device with localId := some id } ↔ old.KeepsSsids device :=
      ⟨fun same => perm.mp same.2.2, fun keeps => ⟨h.localId, alike.rest, perm.mpr keeps⟩⟩
    simp [alike, unchanged]
  · have changed : ¬old.Unchanged { device with localId := some id } := fun same =>
      alike (Device.alike_of_perm same.1 same.2.1 same.2.2)
    simp [alike, changed]

end Poll

/-! ## A wireless controller -/

/-- A radio that advertises two SSIDs. -/
def radioWith (localId : Option Nat) (ssids : List String) : Device where
  localId := localId
  ports := some [⟨"1", .str "wlan0", .str "wlan0", none, .none,
    some (ssids.map fun ssid => ⟨.str ssid, none, none⟩)⟩]
  fwMac := .absent
  fwPort := .absent
  ignored := ∅
  rest := ∅

/-- A poll finds the SSIDs in another order than in the cache. -/
def radioPolled : World :=
  { World.empty (fun _ => ⟨.device (radioWith none ["guest", "corp"]), none⟩) fun _ => none with
    counter := 1
    byId := fun id => if id = 1 then some (radioWith (some 1) ["corp", "guest"]) else none
    idByIp := fun ip => if ip = "10.0.0.1" then some 1 else none }

theorem radioPolled_repolled : Repolled (.str "10.0.0.1") radioPolled 1
    (radioWith (some 1) ["corp", "guest"]) (radioWith none ["guest", "corp"]) where
  answer := rfl
  known := rfl
  cached := rfl
  localId := rfl
  old := ⟨rfl, by simp [Indexes, radioWith]⟩
  produced := ⟨rfl, by simp [Indexes, radioWith]⟩

theorem poll_publishes_iff_radio :
    (Publishes (.str "10.0.0.1") radioPolled ↔
      ¬(radioWith (some 1) ["corp", "guest"]).Alike (radioWith (some 1) ["guest", "corp"])) ↔
      ¬(radioWith (some 1) ["corp", "guest"]).Alike (radioWith (some 1) ["guest", "corp"]) ∨
        (radioWith (some 1) ["corp", "guest"]).KeepsSsids (radioWith none ["guest", "corp"]) :=
  poll_publishes_iff radioPolled_repolled

/-- The device is published although its record is the same up to order. -/
theorem poll_publishes_reordered :
    Repolled (.str "10.0.0.1") radioPolled 1
      (radioWith (some 1) ["corp", "guest"]) (radioWith none ["guest", "corp"]) ∧
    ¬(Publishes (.str "10.0.0.1") radioPolled ↔
      ¬(radioWith (some 1) ["corp", "guest"]).Alike (radioWith (some 1) ["guest", "corp"])) := by
  have published : Publishes (.str "10.0.0.1") radioPolled :=
    ⟨(radioWith (some 1) ["guest", "corp"]).relevant, by decide +kernel⟩
  have alike : (radioWith (some 1) ["corp", "guest"]).Alike
      (radioWith (some 1) ["guest", "corp"]) :=
    ⟨rfl, rfl, _, .refl _, .cons ⟨rfl, rfl, rfl, rfl, rfl, .some (.swap ..)⟩ .nil⟩
  exact ⟨radioPolled_repolled, fun iff => iff.mp published alike⟩

end ElanAgent.Snmp
