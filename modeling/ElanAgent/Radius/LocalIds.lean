import ElanAgent.Radius.Ports
import ElanAgent.Session.Recorded

/-!
# One port, seen through RADIUS and through SNMP

`find_port` and `DeviceSnmpManager` both tell the port of a MAC as a dictionary with the
local id of its switch, and `seen` compares such ports. The local id is a text in the one
and a number in the other, by which no port of the one is on the device of any of the other.
-/

namespace ElanAgent.Radius

open Raising
open Session (Port)

/-- The local id of a port is a text. -/
def TextId (port : Port) : Prop := ∃ id : Nat, port.localId = .str (toString id)

/-- The local id of a port is a number. -/
def NumberId (port : Port) : Prop := ∃ id : Nat, port.localId = .int id

theorem localId_ne {p q : Port} (hp : TextId p) (hq : NumberId q) : p.localId ≠ q.localId := by
  obtain ⟨id, hp⟩ := hp
  obtain ⟨id', hq⟩ := hq
  simp [hp, hq]

/-! ## Ports of requests -/

theorem returns_result (switch : Snmp.Device) (ssid : Option String) (interface : Value) :
    Returns (result switch ssid interface) fun port => ∀ p ∈ port, TextId p := by
  unfold result
  split
  · rename_i id _
    refine returns_pure fun p hp => ?_
    obtain rfl := Option.mem_some.mp hp
    exact ⟨id, rfl⟩
  · exact returns_throw _

theorem returns_findCommon (switch : Snmp.Device) (ssid : Option String) (found : FoundPorts) :
    Returns (findCommon switch ssid found) fun port => ∀ p ∈ port, TextId p := by
  unfold findCommon
  split
  · exact returns_throw _
  · exact returns_bind fun _ => returns_result switch ssid .none

theorem returns_findOn (request : Request) (found : Found) :
    Returns (findOn request found) fun port => ∀ p ∈ port, TextId p := by
  refine returns_bind fun ssid => returns_bind fun calledStationId => returns_bind fun mac => ?_
  split
  · exact returns_result _ _ _
  · refine returns_bind fun bySsid => ?_
    split
    · exact returns_throw _
    · refine returns_bind fun nasPortId => ?_
      split
      · exact returns_result _ _ _
      · refine returns_bind fun nasPort => ?_
        split
        · exact returns_result _ _ _
        · exact returns_findCommon _ _ _

theorem returns_findPort (request : Request) :
    Returns (findPort request) fun port => ∀ p ∈ port, TextId p := by
  refine returns_bind fun found => ?_
  split
  · exact returns_findOn _ _
  · exact returns_pure (by simp)

/-! ## Ports of devices -/

theorem returns_portOfIndex (device : Snmp.Device) (ifIndex : Value) :
    Returns (device.portOfIndex ifIndex) fun port => ∀ p ∈ port, NumberId p := by
  unfold Snmp.Device.portOfIndex
  split
  · exact returns_throw _
  · split
    · exact returns_pure (by simp)
    · split
      · rename_i id _
        refine returns_pure fun p hp => ?_
        obtain rfl := Option.mem_some.mp hp
        exact ⟨id, rfl⟩
      · exact returns_throw _

theorem returns_polledPort (deviceIp ifIndex : Value) :
    Returns (Snmp.polledPortFromIndex deviceIp ifIndex) fun port => ∀ p ∈ port, NumberId p := by
  refine returns_bind fun device => ?_
  split
  · exact returns_portOfIndex _ _
  · exact returns_pure (by simp)

theorem returns_getPortFromIndex (deviceIp ifIndex : Value) (forcePoll noPoll : Bool) :
    Returns (Snmp.getPortFromIndex deviceIp ifIndex forcePoll noPoll) fun port =>
      ∀ p ∈ port, NumberId p := by
  have absent : Returns (pure none : Snmp.Act (Option Port)) fun port => ∀ p ∈ port, NumberId p :=
    returns_pure (by simp)
  have unknown : Returns (if noPoll then pure none else Snmp.polledPortFromIndex deviceIp ifIndex)
      fun port => ∀ p ∈ port, NumberId p := by
    split
    · exact absent
    · exact returns_polledPort _ _
  unfold Snmp.getPortFromIndex
  by_cases hboth : (forcePoll && noPoll) = true
  · rw [if_pos hboth]
    intro w a ha
    cases ha
  · rw [if_neg hboth]
    refine returns_ite ?_ ?_
    · exact absent
    · refine returns_ite (returns_polledPort _ _) (returns_bind fun w => ?_)
      split
      · rename_i device _
        refine (returns_portOfIndex device ifIndex).bind fun port hport => ?_
        cases port with
        | none => exact unknown
        | some port => exact returns_pure hport
      · exact unknown

/-- Every value of a dictionary satisfies `P`. -/
def AllValues {κ α : Type} [DecidableEq κ] (P : α → Prop) (d : Dict κ α) : Prop :=
  ∀ k a, d.get k = some a → P a

theorem allValues_foldl {κ α : Type} [DecidableEq κ] {P : α → Prop} {a : α} (h : P a)
    (keys : List κ) {d : Dict κ α} (known : AllValues P d) :
    AllValues P (keys.foldl (fun d k => d.set k a) d) := by
  induction keys generalizing d with
  | nil => exact known
  | cons k keys ih =>
    refine ih fun k' b hb => ?_
    rw [Dict.get_set] at hb
    split at hb
    · exact Option.some.inj hb ▸ h
    · exact known k' b hb

theorem returns_macPorts (deviceIp : Value) (ports : Dict Value Port)
    (items : List (Value × List Value)) (known : AllValues NumberId ports) :
    Returns (Snmp.macPorts deviceIp ports items) (AllValues NumberId) := by
  induction items generalizing ports with
  | nil => exact returns_pure known
  | cons item items ih =>
    obtain ⟨ifIndex, macs⟩ := item
    refine (returns_getPortFromIndex deviceIp ifIndex false false).bind fun port hport => ?_
    cases port with
    | none => exact ih ports known
    | some port => exact ih _ (allValues_foldl (hport port rfl) macs known)

theorem returns_getMacsOnDevice (deviceIp : Value) :
    Returns (Snmp.getMacsOnDevice deviceIp) (AllValues NumberId) := by
  refine returns_bind fun device => ?_
  split
  · exact returns_throw _
  · refine returns_bind fun entries => returns_bind fun macs => ?_
    exact returns_macPorts _ _ _ fun k a h => by simp at h

/-! ## Seen twice -/

/-- A RADIUS request has this port, whatever the cache and the polls. -/
def ByRequest (port : Port) : Prop :=
  ∃ request w, (exec (findPort request) w).1 = .ok (some port)

/-- A trap has this port. -/
def ByIndex (port : Port) : Prop :=
  ∃ deviceIp ifIndex forcePoll noPoll w,
    (exec (Snmp.getPortFromIndex deviceIp ifIndex forcePoll noPoll) w).1 = .ok (some port)

/-- A forwarding table has this port for the MAC. -/
def ByTable (mac : Value) (port : Port) : Prop :=
  ∃ deviceIp w macPorts, (exec (Snmp.getMacsOnDevice deviceIp) w).1 = .ok macPorts ∧
    macPorts.get mac = some port

/-- Two ports with the texts of one switch and of one interface. -/
def SamePort (p q : Port) : Prop :=
  p.localId.format = q.localId.format ∧ p.interface.format = q.interface.format

/-- `seen` on the first port, then on the second: the second call finds the session that the
first one has left, and leaves the MAC on the port. -/
def KeepsSession (store : Session.World) (now now' : ℚ) (mac : Value) (first second : Port) :
    Prop :=
  let between := store.step (.seen now mac .none (some first) .none none)
  let again := (Session.seen now' mac .none (some second) .none none).run Session.handler between
  again.1.macAdded = false ∧ ∃ port, again.2.portOf mac = some port ∧ SamePort port first

theorem not_keepsSession {first second : Port} (h : second.localId ≠ first.localId)
    (store : Session.World) (now now' : ℚ) (mac : Value) :
    ¬ KeepsSession store now now' mac first second := by
  rintro ⟨kept, -⟩
  obtain ⟨q, recorded, same⟩ := Session.seen_localId now mac .none first .none none store
  have new := Session.seen_moved now' mac .none .none none recorded (same ▸ h)
  rw [kept] at new
  cases new

/-- A session is never kept when the MAC is seen on the port of a RADIUS request and on one
that SNMP tells, in either order. -/
theorem never_keepsSession {mac : Value} {p q : Port} (hp : ByRequest p)
    (hq : ByIndex q ∨ ByTable mac q) (store : Session.World) (now now' : ℚ) :
    ¬ KeepsSession store now now' mac p q ∧ ¬ KeepsSession store now now' mac q p := by
  have text : TextId p := by
    obtain ⟨request, w, found⟩ := hp
    exact returns_findPort request w _ found p rfl
  have number : NumberId q := by
    rcases hq with
      ⟨deviceIp, ifIndex, forcePoll, noPoll, w, found⟩ | ⟨deviceIp, w, d, found, at_mac⟩
    · exact returns_getPortFromIndex deviceIp ifIndex forcePoll noPoll w _ found q rfl
    · exact returns_getMacsOnDevice deviceIp w _ found mac q at_mac
  have differ := localId_ne text number
  exact ⟨not_keepsSession differ.symm store now now' mac,
    not_keepsSession differ store now now' mac⟩

/-- A switch with one port, in the cache. -/
def oneSwitch : Snmp.World :=
  { Snmp.World.empty (fun _ => ⟨.null, none⟩) fun _ => none with
    counter := 1
    byId := fun _ => some
      { localId := some 1
        ports := some [⟨"10001", .str "g1", .str "g1", none, .none, none⟩]
        fwMac := .absent, fwPort := .absent, ignored := ∅, rest := ∅ }
    idByIp := fun ip => if ip = "10.0.0.1" then some 1 else none }

/-- A request from its port. -/
def portRequest : Request :=
  (Dict.empty.set "ELAN-Radius-Client-Ip" (.one "10.0.0.1")).set "NAS-Port-ID" (.one "g1")

def radiusPort : Port := ⟨.str "1", .str "g1", none, ∅⟩

def snmpPort : Port := ⟨.int 1, .str "g1", none, ∅⟩

theorem byRequest_radiusPort : ByRequest radiusPort :=
  ⟨portRequest, oneSwitch, by decide +kernel⟩

theorem byIndex_snmpPort : ByIndex snmpPort :=
  ⟨"10.0.0.1", "10001", false, false, oneSwitch, by rfl⟩

theorem never_keepsSession_oneSwitch :
    ¬ KeepsSession .empty 100 200 "00:11:22:33:44:55" radiusPort snmpPort ∧
    ¬ KeepsSession .empty 100 200 "00:11:22:33:44:55" snmpPort radiusPort :=
  never_keepsSession byRequest_radiusPort (.inl byIndex_snmpPort) .empty 100 200

/-- Both are the port of one switch, and the session is ended between them. -/
theorem samePort_not_kept :
    ByRequest radiusPort ∧ ByIndex snmpPort ∧ SamePort radiusPort snmpPort ∧
    ¬ KeepsSession .empty 100 200 "00:11:22:33:44:55" radiusPort snmpPort := by
  refine ⟨byRequest_radiusPort, byIndex_snmpPort, ⟨rfl, rfl⟩, ?_⟩
  exact not_keepsSession (by decide) .empty 100 200 "00:11:22:33:44:55"

end ElanAgent.Radius
