import ElanAgent.Session.Recorded
import ElanAgent.Snmp.Traps
import Mathlib.Data.Finset.Image

/-!
# The port of a MAC

`set_port_of_mac` of `elan/snmp.py` looks for a MAC on the devices that have ports with new
MACs. The port on which it finds the MAC goes through `session.seen`, which completes it in
place with what was known, and is then taken out of the ports with new MACs by its value.
-/

namespace ElanAgent.Snmp

open Raising Session
open Atomic (Prog)

/-! ## Ports with the IP of their device -/

/-- The values of the item `device_ip`, of which there is one at most. -/
def deviceIpsOf (port : Port) : Finset Value :=
  (port.rest.filter fun item => item.1 = "device_ip").image Prod.snd

/-- The port without the item `device_ip`. -/
def withoutDeviceIp (port : Port) : Port :=
  { port with rest := port.rest.filter fun item => item.1 ≠ "device_ip" }

/-- `port['device_ip'] = device_ip`. -/
def withDeviceIp (deviceIp : Value) (port : Port) : Port :=
  { port with rest := insert ("device_ip", deviceIp) (withoutDeviceIp port).rest }

/-- `{ port.pop('device_ip') for port in ports }`, and what is left of the ports. -/
def popDeviceIps (ports : List Port) : Handling (Finset Value × List Port) :=
  if ∃ port ∈ ports, deviceIpsOf port = ∅ then throw (.keyError "device_ip")
  else pure (ports.foldl (fun ips port => ips ∪ deviceIpsOf port) ∅, ports.map withoutDeviceIp)

/-! ## The search -/

/-- `session.seen(mac, port=port)`, and the port as it leaves it. -/
def seenOn (now : ℚ) (mac : Value) (port : Port) : Handling Port := do
  let w ← get
  let result := (seen now mac .none (some port) .none none).run handler w.sessions
  set { w with sessions := result.2 }
  pure (result.1.port.getD port)

/-- The MAC is on a port with new MACs. -/
def settle (now : ℚ) (mac deviceIp : Value) (port : Port) : Handling Unit := do
  let port ← seenOn now mac port
  modify fun w => { w with newMacs := w.newMacs.portHasNoNewMacs (withDeviceIp deviceIp port) }

/-- Look for the MAC on the devices, until it is on one of the ports. -/
def findOnDevices (now : ℚ) (mac : Value) (ports : List Port) : List Value → Handling Unit
  | [] => pure ()
  | deviceIp :: deviceIps => do
    let macPorts ← device (getMacsOnDevice deviceIp)
    match macPorts.get mac with
    | some port =>
      if port ∈ ports then settle now mac deviceIp port
      else findOnDevices now mac ports deviceIps
    | none => findOnDevices now mac ports deviceIps

/-- `set_port_of_mac`. The devices are gone through in the order of a set, which `order`
gives. -/
def setPortOfMac (now : ℚ) (order : Finset Value → List Value) (mac : Value) : Handling Unit := do
  let w ← get
  let (portsWithNewMacs, newMacs) := w.newMacs.getPortsWithNewMacs now
  set { w with newMacs := newMacs }
  if portsWithNewMacs = [] then pure ()
  else
    let (deviceIps, ports) ← popDeviceIps portsWithNewMacs
    findOnDevices now mac ports (order deviceIps)

/-! ## What is asked of it -/

/-- The MAC is on one of the ports on this device, and on none on the devices before it. -/
inductive Locates (mac : Value) (ports : List Port) :
    List Value → Snmp.World → Value → Port → Snmp.World → Prop
  | here {deviceIp : Value} {deviceIps : List Value} {w w' : Snmp.World}
      {macPorts : Dict Value Port} {port : Port}
      (polled : exec (getMacsOnDevice deviceIp) w = (.ok macPorts, w'))
      (at_mac : macPorts.get mac = some port) (new : port ∈ ports) :
      Locates mac ports (deviceIp :: deviceIps) w deviceIp port w'
  | later {first deviceIp : Value} {deviceIps : List Value} {w w₁ w' : Snmp.World}
      {macPorts : Dict Value Port} {port : Port}
      (polled : exec (getMacsOnDevice first) w = (.ok macPorts, w₁))
      (elsewhere : ∀ p, macPorts.get mac = some p → p ∉ ports)
      (located : Locates mac ports deviceIps w₁ deviceIp port w') :
      Locates mac ports (first :: deviceIps) w deviceIp port w'

/-- `set_port_of_mac` locates the MAC on a port, of the device with the IP. -/
structure Located (now : ℚ) (order : Finset Value → List Value) (mac : Value) (w : TrapWorld)
    (deviceIp : Value) (port : Port) : Prop where
  deviceIps : ∀ p ∈ (w.newMacs.expirePortsWithNewMacs now).ports, deviceIpsOf p ≠ ∅
  found : ∃ snmp, Locates mac ((w.newMacs.expirePortsWithNewMacs now).ports.map withoutDeviceIp)
    (order ((w.newMacs.expirePortsWithNewMacs now).ports.foldl
      (fun ips p => ips ∪ deviceIpsOf p) ∅)) w.snmp deviceIp port snmp

/-- The entry is taken out of the set and of the times, and nothing else is. -/
structure TakenOut (before after : NewMacs) (entry : Port) : Prop where
  ports : ∀ p, p ∈ after.ports ↔ p ∈ before.ports ∧ p ≠ entry
  times : ∀ p, after.time p = if p = entry then none else before.time p

/-- The MAC is on the port, of which the entry is taken out. -/
def Settled (mac : Value) (port : Port) (before : NewMacs) (w : TrapWorld) : Prop :=
  w.sessions.portOf mac = some port ∧
    ∃ entry ∈ before.ports, withoutDeviceIp entry = port ∧ TakenOut before w.newMacs entry

/-- Nothing is known of the port on which the MAC was that the port lacks. -/
def Fits (port : Port) : Option Port → Prop
  | none => True
  | some old => port.changed old = true ∨
      (old.interface = .none ∨ old.interface = port.interface) ∧
        (old.getSsid = .none ∨ port.ssid = some old.getSsid)

/-! ## The port that `seen` leaves -/

section Seen

variable {now : ℚ} {mac : Value} {port : Port} {w : Session.World}

theorem completed_eq_iff {old : Port} : port.completed old = port ↔
    (old.interface = .none ∨ old.interface = port.interface) ∧
      (old.getSsid = .none ∨ port.ssid = some old.getSsid) := by
  obtain ⟨localId, interface, ssid, rest⟩ := port
  simp only [Port.completed, Port.mk.injEq, true_and, and_true]
  refine and_congr ?_ ?_
  · split <;> simp_all
  · split <;> simp_all [eq_comm]

theorem merge_eq_iff : w.merge mac (some port) = some port ↔ Fits port (w.portOf mac) := by
  unfold World.merge Fits
  cases w.portOf mac with
  | none => simp
  | some old =>
    by_cases changed : port.changed old = true
    · simp [changed]
    · simp [changed, completed_eq_iff]

theorem seenAllocate_port (now : ℚ) (mac vlan : Value) (port oldPort : Option Port) (ip : Value)
    (time : ℚ) (macAdded vlanAdded ipAdded : Bool) (w : Session.World) :
    ((seenAllocate now mac vlan port oldPort ip time macAdded vlanAdded ipAdded).run
      handler w).1.port = port := by
  unfold seenAllocate
  split <;> simp [seenStore]

theorem seen_port (now : ℚ) (mac : Value) (port : Port) (w : Session.World) :
    ((seen now mac .none (some port) .none none).run handler w).1.port =
      w.merge mac (some port) := by
  simp only [seen, seenTouch, Prog.run_bind, run_pipeExecute, seenPort_run]
  rw [seenAllocate_port]

end Seen

/-! ## The search -/

section Search

variable {now : ℚ} {mac deviceIp : Value} {port : Port} {w : TrapWorld}

/-- The MAC is where `seen` says, and the entry of that port is taken out. -/
theorem settle_exec (now : ℚ) (mac deviceIp : Value) (port : Port) (w : TrapWorld) :
    ∃ merged w', w.sessions.merge mac (some port) = some merged ∧
      exec (settle now mac deviceIp port) w = (.ok (), w') ∧
      w'.sessions.portOf mac = some merged ∧
      w'.newMacs = w.newMacs.portHasNoNewMacs (withDeviceIp deviceIp merged) := by
  obtain ⟨merged, hmerged, -⟩ := merge_localId mac port w.sessions
  have returned : ((seen now mac .none (some port) .none none).run handler w.sessions).1.port =
      some merged := (seen_port now mac port w.sessions).trans hmerged
  refine ⟨merged, _, hmerged, rfl, ?_, ?_⟩
  · exact (seen_portOf now mac .none port .none none w.sessions).trans hmerged
  · change w.newMacs.portHasNoNewMacs (withDeviceIp deviceIp (Option.getD _ port)) = _
    rw [returned, Option.getD_some]

theorem Locates.mem {ports : List Port} {deviceIps : List Value} {snmp snmp' : Snmp.World}
    (located : Locates mac ports deviceIps snmp deviceIp port snmp') : port ∈ ports := by
  induction located with
  | here _ _ new => exact new
  | later _ _ _ ih => exact ih

/-- The search goes as far as the device on which the MAC is located. -/
theorem findOnDevices_exec {ports : List Port} {deviceIps : List Value} {snmp snmp' : Snmp.World}
    (located : Locates mac ports deviceIps snmp deviceIp port snmp') (hw : w.snmp = snmp) :
    exec (findOnDevices now mac ports deviceIps) w =
      exec (settle now mac deviceIp port) { w with snmp := snmp' } := by
  induction located generalizing w with
  | @here first _ _ snmp' macPorts _ polled at_mac new =>
    have asked : exec (device (getMacsOnDevice first)) w =
        (.ok macPorts, { w with snmp := snmp' }) := by
      rw [device, exec_zoom, hw, polled]
    rw [findOnDevices, exec_bind_ok asked]
    simp only [at_mac, if_pos new]
  | @later first _ _ _ snmp₁ _ macPorts _ polled elsewhere _ ih =>
    have asked : exec (device (getMacsOnDevice first)) w =
        (.ok macPorts, { w with snmp := snmp₁ }) := by
      rw [device, exec_zoom, hw, polled]
    rw [findOnDevices, exec_bind_ok asked]
    cases at_mac : macPorts.get mac with
    | none => exact ih rfl
    | some p =>
      simp only [if_neg (elsewhere p at_mac)]
      exact ih rfl

/-- What `set_port_of_mac` does once it has located the MAC. -/
theorem setPortOfMac_exec {order : Finset Value → List Value}
    (located : Located now order mac w deviceIp port) :
    ∃ snmp, exec (setPortOfMac now order mac) w = exec (settle now mac deviceIp port)
      { w with newMacs := w.newMacs.expirePortsWithNewMacs now, snmp := snmp } := by
  obtain ⟨snmp, found⟩ := located.found
  refine ⟨snmp, ?_⟩
  have some : (w.newMacs.getPortsWithNewMacs now).1 ≠ [] := by
    intro none
    have none : (w.newMacs.expirePortsWithNewMacs now).ports = [] := none
    have new := found.mem
    simp [none] at new
  have complete : ¬∃ p ∈ (w.newMacs.getPortsWithNewMacs now).1, deviceIpsOf p = ∅ := by
    rintro ⟨p, hp, none⟩
    exact located.deviceIps p hp none
  rw [setPortOfMac, exec_get_bind]
  simp only [exec_set_bind]
  rw [if_neg some, popDeviceIps, if_neg complete, pure_bind]
  exact findOnDevices_exec found rfl

theorem withoutDeviceIp_withDeviceIp (deviceIp : Value) (port : Port) :
    withoutDeviceIp (withDeviceIp deviceIp port) = withoutDeviceIp port := by
  simp [withoutDeviceIp, withDeviceIp, Finset.filter_insert, Finset.filter_filter]

theorem takenOut_portHasNoNewMacs (s : NewMacs) (entry : Port) :
    TakenOut s (s.portHasNoNewMacs entry) entry where
  ports p := by simp [NewMacs.portHasNoNewMacs]
  times p := NewMacs.time_portHasNoNewMacs s entry p

/-- The MAC is left on the port on which it is located, and the entry of this port is taken
out, exactly if nothing completes the port and it has been noted for the IP of the device. -/
theorem setPortOfMac_settles_iff {order : Finset Value → List Value}
    (located : Located now order mac w deviceIp port) :
    Settled mac port (w.newMacs.expirePortsWithNewMacs now)
        (exec (setPortOfMac now order mac) w).2 ↔
      Fits port (w.sessions.portOf mac) ∧
        withDeviceIp deviceIp port ∈ (w.newMacs.expirePortsWithNewMacs now).ports := by
  obtain ⟨snmp, ran⟩ := setPortOfMac_exec located
  set before := w.newMacs.expirePortsWithNewMacs now with hbefore
  obtain ⟨merged, w', hmerged, settled, portOf, newMacs⟩ := settle_exec now mac deviceIp port
    { w with newMacs := before, snmp := snmp }
  rw [ran, settled]
  constructor
  · rintro ⟨onPort, entry, hentry, -, taken⟩
    obtain rfl : merged = port := Option.some.inj (portOf.symm.trans onPort)
    refine ⟨merge_eq_iff.mp hmerged, ?_⟩
    -- the entry that is gone was there, and only the one of the device is gone
    have gone : entry ∉ w'.newMacs.ports := fun kept => ((taken.ports entry).mp kept).2 rfl
    have same : entry = withDeviceIp deviceIp merged := by
      by_contra other
      refine gone ?_
      rw [newMacs, (takenOut_portHasNoNewMacs before _).ports]
      exact ⟨hentry, other⟩
    exact same ▸ hentry
  · rintro ⟨fits, noted⟩
    obtain rfl : merged = port := Option.some.inj (hmerged.symm.trans (merge_eq_iff.mpr fits))
    refine ⟨portOf, _, noted, ?_, newMacs ▸ takenOut_portHasNoNewMacs before _⟩
    obtain ⟨snmp', found⟩ := located.found
    obtain ⟨p, -, rfl⟩ := List.mem_map.mp found.mem
    rw [withoutDeviceIp_withDeviceIp]
    simp [withoutDeviceIp]

end Search

/-! ## A MAC that roams -/

/-- A device with one port, on which its tables have one MAC. -/
def accessPoint : Device where
  localId := none
  ports := some [⟨"1", .str "wlan0", .str "wlan0", none, .none, none⟩]
  fwMac := .dict (Dict.empty.set "1.0" (.str "00:11:22:33:44:55"))
  fwPort := .dict (Dict.empty.set "1.0" (.str "1"))
  ignored := ∅
  rest := ∅

def wlan0 (ssid : Option Value) : Port := ⟨.int 1, .str "wlan0", ssid, ∅⟩

/-- The port of the access point has new MACs. -/
def notedPort : NewMacs where
  ports := [withDeviceIp (.str "10.0.0.1") (wlan0 none)]
  timestamps := some (Dict.empty.set (withDeviceIp (.str "10.0.0.1") (wlan0 none)) 0)

/-- The sessions know the MAC on a port, if on any. -/
def roaming (known : Option Port) : TrapWorld where
  snmp := .empty (fun _ => ⟨.device accessPoint, none⟩) fun _ => none
  newMacs := notedPort
  sessions := { Session.World.empty with
    macPort := match known with
      | some port => Session.World.empty.macPort.insert "00:11:22:33:44:55" port
      | none => Session.World.empty.macPort }

/-- The only device. -/
def onlyDevice (_ : Finset Value) : List Value := [.str "10.0.0.1"]

theorem roaming_located (known : Option Port) : Located 1 onlyDevice (.str "00:11:22:33:44:55")
    (roaming known) (.str "10.0.0.1") (wlan0 none) := by
  have deviceIps : ∀ p ∈ (notedPort.expirePortsWithNewMacs 1).ports, deviceIpsOf p ≠ ∅ := by
    decide +kernel
  have new : wlan0 none ∈ (notedPort.expirePortsWithNewMacs 1).ports.map withoutDeviceIp := by
    decide +kernel
  exact ⟨deviceIps, _, .here rfl rfl new⟩

/-- A MAC of which nothing is known. -/
theorem setPortOfMac_settles_iff_new :
    Settled (.str "00:11:22:33:44:55") (wlan0 none) (notedPort.expirePortsWithNewMacs 1)
      (exec (setPortOfMac 1 onlyDevice (.str "00:11:22:33:44:55")) (roaming none)).2 :=
  (setPortOfMac_settles_iff (roaming_located none)).mpr ⟨trivial, by decide +kernel⟩

/-- A MAC that was on the port with an SSID keeps the SSID, and the port its entry. -/
theorem setPortOfMac_keepsSsid :
    Located 1 onlyDevice (.str "00:11:22:33:44:55") (roaming (wlan0 (some (.str "corp"))))
      (.str "10.0.0.1") (wlan0 none) ∧
    ¬Settled (.str "00:11:22:33:44:55") (wlan0 none) (notedPort.expirePortsWithNewMacs 1)
      (exec (setPortOfMac 1 onlyDevice (.str "00:11:22:33:44:55"))
        (roaming (wlan0 (some (.str "corp"))))).2 ∧
    (exec (setPortOfMac 1 onlyDevice (.str "00:11:22:33:44:55"))
      (roaming (wlan0 (some (.str "corp"))))).2.newMacs.ports = notedPort.ports := by
  have portOf : (exec (setPortOfMac 1 onlyDevice (.str "00:11:22:33:44:55"))
      (roaming (wlan0 (some (.str "corp"))))).2.sessions.portOf (.str "00:11:22:33:44:55") =
      some (wlan0 (some (.str "corp"))) := by decide +kernel
  refine ⟨roaming_located _, ?_, by decide +kernel⟩
  rintro ⟨onPort, -⟩
  rw [portOf] at onPort
  exact absurd (Option.some.inj onPort) (by decide)

end ElanAgent.Snmp
