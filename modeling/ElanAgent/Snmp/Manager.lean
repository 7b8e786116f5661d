import ElanAgent.Session.Store
import ElanAgent.Snmp.Store

/-!
# The manager of polled devices

`DeviceSnmpManager` of `elan/snmp.py`, without its traps and its ports with new MACs. An
id that `INCR` has given is not zero, so that the truth of an id is whether there is one.
-/

namespace ElanAgent.Snmp

open Session (Port)

/-- `sorted(ports, key=lambda x: x.get('index', 0))`. -/
def sortedPorts (ports : List SwitchPort) : List SwitchPort :=
  ports.insertionSort fun p q => p.index ≤ q.index

/-- Is there a difference that matters? The ports of the new record stay sorted. -/
def switchHasChanged (device1 device2 : Device) : Act (Bool × Device) :=
  match device1.ports, device2.ports with
  | some ports1, some ports2 =>
    let device1 := { device1 with ports := some (sortedPorts ports1) }
    let device2 := { device2 with ports := some (sortedPorts ports2) }
    pure (device1.relevant ≠ device2.relevant, device2)
  | _, _ => throw (.keyError "ports")

/-- The non-empty MACs of the ports. -/
def Device.macs (device : Device) : Finset String :=
  (((device.ports.getD []).filterMap SwitchPort.mac).filter (· ≠ "")).toFinset

/-- `_poll`, within the timeout of `poll`. -/
def ask (ip : Value) : Act Answer := do
  let w ← get
  let polled := w.polled w.asked
  set { w with
    asked := w.asked + 1
    readParams := Function.update w.readParams ip.format polled.readParams }
  pure polled.answer

/-- The id of a device, by its IP or else by the first of its MACs that is known. -/
def World.knownId (w : World) (ip : Value) (device : Device) : Option Nat :=
  (w.idByIp ip.format).or
    ((device.ports.getD []).findSome? fun port => w.idByMac (macField port.mac))

/-- The id under which a polled device is cached, and what is cached under it. -/
def identify (ip : Value) (device : Device) : Act (Nat × Option Device) := do
  let w ← get
  match w.knownId ip device with
  | some id => pure (id, w.byId id)
  | none =>
    set { w with counter := w.counter + 1 }
    pure (w.counter + 1, none)

/-- The pipeline of `poll`: no MAC is in both of the differences. -/
def World.cache (w : World) (ip : Value) (id : Nat) (cached : Option Device)
    (device : Device) : World :=
  let cachedMacs := (cached.map Device.macs).getD ∅
  let deviceMacs := device.macs
  { w with
    byId := Function.update w.byId id (some device)
    idByIp := Function.update w.idByIp ip.format (some id)
    idByMac := fun mac =>
      if mac ∈ cachedMacs \ deviceMacs then none
      else if mac ∈ deviceMacs \ cachedMacs then some id
      else w.idByMac mac }

/-- `Dendrite.publish_single('snmp', …)`. -/
def publish (device : Device) : Act Unit :=
  modify fun w => { w with published := w.published ++ [device.relevant] }

/-- Execute the pipeline, for which both records need ports. -/
def save (ip : Value) (id : Nat) (cached : Option Device) (device : Device) : Act Device := do
  if device.ports.isNone then throw (.keyError "ports")
  modify fun w => w.cache ip id cached device
  pure device

/-- Update the cached device if needed. -/
def update (ip : Value) (id : Nat) (cached : Option Device) (device : Device) : Act Device := do
  match cached with
  | none =>
    publish device
    save ip id none device
  | some old =>
    if old.same device then pure device
    else do
      let (changed, device) ← switchHasChanged old device
      if changed then publish device
      save ip id (some old) device

/-- Poll a device and cache the result. -/
def poll (ip : Value) : Act (Option Device) := do
  match ← ask ip with
  | .raises => throw .socket
  | .timeout | .null =>
    modify fun w => { w with events := w.events ++ [.pollFailed ip] }
    pure none
  | .device found =>
    let (id, cached) ← identify ip found
    let device ← update ip id cached { found with localId := some id }
    pure (some device)

/-- The read parameters of a device, which a poll finds out if they are not cached. -/
def getReadParams (deviceIp : Value) : Act (Option String) := do
  let w ← get
  match w.readParams deviceIp.format with
  | some params => pure (some params)
  | none =>
    match ← poll deviceIp with
    | some _ =>
      let w ← get
      pure (w.readParams deviceIp.format)
    | none => pure none

/-- The indexes of the ports that a NAS port may be. -/
def nasPort2IfIndexes (deviceIp : Value) : Act (List Value) := do
  let _ ← getReadParams deviceIp
  let w ← get
  set { w with asked := w.asked + 1 }
  match w.resolved w.asked with
  | some indexes => pure indexes
  | none => throw .socket

/-- The port of a device that has an index. -/
def Device.portOfIndex (device : Device) (ifIndex : Value) : Act (Option Port) :=
  match device.ports with
  | none => throw (.keyError "ports")
  | some ports =>
    match ports.find? fun port => Value.str port.index = ifIndex with
    | none => pure none
    | some port =>
      match device.localId with
      | some id => pure (some ⟨.int id, port.interface, none, ∅⟩)
      | none => throw (.keyError "local_id")

/-- Poll, then look the port up. -/
def polledPortFromIndex (deviceIp ifIndex : Value) : Act (Option Port) := do
  match ← poll deviceIp with
  | some device => device.portOfIndex ifIndex
  | none => pure none

/-- The port of a device that has an index, with one poll at most. `raise` of a text is a
`TypeError`. -/
def getPortFromIndex (deviceIp ifIndex : Value) (forcePoll noPoll : Bool) : Act (Option Port) := do
  if forcePoll && noPoll then throw .typeError
  if deviceIp = .none || ifIndex = .none then pure none
  else if forcePoll then polledPortFromIndex deviceIp ifIndex
  else
    let w ← get
    match w.getDeviceByIp deviceIp with
    | some device =>
      match ← device.portOfIndex ifIndex with
      | some port => pure (some port)
      | none => if noPoll then pure none else polledPortFromIndex deviceIp ifIndex
    | none => if noPoll then pure none else polledPortFromIndex deviceIp ifIndex

/-- `table.items()`. -/
def Table.entries : Table → Act (List (String × Value))
  | .absent => pure []
  | .text _ => throw .attributeError
  | .dict d => pure d.items

/-- `table[k] if k in table`: a text has its parts in it, but no item. -/
def Table.item (k : String) : Table → Act (Option Value)
  | .absent => pure none
  | .text s => if k.toList <:+: s.toList then throw .typeError else pure none
  | .dict d => pure (d.get k)

/-- `macs_by_if_index`, in the order of the forwarding table. -/
def macsByIfIndex (fwMac : Table) (macs : Dict Value (List Value)) :
    List (String × Value) → Act (Dict Value (List Value))
  | [] => pure macs
  | (fwHash, ifIndex) :: entries => do
    match ← fwMac.item fwHash with
    | some mac =>
      macsByIfIndex fwMac (macs.set ifIndex ((macs.get ifIndex).getD [] ++ [mac])) entries
    | none => macsByIfIndex fwMac macs entries

/-- `mac_ports`: the port of each index, for all its MACs. -/
def macPorts (deviceIp : Value) (ports : Dict Value Port) :
    List (Value × List Value) → Act (Dict Value Port)
  | [] => pure ports
  | (ifIndex, macs) :: rest => do
    match ← getPortFromIndex deviceIp ifIndex false false with
    | some port => macPorts deviceIp (macs.foldl (fun ports mac => ports.set mac port) ports) rest
    | none => macPorts deviceIp ports rest

/-- The MACs on a device, each with the port that it is on. -/
def getMacsOnDevice (deviceIp : Value) : Act (Dict Value Port) := do
  match ← poll deviceIp with
  | none => throw .attributeError
  | some device =>
    let entries ← device.fwPort.entries
    let macs ← macsByIfIndex device.fwMac .empty entries
    macPorts deviceIp .empty macs.items

end ElanAgent.Snmp
