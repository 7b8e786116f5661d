import ElanAgent.Radius.Requests
import ElanAgent.Snmp.Manager

/-!
# The port that a RADIUS request is about

`find_port` of `elan/freeradius/nac.py`. It goes through four ways to tell the port of a
switch, each with a set of the interfaces that are possible, and takes the first set that
has one element only.
-/

namespace ElanAgent.Radius

open Raising
open Session (Port)
open Snmp (Device SwitchPort)

/-- What the search may raise. -/
inductive Error where
  | manager (e : Snmp.Error)
  | typeError
  | attributeError
  | unboundLocalError (name : String)
  deriving DecidableEq

abbrev Act := Raising Error Snmp.World

/-- A call of `snmp_manager`. -/
def manager {α : Type} (x : Snmp.Act α) : Act α := raiseAs .manager x

/-- What a regular expression finds in a value: nothing in what is false, and an error in a
number. -/
def extract (find : String → Option String) (string : Value) : Act (Option String) :=
  match string with
  | .none => pure none
  | .int n => if n = 0 then pure none else throw .typeError
  | .str text => pure (if text = "" then none else find text)

def extractMac (string : Value) : Act (Option String) := extract macOf string

def extractSsid (string : Value) : Act (Option String) := extract ssidOf string

/-! ## The switch -/

def getDeviceByIp (ip : Value) : Act (Option Device) := do
  let w ← get
  pure (w.getDeviceByIp ip)

/-- A switch, the IP under which its ports are looked up, and whether it has been polled. -/
structure Found where
  switch : Device
  switchIp : Value
  switchPolled : Bool

/-- The switch of the address of the NAS or of the client, in the cache. -/
def findCached (nasIpAddress radiusClientIp : Value) : Act (Option Device) := do
  let switch ← if nasIpAddress.truthy && nasIpAddress ∉ ([.str "0.0.0.0", .str "::"] : List Value)
    then getDeviceByIp nasIpAddress else pure none
  match switch with
  | some switch => pure (some switch)
  | none => getDeviceByIp radiusClientIp

/-- Poll the address of the NAS, then that of the client. -/
def findPolled (nasIpAddress radiusClientIp : Value) : Act (Option Found) := do
  let switch ← if nasIpAddress.truthy then manager (Snmp.poll nasIpAddress) else pure none
  match switch with
  | some switch => pure (some ⟨switch, nasIpAddress, true⟩)
  | none =>
    let switch ← manager (Snmp.poll radiusClientIp)
    pure (switch.map fun switch => ⟨switch, radiusClientIp, true⟩)

/-- The switch, from the cache if it is there. The IP of a cached one is always that of the
client. -/
def findSwitch (nasIpAddress radiusClientIp : Value) : Act (Option Found) := do
  match ← findCached nasIpAddress radiusClientIp with
  | some switch => pure (some ⟨switch, radiusClientIp, false⟩)
  | none => findPolled nasIpAddress radiusClientIp

/-! ## The SSID -/

/-- The SSID in the first of the values that has one. -/
def avpairSsid : List Value → Act (Option String)
  | [] => pure none
  | .str val :: vals =>
    if val.toLower.startsWith "ssid=" then
      pure (some (String.ofList ((val.toList.dropWhile (· ≠ '=')).drop 1)))
    else avpairSsid vals
  | _ :: _ => throw .attributeError

/-- The SSID in the first attribute that has one, an empty one apart. -/
def attributesSsid : List (String × Attribute) → Act (Option String)
  | [] => pure none
  | (k, v) :: items =>
    if "-avpair".toList <:+: k.toLower.toList then do
      match ← avpairSsid v.values with
      | some ssid => if ssid = "" then attributesSsid items else pure (some ssid)
      | none => attributesSsid items
    else attributesSsid items

/-- The SSID that the request tells. -/
def findSsid (request : Request) : Act (Option String) := do
  match ← attributesSsid request.items with
  | some ssid => pure (some ssid)
  | none => extractSsid (request.attribute "Called-Station-Id")

/-! ## The interfaces -/

/-- `switch['ports']`. -/
def switchPorts (switch : Device) : Act (List SwitchPort) :=
  match switch.ports with
  | some ports => pure ports
  | none => throw (.manager (.keyError "ports"))

/-- The interfaces of the ports that satisfy a test, as a set. -/
def interfaces (test : SwitchPort → Bool) (ports : List SwitchPort) : List Value :=
  ((ports.filter test).map SwitchPort.interface).dedup

/-- `found_ports`, by method. -/
structure FoundPorts where
  mac : List Value
  ssid : List Value
  nasPortId : List Value
  nasPort : List Value

/-- The only element of a set. -/
def single : List Value → Option Value
  | [interface] => some interface
  | _ => none

/-- `result`, with the local id of the switch. -/
def result (switch : Device) (ssid : Option String) (interface : Value) : Act (Option Port) :=
  match switch.localId with
  | some id => pure (some ⟨.str (toString id), interface, ssid.map .str, ∅⟩)
  | none => throw (.manager (.keyError "local_id"))

/-- `result`, on an interface. -/
def resultOn (switch : Device) (ssid : Option String) (interface : Value) : Act (Option Port) :=
  result switch ssid (.str interface.format)

/-- The ports with the MAC of the called station. -/
def portsByMac (switch : Device) : Option String → Act (List Value)
  | some calledStationId => do
    let ports ← switchPorts switch
    pure (interfaces (fun port => port.mac = some calledStationId) ports)
  | none => pure []

/-- The ports that have the SSID. -/
def portsBySsid (switch : Device) : Option String → Act (List Value)
  | some ssid => do
    let ports ← switchPorts switch
    pure (interfaces (fun port => (port.ssids.getD []).any fun s => s.ssid = .str ssid) ports)
  | none => pure []

/-- The ports whose interface, name or description is the id of the NAS port. -/
def portsByNasPortId (switch : Device) (nasPortId : Value) : Act (List Value) :=
  if nasPortId.truthy then do
    let ports ← switchPorts switch
    pure (interfaces (fun port => nasPortId ∈ [port.interface, port.name, port.description]) ports)
  else pure []

/-- The interfaces of the ports that have one of the indexes. The switch is polled for the
first one, if it has not been yet. -/
def interfacesOfIndexes (switchIp : Value) : Bool → List Value → List Value → Act (List Value)
  | _, found, [] => pure found
  | switchPolled, found, ifIndex :: ifIndexes => do
    let forcePoll := !switchPolled
    match ← manager (Snmp.getPortFromIndex switchIp ifIndex forcePoll (!forcePoll)) with
    | some port => interfacesOfIndexes switchIp true (found.insert port.interface) ifIndexes
    | none => interfacesOfIndexes switchIp true found ifIndexes

/-- The ports that have an index for the NAS port, which is the index if none is known. -/
def portsByNasPort (found : Found) (nasPort : Value) : Act (List Value) :=
  if nasPort.truthy then do
    let ifIndexes ← manager (Snmp.nasPort2IfIndexes found.switchIp)
    let ifIndexes := if ifIndexes = [] then [.str nasPort.format] else ifIndexes
    interfacesOfIndexes found.switchIp found.switchPolled [] ifIndexes
  else pure []

/-- The elements that all the sets have that are not empty. -/
def FoundPorts.intersection (found : FoundPorts) : List Value :=
  let sets := [found.mac, found.ssid, found.nasPortId, found.nasPort]
  let union := sets.foldl (fun union set => union.union set) []
  sets.foldl (fun common set => if set = [] then common else common.filter (· ∈ set)) union

/-- A common port of all the ways, or none. A set has no first item to take. -/
def findCommon (switch : Device) (ssid : Option String) (found : FoundPorts) :
    Act (Option Port) := do
  if found.intersection.length = 1 then throw .typeError
  else
    modify fun w => { w with events := w.events ++ [.portNotFound] }
    result switch ssid .none

/-- What `find_port` does once it has the switch. The interface that it returns for the SSID
is that of a variable without a value. -/
def findOn (request : Request) (found : Found) : Act (Option Port) := do
  let switch := found.switch
  let ssid ← findSsid request
  let calledStationId ← extractMac (request.attribute "Called-Station-Id")
  let mac ← portsByMac switch calledStationId
  match single mac with
  | some interface => resultOn switch ssid interface
  | none =>
    let bySsid ← portsBySsid switch ssid
    if (single bySsid).isSome then throw (.unboundLocalError "port_interface")
    else
      let nasPortId ← portsByNasPortId switch (request.attribute "NAS-Port-ID")
      match single nasPortId with
      | some interface => resultOn switch ssid interface
      | none =>
        let nasPort ← portsByNasPort found (request.attribute "NAS-Port")
        match single nasPort with
        | some interface => resultOn switch ssid interface
        | none => findCommon switch ssid ⟨mac, bySsid, nasPortId, nasPort⟩

/-- The port of a request, if its switch is found. -/
def findPort (request : Request) : Act (Option Port) := do
  match ← findSwitch (request.attribute "NAS-IP-Address")
      (request.attribute "ELAN-Radius-Client-Ip") with
  | some found => findOn request found
  | none => pure none

end ElanAgent.Radius
