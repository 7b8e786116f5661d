import ElanAgent.Library.Dict
import ElanAgent.Library.Raising
import ElanAgent.Value
import Mathlib.Data.Finset.Basic
import Mathlib.Data.List.Sort
import Mathlib.Data.String.Basic

/-!
# Polled devices and their cache

The records that `bin/snmp_poller.pl` answers and `DeviceSnmpManager` keeps in Redis: the
device of each id, the id of each IP and the id of each MAC. The fields of these hashes are
texts, as `str.format` renders them.

What the poller answers is not known beforehand. The store holds the answers that are still
to come, and each poll takes the next one.
-/

namespace ElanAgent.Snmp

/-- An SSID of a port. The poller leaves `mac` and `broadcast` out when they are false. -/
structure Ssid where
  ssid : Value
  mac : Option Value
  broadcast : Option Value
  deriving DecidableEq

/-- A port of a device. Every value but the index may be null; `ssids` may be absent. -/
structure SwitchPort where
  index : String
  interface : Value
  name : Value
  mac : Option String
  description : Value
  ssids : Option (List Ssid)
  deriving DecidableEq

/-- `fw_mac` and `fw_port`: a text, in fact the empty one, when the device has no table. -/
inductive Table where
  | absent
  | text (s : String)
  | dict (entries : Dict String Value)

/-- Python's equality, which ignores the order of a dictionary. -/
def Table.same : Table → Table → Bool
  | .absent, .absent => true
  | .text s, .text s' => s = s'
  | .dict d, .dict d' => d.items.isPerm d'.items
  | _, _ => false

/-- A device. `ignored` holds the other items under `IGNORE_SWITCH_KEYS` and `rest` every
other item, with the JSON texts of their values. -/
structure Device where
  localId : Option Nat
  ports : Option (List SwitchPort)
  fwMac : Table
  fwPort : Table
  ignored : Finset (String × String)
  rest : Finset (String × String)

/-- `a == b`. -/
def Device.same (a b : Device) : Bool :=
  a.localId = b.localId && a.ports = b.ports && a.fwMac.same b.fwMac && a.fwPort.same b.fwPort &&
    a.ignored = b.ignored && a.rest = b.rest

/-- The message on topic `snmp`. -/
structure Notice where
  localId : Option Nat
  ports : Option (List SwitchPort)
  rest : Finset (String × String)
  deriving DecidableEq

/-- `{ k: v for k, v in device_snmp.items() if k not in IGNORE_SWITCH_KEYS }`. -/
def Device.relevant (d : Device) : Notice := ⟨d.localId, d.ports, d.rest⟩

/-- What a poll comes to: the socket or its answer is bad, nothing within the timeout, or
what the poller found. -/
inductive Answer where
  | raises
  | timeout
  | null
  | device (d : Device)

/-- A poll, and the read parameters that the poller leaves in the store for the IP. -/
structure Polled where
  answer : Answer
  readParams : Option String

/-- An event of `elan.event`: the poll or the trap of a device failed. -/
inductive Event where
  | pollFailed (ip : Value)
  | trapFailed (ip : Value)
  | portNotFound
  deriving DecidableEq

inductive Error where
  | socket
  | keyError (key : String)
  | typeError
  | attributeError
  deriving DecidableEq

/-- The part of Redis that `DeviceSnmpManager` keeps, the messages and events that it has
published, oldest first, and what the poller answers to polls and to NAS ports, with the
number of the answers taken. -/
structure World where
  counter : Nat
  byId : Nat → Option Device
  idByIp : String → Option Nat
  idByMac : String → Option Nat
  readParams : String → Option String
  published : List Notice
  events : List Event
  polled : Nat → Polled
  resolved : Nat → Option (List Value)
  asked : Nat

def World.empty (polled : Nat → Polled) (resolved : Nat → Option (List Value)) : World where
  counter := 0
  byId _ := none
  idByIp _ := none
  idByMac _ := none
  readParams _ := none
  published := []
  events := []
  polled := polled
  resolved := resolved
  asked := 0

abbrev Act := Raising Error World

/-- The text under which a MAC is looked up: `None` is a field like any other. -/
def macField (mac : Option String) : String := mac.getD "None"

namespace World

variable (w : World)

/-- `get_device_by_ip`. -/
def getDeviceByIp (ip : Value) : Option Device := (w.idByIp ip.format).bind w.byId

/-- `get_device_by_mac`. -/
def getDeviceByMac (mac : String) : Option Device := (w.idByMac mac).bind w.byId

end World

end ElanAgent.Snmp
