import ElanAgent.Library.Atomic
import ElanAgent.Library.Redis
import ElanAgent.Value
import Mathlib.Data.Finset.Basic

/-!
# The session store and its commands

The part of Redis that `elan/session.py` reads and writes, the messages it
publishes, and the commands it issues. Sets share one keyspace: the index of a
MAC's VLANs, of a VLAN's IPs and of a port's MACs are told apart only by the text
of their keys, so two names that render to one key share one set here as they do
in Redis. Session ids are kept under the text of `session_ids_field`.

A pipeline is one operation (`Op.execute`), as are the direct commands.
-/

namespace ElanAgent.Session

open Atomic Redis

/-- A tracked object: the dictionaries `{mac}`, `{mac, vlan}` and `{mac, vlan, ip}`. -/
inductive Obj where
  | mac (mac : Value)
  | vlan (mac vlan : Value)
  | ip (mac vlan ip : Value)
  deriving DecidableEq, Repr

/-- A switch port. The `ssid` key may be absent; `rest` holds every other item. -/
structure Port where
  localId : Value
  interface : Value
  ssid : Option Value
  rest : Finset (String × Value)
  deriving DecidableEq

/-- `port.get('ssid', None)`. -/
def Port.getSsid (port : Port) : Value := port.ssid.getD .none

/-- An authentication session of a device. `till` and `till_disconnect` may be
absent; `rest` holds every other item. -/
structure AuthSession where
  source : String
  till : Option ℚ
  tillDisconnect : Option Bool
  rest : Finset (String × Value)
  deriving DecidableEq

/-- The JSON object of a published message. An absent key and a null are both `none`. -/
structure Message where
  topic : String
  mac : Value
  vlan : Option Value
  ip : Option Value
  localId : Option Nat
  macLocalId : Option Nat
  vlanLocalId : Option Nat
  start : Option ℤ
  ended : Option ℤ
  port : Option Port
  deriving DecidableEq

def macSessionTopic : String := "session/mac"
def vlanSessionTopic : String := "session/vlan"
def ipSessionTopic : String := "session/ip"

/-- `MAC_VLANS_PATH`. -/
def macVlansPath (mac : Value) : String := "device:mac:" ++ mac.format ++ ":vlans"

/-- `MAC_VLAN_IPS_PATH`. -/
def macVlanIpsPath (mac vlan : Value) : String :=
  "device:mac:" ++ mac.format ++ ":vlan:" ++ vlan.format ++ ":ips"

/-- `PORT_MACS_PATH`. -/
def portMacsPath (port : Port) : String :=
  "device:" ++ port.localId.format ++ ":port:" ++ port.interface.format

/-- `MAC_AUTH_SESSION_PATH`. -/
def macAuthSessionPath (mac : Value) : String :=
  "device:mac:" ++ mac.format ++ ":authentication"

/-- Format mac, vlan and ip to be stored in a Redis hash field. -/
def sessionIdsField (mac vlan ip : Value) : String :=
  if ip ≠ .none then
    "mac=" ++ mac.format ++ ",vlan=" ++ vlan.format ++ ",ip=" ++ ip.format
  else if vlan ≠ .none then "mac=" ++ mac.format ++ ",vlan=" ++ vlan.format
  else "mac=" ++ mac.format

/-- `session_ids_field(**data)`. -/
def Obj.field : Obj → String
  | .mac m => sessionIdsField m .none .none
  | .vlan m v => sessionIdsField m v .none
  | .ip m v i => sessionIdsField m v i

/-- Everything `session.py` keeps in Redis, and what it has published, oldest first. -/
structure World where
  lastSeen : SortedSet Obj
  sessionIds : Hash String Nat
  sequence : Nat
  macPort : Hash String Port
  macLastPort : Hash String Port
  sets : String → List Value
  authentication : String → List AuthSession
  published : List Message

namespace World

def empty : World where
  lastSeen := ∅
  sessionIds := ∅
  sequence := 0
  macPort := ∅
  macLastPort := ∅
  sets _ := []
  authentication _ := []
  published := []

/-- Publish messages, in order. -/
def say (w : World) (messages : List Message) : World :=
  { w with published := w.published ++ messages }

def setMembers (w : World) (key : String) (members : List Value) : World :=
  { w with sets := Function.update w.sets key members }

end World

/-- The commands that `session.py` puts in a pipeline. `ZADD` and `ZREM` are on
`LAST_SEEN_PATH`, `HSET`, `HGET` and `HDEL` on `SESSION_IDS_PATH`, the port
commands on `MAC_PORT_PATH` and `MAC_LAST_PORT_PATH`. -/
inductive Cmd where
  | zadd (score : ℚ) (obj : Obj)
  | zrem (obj : Obj)
  | hset (field : String) (id : Nat)
  | hget (field : String)
  | hdel (field : String)
  | sadd (key : String) (member : Value)
  | srem (key : String) (member : Value)
  | delete (key : String)
  | hsetPort (mac : Value) (port : Port)
  | hsetLastPort (mac : Value) (port : Port)
  | hdelPort (mac : Value)
  deriving DecidableEq

/-- One entry of the list that `pipe.execute()` returns. -/
inductive Reply where
  | count (n : Nat)
  | id (value : Option Nat)
  deriving DecidableEq, Repr

instance : Inhabited Reply := ⟨.count 0⟩

/-- `bool(reply)`. -/
def Reply.truthy : Reply → Bool
  | .count n => n != 0
  | .id value => value.getD 0 != 0

/-- The session id that a reply carries. -/
def Reply.sessionId : Reply → Option Nat
  | .count _ => none
  | .id value => value

/-- The number of elements a command added or removed. -/
def counted (p : Prop) [Decidable p] : Reply := .count (if p then 1 else 0)

def Cmd.exec (c : Cmd) (w : World) : Reply × World :=
  match c with
  | .zadd score obj =>
    (counted (obj ∉ w.lastSeen.keys), { w with lastSeen := w.lastSeen.insert obj score })
  | .zrem obj => (counted (obj ∈ w.lastSeen.keys), { w with lastSeen := w.lastSeen.erase obj })
  | .hset field id =>
    (counted (field ∉ w.sessionIds.keys), { w with sessionIds := w.sessionIds.insert field id })
  | .hget field => (.id (w.sessionIds.lookup field), w)
  | .hdel field =>
    (counted (field ∈ w.sessionIds.keys), { w with sessionIds := w.sessionIds.erase field })
  | .sadd key member =>
    (counted (member ∉ w.sets key), w.setMembers key ((w.sets key).insert member))
  | .srem key member =>
    (counted (member ∈ w.sets key), w.setMembers key ((w.sets key).filter (· ≠ member)))
  | .delete key => (counted (w.sets key ≠ []), w.setMembers key [])
  | .hsetPort mac port => (counted (mac.format ∉ w.macPort.keys),
      { w with macPort := w.macPort.insert mac.format port })
  | .hsetLastPort mac port => (counted (mac.format ∉ w.macLastPort.keys),
      { w with macLastPort := w.macLastPort.insert mac.format port })
  | .hdelPort mac => (counted (mac.format ∈ w.macPort.keys),
      { w with macPort := w.macPort.erase mac.format })

/-- `pipe.execute()`: every command in turn, with the list of their replies. -/
def execute : List Cmd → World → List Reply × World
  | [], w => ([], w)
  | c :: pipe, w =>
    let (reply, w) := c.exec w
    let (replies, w) := execute pipe w
    (reply :: replies, w)

/-- The atomic operations of the daemons that work on the session store. -/
inductive Op where
  | execute (pipe : List Cmd)
  | getUniqueId
  | macPort (mac : Value)
  | smembers (key : String)
  | sismember (key : String) (member : Value)
  | zscore (obj : Obj)
  | zrangebyscore (max : ℚ)
  | zrangeFirst
  | smembersAuth (key : String)
  | saddAuth (key : String) (session : AuthSession)
  | sremAuth (key : String) (session : AuthSession)
  | publish (message : Message)

@[reducible] def Op.Reply : Op → Type
  | .execute _ => List Session.Reply
  | .getUniqueId => Nat
  | .macPort _ => Option Port
  | .smembers _ => List Value
  | .sismember _ _ => Bool
  | .zscore _ => Option ℚ
  | .zrangebyscore _ => List (Obj × ℚ)
  | .zrangeFirst => Option (Obj × ℚ)
  | .smembersAuth _ => List AuthSession
  | .saddAuth _ _ | .sremAuth _ _ | .publish _ => Unit

/-- What the session code reaches through `synapse` and `dendrite`. -/
abbrev synapse : Interface := ⟨Op, Op.Reply⟩

/-- What each operation does to the store, and its reply. -/
def handler : Handler synapse World
  | .execute pipe, w => Session.execute pipe w
  | .getUniqueId, w => (w.sequence + 1, { w with sequence := w.sequence + 1 })
  | .macPort mac, w => (w.macPort.lookup mac.format, w)
  | .smembers key, w => (w.sets key, w)
  | .sismember key member, w => (decide (member ∈ w.sets key), w)
  | .zscore obj, w => (w.lastSeen.lookup obj, w)
  | .zrangebyscore max, w => (w.lastSeen.rangeByScore max, w)
  | .zrangeFirst, w => (w.lastSeen.first, w)
  | .smembersAuth key, w => (w.authentication key, w)
  | .saddAuth key session, w =>
    ((), { w with authentication :=
      Function.update w.authentication key ((w.authentication key).insert session) })
  | .sremAuth key session, w =>
    ((), { w with authentication :=
      Function.update w.authentication key ((w.authentication key).filter (· ≠ session)) })
  | .publish message, w => ((), w.say [message])

/-! ## One operation as a program -/

section Operations

variable (w : World)

/-- `pipe.execute()`. -/
def pipeExecute (pipe : List Cmd) : Prog synapse (List Reply) := .op (.execute pipe) .done
def getUniqueId : Prog synapse Nat := .op .getUniqueId .done
def smembers (key : String) : Prog synapse (List Value) := .op (.smembers key) .done
def sismember (key : String) (member : Value) : Prog synapse Bool :=
  .op (.sismember key member) .done
def zrangebyscore (max : ℚ) : Prog synapse (List (Obj × ℚ)) := .op (.zrangebyscore max) .done
def zrangeFirst : Prog synapse (Option (Obj × ℚ)) := .op .zrangeFirst .done
def smembersAuth (key : String) : Prog synapse (List AuthSession) := .op (.smembersAuth key) .done
def saddAuth (key : String) (session : AuthSession) : Prog synapse Unit :=
  .op (.saddAuth key session) .done
def sremAuth (key : String) (session : AuthSession) : Prog synapse Unit :=
  .op (.sremAuth key session) .done
def publish (message : Message) : Prog synapse Unit := .op (.publish message) .done

/-- `HGET` on `MAC_PORT_PATH`. -/
def macPort (mac : Value) : Prog synapse (Option Port) := .op (.macPort mac) .done

@[simp] theorem run_pipeExecute (pipe : List Cmd) :
    (pipeExecute pipe).run handler w = execute pipe w := rfl
@[simp] theorem run_getUniqueId : getUniqueId.run handler w =
    (w.sequence + 1, { w with sequence := w.sequence + 1 }) := rfl
@[simp] theorem run_smembers (key : String) :
    (smembers key).run handler w = (w.sets key, w) := rfl
@[simp] theorem run_sismember (key : String) (member : Value) :
    (sismember key member).run handler w = (decide (member ∈ w.sets key), w) := rfl
@[simp] theorem run_zrangebyscore (max : ℚ) :
    (zrangebyscore max).run handler w = (w.lastSeen.rangeByScore max, w) := rfl
@[simp] theorem run_zrangeFirst : zrangeFirst.run handler w = (w.lastSeen.first, w) := rfl
@[simp] theorem run_smembersAuth (key : String) :
    (smembersAuth key).run handler w = (w.authentication key, w) := rfl
@[simp] theorem run_publish (message : Message) :
    (publish message).run handler w = ((), w.say [message]) := rfl
@[simp] theorem run_macPort (mac : Value) :
    (macPort mac).run handler w = (w.macPort.lookup mac.format, w) := rfl

end Operations

end ElanAgent.Session
