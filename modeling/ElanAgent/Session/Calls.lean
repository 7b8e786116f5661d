import ElanAgent.Session.Store

/-!
# The calls of `elan/session.py`

Each call is a program over the store's atomic operations, so the same text is run
alone and interleaved with others. `now` is the clock reading of the call. A call
is cut at its store accesses into the functions named after what follows, each
taking the local variables that are still needed.

`seen` rewrites the port dictionary of its caller in place, hence the `port` field
of its result. `endSession` is the source's `end`, and raises before it has touched
the store.
-/

namespace ElanAgent.Session

open Atomic

/-! ## Notifications -/

def notifyNewMacSession (now : ℚ) (mac : Value) (macLocalId : Option Nat)
    (port : Option Port) (start : Option ℚ) : Prog synapse Unit :=
  publish
    { topic := macSessionTopic, mac := mac, vlan := none, ip := none, localId := macLocalId,
      macLocalId := none, vlanLocalId := none, start := some (formatDate now start),
      ended := none, port := port }

def notifyEndMacSession (now : ℚ) (mac : Value) (macLocalId : Option Nat) (ended : Option ℚ) :
    Prog synapse Unit :=
  publish
    { topic := macSessionTopic, mac := mac, vlan := none, ip := none, localId := macLocalId,
      macLocalId := none, vlanLocalId := none, start := none,
      ended := some (formatDate now ended), port := none }

def notifyMacPort (mac : Value) (macLocalId : Option Nat) (port : Port) : Prog synapse Unit :=
  publish
    { topic := macSessionTopic, mac := mac, vlan := none, ip := none, localId := macLocalId,
      macLocalId := none, vlanLocalId := none, start := none, ended := none, port := some port }

def notifyNewVlanSession (now : ℚ) (mac : Value) (macLocalId : Option Nat) (vlan : Value)
    (vlanLocalId : Option Nat) (port : Option Port) (start : Option ℚ) : Prog synapse Unit :=
  publish
    { topic := vlanSessionTopic, mac := mac, vlan := some vlan, ip := none,
      localId := vlanLocalId, macLocalId := macLocalId, vlanLocalId := none,
      start := some (formatDate now start), ended := none, port := port }

def notifyEndVlanSession (now : ℚ) (mac : Value) (macLocalId : Option Nat) (vlan : Value)
    (vlanLocalId : Option Nat) (ended : Option ℚ) : Prog synapse Unit :=
  publish
    { topic := vlanSessionTopic, mac := mac, vlan := some vlan, ip := none,
      localId := vlanLocalId, macLocalId := macLocalId, vlanLocalId := none, start := none,
      ended := some (formatDate now ended), port := none }

def notifyNewIpSession (now : ℚ) (mac : Value) (macLocalId : Option Nat) (vlan : Value)
    (vlanLocalId : Option Nat) (ip : Value) (ipLocalId : Option Nat) (port : Option Port)
    (start : Option ℚ) : Prog synapse Unit :=
  publish
    { topic := ipSessionTopic, mac := mac, vlan := some vlan, ip := some ip,
      localId := ipLocalId, macLocalId := macLocalId, vlanLocalId := vlanLocalId,
      start := some (formatDate now start), ended := none, port := port }

def notifyEndIpSession (now : ℚ) (mac : Value) (macLocalId : Option Nat) (vlan : Value)
    (vlanLocalId : Option Nat) (ip : Value) (ipLocalId : Option Nat) (ended : Option ℚ) :
    Prog synapse Unit :=
  publish
    { topic := ipSessionTopic, mac := mac, vlan := some vlan, ip := some ip,
      localId := ipLocalId, macLocalId := macLocalId, vlanLocalId := vlanLocalId, start := none,
      ended := some (formatDate now ended), port := none }

/-! ## Queries -/

/-- Does `mac` currently have `ip` on `vlan`, according to the index of IPs? -/
def macHasIpOnVlan (mac ip vlan : Value) : Prog synapse Bool :=
  sismember (macVlanIpsPath mac vlan) ip

/-- The MACs last seen on a port. -/
def portMacs (port : Port) : Prog synapse (List Value) := smembers (portMacsPath port)

/-! ## Authentication sessions -/

/-- Issue one operation for each element, in order. -/
def each {α : Type} (f : α → Prog synapse Unit) : List α → Prog synapse Unit
  | [] => pure ()
  | x :: xs => do
    f x
    each f xs

/-- Remove the sessions of `mac` that last until it disconnects. -/
def removeTillDisconnectAuthenticationSession (mac : Value) : Prog synapse Unit := do
  let currentSessions ← smembersAuth (macAuthSessionPath mac)
  each (fun session =>
    if session.tillDisconnect = some true then
      sremAuth (macAuthSessionPath mac) session
    else pure ()) currentSessions

/-! ## Ending sessions -/

/-- The commands that drop the IP sessions `ips` of a VLAN session. -/
def endIps (mac vlan : Value) (ips : List Value) : List Cmd :=
  ips.flatMap fun i => [.hdel (Obj.ip mac vlan i).field, .zrem (.ip mac vlan i)]

/-- Complete `pipe` with the commands for each VLAN, reading a VLAN's IPs when they
all end with it. -/
def endVlans (mac ip : Value) (pipe : List Cmd) : List Value → Prog synapse (List Cmd)
  | [] => pure pipe
  | v :: vlans =>
    if ip = .none then do
      let ips ← smembers (macVlanIpsPath mac v)
      endVlans mac ip
        (pipe ++ [.hdel (Obj.vlan mac v).field, .zrem (.vlan mac v), .srem (macVlansPath mac) v,
          .delete (macVlanIpsPath mac v)] ++ endIps mac v ips) vlans
    else
      endVlans mac ip (pipe ++ [.hget (Obj.ip mac v ip).field] ++ endIps mac v [ip]) vlans

/-- The last part of `end`, once its pipeline has returned `results`: notify, and for
a MAC forget its port and its authentications till disconnect. -/
def endNotify (now : ℚ) (mac vlan ip : Value) (time : ℚ) (results : List Reply) :
    Prog synapse Unit :=
  let macLocalId := (results.getD 0 default).sessionId
  let vlanLocalId := (results.getD 1 default).sessionId
  let ipLocalId := (results.getD 2 default).sessionId
  if ip ≠ .none then
    if ipLocalId.getD 0 ≠ 0 then
      notifyEndIpSession now mac macLocalId vlan vlanLocalId ip ipLocalId (some time)
    else pure ()
  else if vlan ≠ .none then
    if vlanLocalId.getD 0 ≠ 0 then
      notifyEndVlanSession now mac macLocalId vlan vlanLocalId (some time)
    else pure ()
  else if macLocalId.getD 0 ≠ 0 then do
    let port ← macPort mac
    let _ ← pipeExecute (.hdelPort mac :: (port.map fun port =>
      Cmd.srem (portMacsPath port) mac).toList)
    removeTillDisconnectAuthenticationSession mac
    notifyEndMacSession now mac macLocalId (some time)
  else pure ()

/-- The first commands of `end`'s pipeline, and the VLANs it goes through. -/
def endMac (mac vlan : Value) : Prog synapse (List Cmd × List Value) :=
  if vlan = .none then do
    let vlans ← smembers (macVlansPath mac)
    pure ([.hget (Obj.mac mac).field, .hdel (Obj.mac mac).field, .zrem (.mac mac),
      .delete (macVlansPath mac)], vlans)
  else pure ([.hget (Obj.mac mac).field, .hget (Obj.vlan mac vlan).field], [vlan])

/-- End a MAC session, a VLAN session or an IP session, with every session below it. -/
def endSession (now : ℚ) (mac vlan ip : Value) (time : Option ℚ) :
    Prog synapse (Except String Unit) :=
  if ip ≠ .none ∧ vlan = .none then
    pure (.error "Error: when ending IP, VLAN should be specified...")
  else do
    let (pipe, vlans) ← endMac mac vlan
    let pipe ← endVlans mac ip pipe vlans
    let results ← pipeExecute pipe
    endNotify now mac vlan ip (time.getD now) results
    pure (.ok ())

/-! ## Seeing a device -/

/-- Has the device moved? A missing interface or SSID, on either side, is assumed
not to have changed. -/
def Port.changed (port oldPort : Port) : Bool :=
  port.localId != oldPort.localId ||
  (port.interface != .none && oldPort.interface != .none &&
    port.interface != oldPort.interface) ||
  (port.getSsid != .none && oldPort.getSsid != .none && port.getSsid != oldPort.getSsid)

/-- Keep the interface and the SSID that the old port is known to have. -/
def Port.completed (port oldPort : Port) : Port :=
  { port with
    interface := if oldPort.interface ≠ .none then oldPort.interface else port.interface
    ssid := if oldPort.getSsid ≠ .none then some oldPort.getSsid else port.ssid }

/-- What `seen` returns, and the port dictionary as it leaves it. -/
structure Seen where
  macAdded : Bool
  vlanAdded : Bool
  ipAdded : Bool
  port : Option Port

/-- Compare the port with the recorded one: end the previous session if it has changed,
complete it otherwise. -/
def seenCompare (now : ℚ) (mac : Value) (port : Port) :
    Option Port → Prog synapse (Option Port × Option Port)
  | none => pure (some port, none)
  | some old =>
    if port.changed old then do
      let _ ← endSession now mac .none .none none
      pure (some port, some old)
    else pure (some (port.completed old), some old)

/-- The port that `seen` goes on with, and the one that was recorded. -/
def seenPort (now : ℚ) (mac : Value) (port : Option Port) :
    Prog synapse (Option Port × Option Port) :=
  match port with
  | none => pure (none, none)
  | some port => do
    let oldPort ← macPort mac
    seenCompare now mac port oldPort

/-- The commands that mark the objects as seen and index them. -/
def touchPipe (mac vlan ip : Value) (time : ℚ) : List Cmd :=
  [.zadd time (.mac mac)] ++
  if vlan ≠ .none then
    [.zadd time (.vlan mac vlan), .sadd (macVlansPath mac) vlan] ++
    if ip ≠ .none then
      [.zadd time (.ip mac vlan ip), .sadd (macVlanIpsPath mac vlan) ip]
    else []
  else []

/-- The commands that store the new ids, or read the existing ones. -/
def idsPipe (mac vlan ip : Value) (macAdded vlanAdded ipAdded : Bool) (localId : Nat) :
    List Cmd :=
  [if macAdded then .hset (sessionIdsField mac .none .none) localId
    else .hget (sessionIdsField mac .none .none),
   if vlanAdded then .hset (sessionIdsField mac vlan .none) localId
    else .hget (sessionIdsField mac vlan .none)] ++
  if ipAdded then [.hset (sessionIdsField mac vlan ip) localId] else []

/-- Record a port that is not the recorded one, and tell it if the MAC was known. -/
def seenRecord (mac : Value) (port oldPort : Option Port) (macAdded : Bool)
    (macLocalId : Option Nat) : Prog synapse Unit :=
  match port with
  | none => pure ()
  | some newPort =>
    if port ≠ oldPort then do
      let _ ← pipeExecute [.hsetPort mac newPort, .hsetLastPort mac newPort,
        .sadd (portMacsPath newPort) mac]
      if !macAdded then notifyMacPort mac macLocalId newPort else pure ()
    else pure ()

/-- Notify the new session, the deepest if there are several. -/
def seenNotify (now : ℚ) (mac vlan : Value) (port : Option Port) (ip : Value) (time : ℚ)
    (macAdded vlanAdded ipAdded : Bool) (localId : Nat) (macLocalId vlanLocalId : Option Nat) :
    Prog synapse Unit :=
  if ipAdded then
    notifyNewIpSession now mac macLocalId vlan vlanLocalId ip (some localId) port (some time)
  else if vlanAdded then
    notifyNewVlanSession now mac macLocalId vlan (some localId) port (some time)
  else if macAdded then
    notifyNewMacSession now mac (some localId) port (some time)
  else pure ()

/-- Store the ids of what was added, then record and notify. `localId` is not read when
nothing was added. -/
def seenStore (now : ℚ) (mac vlan : Value) (port oldPort : Option Port) (ip : Value) (time : ℚ)
    (macAdded vlanAdded ipAdded : Bool) (localId : Nat) : Prog synapse Seen := do
  let results ← pipeExecute (idsPipe mac vlan ip macAdded vlanAdded ipAdded localId)
  let macLocalId := if macAdded then some localId else (results.getD 0 default).sessionId
  let vlanLocalId := if vlanAdded then some localId else (results.getD 1 default).sessionId
  seenRecord mac port oldPort macAdded macLocalId
  seenNotify now mac vlan port ip time macAdded vlanAdded ipAdded localId macLocalId vlanLocalId
  pure ⟨macAdded, vlanAdded, ipAdded, port⟩

/-- Take a session id if anything was added. -/
def seenAllocate (now : ℚ) (mac vlan : Value) (port oldPort : Option Port) (ip : Value)
    (time : ℚ) (macAdded vlanAdded ipAdded : Bool) : Prog synapse Seen :=
  if macAdded || vlanAdded || ipAdded then do
    let localId ← getUniqueId
    seenStore now mac vlan port oldPort ip time macAdded vlanAdded ipAdded localId
  else seenStore now mac vlan port oldPort ip time macAdded vlanAdded ipAdded 0

/-- `bool(results[i])`, false when there are not that many results. -/
def resultFlag (results : List Reply) (i : Nat) : Bool :=
  if results.length > i then (results.getD i default).truthy else false

/-- Mark the objects as seen and learn, from the replies' positions, which are new. -/
def seenTouch (now : ℚ) (mac vlan : Value) (port oldPort : Option Port) (ip : Value) (time : ℚ) :
    Prog synapse Seen := do
  let results ← pipeExecute (touchPipe mac vlan ip time)
  let macAdded := (results.getD 0 default).truthy
  let vlanAdded := resultFlag results 1
  let ipAdded := resultFlag results 3
  seenAllocate now mac vlan port oldPort ip time macAdded vlanAdded ipAdded

/-- Mark `mac` as seen on a VLAN, on a port, with an IP, at a time, and notify what is
new. The IP is ignored when there is no VLAN. -/
def seen (now : ℚ) (mac vlan : Value) (port : Option Port) (ip : Value) (time : Option ℚ) :
    Prog synapse Seen := do
  let (port, oldPort) ← seenPort now mac port
  seenTouch now mac vlan port oldPort ip (time.getD now)

/-! ## Sequences of calls -/

/-- A call on the session store, with the clock reading at which it is made. -/
inductive Call where
  | seen (now : ℚ) (mac vlan : Value) (port : Option Port) (ip : Value) (time : Option ℚ)
  | ends (now : ℚ) (mac vlan ip : Value) (time : Option ℚ)

/-- The program of a call, its result dropped. -/
def Call.prog : Call → Prog synapse Unit
  | .seen now mac vlan port ip time => do
    let _ ← Session.seen now mac vlan port ip time
    pure ()
  | .ends now mac vlan ip time => do
    let _ ← endSession now mac vlan ip time
    pure ()

/-- The store after one call that nothing disturbs. -/
def World.step (w : World) (c : Call) : World := (c.prog.run handler w).2

/-- The store after the calls, run one at a time. -/
def World.calls (w : World) (cs : List Call) : World := cs.foldl World.step w

end ElanAgent.Session
