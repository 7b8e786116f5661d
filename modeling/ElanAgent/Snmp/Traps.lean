import ElanAgent.Session.Scores
import ElanAgent.Snmp.Manager
import ElanAgent.Snmp.NewMacs

/-!
# Traps

`parse_trap_str` of `elan/snmp.py`. The poller turns a notification of `snmptrapd` into a
trap, a JSON object whose fields depend on its type. The table of the types and of their
fields is in the source; a `Row` of it says what the trap is for.

A list of texts is a possible value of `trapType` too, although the poller sends none.
-/

namespace ElanAgent.Snmp

open Raising
open Session (Port)

/-- The value of `trapType`. -/
inductive TrapType where
  | text (s : String)
  | list (items : List String)
  deriving DecidableEq

instance : Coe String TrapType := ⟨.text⟩

/-- What the poller makes of a notification. Every field but the type may be absent. -/
structure Trap where
  trapType : TrapType
  trapOperation : Option String
  trapIfIndex : Option Value
  trapMac : Option Value
  trapVlan : Option Value
  vlan : Option Value

/-- What asking the poller comes to. -/
inductive TrapAnswer where
  | raises
  | timeout
  | null
  | trap (t : Trap)

/-- A notification: the time that its first two fields tell, and the IP that its third
field has in brackets. -/
structure Notification where
  time : ℚ
  deviceIp : String

/-- What a manager works on. -/
structure TrapWorld where
  snmp : World
  newMacs : NewMacs
  sessions : Session.World

abbrev Handling := Raising Error TrapWorld

/-- An action on the polled devices. -/
def device {α : Type} (x : Act α) : Handling α :=
  Raising.zoom TrapWorld.snmp (fun snmp w => { w with snmp := snmp }) x

/-- Calls of `session`. -/
def session (calls : List Session.Call) : Handling Unit :=
  modify fun w => { w with sessions := w.sessions.calls calls }

/-- `DebugEvent(…).notify()` and `Event(…).notify()`. -/
def notify (event : Event) : Handling Unit :=
  device (modify fun w => { w with events := w.events ++ [event] })

/-- A type of traps that tell where a MAC is. -/
def Trap.isSight (t : Trap) : Bool :=
  t.trapType ∈ ([.text "secureMacAddrViolation", .text "wirelessIPS", .text "roaming"] :
    List TrapType)

/-- `trap['trapType'] == ['mac'] and trap['trapOperation'] == operation`. -/
def Trap.isMac (t : Trap) (operation : String) : Handling Bool :=
  if t.trapType = .list ["mac"] then
    match t.trapOperation with
    | some trapOperation => pure (trapOperation = operation)
    | none => throw (.keyError "trapOperation")
  else pure false

/-- The MAC is seen where the trap says. -/
def seeMac (now : ℚ) (n : Notification) (t : Trap) (mac : Value) : Handling Unit := do
  let port ← device (getPortFromIndex n.deviceIp (t.trapIfIndex.getD .none) false false)
  session [.seen now mac (t.vlan.getD .none) port .none (some n.time)]
  if port.isNone then notify .portNotFound

/-- A trap that has a MAC. -/
def handleMac (now : ℚ) (n : Notification) (t : Trap) (mac : Value) : Handling Unit := do
  let learnt ← if t.isSight then pure true else t.isMac "learnt"
  if learnt then seeMac now n t mac
  else
    let removed ← if t.trapType = "dot11Deauthentication" then pure true else t.isMac "removed"
    if removed then session [.ends now mac .none .none (some n.time)]

/-- The end of the sessions of the MACs that are no longer on the device. -/
def endLeft (now : ℚ) (macPorts : Dict Value Port) (macs : List Value) : List Session.Call :=
  (macs.filter fun mac => (macPorts.get mac).isNone).map fun mac =>
    .ends now mac .none .none none

/-- A port that has gone down: remove the MACs that are no longer on it. -/
def portDown (now : ℚ) (deviceIp : String) (port : Port) : Handling Unit := do
  modify fun w => { w with newMacs := w.newMacs.portHasNoNewMacs port }
  let macPorts ← device (getMacsOnDevice deviceIp)
  let w ← get
  session (endLeft now macPorts (w.sessions.sets (Session.portMacsPath port)))

/-- A trap that has no MAC: has a port gone up or down? -/
def handlePort (now : ℚ) (n : Notification) (t : Trap) : Handling Unit :=
  if t.trapType = "up" ∨ t.trapType = "down" then
    match t.trapIfIndex with
    | none => throw (.keyError "trapIfIndex")
    | some trapIfIndex => do
      match ← device (getPortFromIndex n.deviceIp trapIfIndex false false) with
      | none => pure ()
      | some port =>
        let port := { port with rest := insert ("device_ip", .str n.deviceIp) port.rest }
        if t.trapType = "up" then
          modify fun w => { w with newMacs := w.newMacs.portHasNewMacs now port }
        else portDown now n.deviceIp port
  else pure ()

/-- `parse_trap_str`, once it has split the notification. -/
def parseTrapStr (now : ℚ) (n : Notification) (answer : TrapAnswer) : Handling Unit := do
  match ← device (getReadParams n.deviceIp) with
  | none => pure ()
  | some _ =>
    match answer with
    | .raises => throw .socket
    | .timeout | .null => notify (.trapFailed n.deviceIp)
    | .trap t =>
      if t.trapType = "unknown" then notify (.trapFailed n.deviceIp)
      else
        match t.trapMac with
        | some mac => handleMac now n t mac
        | none => handlePort now n t

/-! ## The table -/

inductive Operation where
  | learnt
  | removed
  | unknown
  deriving DecidableEq

def Operation.text : Operation → String
  | .learnt => "learnt"
  | .removed => "removed"
  | .unknown => "unknown"

/-- A row of the table, with the fields that its traps have. Those of `roaming` also tell an
SSID, a user name and a connection type. -/
inductive Row where
  | up (trapIfIndex : Value)
  | down (trapIfIndex : Value)
  | mac (trapOperation : Operation) (trapIfIndex : Value) (trapMac : String)
    (trapVlan : Option Value)
  | secureMacAddrViolation (trapIfIndex : Value) (trapMac : String) (trapVlan : Option Value)
  | dot11Deauthentication (trapMac : String)
  | wirelessIPS (trapMac : String)
  | roaming (trapIfIndex : Value) (trapMac : String) (trapVlan : Option Value)

namespace Row

/-- The trap that the poller sends. -/
def trap : Row → Trap
  | up trapIfIndex => ⟨"up", none, trapIfIndex, none, none, none⟩
  | down trapIfIndex => ⟨"down", none, trapIfIndex, none, none, none⟩
  | mac trapOperation trapIfIndex trapMac trapVlan =>
    ⟨"mac", trapOperation.text, trapIfIndex, some trapMac, trapVlan, none⟩
  | secureMacAddrViolation trapIfIndex trapMac trapVlan =>
    ⟨"secureMacAddrViolation", none, trapIfIndex, some trapMac, trapVlan, none⟩
  | dot11Deauthentication trapMac =>
    ⟨"dot11Deauthentication", none, none, some trapMac, none, none⟩
  | wirelessIPS trapMac => ⟨"wirelessIPS", none, none, some trapMac, none, none⟩
  | roaming trapIfIndex trapMac trapVlan =>
    ⟨"roaming", none, trapIfIndex, some trapMac, trapVlan, none⟩

/-- The MAC is seen at the time of the trap, on its VLAN and its port. -/
def sight (now : ℚ) (n : Notification) (trapIfIndex : Value) (trapMac : String)
    (trapVlan : Option Value) : Act (List Session.Call) := do
  let port ← getPortFromIndex n.deviceIp trapIfIndex false false
  pure [.seen now trapMac (trapVlan.getD .none) port .none (some n.time)]

/-- What a row asks for: the calls on the sessions `sessions`, once the ports are resolved. -/
def calls (now : ℚ) (n : Notification) (sessions : Session.World) :
    Row → Act (List Session.Call)
  | mac .learnt trapIfIndex trapMac trapVlan
  | secureMacAddrViolation trapIfIndex trapMac trapVlan
  | roaming trapIfIndex trapMac trapVlan => sight now n trapIfIndex trapMac trapVlan
  | wirelessIPS trapMac => sight now n .none trapMac none
  | mac .removed _ trapMac _ | dot11Deauthentication trapMac =>
    pure [.ends now trapMac .none .none (some n.time)]
  | mac .unknown _ _ _ => pure []
  | up trapIfIndex => do
    let _ ← getPortFromIndex n.deviceIp trapIfIndex false false
    pure []
  | down trapIfIndex => do
    match ← getPortFromIndex n.deviceIp trapIfIndex false false with
    | none => pure []
    | some port =>
      let macPorts ← getMacsOnDevice n.deviceIp
      pure (endLeft now macPorts (sessions.sets (Session.portMacsPath port)))

/-- The MAC that a row makes online. -/
def seenMac : Row → Option String
  | mac .learnt _ trapMac _ | secureMacAddrViolation _ trapMac _ | wirelessIPS trapMac
  | roaming _ trapMac _ => some trapMac
  | _ => none

/-- The MAC that a row makes offline. -/
def endedMac : Row → Option String
  | mac .removed _ trapMac _ | dot11Deauthentication trapMac => some trapMac
  | _ => none

end Row

/-- The handling makes the calls that `asked` comes to, and raises what it raises. -/
def Makes (handling : Handling Unit) (asked : Act (List Session.Call)) (w : TrapWorld) : Prop :=
  match (exec asked w.snmp).1 with
  | .ok calls =>
    (exec handling w).1 = .ok () ∧ (exec handling w).2.sessions = w.sessions.calls calls
  | .error e => (exec handling w).1 = .error e ∧ (exec handling w).2.sessions = w.sessions

/-- The calls change no session of a MAC that they are not about. -/
def OthersKept (calls : List Session.Call) (before after : Session.World) : Prop :=
  ∀ x : Session.Obj, (∀ c ∈ calls, x.owner ≠ c.owner) → after.seenAt x = before.seenAt x ∧
    ((∀ c ∈ calls, Session.Foreign c.owner x.field) → after.idOf x = before.idOf x)

/-- Handling the trap of a row has the effect of the row: the calls that it asks for, by
which its MAC is online or offline afterwards, and nothing else on the sessions. -/
structure Row.HasEffect (row : Row) (now : ℚ) (n : Notification) (w : TrapWorld) : Prop where
  makes : Makes (parseTrapStr now n (.trap row.trap)) (row.calls now n w.sessions) w
  seen : ∀ calls, (exec (row.calls now n w.sessions) w.snmp).1 = .ok calls →
    ∀ mac ∈ row.seenMac,
      (exec (parseTrapStr now n (.trap row.trap)) w).2.sessions.seenAt (.mac mac) = some n.time
  ended : ∀ mac ∈ row.endedMac,
    (exec (parseTrapStr now n (.trap row.trap)) w).2.sessions.seenAt (.mac mac) = none
  others : ∀ calls, (exec (row.calls now n w.sessions) w.snmp).1 = .ok calls →
    OthersKept calls w.sessions (exec (parseTrapStr now n (.trap row.trap)) w).2.sessions

/-- The row does not have type `mac` with an operation, nor a VLAN to be seen on. -/
def Row.Handled : Row → Prop
  | mac trapOperation _ _ _ => trapOperation = .unknown
  | secureMacAddrViolation _ _ trapVlan | roaming _ _ trapVlan => trapVlan.getD .none = .none
  | _ => True

/-! ## The handlers -/

variable {now : ℚ} {n : Notification} {w : TrapWorld}

@[simp] theorem exec_device {α : Type} (x : Act α) (w : TrapWorld) :
    exec (device x) w = ((exec x w.snmp).1, { w with snmp := (exec x w.snmp).2 }) := rfl

@[simp] theorem exec_session (calls : List Session.Call) (w : TrapWorld) :
    exec (session calls) w = (.ok (), { w with sessions := w.sessions.calls calls }) := rfl

@[simp] theorem exec_notify (event : Event) (w : TrapWorld) : exec (notify event) w =
    (.ok (), { w with snmp := { w.snmp with events := w.snmp.events ++ [event] } }) := rfl

/-- First what both do on the devices. -/
theorem makes_bind {α : Type} {x : Act α} {f : α → Handling Unit}
    {g : α → Act (List Session.Call)}
    (h : ∀ a snmp, exec x w.snmp = (.ok a, snmp) → Makes (f a) (g a) { w with snmp := snmp }) :
    Makes (device x >>= f) (x >>= g) w := by
  unfold Makes
  rw [exec_bind, exec_bind, exec_device]
  rcases hx : exec x w.snmp with ⟨e | a, snmp⟩
  · exact ⟨rfl, rfl⟩
  · exact h a snmp hx

theorem seeMac_makes (t : Trap) {trapMac : String} (trapVlan : Option Value)
    (vlan : t.vlan.getD .none = trapVlan.getD .none) :
    Makes (seeMac now n t trapMac) (Row.sight now n (t.trapIfIndex.getD .none) trapMac trapVlan)
      w := by
  refine makes_bind fun port snmp _ => ?_
  unfold Makes
  rw [exec_pure, exec_bind_ok (exec_session _ _), vlan]
  cases port <;> exact ⟨rfl, rfl⟩

theorem portUp_makes (trapIfIndex : Value) :
    Makes (handlePort now n (Row.up trapIfIndex).trap)
      ((Row.up trapIfIndex).calls now n w.sessions) w := by
  refine makes_bind fun port snmp _ => ?_
  cases port <;> exact ⟨rfl, rfl⟩

theorem portDown_makes (trapIfIndex : Value) :
    Makes (handlePort now n (Row.down trapIfIndex).trap)
      ((Row.down trapIfIndex).calls now n w.sessions) w := by
  refine makes_bind fun port snmp _ => ?_
  cases port with
  | none => exact ⟨rfl, rfl⟩
  | some port =>
    set gone := { port with rest := insert ("device_ip", Value.str n.deviceIp) port.rest }
    set u : TrapWorld := ⟨snmp, w.newMacs.portHasNoNewMacs gone, w.sessions⟩
    change Makes (device (getMacsOnDevice n.deviceIp) >>= _) (getMacsOnDevice n.deviceIp >>= _) u
    exact makes_bind fun macPorts snmp _ => ⟨rfl, rfl⟩

theorem exec_getReadParams {params : String} (cached : w.snmp.readParams n.deviceIp = some params) :
    exec (getReadParams n.deviceIp) w.snmp = (.ok (some params), w.snmp) := by
  unfold getReadParams
  rw [exec_get_bind]
  simp only [Value.format, cached, exec_pure]

/-- With read parameters, a trap of a known type goes to one of the handlers. -/
theorem exec_parseTrapStr (cached : w.snmp.readParams n.deviceIp ≠ none) {t : Trap}
    (known : t.trapType ≠ "unknown") :
    exec (parseTrapStr now n (.trap t)) w =
      match t.trapMac with
      | some mac => exec (handleMac now n t mac) w
      | none => exec (handlePort now n t) w := by
  obtain ⟨params, hparams⟩ := Option.ne_none_iff_exists'.mp cached
  unfold parseTrapStr
  rw [exec_bind, exec_device, exec_getReadParams hparams]
  simp only [if_neg known]
  cases t.trapMac <;> rfl

/-! ## The rows -/

theorem calls_othersKept (calls : List Session.Call) (w : Session.World) :
    OthersKept calls w (w.calls calls) := by
  induction calls generalizing w with
  | nil => exact fun x _ => ⟨rfl, fun _ => rfl⟩
  | cons c calls ih =>
    intro x other
    have first := other c List.mem_cons_self
    obtain ⟨seenAt, idOf⟩ := ih (w.step c) x fun d hd => other d (List.mem_cons_of_mem _ hd)
    refine ⟨seenAt.trans (Session.step_seenAt first w), fun foreign => ?_⟩
    rw [Session.World.calls, List.foldl_cons]
    refine (idOf fun d hd => foreign d (List.mem_cons_of_mem _ hd)).trans ?_
    exact Session.step_idOf (foreign c List.mem_cons_self) w

theorem seen_calls {row : Row} {mac : String} (hmac : mac ∈ row.seenMac)
    {calls : List Session.Call} {sessions : Session.World} {snmp : World}
    (h : (exec (row.calls now n sessions) snmp).1 = .ok calls) :
    ∃ vlan port, calls = [.seen now mac vlan port .none (some n.time)] := by
  have sight (trapIfIndex : Value) (trapMac : String) (trapVlan : Option Value)
      (h : (exec (Row.sight now n trapIfIndex trapMac trapVlan) snmp).1 = .ok calls) :
      ∃ vlan port, calls = [.seen now trapMac vlan port .none (some n.time)] := by
    unfold Row.sight at h
    rw [exec_bind] at h
    split at h
    · rw [exec_pure] at h
      exact ⟨_, _, (Except.ok.inj h).symm⟩
    · cases h
  cases row with
  | mac operation trapIfIndex trapMac trapVlan =>
    cases operation with
    | learnt =>
      obtain rfl := Option.mem_some.mp hmac
      exact sight _ _ _ h
    | removed | unknown => cases hmac
  | secureMacAddrViolation trapIfIndex trapMac trapVlan | roaming trapIfIndex trapMac trapVlan =>
    obtain rfl := Option.mem_some.mp hmac
    exact sight _ _ _ h
  | wirelessIPS trapMac =>
    obtain rfl := Option.mem_some.mp hmac
    exact sight _ _ _ h
  | up | down | dot11Deauthentication => cases hmac

theorem ended_calls {row : Row} {mac : String} (hmac : mac ∈ row.endedMac)
    (sessions : Session.World) (snmp : World) :
    (exec (row.calls now n sessions) snmp).1 =
      .ok [.ends now mac .none .none (some n.time)] := by
  cases row with
  | mac operation trapIfIndex trapMac trapVlan =>
    cases operation with
    | removed =>
      obtain rfl := Option.mem_some.mp hmac
      rfl
    | learnt | unknown => cases hmac
  | dot11Deauthentication trapMac =>
    obtain rfl := Option.mem_some.mp hmac
    rfl
  | up | down | secureMacAddrViolation | wirelessIPS | roaming => cases hmac

/-- The calls of a row do the rest. -/
theorem Row.HasEffect.of_makes {row : Row}
    (h : Makes (parseTrapStr now n (.trap row.trap)) (row.calls now n w.sessions) w) :
    row.HasEffect now n w where
  makes := h
  seen calls hcalls mac hmac := by
    unfold Makes at h
    rw [hcalls] at h
    obtain ⟨vlan, port, rfl⟩ := seen_calls hmac hcalls
    rw [h.2]
    change (w.sessions.step _).seenAt _ = _
    rw [Session.step_seen, Hierarchy.cover_of_le (Session.mac_le_objOf ..)]
    rfl
  ended mac hmac := by
    unfold Makes at h
    rw [ended_calls hmac] at h
    rw [h.2]
    exact Session.step_ends_mac ..
  others calls hcalls := by
    unfold Makes at h
    rw [hcalls] at h
    rw [h.2]
    exact calls_othersKept calls w.sessions

theorem makes_parseTrapStr (row : Row) (cached : w.snmp.readParams n.deviceIp ≠ none)
    {asked : Act (List Session.Call)}
    (h : match row.trap.trapMac with
      | some mac => Makes (handleMac now n row.trap mac) asked w
      | none => Makes (handlePort now n row.trap) asked w) :
    Makes (parseTrapStr now n (.trap row.trap)) asked w := by
  have known : row.trap.trapType ≠ "unknown" := by
    cases row <;> simp [Row.trap]
  unfold Makes
  rw [exec_parseTrapStr cached known]
  cases hmac : row.trap.trapMac <;> rw [hmac] at h <;> exact h

theorem makes_sight {t : Trap} (sight : t.isSight) {trapMac : String} (trapVlan : Option Value)
    (vlan : t.vlan.getD .none = trapVlan.getD .none) :
    Makes (handleMac now n t trapMac)
      (Row.sight now n (t.trapIfIndex.getD .none) trapMac trapVlan) w := by
  unfold handleMac
  rw [if_pos sight]
  exact seeMac_makes t trapVlan vlan

theorem row_makes {row : Row} (handled : row.Handled)
    (cached : w.snmp.readParams n.deviceIp ≠ none) :
    Makes (parseTrapStr now n (.trap row.trap)) (row.calls now n w.sessions) w := by
  refine makes_parseTrapStr row cached ?_
  cases row with
  | up trapIfIndex => exact portUp_makes trapIfIndex
  | down trapIfIndex => exact portDown_makes trapIfIndex
  | mac operation trapIfIndex trapMac trapVlan =>
    obtain rfl : operation = .unknown := handled
    exact ⟨rfl, rfl⟩
  | secureMacAddrViolation trapIfIndex trapMac trapVlan
  | roaming trapIfIndex trapMac trapVlan => exact makes_sight rfl trapVlan handled.symm
  | wirelessIPS trapMac => exact makes_sight rfl none rfl
  | dot11Deauthentication trapMac => exact ⟨rfl, rfl⟩

/-! ## The rows that are missed -/

/-- A device that has read parameters, and that is not polled yet. -/
def unpolled (sessions : Session.World) : TrapWorld where
  snmp := { World.empty (fun _ => ⟨.null, none⟩) (fun _ => none) with
    readParams := fun _ => some "public" }
  newMacs := ⟨[], some .empty⟩
  sessions := sessions

/-- The port of a device that cannot be polled is not found. -/
theorem unpolled_port (sessions : Session.World) (deviceIp : String) (trapIfIndex : Value) :
    (exec (getPortFromIndex deviceIp trapIfIndex false false) (unpolled sessions).snmp).1 =
      .ok none := by
  by_cases h : trapIfIndex = .none
  · subst h
    rfl
  · simp [getPortFromIndex, h, unpolled, World.getDeviceByIp, World.empty, polledPortFromIndex,
      poll, ask, exec_bind]
    rfl

/-- A trap of type `mac` has no effect, whatever its operation. -/
theorem mac_ignored (operation : Operation) (trapIfIndex : Value) (trapMac : String)
    (trapVlan : Option Value) (cached : w.snmp.readParams n.deviceIp ≠ none) :
    exec (parseTrapStr now n (.trap (Row.mac operation trapIfIndex trapMac trapVlan).trap)) w =
      (.ok (), w) := by
  rw [exec_parseTrapStr cached (by simp [Row.trap])]
  rfl

/-- A row whose MAC is not online afterwards in one store. -/
theorem not_hasEffect_of_unseen {row : Row} {mac : String} (hmac : mac ∈ row.seenMac)
    {calls : List Session.Call}
    (hcalls : (exec (row.calls now n w.sessions) w.snmp).1 = .ok calls)
    (unseen : (exec (parseTrapStr now n (.trap row.trap)) w).2.sessions.seenAt (.mac mac) = none) :
    ¬ row.HasEffect now n w := by
  intro effect
  have seen := effect.seen calls hcalls mac hmac
  rw [unseen] at seen
  cases seen

theorem unpolled_sight (sessions : Session.World) (trapIfIndex : Value) (trapMac : String)
    (trapVlan : Option Value) :
    (exec (Row.sight now n trapIfIndex trapMac trapVlan) (unpolled sessions).snmp).1 =
      .ok [.seen now trapMac (trapVlan.getD .none) none .none (some n.time)] := by
  have none_found := unpolled_port sessions n.deviceIp trapIfIndex
  unfold Row.sight
  rw [exec_bind]
  split
  · rename_i port snmp h
    rw [h] at none_found
    rw [Except.ok.inj none_found, exec_pure]
  · rename_i e snmp h
    rw [h] at none_found
    cases none_found

theorem learnt_not_hasEffect (trapIfIndex : Value) (trapMac : String) (trapVlan : Option Value) :
    ¬ (Row.mac .learnt trapIfIndex trapMac trapVlan).HasEffect now n (unpolled .empty) := by
  refine not_hasEffect_of_unseen rfl (unpolled_sight .empty trapIfIndex trapMac trapVlan) ?_
  rw [mac_ignored .learnt trapIfIndex trapMac trapVlan (by simp [unpolled])]
  rfl

theorem removed_not_hasEffect (trapIfIndex : Value) (trapMac : String) (trapVlan : Option Value) :
    ¬ (Row.mac .removed trapIfIndex trapMac trapVlan).HasEffect now n
      (unpolled (Session.World.empty.step (.seen now trapMac .none none .none none))) := by
  intro effect
  have ended := effect.ended trapMac rfl
  rw [mac_ignored .removed trapIfIndex trapMac trapVlan (by simp [unpolled])] at ended
  change (Session.World.step _ _).seenAt _ = none at ended
  rw [Session.step_seen, Hierarchy.cover_of_le (Session.mac_le_objOf ..)] at ended
  cases ended

/-- A MAC with a VLAN is not seen on it: the handler asks for another field. -/
theorem sight_not_hasEffect {row : Row} {trapIfIndex : Value} {trapMac : String}
    {trapVlan : Option Value} (vlan : trapVlan.getD .none ≠ .none)
    (sight : row.trap.isSight) (hmac : row.trap.trapMac = some trapMac)
    (hIndex : row.trap.trapIfIndex = some trapIfIndex) (absent : row.trap.vlan = none)
    (asked : row.calls now n .empty = Row.sight now n trapIfIndex trapMac trapVlan) :
    ¬ row.HasEffect now n (unpolled .empty) := by
  intro effect
  have cached : (unpolled .empty).snmp.readParams n.deviceIp ≠ none := by simp [unpolled]
  have code : Makes (parseTrapStr now n (.trap row.trap)) (Row.sight now n trapIfIndex trapMac none)
      (unpolled .empty) := by
    refine makes_parseTrapStr row cached ?_
    rw [hmac]
    have made : Makes (handleMac now n row.trap trapMac)
        (Row.sight now n (row.trap.trapIfIndex.getD .none) trapMac none) (unpolled .empty) :=
      makes_sight sight none (by rw [absent])
    rwa [hIndex] at made
  have table := effect.makes
  rw [show row.calls now n (unpolled .empty).sessions = _ from asked] at table
  unfold Makes at code table
  rw [unpolled_sight] at code table
  have same := code.2.symm.trans table.2
  have scores := congrArg (fun s => s.seenAt (.vlan trapMac (trapVlan.getD .none))) same
  change (Session.World.step _ _).seenAt _ = (Session.World.step _ _).seenAt _ at scores
  rw [Session.step_seen, Session.step_seen,
    Hierarchy.cover_of_le (Session.vlan_le_objOf.mpr ⟨vlan, rfl, rfl⟩),
    Hierarchy.cover_of_not_le (by simp)] at scores
  cases scores

/-- The handling of the traps of a row has the effect of the row, with any port resolution
and on any sessions, if and only if the row neither learns nor removes a MAC and does not
tell a VLAN on which a MAC is seen. -/
theorem hasEffect_iff (row : Row) :
    (∀ now n (w : TrapWorld), w.snmp.readParams n.deviceIp ≠ none → row.HasEffect now n w) ↔
      row.Handled := by
  constructor
  · intro h
    have effect (sessions : Session.World) : row.HasEffect 1 ⟨1, "10.0.0.1"⟩ (unpolled sessions) :=
      h _ _ _ (by simp [unpolled])
    cases row with
    | mac operation trapIfIndex trapMac trapVlan =>
      cases operation with
      | learnt => exact (learnt_not_hasEffect _ _ _ (effect _)).elim
      | removed => exact (removed_not_hasEffect _ _ _ (effect _)).elim
      | unknown => rfl
    | secureMacAddrViolation trapIfIndex trapMac trapVlan
    | roaming trapIfIndex trapMac trapVlan =>
      by_contra vlan
      exact sight_not_hasEffect vlan rfl rfl rfl rfl rfl (effect .empty)
    | up | down | dot11Deauthentication | wirelessIPS => trivial
  · intro handled now n w cached
    exact .of_makes (row_makes handled cached)

/-- A switch tells that it has learnt a MAC, which is not online afterwards. -/
theorem learnt_missed :
    let row : Row := .mac .learnt "10001" "00:11:22:33:44:55" (some "10")
    (exec (parseTrapStr 200 ⟨100, "10.0.0.1"⟩ (.trap row.trap)) (unpolled .empty)).2.sessions.seenAt
      (.mac "00:11:22:33:44:55") = none ∧
    ¬ ∀ now n (w : TrapWorld), w.snmp.readParams n.deviceIp ≠ none → row.HasEffect now n w := by
  intro row
  refine ⟨rfl, fun h => ?_⟩
  exact learnt_not_hasEffect "10001" "00:11:22:33:44:55" (some "10")
    (h 200 ⟨100, "10.0.0.1"⟩ (unpolled .empty) (by simp [unpolled]))

end ElanAgent.Snmp
