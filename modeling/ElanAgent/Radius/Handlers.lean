import ElanAgent.Nac.Authorization
import ElanAgent.Radius.Ports

/-!
# The requests of RADIUS servers

The functions of `elan/freeradius/nac.py` that a server calls after an authentication and
for its accounting. They work on the polled devices, the sessions and the authorizations.
The events that tell a failure are left out.

Where there is no MAC, Redis takes `None` for its text in a key.
-/

namespace ElanAgent.Radius

open Raising
open Session (Port)

/-- The polled devices, and the stores of the sessions and of the authorizations. -/
structure World where
  snmp : Snmp.World
  agent : Nac.World

/-- What a handler may raise. -/
inductive Failure where
  | locating (e : Error)
  | authorization (e : Nac.Error)
  | unboundLocalError (name : String)
  | notAuthorized
  deriving DecidableEq

abbrev Handling := Raising Failure World

/-- A search for a port. -/
def locating {α : Type} (x : Act α) : Handling α :=
  raiseAs .locating (zoom World.snmp (fun snmp w => { w with snmp := snmp }) x)

/-- A call of `nac`, or of `session`. -/
def authorizing {α : Type} (x : Nac.Call α) : Handling α :=
  raiseAs .authorization (zoom World.agent (fun agent w => { w with agent := agent })
    (ofRun x.exec))

/-- A MAC as an argument. -/
def macValue (mac : Option String) : Value := (mac.map Value.str).getD .none

/-- `extract_mac(request.get('Calling-Station-Id', None))`. -/
def callingMac (request : Request) : Act (Option String) :=
  extractMac (request.attribute "Calling-Station-Id")

/-- The MAC of a request, and its port. -/
def locate (request : Request) : Act (Option String × Option Port) := do
  let mac ← callingMac request
  let port ← findPort request
  pure (mac, port)

/-- `session.seen(mac, port=port)`. -/
def sessionSeen (now : ℚ) (mac : Option String) (port : Option Port) : Handling Unit := do
  let _ ← authorizing (Nac.onSessions (Session.seen now (macValue mac) .none port .none none))
  pure ()

def seen (now : ℚ) (request : Request) : Handling Unit := do
  let (mac, port) ← locating (locate request)
  sessionSeen now mac port

/-- `end`. -/
def endMac (now : ℚ) (request : Request) : Handling Unit := do
  let mac ← locating (callingMac request)
  let _ ← authorizing (Nac.onSessions (Session.endSession now (macValue mac) .none .none none))
  pure ()

/-- The authentication session of a user of 802.1X. -/
def dot1xSession (request : Request) : Session.AuthSession where
  source := "radius-dot1x"
  till := none
  tillDisconnect := some true
  rest := {("authentication_provider", request.attribute "ELAN-Auth-Provider"),
    ("login", if (request.get "ELAN-Login").isSome then request.attribute "ELAN-Login"
      else request.attribute "User-Name")}

/-- The authorization, by the type of the authentication. There is no other branch. -/
def authorize (now : ℚ) (request : Request) (mac : Option String) :
    Handling (Option Nac.RedisMacAuthorization) :=
  let authType := request.attribute "ELAN-Auth-Type"
  let mac := (macValue mac).format
  if authType = "radius-mac" then authorizing (Nac.checkAuthz now mac none Nac.overridden)
  else if authType = "radius-dot1x" then
    authorizing (Nac.newAuthz now mac true (dot1xSession request))
  else throw (.unboundLocalError "authz")

/-- The value of `ELAN-Vlan-Id`. -/
def getAssignments (now : ℚ) (request : Request) : Handling String := do
  let (mac, port) ← locating (locate request)
  sessionSeen now mac port
  match ← authorize now request mac with
  | some authz => pure authz.assignVlan.format
  | none => throw .notAuthorized

def postAuth (now : ℚ) (request : Request) : Handling (Option String) := do
  if request.attribute "ELAN-Auth-Type" = "Reject" then
    seen now request
    pure none
  else
    let vlan ← getAssignments now request
    pure (some vlan)

def accounting (now : ℚ) (request : Request) : Handling Unit :=
  let status := request.attribute "Acct-Status-Type"
  if status ∈ [Value.str "Stop", .int 2] then endMac now request
  else if status ∈ [Value.str "Start", .int 1, .str "Interim-Update", .int 3] then
    seen now request
  else pure ()

end ElanAgent.Radius
