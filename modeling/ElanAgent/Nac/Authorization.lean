import ElanAgent.Nac.Store

/-!
# The authorizations of devices

The functions of `elan/nac/__init__.py`. A device has at most one authorization, kept
under its MAC with the time at which it expires; the control center is asked for it
whenever the authentications of the device may have changed. `now` is the clock reading
of a call. No caller gives `checkAuthz` arguments beyond those here.
-/

namespace ElanAgent.Nac

open Atomic Session

namespace RedisMacAuthorization

/-- `RedisMacAuthorization(mac=mac, **assignments)`. -/
def ofAssignments (mac : String) (a : Assignments) : RedisMacAuthorization where
  localId := none
  mac := mac
  assignVlan := a.assignVlan
  allowOn := a.allowOn.toFinset
  bridgeTo := a.bridgeTo.toFinset
  tillDisconnect := a.tillDisconnect
  till := a.till
  rest := a.rest

/-- `RedisMacAuthorization(**data)`. -/
def ofSerialized (data : Serialized) : RedisMacAuthorization where
  localId := data.localId
  mac := data.mac
  assignVlan := data.assignVlan
  allowOn := data.allowOn.toFinset
  bridgeTo := data.bridgeTo.toFinset
  tillDisconnect := data.tillDisconnect
  till := data.till
  rest := data.rest

def serialize (authz : RedisMacAuthorization) : Serialized where
  localId := authz.localId
  mac := authz.mac
  assignVlan := authz.assignVlan
  allowOn := authz.allowOn.val
  bridgeTo := authz.bridgeTo.val
  tillDisconnect := authz.tillDisconnect
  till := authz.till
  rest := authz.rest

@[simp] theorem ofSerialized_serialize (authz : RedisMacAuthorization) :
    ofSerialized authz.serialize = authz := by
  cases authz
  simp [ofSerialized, serialize]

/-- `__eq__`: every attribute but `mac` and `local_id`. -/
def eq (authz other : RedisMacAuthorization) : Bool :=
  authz.assignVlan = other.assignVlan && authz.allowOn = other.allowOn &&
  authz.bridgeTo = other.bridgeTo && authz.tillDisconnect = other.tillDisconnect &&
  authz.till = other.till && authz.rest = other.rest

/-- The score under which the authorization is kept. -/
def score (authz : RedisMacAuthorization) : WithTop ℚ := authz.till.elim ⊤ fun till => till

/-- The pipeline that stores the authorization. -/
def savePipe (authz : RedisMacAuthorization) : List Cmd :=
  [.zadd authz.score authz.mac, .hset authz.mac authz.serialize]

/-- The pipeline that deletes what is stored for `mac`. -/
def deletePipe (mac : String) : List Cmd := [.hget mac, .zrem mac, .hdel mac]

/-- The object with an id, taken from the sequence if it has none. -/
def identify (authz : RedisMacAuthorization) : Call RedisMacAuthorization :=
  match authz.localId with
  | none => do
    let localId ← getUniqueId
    pure { authz with localId := some localId }
  | some _ => pure authz

/-- Store the authorization. The result is the object as this leaves it. -/
def save (authz : RedisMacAuthorization) : Call RedisMacAuthorization := do
  let authz ← authz.identify
  let _ ← pipeExecute authz.savePipe
  pure authz

def deleteByMac (mac : String) : Call (Option RedisMacAuthorization) := do
  let result ← pipeExecute (deletePipe mac)
  match result with
  | .data (some data) :: _ => pure (some (ofSerialized data))
  | _ => pure none

def getByMac (mac : String) : Call (Option RedisMacAuthorization) := do
  let data ← hget mac
  pure (data.map ofSerialized)

end RedisMacAuthorization

open RedisMacAuthorization

/-- The instants that a `datetime` can represent, years 1 to 9999. -/
def representable (epoch : ℚ) : Bool :=
  -62135596800000000 ≤ micros epoch && micros epoch < 253402300800000000

/-- Tell the manager that the authorization of `mac` has changed. -/
def authzChanged (mac : String) : Call Unit := publishChange mac

/-- The till of a notified authorization, rendered as a date unless it is missing or 0. -/
def formatTill (now : ℚ) (till : Option ℚ) : Call (Option ℚ) :=
  match till with
  | none => pure none
  | some till =>
    if till = 0 then pure (some 0)
    else if representable till then pure (some (formatDate now (some till)))
    else throw .date

/-- Announce the authorization. A further attribute named `start` clashes with the
argument of that name. -/
def notifyNewAuthorizationSession (now : ℚ) (authz : RedisMacAuthorization) : Call Unit := do
  let data := authz.serialize
  let till ← formatTill now data.till
  if data.hasKey "start" then throw .type
  else publish (.start (formatDate now none) { data with till })

def notifyEndAuthorizationSession (now : ℚ) (authz : RedisMacAuthorization) (reason : String) :
    Call Unit :=
  publish (.ends reason (formatDate now none) authz.mac authz.localId)

/-- Ask the control center. -/
def getNetworkAssignments (now : ℚ) (mac : String) : Call NetworkAssignments := do
  let sessions ← onSessions (getAuthenticationSessions now mac)
  let port ← onSessions (macPort mac)
  let answer ← call sessions mac port
  match answer with
  | some assignments => pure assignments
  | none => throw .call

/-- Delete the authorization of `mac` and announce the end of `authz`, if there is one. -/
def endAuthz (now : ℚ) (mac reason : String) : Option RedisMacAuthorization → Call Unit
  | some authz => do
    let _ ← deleteByMac mac
    notifyEndAuthorizationSession now authz reason
  | none => pure ()

/-- Store a new authorization, tell the manager and announce it. -/
def storeAuthz (now : ℚ) (mac : String) (authz : RedisMacAuthorization) :
    Call RedisMacAuthorization := do
  let authz ← authz.save
  authzChanged mac
  notifyNewAuthorizationSession now authz
  pure authz

/-- Store an authorization in the place of the old one. -/
def grantAuthz (now : ℚ) (mac endReason : String) (authz : RedisMacAuthorization)
    (oldAuthz : Option RedisMacAuthorization) : Call RedisMacAuthorization := do
  endAuthz now mac endReason oldAuthz
  storeAuthz now mac authz

/-- Remove the stored authorization, if there is one, because there is none to replace it. -/
def withdrawAuthz (now : ℚ) (mac : String) (oldAuthz : Option RedisMacAuthorization) : Call Unit :=
  match oldAuthz with
  | some old => do
    let _ ← deleteByMac mac
    authzChanged mac
    notifyEndAuthorizationSession now old "expired"
  | none => pure ()

/-- What `checkAuthz` does once it has the answer and the stored authorization. -/
def settleAuthz (now : ℚ) (mac endReason : String) (assignments : NetworkAssignments)
    (oldAuthz : Option RedisMacAuthorization) : Call (Option RedisMacAuthorization) :=
  match assignments with
  | .granted a => do
    let authz := ofAssignments mac a
    if oldAuthz.any authz.eq then pure (some authz)
    else
      let authz ← grantAuthz now mac endReason authz oldAuthz
      pure (some authz)
  | .malformed => throw .type
  | .none => do
    withdrawAuthz now mac oldAuthz
    pure none

/-- Remove the authentication sessions of a source, if one is given. -/
def removeSource (mac : String) : Option String → Call Unit
  | some source => onSessions (removeAuthenticationSessionsBySource mac source)
  | none => pure ()

/-- Ask which authorization `mac` should have, after the removal of an authentication
source if there is one to remove, and store it in the place of the current one. -/
def checkAuthz (now : ℚ) (mac : String) (source : Option String) (endReason : String) :
    Call (Option RedisMacAuthorization) := do
  removeSource mac source
  let assignments ← getNetworkAssignments now mac
  let oldAuthz ← getByMac mac
  settleAuthz now mac endReason assignments oldAuthz

/-- The default `end_reason`. -/
def overridden : String := "overridden"

/-- Add an authentication session, removing those of its source first if so asked, and
check the authorization. `source` and `auth` are the fields of `session`. -/
def newAuthz (now : ℚ) (mac : String) (noDuplicateSource : Bool) (session : AuthSession) :
    Call (Option RedisMacAuthorization) := do
  removeSource mac (if noDuplicateSource then some session.source else none)
  onSessions (addAuthenticationSession now mac session)
  checkAuthz now mac none overridden

/-- The stored authorization, and if there is none, the one that should be. -/
def getAuthz (now : ℚ) (mac : String) : Call (Option RedisMacAuthorization) := do
  let authz ← getByMac mac
  match authz with
  | some authz => pure (some authz)
  | none => checkAuthz now mac none overridden

/-- Access on one VLAN, without an end. -/
def onVlan (vlan : String) : Assignments where
  assignVlan := vlan
  allowOn := [vlan]
  bridgeTo := []
  tillDisconnect := some false
  till := none
  rest := ∅

end ElanAgent.Nac
