import ElanAgent.Library.Calendar
import ElanAgent.Library.Dict
import ElanAgent.Nac.Logins

/-!
# Guest access

`GuestAccessManager` of `elan/captive_portal.py`. The control center sends the list of all
guest authorizations that are active, also from its cache. The manager turns those that have
not expired into authentication sessions, and remembers for which devices it did.
-/

namespace ElanAgent.CaptivePortal

open Atomic Session Nac Calendar

/-- An entry of the list, with the keys that the manager reads. -/
structure GuestAuthorization where
  till : String
  mac : String
  sponsorLogin : Value
  sponsorAuthenticationProvider : Value
  id : Value
  deriving DecidableEq

/-- `PENDING_GUEST_REQUESTS_PATH`. -/
def pendingGuestRequestsPath : String := "captive-portal:guest-request:pending"

/-- `MAC_AUTHS_PATH`. -/
def macAuthsPath : String := "guest-access:auth:mac"

def guestSource : String := "captive-portal-guest"

def sadd (key : String) (member : Value) : Call Unit := do
  let _ ← onSessions (Session.pipeExecute [.sadd key member])
  pure ()

def srem (key : String) (member : Value) : Call Unit := do
  let _ ← onSessions (Session.pipeExecute [.srem key member])
  pure ()

namespace GuestAuthorization

/-- The first 19 characters of `till`, as a date. -/
def date (authz : GuestAuthorization) : Option DateTime :=
  strptime (letter 'T') (authz.till.toList.take 19)

/-- The keyword arguments of `add_authentication_session`. -/
def session (authz : GuestAuthorization) (till : ℤ) : AuthSession where
  source := guestSource
  till := some till
  tillDisconnect := none
  rest := {("login", authz.sponsorLogin),
    ("authentication_provider", authz.sponsorAuthenticationProvider),
    ("guest_authorization", authz.id)}

end GuestAuthorization

namespace GuestAccessManager

def parseTill (authz : GuestAuthorization) : Call ℤ :=
  match authz.date with
  | some date => pure date.epoch
  | none => throw .date

/-- File each entry that has not expired under its MAC. -/
def fileByMac (now : ℚ) (byMac : Dict String (List GuestAuthorization)) :
    List GuestAuthorization → Call (Dict String (List GuestAuthorization))
  | [] => pure byMac
  | authz :: authorizations => do
    let till ← parseTill authz
    fileByMac now
      (if now < till then byMac.set authz.mac ((byMac.get authz.mac).getD [] ++ [authz]) else byMac)
      authorizations

/-- Withdraw what a guest had on the device. -/
def revoke (now : ℚ) (mac : Value) : Call Unit := do
  let _ ← checkAuthz now mac.format (some guestSource) "revoked"
  srem macAuthsPath mac

def addGuest (now : ℚ) (mac : String) (authz : GuestAuthorization) : Call Unit := do
  let till ← parseTill authz
  onSessions (addAuthenticationSession now mac (authz.session till))

/-- Put the authorizations of a device in the place of those it had. -/
def grant (now : ℚ) (mac : String) (authorizations : List GuestAuthorization) : Call Unit := do
  srem pendingGuestRequestsPath mac
  sadd macAuthsPath mac
  onSessions (removeAuthenticationSessionsBySource mac guestSource)
  each (addGuest now mac) authorizations
  let _ ← checkAuthz now mac none overridden
  pure ()

/-- The handler of `guest-access/active-authorizations`. -/
def newAuthorizations (now : ℚ) (authorizations : List GuestAuthorization) : Call Unit := do
  let authzByMac ← fileByMac now .empty authorizations
  let currentMacs ← onSessions (smembers macAuthsPath)
  each (revoke now) (currentMacs.filter fun mac => mac ∉ authzByMac.keys.map Value.str)
  each (fun (item : String × List GuestAuthorization) => grant now item.1 item.2) authzByMac.items

end GuestAccessManager

end ElanAgent.CaptivePortal
