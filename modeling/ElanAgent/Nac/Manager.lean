import ElanAgent.Nac.Authorization

/-!
# The manager of MAC authorizations

`MacAuthorizationManager`, which programs the firewall from the stored authorizations
and withdraws them when they expire or when the device disconnects. Every handler runs
in a thread of its own. The semaphore around the expiry check only rules interleavings
out, so it has no part in the programs.
-/

namespace ElanAgent.Nac

open Atomic Session RedisMacAuthorization

/-- Run a call for each element, in order; the first that raises ends the loop. -/
def each {α : Type} (f : α → Call Unit) : List α → Call Unit
  | [] => pure ()
  | x :: xs => do
    f x
    each f xs

namespace MacAuthorizationManager

def fwDisallowMac (mac : String) : Call Unit := fwAllowMac mac ∅ ∅

/-- Program what is stored for `mac`. -/
def fwApply (mac : String) (authz : Option RedisMacAuthorization) : Call Unit :=
  match authz with
  | some authz => fwAllowMac mac authz.allowOn authz.bridgeTo
  | none => fwDisallowMac mac

/-- The authorization given, or else the stored one. -/
def givenOrStored (mac : String) : Option RedisMacAuthorization →
    Call (Option RedisMacAuthorization)
  | some authz => pure (some authz)
  | none => getByMac mac

/-- Remove the authorization `authz`, or the stored one if it is not given, and close the
firewall. -/
def removeAuthz (now : ℚ) (mac reason : String) (authz : Option RedisMacAuthorization) :
    Call (Option RedisMacAuthorization) := do
  let authz ← givenOrStored mac authz
  endAuthz now mac reason authz
  fwDisallowMac mac
  pure authz

def authzChanged (mac : String) : Call Unit := do
  let authz ← getByMac mac
  fwApply mac authz

/-- Check the authorization of the devices that are online. `thread.run` runs the check
in the calling thread. -/
def checkMacs (now : ℚ) (macs : List String) : Call Unit :=
  each (fun (mac : String) => do
    let online ← onSessions (isOnline mac)
    if online then
      let _ ← checkAuthz now mac none overridden
      pure ()
    else pure ()) macs

/-- Start the timer for the next expiry, if an authorization expires. -/
def scheduleNextExpiryCheck : Call Unit := do
  let next ← zrangeFirst
  match next with
  | some (_, some due) => startCheck due
  | _ => pure ()

/-- Remove every authorization that has expired, and check anew the devices online. -/
def checkExpiredAuthz (now : ℚ) : Call Unit := do
  cancelCheck
  let macs ← zrangebyscore now
  each (fun (mac : String) => do
    let _ ← removeAuthz now mac "expired" none
    checkMacs now [mac]) macs
  scheduleNextExpiryCheck

/-- The handler of `nac/authz/change`. -/
def handleAuthzChanged (now : ℚ) (mac : String) : Call Unit := do
  authzChanged mac
  checkExpiredAuthz now

/-- Withdraw the authorization that the handler of a disconnection has read, if it lasts
until the device disconnects, and program what is stored then. -/
def withdrawTillDisconnect (now : ℚ) (mac : String) (authz : Option RedisMacAuthorization) :
    Call Unit :=
  match authz with
  | some authz =>
    if authz.tillDisconnect = some true then do
      let _ ← removeAuthz now mac "disconnected" (some authz)
      authzChanged mac
    else pure ()
  | none => pure ()

/-- The handler of an `end` message on `session/mac`. -/
def handleDisconnection (now : ℚ) (mac : String) : Call Unit := do
  let authz ← getByMac mac
  withdrawTillDisconnect now mac authz
  checkExpiredAuthz now

/-- Program the firewall from everything that is stored. -/
def initMacs : Call Unit := do
  let macs ← zmembers
  each (fun (mac : String) => do
    let authz ← getByMac mac
    match authz with
    | some authz => fwAllowMac mac authz.allowOn authz.bridgeTo
    | none => pure ()) macs

/-- The constructor, once the attributes are set. -/
def init (now : ℚ) : Call Unit := do
  checkExpiredAuthz now
  initMacs

end MacAuthorizationManager

/-! ## What the processes run -/

open MacAuthorizationManager

/-- A call made by some thread of some process, with the clock reading at which it is
made. -/
inductive Task where
  | checkAuthz (now : ℚ) (mac : String) (source : Option String) (endReason : String)
  | newAuthz (now : ℚ) (mac : String) (noDuplicateSource : Bool) (session : AuthSession)
  | removeAuthz (now : ℚ) (mac reason : String) (authz : Option RedisMacAuthorization)
  | handleAuthzChanged (now : ℚ) (mac : String)
  | handleDisconnection (now : ℚ) (mac : String)
  | checkMacs (now : ℚ) (macs : List String)
  | checkExpiredAuthz (now : ℚ)
  | init (now : ℚ)

/-- The call, its result dropped. -/
def Task.call : Task → Call Unit
  | .checkAuthz now mac source endReason => do
    let _ ← Nac.checkAuthz now mac source endReason
    pure ()
  | .newAuthz now mac noDuplicateSource session => do
    let _ ← Nac.newAuthz now mac noDuplicateSource session
    pure ()
  | .removeAuthz now mac reason authz => do
    let _ ← MacAuthorizationManager.removeAuthz now mac reason authz
    pure ()
  | .handleAuthzChanged now mac => MacAuthorizationManager.handleAuthzChanged now mac
  | .handleDisconnection now mac => MacAuthorizationManager.handleDisconnection now mac
  | .checkMacs now macs => MacAuthorizationManager.checkMacs now macs
  | .checkExpiredAuthz now => MacAuthorizationManager.checkExpiredAuthz now
  | .init now => MacAuthorizationManager.init now

end ElanAgent.Nac
