import ElanAgent.Nac.Events

/-!
# Requests that fail

The control center is asked after the authentications of the device have been changed and
before its authorization is. A request that times out or is refused raises in between, so
the call keeps what it has done to the authentications and does nothing else.
-/

namespace ElanAgent.Nac

open Atomic Redis Session

/-- A call that asks the control center for the authorization of a device. -/
inductive AuthzCall where
  | checkAuthz (removeSource : Option String) (endReason : String)
  | newAuthz (noDuplicateSource : Bool) (session : AuthSession)

namespace AuthzCall

def run (now : ℚ) (mac : String) : AuthzCall → Call (Option RedisMacAuthorization)
  | .checkAuthz source endReason => Nac.checkAuthz now mac source endReason
  | .newAuthz noDuplicateSource session => Nac.newAuthz now mac noDuplicateSource session

/-- The source whose authentication sessions the call removes. -/
def removed : AuthzCall → Option String
  | .checkAuthz source _ => source
  | .newAuthz noDuplicateSource session => if noDuplicateSource then some session.source else none

/-- The authentication session that the call adds. -/
def added : AuthzCall → Option AuthSession
  | .checkAuthz _ _ => none
  | .newAuthz _ session => some session.completed

end AuthzCall

/-- The authentication sessions of `mac` that have not expired. -/
def World.live (w : World) (now : ℚ) (mac : String) : List AuthSession :=
  (w.session.authentication (macAuthSessionPath mac)).filter fun session => !session.expired now

/-- What `remove_source` leaves. -/
theorem exec_removeSource_eq (w : World) (mac : String) (source : Option String) :
    (removeSource mac source).exec w = (.ok (), w.setSession (w.session.setAuthentication
      (macAuthSessionPath mac) ((w.session.authentication (macAuthSessionPath mac)).filter
        fun session => source ≠ some session.source))) := by
  cases source with
  | none =>
    simp only [removeSource, exec_pure, ne_eq, reduceCtorEq, not_false_eq_true, decide_true]
    rw [List.filter_eq_self.mpr fun _ _ => rfl, setAuthentication_self]
    rfl
  | some source =>
    rw [removeSource, exec_onSessions, removeAuthenticationSessionsBySource, run_removeWhere]
    congr 4
    funext session
    by_cases same : session.source = source <;> simp [same, Ne.symm]

/-- `checkAuthz` when the request fails: the removal, and the cleaning that comes with the
listing of what to send. -/
theorem exec_checkAuthz_failed {w : World} (failed : w.answers w.asked = none) (now : ℚ)
    (mac : String) (source : Option String) (endReason : String) :
    (checkAuthz now mac source endReason).exec w = (.error .call,
      { w with
        session := w.session.setAuthentication (macAuthSessionPath mac)
          (((w.session.authentication (macAuthSessionPath mac)).filter
            fun session => source ≠ some session.source).filter
              fun session => !session.expired now)
        asked := w.asked + 1 }) := by
  rw [checkAuthz, exec_bind, exec_removeSource_eq]
  dsimp only
  rw [exec_bind, exec_getNetworkAssignments]
  simp only [World.setSession, failed, Option.elim_none, run_getAuthenticationSessions,
    setAuthentication_authentication, Function.update_self, setAuthentication_twice]

theorem exec_newAuthz_failed {w : World} (failed : w.answers w.asked = none) (now : ℚ)
    (mac : String) (noDuplicateSource : Bool) (session : AuthSession) :
    (newAuthz now mac noDuplicateSource session).exec w = (.error .call,
      { w with
        session := w.session.setAuthentication (macAuthSessionPath mac)
          (((((w.session.authentication (macAuthSessionPath mac)).filter
            fun other => (if noDuplicateSource then some session.source else none) ≠
              some other.source).filter fun other => !other.expired now).insert
                session.completed).filter fun other => !other.expired now)
        asked := w.asked + 1 }) := by
  rw [newAuthz, exec_bind, exec_removeSource_eq]
  dsimp only
  rw [exec_bind, exec_onSessions]
  dsimp only
  rw [exec_checkAuthz_failed (by exact failed)]
  simp [World.setSession, run_addAuthenticationSession]

/-- When the request fails, the call raises. The live authentication sessions are then those
that its removal has left, and the one that it has added; the authorizations and their
expiries are as before. -/
theorem authzCall_failed (c : AuthzCall) {w : World} (failed : w.answers w.asked = none) (now : ℚ)
    (mac : String) :
    ((c.run now mac).exec w).1 = .error .call ∧
    (∀ session, session ∈ ((c.run now mac).exec w).2.live now mac ↔
      session ∈ w.live now mac ∧ c.removed ≠ some session.source ∨
      c.added = some session ∧ session.expired now = false) ∧
    ((c.run now mac).exec w).2.sessions = w.sessions ∧
    ((c.run now mac).exec w).2.expiry = w.expiry := by
  cases c with
  | checkAuthz source endReason =>
    simp only [AuthzCall.run, exec_checkAuthz_failed failed]
    refine ⟨trivial, fun session => ?_, trivial, trivial⟩
    simp only [World.live, setAuthentication_authentication, Function.update_self,
      List.mem_filter, AuthzCall.removed, AuthzCall.added, reduceCtorEq, false_and, or_false,
      decide_eq_true_eq]
    tauto
  | newAuthz noDuplicateSource added =>
    simp only [AuthzCall.run, exec_newAuthz_failed failed]
    refine ⟨trivial, fun session => ?_, trivial, trivial⟩
    simp only [World.live, setAuthentication_authentication, Function.update_self,
      List.mem_filter, List.mem_insert_iff, AuthzCall.removed, AuthzCall.added,
      Bool.not_eq_true', decide_eq_true_eq, Option.some.injEq, @eq_comm _ added.completed]
    tauto

/-- A login through the portal. -/
def portalLogin : AuthSession := ⟨"captive-portal-web", none, none, ∅⟩

/-- A device that has logged in through the portal, with a control center that fails. -/
def loggedIn : World :=
  let w := World.empty fun _ => none
  w.setSession (w.session.setAuthentication (macAuthSessionPath "00:11") [portalLogin.completed])

theorem authzCall_failed_logout :
    let c := AuthzCall.checkAuthz (some "captive-portal-web") overridden
    ((c.run 100 "00:11").exec loggedIn).1 = .error .call ∧
    (∀ session, session ∈ ((c.run 100 "00:11").exec loggedIn).2.live 100 "00:11" ↔
      session ∈ loggedIn.live 100 "00:11" ∧ c.removed ≠ some session.source ∨
      c.added = some session ∧ session.expired 100 = false) ∧
    ((c.run 100 "00:11").exec loggedIn).2.sessions = loggedIn.sessions ∧
    ((c.run 100 "00:11").exec loggedIn).2.expiry = loggedIn.expiry :=
  authzCall_failed _ rfl 100 "00:11"

/-- What a logout and a login leave when their requests fail. -/
def failedLogout : Except Error (Option RedisMacAuthorization) × World :=
  (checkAuthz 100 "00:11" (some "captive-portal-web") overridden).exec loggedIn

def failedLogin : Except Error (Option RedisMacAuthorization) × World :=
  (newAuthz 100 "00:11" true portalLogin).exec (World.empty fun _ => none)

/-- A logout that raises has removed the login, and a login that raises is recorded. -/
theorem authzCall_failed_changes :
    (failedLogout.1 = .error .call ∧ loggedIn.live 100 "00:11" = [portalLogin.completed] ∧
      failedLogout.2.live 100 "00:11" = []) ∧
    failedLogin.1 = .error .call ∧
      failedLogin.2.live 100 "00:11" = [portalLogin.completed] := by
  decide +kernel

end ElanAgent.Nac
