import ElanAgent.Session.Calls

/-!
# Authentication sessions

The functions of `elan/session.py` that add, list and remove the authentication
sessions of a device. The three removals list the set and then remove, one by one,
the members that meet a test; `removeWhere` is that loop. `now` is the clock reading
of the call.
-/

namespace ElanAgent.Session

open Atomic

/-- List the set `key`, then remove each member that meets `test`. -/
def removeWhere (key : String) (test : AuthSession → Bool) : Prog synapse Unit := do
  let currentSessions ← smembersAuth key
  each (fun session => if test session then sremAuth key session else pure ()) currentSessions

/-- Has the session expired at `date`? -/
def AuthSession.expired (date : ℚ) (session : AuthSession) : Bool :=
  session.till.any fun till => till ≤ date

def removeAuthenticationSessionsBySource (mac : Value) (source : String) : Prog synapse Unit :=
  removeWhere (macAuthSessionPath mac) fun session => session.source = source

def removeExpiredAuthenticationSession (mac : Value) (date : ℚ) : Prog synapse Unit :=
  removeWhere (macAuthSessionPath mac) (AuthSession.expired date)

theorem removeTillDisconnect_eq (mac : Value) :
    removeTillDisconnectAuthenticationSession mac =
      removeWhere (macAuthSessionPath mac) fun session => session.tillDisconnect = some true := by
  simp only [removeTillDisconnectAuthenticationSession, removeWhere, decide_eq_true_eq]

/-- The session with `till_disconnect` filled in: true unless there is a date. -/
def AuthSession.completed (session : AuthSession) : AuthSession :=
  { session with tillDisconnect := session.tillDisconnect.or (some session.till.isNone) }

def addAuthenticationSession (now : ℚ) (mac : Value) (session : AuthSession) :
    Prog synapse Unit := do
  removeExpiredAuthenticationSession mac now
  saddAuth (macAuthSessionPath mac) session.completed

def getAuthenticationSessions (now : ℚ) (mac : Value) : Prog synapse (List AuthSession) := do
  removeExpiredAuthenticationSession mac now
  smembersAuth (macAuthSessionPath mac)

/-- `is_online(mac)`: the score of the MAC, taken as a truth value. -/
def isOnline (mac : Value) : Prog synapse Bool := do
  let score ← Prog.op (Op.zscore (.mac mac)) .done
  pure (score.getD 0 ≠ 0)

/-! ## Run alone -/

/-- The store with the set `key` of authentication sessions replaced. -/
def World.setAuthentication (w : World) (key : String) (sessions : List AuthSession) : World :=
  { w with authentication := Function.update w.authentication key sessions }

@[simp] theorem setAuthentication_authentication (w : World) (key : String)
    (sessions : List AuthSession) :
    (w.setAuthentication key sessions).authentication =
      Function.update w.authentication key sessions := rfl

theorem setAuthentication_self (w : World) (key : String) :
    w.setAuthentication key (w.authentication key) = w := by
  simp only [World.setAuthentication, Function.update_eq_self]

@[simp] theorem setAuthentication_twice (w : World) (key : String)
    (sessions sessions' : List AuthSession) :
    (w.setAuthentication key sessions).setAuthentication key sessions' =
      w.setAuthentication key sessions' := by
  simp only [World.setAuthentication, Function.update_idem]

theorem run_saddAuth (w : World) (key : String) (session : AuthSession) :
    (saddAuth key session).run handler w =
      ((), w.setAuthentication key ((w.authentication key).insert session)) := rfl

theorem run_sremAuth (w : World) (key : String) (session : AuthSession) :
    (sremAuth key session).run handler w =
      ((), w.setAuthentication key ((w.authentication key).filter (· ≠ session))) := rfl

/-- The removals of the loop leave what does not meet the test, or was not listed. -/
theorem run_each_sremAuth (key : String) (test : AuthSession → Bool) (listed : List AuthSession)
    (w : World) :
    ((each (fun session => if test session then sremAuth key session else pure ()) listed).run
      handler w).2 =
      w.setAuthentication key ((w.authentication key).filter fun session =>
        !(test session && decide (session ∈ listed))) := by
  induction listed generalizing w with
  | nil =>
    have same : (w.authentication key).filter (fun _ => true) = w.authentication key :=
      List.filter_eq_self.mpr fun _ _ => rfl
    simp [each, same, setAuthentication_self]
  | cons session listed ih =>
    rw [each, Prog.run_bind, ih]
    by_cases met : test session = true
    · simp only [met, if_true, run_sremAuth, setAuthentication_authentication,
        Function.update_self, setAuthentication_twice, List.filter_filter]
      congr 2
      funext other
      by_cases same : other = session <;> simp [same, met]
    · simp only [met, Bool.false_eq_true, if_false, Prog.run_pure]
      congr 2
      funext other
      by_cases same : other = session <;> simp [same, met]

theorem run_removeWhere (key : String) (test : AuthSession → Bool) (w : World) :
    ((removeWhere key test).run handler w).2 =
      w.setAuthentication key ((w.authentication key).filter fun session => !test session) := by
  rw [removeWhere, Prog.run_bind, run_smembersAuth, run_each_sremAuth]
  congr 1
  exact List.filter_congr fun session listed => by simp [listed]

/-- Listing the sessions removes those that have expired. -/
theorem run_getAuthenticationSessions (now : ℚ) (mac : Value) (w : World) :
    ((getAuthenticationSessions now mac).run handler w).2 =
      w.setAuthentication (macAuthSessionPath mac)
        ((w.authentication (macAuthSessionPath mac)).filter
          fun session => !session.expired now) := by
  rw [getAuthenticationSessions, Prog.run_bind, run_smembersAuth]
  exact run_removeWhere ..

theorem run_addAuthenticationSession (now : ℚ) (mac : Value) (session : AuthSession) (w : World) :
    ((addAuthenticationSession now mac session).run handler w).2 =
      w.setAuthentication (macAuthSessionPath mac) (((w.authentication
        (macAuthSessionPath mac)).filter fun session => !session.expired now).insert
          session.completed) := by
  rw [addAuthenticationSession, Prog.run_bind, run_saddAuth, removeExpiredAuthenticationSession,
    run_removeWhere]
  simp

end ElanAgent.Session
