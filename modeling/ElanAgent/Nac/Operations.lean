import ElanAgent.Nac.Manager

/-!
# The operations that the calls issue

The stores of the authorizations are written by two pipelines only, and the sessions by
the functions that add, list and remove authentication sessions. A property of operations
that admits these holds of everything that a call issues, on any branch.
-/

namespace ElanAgent.Nac

open Atomic RedisMacAuthorization MacAuthorizationManager

/-- The operation neither executes a pipeline nor is one on the sessions. -/
def Op.Plain : Op → Prop
  | .execute _ | .session _ => False
  | _ => True

/-- The operation reads what is stored for `mac`. -/
def Op.Reads (mac : String) (o : Op) : Prop := o = .hget mac

/-- `P` holds of the two pipelines and of every plain operation. -/
structure Permits (P : Op → Prop) : Prop where
  save : ∀ authz : RedisMacAuthorization, P (.execute authz.savePipe)
  delete : ∀ mac, P (.execute (deletePipe mac))
  plain : ∀ o : Op, o.Plain → P o

theorem only_each {P : Op → Prop} {α : Type} {f : α → Call Unit} (h : ∀ x, (f x).Only P)
    (l : List α) : (each f l).Only P := by
  induction l with
  | nil => exact only_pure _
  | cons x l ih => exact (h x).bind fun _ => ih

/-- The operation on the sessions is not a pipeline. -/
def Direct : Session.Op → Prop
  | .execute _ => False
  | _ => True

section Sessions

theorem direct_op {o : Session.Op} (h : Direct o) :
    (.op o .done : Prog Session.synapse o.Reply).Only Direct := .op h fun _ => .done _

variable (now : ℚ) (mac : Value)

theorem direct_removeWhere (key : String) (test : Session.AuthSession → Bool) :
    (Session.removeWhere key test).Only Direct := by
  have removes (sessions : List Session.AuthSession) : Prog.Only Direct (Session.each
      (fun session => if test session then Session.sremAuth key session else pure ())
      sessions) := by
    induction sessions with
    | nil => exact .done _
    | cons session sessions ih =>
      refine Prog.Only.bind ?_ fun _ => ih
      dsimp only
      split
      · exact .op trivial fun _ => .done _
      · exact .done _
  exact .op trivial removes

theorem direct_getAuthenticationSessions :
    (Session.getAuthenticationSessions now mac).Only Direct :=
  (direct_removeWhere _ _).bind fun _ => .op trivial fun _ => .done _

theorem direct_addAuthenticationSession (session : Session.AuthSession) :
    (Session.addAuthenticationSession now mac session).Only Direct :=
  (direct_removeWhere _ _).bind fun _ => .op trivial fun _ => .done _

end Sessions

variable {P : Op → Prop} (hP : Permits P)

section Authorizations

variable (now : ℚ) (mac reason : String)

include hP

theorem only_getByMac : (getByMac mac).Only P :=
  (only_perform (hP.plain _ (by trivial))).bind fun _ => only_pure _

theorem only_deleteByMac : (deleteByMac mac).Only P := by
  refine (only_perform (hP.delete mac)).bind fun result => ?_
  split <;> exact only_pure _

theorem only_save (authz : RedisMacAuthorization) : authz.save.Only P := by
  refine Call.Only.bind ?_ fun authz => (only_perform (hP.save authz)).bind fun _ => only_pure _
  unfold identify
  split
  · exact (only_perform (hP.plain _ (by trivial))).bind fun _ => only_pure _
  · exact only_pure _

theorem only_notifyEnd (authz : RedisMacAuthorization) :
    (notifyEndAuthorizationSession now authz reason).Only P :=
  only_perform (hP.plain _ (by trivial))

theorem only_notifyNew (authz : RedisMacAuthorization) :
    (notifyNewAuthorizationSession now authz).Only P := by
  refine Call.Only.bind ?_ fun till => ?_
  · unfold formatTill
    repeat' split
    all_goals first | exact only_pure _ | exact only_throw _
  · split
    · exact only_throw _
    · exact only_perform (hP.plain _ (by trivial))

theorem only_endAuthz (authz : Option RedisMacAuthorization) :
    (endAuthz now mac reason authz).Only P := by
  cases authz with
  | none => exact only_pure _
  | some authz => exact (only_deleteByMac hP mac).bind fun _ => only_notifyEnd hP now reason authz

theorem only_settleAuthz (assignments : NetworkAssignments)
    (oldAuthz : Option RedisMacAuthorization) :
    (settleAuthz now mac reason assignments oldAuthz).Only P := by
  cases assignments with
  | malformed => exact only_throw _
  | none =>
    refine Call.Only.bind ?_ fun _ => only_pure _
    cases oldAuthz with
    | none => exact only_pure _
    | some old =>
      exact (only_deleteByMac hP mac).bind fun _ =>
        (only_perform (hP.plain _ (by trivial))).bind fun _ => only_notifyEnd hP now "expired" old
  | granted a =>
    dsimp only [settleAuthz]
    split
    · exact only_pure _
    · refine Call.Only.bind ((only_endAuthz hP now mac reason oldAuthz).bind fun _ => ?_)
        fun _ => only_pure _
      exact (only_save hP _).bind fun authz =>
        (only_perform (hP.plain _ (by trivial))).bind fun _ =>
          (only_notifyNew hP now authz).bind fun _ => only_pure _

theorem only_fwApply (authz : Option RedisMacAuthorization) : (fwApply mac authz).Only P := by
  cases authz <;> exact only_perform (hP.plain _ (by trivial))

theorem only_authzChanged : (MacAuthorizationManager.authzChanged mac).Only P :=
  (only_getByMac hP mac).bind (only_fwApply hP mac)

theorem only_removeAuthz (authz : Option RedisMacAuthorization) :
    (removeAuthz now mac reason authz).Only P := by
  refine Call.Only.bind ?_ fun authz => (only_endAuthz hP now mac reason authz).bind fun _ =>
    (only_perform (hP.plain _ (by trivial))).bind fun _ => only_pure _
  cases authz with
  | none => exact only_getByMac hP mac
  | some authz => exact only_pure _

theorem only_withdrawTillDisconnect (authz : Option RedisMacAuthorization) :
    (withdrawTillDisconnect now mac authz).Only P := by
  cases authz with
  | none => exact only_pure _
  | some authz =>
    dsimp only [withdrawTillDisconnect]
    split
    · exact (only_removeAuthz hP now mac "disconnected" _).bind fun _ => only_authzChanged hP mac
    · exact only_pure _

theorem only_initMacs : initMacs.Only P := by
  refine (only_perform (hP.plain _ (by trivial))).bind (only_each fun mac => ?_)
  refine (only_getByMac hP mac).bind fun authz => ?_
  cases authz with
  | none => exact only_pure _
  | some authz => exact only_perform (hP.plain _ (by trivial))

theorem only_scheduleNextExpiryCheck : scheduleNextExpiryCheck.Only P := by
  refine (only_perform (hP.plain _ (by trivial))).bind fun next => ?_
  split
  · exact only_perform (hP.plain _ (by trivial))
  · exact only_pure _

end Authorizations

section Calls

variable (sessions : ∀ o, Direct o → P (.session o)) (now : ℚ) (mac reason : String)

include hP sessions

omit hP in
theorem only_direct {α : Type} {p : Prog Session.synapse α} (direct : p.Only Direct) :
    (onSessions p).Only P :=
  only_embed (direct.imp sessions)

theorem only_getNetworkAssignments : (getNetworkAssignments now mac).Only P := by
  refine (only_direct sessions (direct_getAuthenticationSessions now mac)).bind
    fun authSessions => ?_
  refine (only_direct sessions (direct_op (by trivial))).bind fun port => ?_
  refine (only_perform (hP.plain _ (by trivial))).bind fun answer => ?_
  split
  · exact only_pure _
  · exact only_throw _

omit hP in
theorem only_removeSource (source : Option String) : (removeSource mac source).Only P := by
  cases source with
  | none => exact only_pure _
  | some source => exact only_direct sessions (direct_removeWhere _ _)

theorem only_checkAuthz (source : Option String) : (checkAuthz now mac source reason).Only P :=
  (only_removeSource sessions mac source).bind fun _ =>
    (only_getNetworkAssignments hP sessions now mac).bind fun assignments =>
      (only_getByMac hP mac).bind (only_settleAuthz hP now mac reason assignments)

theorem only_newAuthz (noDuplicateSource : Bool) (session : Session.AuthSession) :
    (newAuthz now mac noDuplicateSource session).Only P :=
  (only_removeSource sessions mac _).bind fun _ =>
    (only_direct sessions (direct_addAuthenticationSession now mac session)).bind fun _ =>
    only_checkAuthz hP sessions now mac overridden none

theorem only_checkMacs (macs : List String) : (checkMacs now macs).Only P := by
  refine only_each (fun (mac : String) => ?_) macs
  refine (only_direct sessions ((direct_op (by trivial)).bind fun _ => .done _)).bind
    fun online => ?_
  split
  · exact (only_checkAuthz hP sessions now mac overridden none).bind fun _ => only_pure _
  · exact only_pure _

theorem only_checkExpiredAuthz : (checkExpiredAuthz now).Only P := by
  refine (only_perform (hP.plain _ (by trivial))).bind fun _ =>
    (only_perform (hP.plain _ (by trivial))).bind fun macs => Call.Only.bind ?_ fun _ =>
      only_scheduleNextExpiryCheck hP
  exact only_each (fun (mac : String) => (only_removeAuthz hP now mac "expired" none).bind fun _ =>
    only_checkMacs hP sessions now [mac]) macs

theorem only_call (task : Task) : task.call.Only P := by
  cases task with
  | checkAuthz now mac source endReason =>
    exact (only_checkAuthz hP sessions now mac endReason source).bind fun _ => only_pure _
  | newAuthz now mac noDuplicateSource session =>
    exact (only_newAuthz hP sessions now mac noDuplicateSource session).bind fun _ => only_pure _
  | removeAuthz now mac reason authz =>
    exact (only_removeAuthz hP now mac reason authz).bind fun _ => only_pure _
  | handleAuthzChanged now mac =>
    exact (only_authzChanged hP mac).bind fun _ => only_checkExpiredAuthz hP sessions now
  | handleDisconnection now mac =>
    exact (only_getByMac hP mac).bind fun authz =>
      (only_withdrawTillDisconnect hP now mac authz).bind fun _ =>
        only_checkExpiredAuthz hP sessions now
  | checkMacs now macs => exact only_checkMacs hP sessions now macs
  | checkExpiredAuthz now => exact only_checkExpiredAuthz hP sessions now
  | init now =>
    exact (only_checkExpiredAuthz hP sessions now).bind fun _ => only_initMacs hP

end Calls

end ElanAgent.Nac
