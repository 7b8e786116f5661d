import ElanAgent.Nac.Firewall
import ElanAgent.Nac.Operations

/-!
# The handlers of the manager

A handler reads the stored authorization of a device and then programs the firewall, while
other handlers and other processes run. Whoever changes a stored authorization without
programming the firewall publishes a message about it. As long as no handler reads what it
is going to program for a device while another one is between such a reading and its
programming for that device, the firewall is what is stored once all messages are handled.
-/

namespace ElanAgent.Nac

open Atomic Redis Session RedisMacAuthorization MacAuthorizationManager

/-- What a thread runs: the handler of a change starts with the delivery of the message. -/
def Task.deliver : Task → Call Unit
  | .handleAuthzChanged now mac => do
    receiveChange mac
    MacAuthorizationManager.handleAuthzChanged now mac
  | task => task.call

/-- The task is one of a running manager, or of another process. -/
def Task.Running : Task → Prop
  | .removeAuthz .. | .init _ => False
  | _ => True

/-! ## The stages of a handler -/

namespace Handler

/-- Where a thread stands with respect to one device: nothing pending; a message about it
received; its stored authorization changed, which is to be published; its authorization
read, to be removed; a value at hand that is to be programmed. -/
inductive Stage where
  | idle
  | called
  | owing
  | removing
  | holding (authz : Option RedisMacAuthorization)

open Stage

/-- The stage `q` of a thread that works on `mac`, seen from device `m`. -/
def Stage.at (m mac : String) (q : Stage) : Stage := if mac = m then q else idle

@[simp] theorem at_idle (m mac : String) : idle.at m mac = idle := ite_self _

@[simp] theorem at_self (m : String) (q : Stage) : q.at m m = q := if_pos rfl

/-- The thread has read what it is going to program. -/
def Stage.Critical : Stage → Prop
  | removing | holding _ => True
  | _ => False

end Handler

open Handler Handler.Stage

/-- The operation changes nothing of device `m`, and loses no message about it. -/
structure Op.Spares (m : String) (o : Op) : Prop where
  stored : ∀ w, (handler o w).2.stored m = w.stored m
  device : ∀ w, (handler o w).2.firewall.device m = w.firewall.device m
  changes : ∀ w, m ∈ w.changes → m ∈ (handler o w).2.changes
  subscribed : ∀ w, (handler o w).2.subscribed = w.subscribed

/-- What a thread may issue, seen from device `m`. A thread that is not `full` programs
nothing but the absence of an authorization. -/
inductive Handler.Permitted (m : String) (full : Bool) : Monitor agent Stage
  | other {o : Op} (r : o.Reply) (h : o.Spares m) : Permitted m full idle o r idle
  | receive : Permitted m full idle (.receiveChange m) () called
  | read (r : Option Serialized) (h : full = true ∨ r = none) :
      Permitted m full idle (.hget m) r (holding (r.map ofSerialized))
  | answer (r : Option Serialized) (h : full = true ∨ r = none) :
      Permitted m full called (.hget m) r (holding (r.map ofSerialized))
  | condemn (r : Option Serialized) : Permitted m full idle (.hget m) r removing
  | remove (r : List Reply) :
      Permitted m full removing (.execute (deletePipe m)) r (holding none)
  | tell (authz : Option RedisMacAuthorization) (message : Notice) :
      Permitted m full (holding authz) (.publish message) () (holding authz)
  | apply (authz : Option RedisMacAuthorization) :
      Permitted m full (holding authz) (.fwAllowMac m (allowedOn authz) (bridgedTo authz)) () idle
  | delete (r : List Reply) : Permitted m full idle (.execute (deletePipe m)) r owing
  | save (authz : RedisMacAuthorization) (q : Stage) (r : List Reply) (key : authz.mac = m)
      (start : q = idle ∨ q = owing) : Permitted m full q (.execute authz.savePipe) r owing
  | owe {o : Op} (r : o.Reply) (h : o.Spares m) : Permitted m full owing o r owing
  | change : Permitted m full owing (.publishChange m) () idle

section Spares

variable {m : String}

/-- The operation writes neither the authorizations nor the firewall, and is not about the
messages on changes. -/
def Op.Aside : Op → Prop
  | .execute _ | .publishChange _ | .receiveChange _ | .subscribe | .fwAllowMac .. => False
  | _ => True

theorem spares_of_aside {o : Op} (h : o.Aside) : o.Spares m := by
  cases o with
  | execute => cases h
  | publishChange => cases h
  | receiveChange => cases h
  | subscribe => cases h
  | fwAllowMac => cases h
  | _ => exact ⟨fun _ => rfl, fun _ => rfl, fun _ h => h, fun _ => rfl⟩

theorem spares_publishChange (mac : String) : Op.Spares m (.publishChange mac) := by
  refine ⟨fun _ => rfl, fun _ => rfl, fun w h => ?_, fun _ => rfl⟩
  show m ∈ if w.subscribed then w.changes ++ [mac] else w.changes
  split
  · exact List.mem_append_left _ h
  · exact h

variable {mac : String} (other : mac ≠ m)

include other

theorem spares_receiveChange : Op.Spares m (.receiveChange mac) :=
  ⟨fun _ => rfl, fun _ => rfl, fun _ h => (List.mem_erase_of_ne other.symm).mpr h, fun _ => rfl⟩

theorem spares_fwAllowMac (allowOn bridgeTo : Finset String) :
    Op.Spares m (.fwAllowMac mac allowOn bridgeTo) :=
  ⟨fun _ => rfl, fun w => (device_fwAllowMac w.firewall mac allowOn bridgeTo m).trans
    (if_neg other.symm), fun _ h => h, fun _ => rfl⟩

theorem spares_delete : Op.Spares m (.execute (deletePipe mac)) :=
  ⟨fun w => (stored_deleted w mac m).trans (if_neg other.symm), fun _ => rfl, fun _ h => h,
    fun _ => rfl⟩

theorem spares_save {authz : RedisMacAuthorization} (key : authz.mac = mac) :
    Op.Spares m (.execute authz.savePipe) :=
  ⟨fun w => (stored_saved w authz m).trans (if_neg (key ▸ other.symm)), fun _ => rfl,
    fun _ h => h, fun _ => rfl⟩

end Spares

namespace Handler

section Conforms

variable {m : String} {full : Bool} (now : ℚ) (mac reason : String)

/-- What is permitted to a thread that works on `m` is permitted, seen from `m`, to one that
works on any device, if on the others it spares `m`. -/
theorem permitted_at {q q' : Stage} {o : Op} {r : o.Reply} (spares : mac ≠ m → o.Spares m)
    (mine : mac = m → Permitted m full q o r q') :
    Permitted m full (q.at m mac) o r (q'.at m mac) := by
  by_cases same : mac = m
  · subst mac
    simpa only [at_self] using mine rfl
  · rw [Stage.at, Stage.at, if_neg same, if_neg same]
    exact .other r (spares same)

theorem conforms_aside {α : Type} {p : Call α} (hp : p.Only Op.Aside) :
    p.Conforms (Permitted m full) idle (fun _ q => q = idle) (· = idle) :=
  hp.conforms (fun _ r h => .other r (spares_of_aside h)) rfl

theorem conforms_perform_aside {o : Op} (h : o.Aside) :
    (perform o).Conforms (Permitted m full) idle (fun _ q => q = idle) (· = idle) :=
  conforms_aside (only_perform h)

theorem conforms_sessions {α : Type} (p : Prog synapse α) :
    (onSessions p).Conforms (Permitted m full) idle (fun _ q => q = idle) (· = idle) :=
  conforms_aside (only_onSessions (fun _ => trivial) p)

/-- Reading what is not to be programmed. -/
theorem conforms_glance :
    (getByMac mac).Conforms (Permitted m full) idle (fun _ q => q = idle) (· = idle) :=
  conforms_aside ((only_perform trivial).bind fun _ => only_pure _)

theorem conforms_deleteByMac {q q' : Stage}
    (mine : ∀ r, Permitted m full q (.execute (deletePipe m)) r q') :
    (deleteByMac mac).Conforms (Permitted m full) (q.at m mac)
      (fun _ s => s = q'.at m mac) (· = idle) := by
  refine Call.Conforms.bind (M := fun _ s => s = q'.at m mac) (fun r => ⟨_, ?_, rfl⟩)
    fun result s hs => ?_
  · exact permitted_at mac spares_delete fun same => same ▸ mine r
  · split <;> exact hs

/-! ### Checks -/

/-- An operation on the side does not move a check on, whatever it owes. -/
theorem permitted_aside {q : Stage} (start : q = idle ∨ q = owing) {o : Op} (h : o.Aside)
    (r : o.Reply) : Permitted m full (q.at m mac) o r (q.at m mac) := by
  refine permitted_at mac (fun _ => spares_of_aside h) fun _ => ?_
  rcases start with rfl | rfl
  · exact .other r (spares_of_aside h)
  · exact .owe r (spares_of_aside h)

theorem conforms_endAuthz_check (old : Option RedisMacAuthorization) :
    (endAuthz now mac reason old).Conforms (Permitted m full) idle
      (fun _ s => ∃ q, (q = idle ∨ q = owing) ∧ s = q.at m mac) (· = idle) := by
  cases old with
  | none => exact ⟨idle, .inl rfl, (at_idle m mac).symm⟩
  | some old =>
    refine Call.Conforms.bind (M := fun _ s => s = owing.at m mac) ?_ ?_
    · simpa only [at_idle] using conforms_deleteByMac (q := idle) mac fun r => .delete r
    · rintro _ _ rfl _
      exact ⟨_, permitted_aside mac (.inr rfl) (by trivial) _, owing, .inr rfl, rfl⟩

theorem conforms_publishChange :
    (Nac.authzChanged mac).Conforms (Permitted m full) (owing.at m mac)
      (fun _ s => s = idle) (· = idle) := by
  refine fun _ => ⟨idle.at m mac, permitted_at mac (fun _ => spares_publishChange mac) ?_,
    at_idle m mac⟩
  rintro rfl
  exact .change

theorem conforms_storeAuthz_check {authz : RedisMacAuthorization} (key : authz.mac = mac)
    {q : Stage} (start : q = idle ∨ q = owing) :
    (storeAuthz now mac authz).Conforms (Permitted m full) (q.at m mac)
      (fun _ s => s = idle) (· = idle) := by
  refine Call.Conforms.bind (M := fun _ s => s = owing.at m mac) ?_ ?_
  · refine Call.Conforms.bind (M := fun authz s => authz.mac = mac ∧ s = q.at m mac) ?_ ?_
    · unfold identify
      split
      · exact fun _ => ⟨_, permitted_aside mac start (by trivial) _, key, rfl⟩
      · exact ⟨key, rfl⟩
    · rintro authz _ ⟨key, rfl⟩
      exact fun r => ⟨_, permitted_at mac (fun other => spares_save other key)
        fun same => .save authz q r (key.trans same) start, rfl⟩
  · rintro authz _ rfl
    refine (conforms_publishChange mac).bind fun _ _ h => ?_
    subst h
    refine Call.Conforms.bind (conforms_aside ?_) fun _ _ h => conforms_pure h
    refine Call.Only.bind ?_ fun till => ?_
    · unfold formatTill
      repeat' split
      all_goals first | exact only_pure _ | exact only_throw _
    · split
      · exact only_throw _
      · exact only_perform trivial

theorem conforms_settleAuthz_check (assignments : NetworkAssignments)
    (old : Option RedisMacAuthorization) :
    (settleAuthz now mac reason assignments old).Conforms (Permitted m full) idle
      (fun _ s => s = idle) (· = idle) := by
  cases assignments with
  | malformed => exact conforms_throw rfl
  | none =>
    refine Call.Conforms.bind (M := fun _ s => s = idle) ?_ fun _ _ h => conforms_pure h
    cases old with
    | none => exact rfl
    | some old =>
      refine Call.Conforms.bind (M := fun _ s => s = owing.at m mac) ?_ ?_
      · simpa only [at_idle] using conforms_deleteByMac (q := idle) mac fun r => .delete r
      · rintro _ _ rfl
        refine (conforms_publishChange mac).bind fun _ _ h => ?_
        subst h
        exact conforms_perform_aside trivial
  | granted a =>
    dsimp only [settleAuthz]
    split
    · exact rfl
    · refine Call.Conforms.bind (M := fun _ s => s = idle) ?_ fun _ _ h => conforms_pure h
      refine (conforms_endAuthz_check now mac reason old).bind fun _ _ h => ?_
      obtain ⟨q, start, rfl⟩ := h
      exact conforms_storeAuthz_check now mac rfl start

theorem conforms_checkAuthz (source : Option String) :
    (checkAuthz now mac source reason).Conforms (Permitted m full) idle
      (fun _ s => s = idle) (· = idle) := by
  refine (conforms_aside (only_removeSource (fun _ _ => trivial) mac source)).bind fun _ _ h => ?_
  subst h
  have asks : (getNetworkAssignments now mac).Only Op.Aside := by
    refine (only_onSessions (fun _ => trivial) _).bind fun sessions => ?_
    refine (only_onSessions (fun _ => trivial) _).bind fun port => ?_
    refine (only_perform trivial).bind fun answer => ?_
    split
    · exact only_pure _
    · exact only_throw _
  refine (conforms_aside asks).bind fun assignments _ h => ?_
  subst h
  refine (conforms_glance mac).bind fun old _ h => ?_
  subst h
  exact conforms_settleAuthz_check now mac reason assignments old

theorem conforms_newAuthz (noDuplicateSource : Bool) (session : AuthSession) :
    (newAuthz now mac noDuplicateSource session).Conforms (Permitted m full) idle
      (fun _ s => s = idle) (· = idle) := by
  refine (conforms_aside (only_removeSource (fun _ _ => trivial) mac _)).bind fun _ _ h => ?_
  subst h
  refine (conforms_sessions _).bind fun _ _ h => ?_
  subst h
  exact conforms_checkAuthz now mac overridden none

/-! ### Handlers -/

theorem conforms_each {α : Type} {S : Type} {A : Monitor agent S} {q : S} {raised : S → Prop}
    {f : α → Call Unit} (step : ∀ x, (f x).Conforms A q (fun _ s => s = q) raised) (l : List α) :
    (each f l).Conforms A q (fun _ s => s = q) raised := by
  induction l with
  | nil => exact rfl
  | cons x l ih =>
    refine (step x).bind fun _ _ h => ?_
    subst h
    exact ih

theorem conforms_fwApply (authz : Option RedisMacAuthorization) :
    (fwApply mac authz).Conforms (Permitted m full) ((holding authz).at m mac)
      (fun _ s => s = idle) (· = idle) := by
  have permitted : ∀ r, Permitted m full ((holding authz).at m mac)
      (.fwAllowMac mac (allowedOn authz) (bridgedTo authz)) r (idle.at m mac) := fun _ =>
    permitted_at mac (fun other => spares_fwAllowMac other _ _) fun same => same ▸ .apply authz
  cases authz <;> exact fun r => ⟨_, permitted r, at_idle m mac⟩

theorem conforms_checkMacs (macs : List String) :
    (checkMacs now macs).Conforms (Permitted m full) idle (fun _ s => s = idle)
      (· = idle) := by
  refine conforms_each (fun (mac : String) => ?_) macs
  refine (conforms_sessions _).bind fun online _ h => ?_
  subst h
  split
  · exact (conforms_checkAuthz now mac overridden none).bind fun _ _ h => conforms_pure h
  · exact rfl

/-- The stage of a handler that has read `authz` to remove it. -/
def Stage.condemned : Option RedisMacAuthorization → Stage
  | some _ => removing
  | none => holding none

/-- Once it has removed what it has read, a handler is to close the firewall. -/
theorem conforms_endAuthz_removal (authz : Option RedisMacAuthorization) :
    (endAuthz now mac reason authz).Conforms (Permitted m full)
      ((Stage.condemned authz).at m mac) (fun _ s => s = (holding none).at m mac) (· = idle) := by
  cases authz with
  | none => exact rfl
  | some authz =>
    refine (conforms_deleteByMac mac fun r => .remove r).bind fun _ _ h => ?_
    subst h
    exact fun _ => ⟨_, permitted_at mac (fun _ => spares_of_aside trivial)
      fun _ => .tell none _, rfl⟩

theorem conforms_removeAuthz_given {authz : RedisMacAuthorization} :
    (removeAuthz now mac reason (some authz)).Conforms (Permitted m full)
      (removing.at m mac) (fun _ s => s = idle) (· = idle) := by
  refine (conforms_endAuthz_removal now mac reason (some authz)).bind fun _ _ h => ?_
  subst h
  exact (conforms_fwApply mac none).bind fun _ _ h => conforms_pure h

theorem conforms_removeAuthz :
    (removeAuthz now mac reason none).Conforms (Permitted m full) idle
      (fun _ s => s = idle) (· = idle) := by
  refine Call.Conforms.bind (M := fun authz s => s = (Stage.condemned authz).at m mac) ?_ ?_
  · rw [← at_idle m mac]
    intro r
    refine ⟨_, permitted_at mac (fun _ => spares_of_aside trivial) fun same => ?_, rfl⟩
    subst same
    cases r with
    | none => exact .read none (.inr rfl)
    | some data => exact .condemn (some data)
  · rintro authz _ rfl
    refine (conforms_endAuthz_removal now mac reason authz).bind fun _ _ h => ?_
    subst h
    exact (conforms_fwApply mac none).bind fun _ _ h => conforms_pure h

theorem conforms_scheduleNextExpiryCheck :
    scheduleNextExpiryCheck.Conforms (Permitted m full) idle (fun _ s => s = idle)
      (· = idle) := by
  refine conforms_aside ((only_perform trivial).bind fun next => ?_)
  split
  · exact only_perform trivial
  · exact only_pure _

theorem conforms_checkExpiredAuthz :
    (checkExpiredAuthz now).Conforms (Permitted m full) idle (fun _ s => s = idle)
      (· = idle) := by
  refine (conforms_perform_aside (by trivial)).bind fun _ _ h => ?_
  subst h
  refine (conforms_perform_aside (by trivial)).bind fun macs _ h => ?_
  subst h
  refine Call.Conforms.bind (conforms_each (fun (mac : String) => ?_) macs) fun _ _ h => ?_
  · refine (conforms_removeAuthz now mac "expired").bind fun _ _ h => ?_
    subst h
    exact conforms_checkMacs now [mac]
  · subst h
    exact conforms_scheduleNextExpiryCheck

/-- Read what is stored and program it, at the delivery of a message or without one. -/
theorem conforms_authzChanged {q : Stage} (start : q = idle ∨ q = called) :
    (MacAuthorizationManager.authzChanged mac).Conforms (Permitted m true) (q.at m mac)
      (fun _ s => s = idle) (· = idle) := by
  refine Call.Conforms.bind (M := fun authz s => s = (holding authz).at m mac) ?_ ?_
  · intro r
    refine ⟨_, permitted_at mac (fun _ => spares_of_aside trivial) fun same => ?_, rfl⟩
    subst same
    rcases start with rfl | rfl
    · exact .read r (.inl rfl)
    · exact .answer r (.inl rfl)
  · rintro authz _ rfl
    exact conforms_fwApply mac authz

theorem conforms_handleAuthzChanged :
    ((Task.handleAuthzChanged now mac).deliver).Conforms (Permitted m true) idle
      (fun _ s => s = idle) (· = idle) := by
  refine Call.Conforms.bind (M := fun _ s => s = called.at m mac) ?_ ?_
  · rw [← at_idle m mac]
    refine fun _ => ⟨_, permitted_at mac spares_receiveChange fun same => ?_, rfl⟩
    exact same ▸ .receive
  · rintro _ _ rfl
    refine (conforms_authzChanged mac (.inr rfl)).bind fun _ _ h => ?_
    subst h
    exact conforms_checkExpiredAuthz now

/-- The stage of a handler that has read `authz` at a disconnection. -/
def Stage.disconnected : Option RedisMacAuthorization → Stage
  | some authz => if authz.tillDisconnect = some true then removing else idle
  | none => idle

theorem conforms_withdrawTillDisconnect (authz : Option RedisMacAuthorization) :
    (withdrawTillDisconnect now mac authz).Conforms (Permitted m true)
      ((Stage.disconnected authz).at m mac) (fun _ s => s = idle) (· = idle) := by
  cases authz with
  | none => exact at_idle m mac
  | some authz =>
    dsimp only [withdrawTillDisconnect, Stage.disconnected]
    split
    · refine (conforms_removeAuthz_given now mac "disconnected").bind fun _ _ h => ?_
      subst h
      simpa only [at_idle] using conforms_authzChanged (m := m) (q := idle) mac (.inl rfl)
    · exact at_idle m mac

theorem conforms_handleDisconnection :
    (MacAuthorizationManager.handleDisconnection now mac).Conforms (Permitted m true) idle
      (fun _ s => s = idle) (· = idle) := by
  refine Call.Conforms.bind (M := fun authz s => s = (Stage.disconnected authz).at m mac) ?_ ?_
  · rw [← at_idle m mac]
    intro r
    refine ⟨_, permitted_at mac (fun _ => spares_of_aside trivial) fun same => ?_, rfl⟩
    subst same
    cases r with
    | none => exact .other (o := .hget mac) none (spares_of_aside trivial)
    | some data =>
      dsimp only [Stage.disconnected, Option.map_some]
      split
      · exact .condemn (some data)
      · exact .other (o := .hget mac) (some data) (spares_of_aside trivial)
  · rintro authz _ rfl
    refine (conforms_withdrawTillDisconnect now mac authz).bind fun _ _ h => ?_
    subst h
    exact conforms_checkExpiredAuthz now

theorem conforms_deliver {task : Task} (running : task.Running) :
    task.deliver.Conforms (Permitted m true) idle (fun _ s => s = idle) (· = idle) := by
  cases task with
  | checkAuthz now mac source endReason =>
    exact (conforms_checkAuthz now mac endReason source).bind fun _ _ h => conforms_pure h
  | newAuthz now mac noDuplicateSource session =>
    exact (conforms_newAuthz now mac noDuplicateSource session).bind fun _ _ h => conforms_pure h
  | removeAuthz => cases running
  | handleAuthzChanged now mac => exact conforms_handleAuthzChanged now mac
  | handleDisconnection now mac => exact conforms_handleDisconnection now mac
  | checkMacs now macs => exact conforms_checkMacs now macs
  | checkExpiredAuthz now => exact conforms_checkExpiredAuthz now
  | init => cases running

end Conforms

end Handler

end ElanAgent.Nac
