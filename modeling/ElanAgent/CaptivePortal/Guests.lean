import ElanAgent.CaptivePortal.GuestAccess
import ElanAgent.Nac.Events

/-!
# What the guest access manager leaves

The manager works on three things: the authentication sessions of the devices, the devices
that it remembers, and those with a request still to be answered. What a call does to them
is a function of them and of the list alone, whatever the control center answers.
-/

namespace ElanAgent.CaptivePortal

open Atomic Session Nac RedisMacAuthorization GuestAccessManager

/-- Every call to the control center succeeds, with an answer that can be announced. -/
def Serving (w : Nac.World) : Prop :=
  ∀ n, ∃ assignments, w.answers n = some assignments ∧ assignments ≠ .malformed ∧
    ∀ a, assignments = .granted a → a.Plain

/-- What the manager works on. -/
structure Guests where
  sessions : String → List AuthSession
  macs : List Value
  pending : List Value

def guests (w : Nac.World) : Guests where
  sessions := w.authentications
  macs := w.session.sets macAuthsPath
  pending := w.session.sets pendingGuestRequestsPath

/-! ## What a call does to the guests -/

/-- With the control center serving, the call returns what satisfies `P`, and changes the
guests by `f`. -/
def Does {α : Type} (p : Nac.Call α) (P : α → Prop) (f : Guests → Guests) : Prop :=
  ∀ w, Serving w → ∃ a v, p.exec w = (.ok a, v) ∧ P a ∧ Serving v ∧ guests v = f (guests w)

section Does

variable {α β : Type} {f g : Guests → Guests} {P : α → Prop} {Q : β → Prop}

theorem does_pure {a : α} (h : P a) : Does (pure a) P id :=
  fun w serving => ⟨a, w, rfl, h, serving, rfl⟩

theorem Does.bind {p : Nac.Call α} {q : α → Nac.Call β} (hp : Does p P f)
    (hq : ∀ a, P a → Does (q a) Q g) : Does (p >>= q) Q fun s => g (f s) := by
  intro w serving
  obtain ⟨a, v, first, ha, serving, hv⟩ := hp w serving
  obtain ⟨b, u, second, hb, serving, hu⟩ := hq a ha v serving
  refine ⟨b, u, ?_, hb, serving, hu.trans (congrArg g hv)⟩
  rw [exec_bind, first]
  exact second

theorem Does.mono {P' : α → Prop} {p : Nac.Call α} (hp : Does p P f)
    (imp : ∀ a, P a → P' a) : Does p P' f := by
  intro w serving
  obtain ⟨a, v, ran, ha, rest⟩ := hp w serving
  exact ⟨a, v, ran, imp a ha, rest⟩

theorem does_each {p : α → Nac.Call Unit} {f : α → Guests → Guests} {l : List α}
    (h : ∀ x ∈ l, Does (p x) (fun _ => True) (f x)) :
    Does (each p l) (fun _ => True) fun s => l.foldl (fun s x => f x s) s := by
  induction l with
  | nil => exact does_pure trivial
  | cons x l ih =>
    have rest := ih fun y hy => h y (List.mem_cons_of_mem x hy)
    exact Does.bind (g := fun s => l.foldl (fun s x => f x s) s) (h x List.mem_cons_self)
      fun _ _ => rest

theorem does_onSessions {p : Prog Session.synapse α}
    (h : ∀ w : Nac.World,
      guests (w.setSession (p.run Session.handler w.session).2) = f (guests w)) :
    Does (onSessions p) (fun _ => True) f :=
  fun w serving => ⟨_, _, exec_onSessions w p, trivial, serving, h w⟩

/-- An operation on neither the sessions nor the control center. -/
theorem does_perform {o : Nac.Op} (session : ∀ w, (Nac.handler o w).2.session = w.session)
    (answers : ∀ w, (Nac.handler o w).2.answers = w.answers) :
    Does (perform o) (fun _ => True) id := by
  intro w serving
  refine ⟨_, _, rfl, trivial, ?_, ?_⟩
  · intro n
    obtain ⟨assignments, answer, proper⟩ := serving n
    exact ⟨assignments, (congrFun (answers w) n).trans answer, proper⟩
  · unfold guests World.authentications
    rw [session w]
    rfl

end Does

/-! ## The control center is asked -/

section Authorizations

variable {now : ℚ} {mac reason : String}

theorem does_deleteByMac : Does (deleteByMac mac) (fun _ => True) id := by
  refine (does_perform (fun _ => rfl) fun _ => rfl).bind fun result _ => ?_
  split <;> exact does_pure trivial

theorem does_endAuthz (authz : Option RedisMacAuthorization) :
    Does (endAuthz now mac reason authz) (fun _ => True) id := by
  cases authz with
  | none => exact does_pure trivial
  | some authz =>
    exact does_deleteByMac.bind fun _ _ => does_perform (fun _ => rfl) fun _ => rfl

theorem does_withdrawAuthz (authz : Option RedisMacAuthorization) :
    Does (withdrawAuthz now mac authz) (fun _ => True) id := by
  cases authz with
  | none => exact does_pure trivial
  | some authz =>
    apply does_deleteByMac.bind
    intro _ _
    apply (does_perform (fun _ => rfl) fun _ => rfl).bind
    intro _ _
    exact does_perform (fun _ => rfl) fun _ => rfl

theorem does_save (authz : RedisMacAuthorization) :
    Does authz.save (fun saved => saved.till = authz.till ∧ saved.rest = authz.rest) id := by
  have identified : Does authz.identify
      (fun saved => saved.till = authz.till ∧ saved.rest = authz.rest) id := by
    unfold identify
    split
    · apply (does_perform (fun _ => rfl) fun _ => rfl).bind
      intro _ _
      exact does_pure ⟨rfl, rfl⟩
    · exact does_pure ⟨rfl, rfl⟩
  apply identified.bind
  intro saved same
  apply (does_perform (fun _ => rfl) fun _ => rfl).bind
  intro _ _
  exact does_pure same

theorem does_notifyNew {authz : RedisMacAuthorization}
    (till : ∀ till, authz.till = some till → representable till)
    (start : authz.serialize.hasKey "start" = false) :
    Does (notifyNewAuthorizationSession now authz) (fun _ => True) id := by
  have formatted : Does (formatTill now authz.till) (fun _ => True) id := by
    unfold formatTill
    split
    · exact does_pure trivial
    · split
      · exact does_pure trivial
      · rw [if_pos (till _ ‹_›)]
        exact does_pure trivial
  apply formatted.bind
  intro _ _
  rw [if_neg (by rw [start]; nofun)]
  exact does_perform (fun _ => rfl) fun _ => rfl

theorem does_settleAuthz {assignments : NetworkAssignments} (formed : assignments ≠ .malformed)
    (plain : ∀ a, assignments = .granted a → a.Plain) (oldAuthz : Option RedisMacAuthorization) :
    Does (settleAuthz now mac reason assignments oldAuthz) (fun _ => True) id := by
  cases assignments with
  | malformed => exact absurd rfl formed
  | none => exact (does_withdrawAuthz oldAuthz).bind fun _ _ => does_pure trivial
  | granted a =>
    obtain ⟨names, till⟩ := plain a rfl
    dsimp only [settleAuthz]
    split
    · exact does_pure trivial
    · refine Does.bind (P := fun _ => True) (f := id) ?_ fun _ _ => does_pure trivial
      apply (does_endAuthz oldAuthz).bind
      intro _ _
      apply (does_save _).bind
      rintro saved ⟨sameTill, sameRest⟩
      apply (does_perform (fun _ => rfl) fun _ => rfl).bind
      intro _ _
      refine (does_notifyNew ?_ ?_).bind fun _ _ => does_pure trivial
      · exact fun t ht => till t (sameTill.symm.trans ht)
      · refine decide_eq_false ?_
        rintro ⟨e, he, key⟩
        exact (names e (sameRest.subset he)).1 key

end Authorizations

/-! ## The authentication sessions -/

namespace Guests

/-- Without the sessions of `mac` that meet the test. -/
def drop (mac : String) (test : AuthSession → Bool) (g : Guests) : Guests :=
  { g with sessions := Function.update g.sessions mac ((g.sessions mac).filter fun s => !test s) }

/-- Without the sessions of `mac` that are of the source, if one is given. -/
def dropSource (mac : String) : Option String → Guests → Guests
  | none, g => g
  | some source, g => g.drop mac fun s => s.source = source

def add (mac : String) (session : AuthSession) (g : Guests) : Guests :=
  { g with sessions := Function.update g.sessions mac ((g.sessions mac).insert session) }

end Guests

section Sessions

variable {now : ℚ} {mac : String}

theorem macAuthSessionPath_injective :
    Function.Injective fun mac : String => macAuthSessionPath mac := by
  intro mac mac' h
  have h : ("device:mac:" ++ mac ++ ":authentication").toList =
      ("device:mac:" ++ mac' ++ ":authentication").toList := congrArg String.toList h
  simp only [String.toList_append, List.append_cancel_right_eq, List.append_cancel_left_eq] at h
  exact String.toList_injective h

theorem guests_setAuthentication (w : Nac.World) (sessions : List AuthSession) :
    guests (w.setSession (w.session.setAuthentication (macAuthSessionPath mac) sessions)) =
      { guests w with sessions := Function.update (guests w).sessions mac sessions } := by
  have updated := Function.update_comp_eq_of_injective w.session.authentication
    macAuthSessionPath_injective mac sessions
  exact congrArg (fun f => ({ guests w with sessions := f } : Guests)) updated

theorem does_removeWhere (test : AuthSession → Bool) :
    Does (onSessions (removeWhere (macAuthSessionPath mac) test)) (fun _ => True)
      (Guests.drop mac test) := by
  refine does_onSessions fun w => ?_
  rw [run_removeWhere, guests_setAuthentication]
  rfl

theorem does_saddAuth (session : AuthSession) :
    Does (onSessions (saddAuth (macAuthSessionPath mac) session)) (fun _ => True)
      (Guests.add mac session) := by
  refine does_onSessions fun w => ?_
  rw [run_saddAuth, guests_setAuthentication]
  rfl

theorem does_onSessions_bind {α β : Type} {p : Prog Session.synapse α}
    {q : α → Prog Session.synapse β} {f g : Guests → Guests}
    (hp : Does (onSessions p) (fun _ => True) f)
    (hq : ∀ a, Does (onSessions (q a)) (fun _ => True) g) :
    Does (onSessions (p >>= q)) (fun _ => True) fun s => g (f s) := by
  intro w serving
  obtain ⟨a, v, first, -, serving, hv⟩ := hp w serving
  obtain ⟨b, u, second, -, serving, hu⟩ := hq a v serving
  refine ⟨b, u, ?_, trivial, serving, hu.trans (congrArg g hv)⟩
  rw [exec_onSessions] at first second
  cases first
  rw [exec_onSessions, Prog.run_bind]
  exact second

theorem does_addAuthenticationSession (session : AuthSession) :
    Does (onSessions (addAuthenticationSession now mac session)) (fun _ => True) fun g =>
      (g.drop mac (AuthSession.expired now)).add mac session.completed :=
  does_onSessions_bind (does_removeWhere _) fun _ => does_saddAuth _

theorem does_getNetworkAssignments : Does (getNetworkAssignments now mac)
    (fun assignments => assignments ≠ .malformed ∧ ∀ a, assignments = .granted a → a.Plain)
    (Guests.drop mac (AuthSession.expired now)) := by
  have listed : Does (onSessions (getAuthenticationSessions now mac)) (fun _ => True)
      (Guests.drop mac (AuthSession.expired now)) := by
    refine does_onSessions_bind (does_removeWhere _) (g := id) fun _ => ?_
    exact does_onSessions fun _ => rfl
  apply listed.bind (g := id)
  intro sessions _
  refine (does_onSessions (f := id) fun _ => rfl).bind (g := id) fun port _ => ?_
  intro w serving
  obtain ⟨assignments, answer, proper⟩ := serving w.asked
  refine ⟨assignments, { w with asked := w.asked + 1 }, ?_, proper, serving, rfl⟩
  rw [exec_bind, exec_call, answer]
  rfl

theorem does_checkAuthz {reason : String} {source : Option String} :
    Does (checkAuthz now mac source reason) (fun _ => True) fun g =>
      (g.dropSource mac source).drop mac (AuthSession.expired now) := by
  have removed : Does (removeSource mac source) (fun _ => True) (Guests.dropSource mac source) := by
    cases source with
    | none => exact does_pure trivial
    | some source => exact does_removeWhere _
  apply removed.bind
  intro _ _
  refine does_getNetworkAssignments.bind (g := id) fun assignments ⟨formed, plain⟩ => ?_
  refine Does.bind (P := fun _ => True) (f := id) (g := id) ?_ fun stored _ => ?_
  · exact (does_perform (fun _ => rfl) fun _ => rfl).bind fun _ _ => does_pure trivial
  · exact does_settleAuthz formed plain stored

end Sessions

/-! ## The manager -/

namespace Guests

/-- A device whose guests have lost their access. -/
def revoke (now : ℚ) (mac : Value) (g : Guests) : Guests :=
  { (g.dropSource mac.format (some guestSource)).drop mac.format (AuthSession.expired now) with
    macs := g.macs.filter (· ≠ mac) }

/-- The sessions are added, each after those that have expired are removed. -/
def addAll (now : ℚ) (mac : String) (sessions : List AuthSession) (g : Guests) : Guests :=
  sessions.foldl (fun g s => (g.drop mac (AuthSession.expired now)).add mac s) g

/-- A device that has these sessions of guests. -/
def grant (now : ℚ) (mac : String) (sessions : List AuthSession) (g : Guests) : Guests :=
  let g := { g with pending := g.pending.filter (· ≠ mac), macs := g.macs.insert mac }
  ((g.dropSource mac (some guestSource)).addAll now mac sessions).drop mac (AuthSession.expired now)

end Guests

namespace GuestAuthorization

/-- The authentication session that the entry describes, if its date can be read. -/
def described (authz : GuestAuthorization) : Option AuthSession :=
  authz.date.map fun date => (authz.session date.epoch).completed

/-- The entry has not expired. -/
def live (now : ℚ) (authz : GuestAuthorization) : Bool :=
  authz.date.any fun date => now < date.epoch

end GuestAuthorization

section Manager

variable (now : ℚ)

theorem guests_setMacs (w : Nac.World) (macs : List Value) :
    guests (w.setSession (w.session.setMembers macAuthsPath macs)) = { guests w with macs } := by
  have other : pendingGuestRequestsPath ≠ macAuthsPath := by decide
  simp only [guests, World.setMembers, Nac.World.setSession, Function.update_self,
    Function.update_of_ne other]
  rfl

theorem guests_setPending (w : Nac.World) (pending : List Value) :
    guests (w.setSession (w.session.setMembers pendingGuestRequestsPath pending)) =
      { guests w with pending } := by
  have other : macAuthsPath ≠ pendingGuestRequestsPath := by decide
  simp only [guests, World.setMembers, Nac.World.setSession, Function.update_self,
    Function.update_of_ne other]
  rfl

theorem does_forget (mac : Value) : Does (srem macAuthsPath mac) (fun _ => True)
    fun g => { g with macs := g.macs.filter (· ≠ mac) } := by
  refine Does.bind (g := id) (does_onSessions fun w => ?_) fun _ _ => does_pure trivial
  exact guests_setMacs w _

theorem does_remember (mac : Value) : Does (sadd macAuthsPath mac) (fun _ => True)
    fun g => { g with macs := g.macs.insert mac } := by
  refine Does.bind (g := id) (does_onSessions fun w => ?_) fun _ _ => does_pure trivial
  exact guests_setMacs w _

theorem does_answer (mac : Value) : Does (srem pendingGuestRequestsPath mac) (fun _ => True)
    fun g => { g with pending := g.pending.filter (· ≠ mac) } := by
  refine Does.bind (g := id) (does_onSessions fun w => ?_) fun _ _ => does_pure trivial
  exact guests_setPending w _

theorem does_revoke (mac : Value) :
    Does (GuestAccessManager.revoke now mac) (fun _ => True) (Guests.revoke now mac) :=
  does_checkAuthz.bind fun _ _ => does_forget mac

theorem does_addGuest (mac : String) {authz : GuestAuthorization} (dated : authz.date.isSome) :
    Does (addGuest now mac authz) (fun _ => True)
      (Guests.addAll now mac authz.described.toList) := by
  obtain ⟨date, dated⟩ := Option.isSome_iff_exists.mp dated
  have parsed : parseTill authz = pure date.epoch := by
    rw [parseTill, dated]
  rw [addGuest, parsed, pure_bind, GuestAuthorization.described, dated]
  exact does_addAuthenticationSession _

theorem does_grant (mac : String) {authorizations : List GuestAuthorization}
    (dated : ∀ authz ∈ authorizations, authz.date.isSome) :
    Does (GuestAccessManager.grant now mac authorizations) (fun _ => True)
      (Guests.grant now mac (authorizations.filterMap GuestAuthorization.described)) := by
  have added : Does (each (addGuest now mac) authorizations) (fun _ => True)
      (Guests.addAll now mac (authorizations.filterMap GuestAuthorization.described)) := by
    have each := does_each fun authz mem => does_addGuest now mac (dated authz mem)
    have same : Guests.addAll now mac (authorizations.filterMap GuestAuthorization.described) =
        fun g => authorizations.foldl (fun g authz =>
          g.addAll now mac authz.described.toList) g := by
      funext g
      rw [Guests.addAll, List.filterMap_eq_flatMap_toList, List.foldl_flatMap]
      rfl
    exact same ▸ each
  have removed : Does (onSessions (removeAuthenticationSessionsBySource mac guestSource))
      (fun _ => True) (Guests.dropSource mac (some guestSource)) := does_removeWhere _
  have checked : Does (checkAuthz now mac none overridden) (fun _ => True)
      (Guests.drop mac (AuthSession.expired now)) := does_checkAuthz
  have left := (does_answer mac).bind fun _ _ => (does_remember mac).bind fun _ _ =>
    removed.bind fun _ _ => added.bind fun _ _ => checked.bind fun _ _ =>
      does_pure (a := ()) (P := fun _ => True) trivial
  exact left

/-- What the entries are filed under. -/
structure Filed (now : ℚ) (byMac byMac' : Dict String (List GuestAuthorization))
    (authorizations : List GuestAuthorization) : Prop where
  get : ∀ mac, (byMac'.get mac).getD [] = (byMac.get mac).getD [] ++
    authorizations.filter fun authz => authz.live now && authz.mac = mac
  keys : ∀ mac, mac ∈ byMac'.keys ↔ mac ∈ byMac.keys ∨
    ∃ authz ∈ authorizations, authz.live now ∧ authz.mac = mac

theorem does_fileByMac {authorizations : List GuestAuthorization}
    (dated : ∀ authz ∈ authorizations, authz.date.isSome)
    (byMac : Dict String (List GuestAuthorization)) :
    Does (fileByMac now byMac authorizations) (Filed now byMac · authorizations) id := by
  induction authorizations generalizing byMac with
  | nil => exact does_pure ⟨by simp, by simp⟩
  | cons authz authorizations ih =>
    obtain ⟨date, h⟩ := Option.isSome_iff_exists.mp (dated authz List.mem_cons_self)
    have parsed : parseTill authz = pure date.epoch := by
      rw [parseTill, h]
    have live : authz.live now = decide (now < date.epoch) := by
      rw [GuestAuthorization.live, h]
      rfl
    rw [fileByMac, parsed, pure_bind]
    have ih := fun byMac => ih (fun a mem => dated a (List.mem_cons_of_mem _ mem)) byMac
    split
    · rw [decide_eq_true ‹_›] at live
      refine (ih _).mono fun byMac' ⟨get, keys⟩ => ⟨fun mac => ?_, fun mac => ?_⟩
      · rw [get, Dict.get_set, List.filter_cons, live]
        by_cases same : mac = authz.mac
        · simp [same]
        · simp [same, Ne.symm same]
      · rw [keys, Dict.mem_keys_set]
        simp only [List.mem_cons, exists_eq_or_imp, live, true_and]
        grind
    · rw [decide_eq_false ‹_›] at live
      refine (ih _).mono fun byMac' ⟨get, keys⟩ => ⟨fun mac => ?_, fun mac => ?_⟩
      · rw [get, List.filter_cons, live]
        simp
      · rw [keys]
        simp only [List.mem_cons, exists_eq_or_imp, live, Bool.false_eq_true, false_and, false_or]

theorem Filed.dated {now : ℚ} {byMac : Dict String (List GuestAuthorization)}
    {authorizations : List GuestAuthorization} (filed : Filed now .empty byMac authorizations)
    (dated : ∀ authz ∈ authorizations, authz.date.isSome)
    (item : String × List GuestAuthorization) (mem : item ∈ byMac.items) :
    ∀ authz ∈ item.2, authz.date.isSome := by
  have get : byMac.get item.1 = some item.2 := Dict.mem_items.mp mem
  have same := filed.get item.1
  rw [get, Dict.get_empty, Option.getD_some, Option.getD_none, List.nil_append] at same
  intro authz h
  rw [same] at h
  exact dated authz (List.mem_filter.mp h).1

namespace Guests

/-- The devices without an entry lose their guests, those with entries have these. -/
def renew (now : ℚ) (byMac : Dict String (List GuestAuthorization)) (g : Guests) : Guests :=
  let unlisted := g.macs.filter fun mac => mac ∉ byMac.keys.map Value.str
  byMac.items.foldl
    (fun g item => g.grant now item.1 (item.2.filterMap GuestAuthorization.described))
    (unlisted.foldl (fun g mac => g.revoke now mac) g)

end Guests

theorem exec_newAuthorizations {authorizations : List GuestAuthorization}
    (dated : ∀ authz ∈ authorizations, authz.date.isSome) {w : Nac.World} (serving : Serving w) :
    ∃ byMac v, Filed now .empty byMac authorizations ∧
      (newAuthorizations now authorizations).exec w = (.ok (), v) ∧ Serving v ∧
      guests v = (guests w).renew now byMac := by
  obtain ⟨byMac, v, read, filed, serving, hv⟩ := does_fileByMac now dated .empty w serving
  have macs : v.session.sets macAuthsPath = (guests w).macs := congrArg Guests.macs hv
  have revoked := does_each (l := (guests w).macs.filter fun mac =>
    mac ∉ byMac.keys.map Value.str) fun mac _ => does_revoke now mac
  have granted := does_each fun item mem =>
    does_grant now item.1 (filed.dated dated item mem)
  obtain ⟨_, u, ran, -, serving, hu⟩ := (revoked.bind fun _ _ => granted) v serving
  refine ⟨byMac, u, filed, ?_, serving, hu.trans (by rw [hv]; rfl)⟩
  rw [newAuthorizations, exec_bind, read]
  dsimp only
  rw [exec_bind, exec_onSessions, run_smembers, macs]
  exact ran

end Manager

end ElanAgent.CaptivePortal
