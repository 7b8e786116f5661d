import ElanAgent.Library.Monitor
import ElanAgent.Session.Authentications
import Mathlib.Data.Finset.Image

/-!
# The authorization store and the operations on it

What `elan/nac` keeps in Redis, what it publishes, the answers it receives from the
control center, and the firewall that the manager programs. The session store is a
part of it, and the operations on that store are among the operations here.

An answer of the control center never carries `mac` or `local_id`. What it carries
beyond the named assignments is `rest`, and a null `till_disconnect` is `none`. A set that
is serialized becomes a list in an order that Python leaves open, hence the multisets.
-/

namespace ElanAgent.Nac

open Atomic Redis

/-- The assignments that the control center grants to a device. -/
structure Assignments where
  assignVlan : Value
  allowOn : List String
  bridgeTo : List String
  tillDisconnect : Option Bool
  till : Option ℚ
  rest : Finset (String × Value)
  deriving DecidableEq

/-- What `device-authorization` returns: nothing, what is no authorization, or an
authorization. -/
inductive NetworkAssignments where
  | none
  | malformed
  | granted (assignments : Assignments)
  deriving DecidableEq

/-- The attributes of a `RedisMacAuthorization`, those set from further keyword arguments
being `rest`. -/
structure RedisMacAuthorization where
  localId : Option Nat
  mac : String
  assignVlan : Value
  allowOn : Finset String
  bridgeTo : Finset String
  tillDisconnect : Option Bool
  till : Option ℚ
  rest : Finset (String × Value)
  deriving DecidableEq

/-- The JSON object that stands for an authorization. -/
structure Serialized where
  localId : Option Nat
  mac : String
  assignVlan : Value
  allowOn : Multiset String
  bridgeTo : Multiset String
  tillDisconnect : Option Bool
  till : Option ℚ
  rest : Finset (String × Value)
  deriving DecidableEq

/-- Is there an attribute of this name beyond the named ones? -/
def Serialized.hasKey (data : Serialized) (key : String) : Bool := ∃ e ∈ data.rest, e.1 = key

/-- A message on `session/authorization`. The dates in it are the seconds they stand for,
the till of the authorization included. -/
inductive Notice where
  | start (start : ℤ) (data : Serialized)
  | ends (terminationReason : String) (ended : ℤ) (mac : String) (localId : Option Nat)
  deriving DecidableEq

/-- `'start' in data`. -/
def Notice.hasStart : Notice → Bool
  | .start .. => true
  | .ends .. => false

/-- `'end' in data`. -/
def Notice.hasEnd : Notice → Bool
  | .start _ data => data.hasKey "end"
  | .ends .. => true

/-- `(data['mac'], data['local_id'])`. -/
def Notice.session : Notice → String × Option Nat
  | .start _ data => (data.mac, data.localId)
  | .ends _ _ mac localId => (mac, localId)

/-! ## The firewall -/

/-- The manager's dictionaries of the VLANs opened for each MAC, where an absent MAC has
none, and the nft sets. -/
structure Firewall where
  allowedVlans : String → Finset String
  bridgedVlans : String → Finset String
  macOnVlan : Finset (String × String)
  macToVlan : Finset (String × String)

/-- The elements `mac . vlan`. -/
def elements (mac : String) (vlans : Finset String) : Finset (String × String) :=
  vlans.image fun vlan => (mac, vlan)

/-- Open access on the given VLANs and close it on the others. Both dictionaries and both
nft sets are changed by the difference between what is asked and what the dictionary
holds. -/
def Firewall.fwAllowMac (fw : Firewall) (mac : String) (allowOn bridgeTo : Finset String) :
    Firewall where
  allowedVlans := Function.update fw.allowedVlans mac allowOn
  bridgedVlans := Function.update fw.bridgedVlans mac bridgeTo
  macOnVlan := fw.macOnVlan \ elements mac (fw.allowedVlans mac \ allowOn) ∪
    elements mac (allowOn \ fw.allowedVlans mac)
  macToVlan := fw.macToVlan \ elements mac (fw.bridgedVlans mac \ bridgeTo) ∪
    elements mac (bridgeTo \ fw.bridgedVlans mac)

/-! ## The world -/

/-- The stores, the messages, the control center and the firewall. `changes` are the
messages on `nac/authz/change` that the manager has still to receive; without a
subscription they are lost. The `n`-th call to the control center returns `answers n`, or
raises if there is none. `nextCheck` is when the manager's timer is due. -/
structure World where
  session : Session.World
  expiry : ExpirySet String
  sessions : Hash String Serialized
  sequence : Nat
  published : List Notice
  subscribed : Bool
  changes : List String
  answers : Nat → Option NetworkAssignments
  asked : Nat
  firewall : Firewall
  nextCheck : Option ℚ

namespace World

/-- Nothing stored, nothing published, everything closed. -/
def empty (answers : Nat → Option NetworkAssignments) : World where
  session := .empty
  expiry := ∅
  sessions := ∅
  sequence := 0
  published := []
  subscribed := true
  changes := []
  answers := answers
  asked := 0
  firewall := ⟨fun _ => ∅, fun _ => ∅, ∅, ∅⟩
  nextCheck := none

/-- Publish a message on `session/authorization`. -/
def say (w : World) (message : Notice) : World := { w with published := w.published ++ [message] }

/-- Publish a message on `nac/authz/change`. -/
def change (w : World) (mac : String) : World :=
  { w with changes := if w.subscribed then w.changes ++ [mac] else w.changes }

def setSession (w : World) (session : Session.World) : World := { w with session }

end World

/-- The commands that `elan/nac` puts in a pipeline, on `AUTHZ_MAC_EXPIRY_PATH` and
`AUTHZ_SESSIONS_BY_MAC_PATH`. -/
inductive Cmd where
  | zadd (score : WithTop ℚ) (mac : String)
  | zrem (mac : String)
  | hset (mac : String) (data : Serialized)
  | hget (mac : String)
  | hdel (mac : String)
  deriving DecidableEq

/-- One entry of the list that `pipe.execute()` returns. -/
inductive Reply where
  | count (n : Nat)
  | data (value : Option Serialized)
  deriving DecidableEq

def counted (p : Prop) [Decidable p] : Reply := .count (if p then 1 else 0)

def Cmd.exec (c : Cmd) (w : World) : Reply × World :=
  match c with
  | .zadd score mac =>
    (counted (mac ∉ w.expiry.keys), { w with expiry := w.expiry.insert mac score })
  | .zrem mac => (counted (mac ∈ w.expiry.keys), { w with expiry := w.expiry.erase mac })
  | .hset mac data =>
    (counted (mac ∉ w.sessions.keys), { w with sessions := w.sessions.insert mac data })
  | .hget mac => (.data (w.sessions.lookup mac), w)
  | .hdel mac => (counted (mac ∈ w.sessions.keys), { w with sessions := w.sessions.erase mac })

def execute : List Cmd → World → List Reply × World
  | [], w => ([], w)
  | c :: pipe, w =>
    let (reply, w) := c.exec w
    let (replies, w) := execute pipe w
    (reply :: replies, w)

/-- The atomic operations of the code around authorizations. -/
inductive Op where
  | session (o : Session.Op)
  | execute (pipe : List Cmd)
  | hget (mac : String)
  | getUniqueId
  | zrangebyscore (max : ℚ)
  | zmembers
  | zrangeFirst
  | publish (message : Notice)
  | publishChange (mac : String)
  | receiveChange (mac : String)
  | subscribe
  | call (authSessions : List Session.AuthSession) (mac : String) (port : Option Session.Port)
  | fwAllowMac (mac : String) (allowOn bridgeTo : Finset String)
  | cancelCheck
  | startCheck (due : ℚ)

@[reducible] def Op.Reply : Op → Type
  | .session o => o.Reply
  | .execute _ => List Nac.Reply
  | .hget _ => Option Serialized
  | .getUniqueId => Nat
  | .zrangebyscore _ | .zmembers => List String
  | .zrangeFirst => Option (String × WithTop ℚ)
  | .call .. => Option NetworkAssignments
  | .publish _ | .publishChange _ | .receiveChange _ | .subscribe | .fwAllowMac ..
  | .cancelCheck | .startCheck _ => Unit

/-- What the code reaches through `synapse`, `dendrite` and `nft`. -/
abbrev agent : Interface := ⟨Op, Op.Reply⟩

/-- What each operation does, and its reply. A message that is received once more than it
was published finds nothing to remove from the pending ones. -/
def handler : Handler agent World
  | .session o, w => ((Session.handler o w.session).1, w.setSession (Session.handler o w.session).2)
  | .execute pipe, w => Nac.execute pipe w
  | .hget mac, w => (w.sessions.lookup mac, w)
  | .getUniqueId, w => (w.sequence + 1, { w with sequence := w.sequence + 1 })
  | .zrangebyscore max, w => (w.expiry.rangeByScore max, w)
  | .zmembers, w => (w.expiry.keys, w)
  | .zrangeFirst, w => (w.expiry.first, w)
  | .publish message, w => ((), w.say message)
  | .publishChange mac, w => ((), w.change mac)
  | .receiveChange mac, w => ((), { w with changes := w.changes.erase mac })
  | .subscribe, w => ((), { w with subscribed := true })
  | .call _ _ _, w => (w.answers w.asked, { w with asked := w.asked + 1 })
  | .fwAllowMac mac allowOn bridgeTo, w =>
    ((), { w with firewall := w.firewall.fwAllowMac mac allowOn bridgeTo })
  | .cancelCheck, w => ((), { w with nextCheck := none })
  | .startCheck due, w => ((), { w with nextCheck := some due })

/-- The operations of the session store. -/
def sessionOps : Embedding Session.synapse agent where
  op := .session
  reply _ r := r

/-! ## One operation as a program -/

/-- What aborts a call. -/
inductive Error where
  | call
  | type
  | date
  deriving DecidableEq, Repr

/-- A call, which may raise. -/
abbrev Call := ExceptT Error (Prog agent)

/-- A call of `elan/session.py`. -/
def onSessions {α : Type} (p : Prog Session.synapse α) : Call α := ExceptT.lift (p.embed sessionOps)

def perform (o : Op) : Call o.Reply := ExceptT.lift (.op o .done)

/-- `pipe.execute()`. -/
def pipeExecute (pipe : List Cmd) : Call (List Reply) := perform (.execute pipe)
/-- `HGET` on `AUTHZ_SESSIONS_BY_MAC_PATH`. -/
def hget (mac : String) : Call (Option Serialized) := perform (.hget mac)
def getUniqueId : Call Nat := perform .getUniqueId
def zrangebyscore (max : ℚ) : Call (List String) := perform (.zrangebyscore max)
def zmembers : Call (List String) := perform .zmembers
def zrangeFirst : Call (Option (String × WithTop ℚ)) := perform .zrangeFirst
/-- Publish on `session/authorization`. -/
def publish (message : Notice) : Call Unit := perform (.publish message)
/-- Publish on `nac/authz/change`. -/
def publishChange (mac : String) : Call Unit := perform (.publishChange mac)
def receiveChange (mac : String) : Call Unit := perform (.receiveChange mac)
def subscribe : Call Unit := perform .subscribe
/-- `dendrite.call('device-authorization', ..)`. -/
def call (authSessions : List Session.AuthSession) (mac : String) (port : Option Session.Port) :
    Call (Option NetworkAssignments) := perform (.call authSessions mac port)
def fwAllowMac (mac : String) (allowOn bridgeTo : Finset String) : Call Unit :=
  perform (.fwAllowMac mac allowOn bridgeTo)
def cancelCheck : Call Unit := perform .cancelCheck
def startCheck (due : ℚ) : Call Unit := perform (.startCheck due)

/-- The result of a call that nothing disturbs, and what it leaves. -/
def Call.exec {α : Type} (p : Call α) (w : World) : Except Error α × World :=
  Prog.run handler p.run w

section Operations

variable {α β : Type} (w : World)

@[simp] theorem exec_pure (a : α) : (pure a : Call α).exec w = (.ok a, w) := rfl

@[simp] theorem exec_throw (e : Error) : (throw e : Call α).exec w = (.error e, w) := rfl

theorem exec_bind (p : Call α) (f : α → Call β) :
    (p >>= f).exec w = match (p.exec w).1 with
      | .ok a => (f a).exec (p.exec w).2
      | .error e => (.error e, (p.exec w).2) := by
  unfold Call.exec
  rw [ExceptT.run_bind, Prog.run_bind]
  cases (Prog.run handler p.run w).1 with
  | ok a => rfl
  | error e => rfl

theorem exec_bind_pure (p : Call α) (f : α → β) :
    ((p >>= fun a => pure (f a)).exec w).2 = (p.exec w).2 := by
  rw [exec_bind]
  cases (p.exec w).1 <;> rfl

@[simp] theorem exec_onSessions (p : Prog Session.synapse α) :
    (onSessions p).exec w = (.ok (p.run Session.handler w.session).1,
      w.setSession (p.run Session.handler w.session).2) := by
  have alone : (p.embed sessionOps).run handler w = ((p.run Session.handler w.session).1,
      w.setSession (p.run Session.handler w.session).2) :=
    Prog.run_embed World.session World.setSession (fun _ _ => rfl) (fun _ => rfl)
      (fun _ _ _ => rfl) (fun _ _ => ⟨rfl, rfl⟩) p w
  show Prog.run handler (Except.ok <$> p.embed sessionOps) w = _
  rw [Prog.run_map, alone]

@[simp] theorem exec_pipeExecute (pipe : List Cmd) :
    (pipeExecute pipe).exec w = (.ok (execute pipe w).1, (execute pipe w).2) := rfl
@[simp] theorem exec_hget (mac : String) : (hget mac).exec w = (.ok (w.sessions.lookup mac), w) :=
  rfl
@[simp] theorem exec_getUniqueId : getUniqueId.exec w =
    (.ok (w.sequence + 1), { w with sequence := w.sequence + 1 }) := rfl
@[simp] theorem exec_zrangebyscore (max : ℚ) :
    (zrangebyscore max).exec w = (.ok (w.expiry.rangeByScore max), w) := rfl
@[simp] theorem exec_zmembers : zmembers.exec w = (.ok w.expiry.keys, w) := rfl
@[simp] theorem exec_publish (message : Notice) :
    (publish message).exec w = (.ok (), w.say message) := rfl
@[simp] theorem exec_publishChange (mac : String) :
    (publishChange mac).exec w = (.ok (), w.change mac) := rfl
@[simp] theorem exec_call (authSessions : List Session.AuthSession) (mac : String)
    (port : Option Session.Port) : (call authSessions mac port).exec w =
      (.ok (w.answers w.asked), { w with asked := w.asked + 1 }) := rfl
@[simp] theorem exec_fwAllowMac (mac : String) (allowOn bridgeTo : Finset String) :
    (fwAllowMac mac allowOn bridgeTo).exec w =
      (.ok (), { w with firewall := w.firewall.fwAllowMac mac allowOn bridgeTo }) := rfl
@[simp] theorem exec_cancelCheck : cancelCheck.exec w = (.ok (), { w with nextCheck := none }) :=
  rfl
@[simp] theorem exec_startCheck (due : ℚ) :
    (startCheck due).exec w = (.ok (), { w with nextCheck := some due }) := rfl

end Operations

/-! ## The operations that a call may issue -/

/-- Every operation issued on any branch satisfies `P`. -/
def Call.Only {α : Type} (P : Op → Prop) (p : Call α) : Prop := Prog.Only P p.run

section Only

variable {P : Op → Prop} {α β : Type}

theorem only_pure (a : α) : (pure a : Call α).Only P := .done _

theorem only_throw (e : Error) : (throw e : Call α).Only P := .done _

theorem only_perform {o : Op} (h : P o) : (perform o).Only P := .op h fun _ => .done _

theorem Call.Only.bind {p : Call α} {f : α → Call β} (hp : p.Only P) (hf : ∀ a, (f a).Only P) :
    (p >>= f).Only P := by
  refine Prog.Only.bind hp fun result => ?_
  cases result with
  | ok a => exact hf a
  | error e => exact .done _

theorem only_embed {p : Prog Session.synapse α} (hp : p.Only fun o => P (.session o)) :
    (onSessions p).Only P :=
  (hp.embed fun _ ho => ho).bind fun _ => .done _

theorem only_onSessions (h : ∀ o, P (.session o)) (p : Prog Session.synapse α) :
    (onSessions p).Only P :=
  only_embed (.of_forall h p)

end Only

/-! ## The stages of a call -/

/-- What a call returns and the stage at which it does satisfy `post`, or it raises at a
stage that satisfies `raised`. -/
def Outcome {α S : Type} (post : α → S → Prop) (raised : S → Prop) : Except Error α → S → Prop
  | .ok a, q => post a q
  | .error _, q => raised q

/-- The call stays within the monitor on every branch. -/
def Call.Conforms {α S : Type} (A : Monitor agent S) (p : Call α) (q : S) (post : α → S → Prop)
    (raised : S → Prop) : Prop :=
  Prog.Conforms A p.run q (Outcome post raised)

section Conforms

variable {α β S : Type} {A : Monitor agent S} {q : S} {raised : S → Prop}

theorem conforms_pure {post : α → S → Prop} {a : α} (h : post a q) :
    (pure a : Call α).Conforms A q post raised := h

theorem conforms_throw {post : α → S → Prop} {e : Error} (h : raised q) :
    (throw e : Call α).Conforms A q post raised := h

theorem Call.Conforms.mono {post post' : α → S → Prop} {p : Call α}
    (hp : p.Conforms A q post raised) (imp : ∀ a q', post a q' → post' a q') :
    p.Conforms A q post' raised := by
  refine Prog.Conforms.mono (fun result q' h => ?_) hp
  cases result with
  | ok a => exact imp a q' h
  | error e => exact h

theorem Call.Conforms.bind {M : α → S → Prop} {post : β → S → Prop} {p : Call α}
    {f : α → Call β} (hp : p.Conforms A q M raised)
    (hf : ∀ a q', M a q' → (f a).Conforms A q' post raised) :
    (p >>= f).Conforms A q post raised := by
  refine Prog.Conforms.bind hp fun result q' h => ?_
  cases result with
  | ok a => exact hf a q' h
  | error e => exact h

theorem Call.Only.conforms {P : Op → Prop} {p : Call α} (hp : p.Only P)
    (stays : ∀ o r, P o → A q o r q) (hq : raised q) :
    p.Conforms A q (fun _ q' => q' = q) raised := by
  refine Prog.Conforms.mono (fun result q' h => ?_) (Prog.Only.conforms stays hp)
  cases result with
  | ok a => exact h
  | error e => exact h ▸ hq

theorem conforms_onSessions {post : α → S → Prop} {p : Prog Session.synapse α}
    (hp : p.Conforms (fun q o => A q (.session o)) q post) :
    (onSessions p).Conforms A q post raised :=
  Prog.Conforms.bind (hp.embed fun _ _ _ _ permitted => permitted) fun _ _ h => h

end Conforms

end ElanAgent.Nac
