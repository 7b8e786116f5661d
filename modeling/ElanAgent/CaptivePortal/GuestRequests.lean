import ElanAgent.CaptivePortal.GuestLists
import ElanAgent.Neuron.Rpc

/-!
# Guest requests

A guest asks for access through the portal. `submit_guest_request` hands the request to the
control center and, once it has the answer, marks the device as pending. The manager of the
guest access runs in another process and removes the mark when a list comes that has an
authorization for the device. Nothing orders the two: a list that is handled before the
answer has come removes no mark, and the mark that is set afterwards stays.
-/

namespace ElanAgent.CaptivePortal

open Atomic Session Nac GuestAccessManager

/-! ## The two programs -/

structure GuestRequest where
  mac : String
  rest : Finset (String × Value)
  deriving DecidableEq

/-- What the portal does with a request: it calls the control center, and it works on Redis. -/
inductive PortalOp where
  | call (request : GuestRequest)
  | session (o : Session.Op)

@[reducible] def PortalOp.Reply : PortalOp → Type
  | .call _ => Except Neuron.Failure Neuron.Json
  | .session o => o.Reply

abbrev portal : Interface := ⟨PortalOp, PortalOp.Reply⟩

/-- The operation that marks a device as pending. -/
def markPending (mac : String) : Session.Op := .execute [.sadd pendingGuestRequestsPath mac]

/-- `submit_guest_request(request)`. -/
def submitGuestRequest (request : GuestRequest) :
    ExceptT Neuron.Failure (Prog portal) Neuron.Json := do
  let r ← ExceptT.mk (.op (.call request) .done)
  let _ ← ExceptT.lift (.op (.session (markPending request.mac)) .done)
  pure r

/-- `is_authz_pending(mac)`. -/
def isAuthzPending (mac : String) : Prog Session.synapse Bool :=
  sismember pendingGuestRequestsPath mac

/-! ## The processes -/

/-- A submission, and what it has still to do. -/
structure Submission where
  request : GuestRequest
  program : Prog portal (Except Neuron.Failure Neuron.Json)

/-- A list that is being handled in a thread: when the thread was started, what it has still to
do, and the devices whose mark it has removed. -/
structure Handling where
  authorizations : List GuestAuthorization
  started : ℚ
  program : Prog agent (Except Error Unit)
  removed : List Value

/-- The submissions, the lists that have been published and not been delivered, those that
are being handled, and the one whose handling has ended last. -/
structure Guestbook where
  now : ℚ
  world : Nac.World
  submissions : List Submission
  published : List (List GuestAuthorization)
  handlings : List Handling
  last : Option (List GuestAuthorization)

/-- The devices that are marked. -/
def pendingIn (w : Nac.World) : List Value := w.session.sets pendingGuestRequestsPath

/-- The devices whose mark an operation removes. -/
def removedBy : Nac.Op → List Value
  | .session (.execute [.srem key member]) =>
    if key = pendingGuestRequestsPath then [member] else []
  | _ => []

/-- What matters about a step: the write of a submission, a list whose handling raises. -/
inductive Event where
  | quiet
  | write (o : Session.Op)
  | raise (h : Handling)

namespace Guestbook

/-- Nothing is under way. -/
def start (now : ℚ) (world : Nac.World) : Guestbook where
  now := now
  world := world
  submissions := []
  published := []
  handlings := []
  last := none

/-- One step of the portal, of the control center, of a thread of the manager, or of others,
who do not touch the marks. -/
inductive Step (s : Guestbook) : Event → Guestbook → Prop
  | wait {now : ℚ} (later : s.now ≤ now) : Step s .quiet { s with now }
  | others {world : Nac.World} (same : pendingIn world = pendingIn s.world) :
      Step s .quiet { s with world }
  | submit (request : GuestRequest) :
      Step s .quiet { s with
        submissions := s.submissions ++ [⟨request, (submitGuestRequest request).run⟩] }
  | call {before after : List Submission} {t : Submission} {request : GuestRequest}
      {next : Except Neuron.Failure Neuron.Json → Prog portal (Except Neuron.Failure Neuron.Json)}
      (here : s.submissions = before ++ t :: after) (issues : t.program = .op (.call request) next)
      (answer : Except Neuron.Failure Neuron.Json) :
      Step s .quiet { s with
        submissions := before ++ { t with program := next answer } :: after }
  | write {before after : List Submission} {t : Submission} {o : Session.Op}
      {next : o.Reply → Prog portal (Except Neuron.Failure Neuron.Json)}
      (here : s.submissions = before ++ t :: after) (issues : t.program = .op (.session o) next) :
      Step s (.write o) { s with
        world := s.world.setSession (Session.handler o s.world.session).2
        submissions := before ++
          { t with program := next (Session.handler o s.world.session).1 } :: after }
  | publish (authorizations : List GuestAuthorization) :
      Step s .quiet { s with published := s.published ++ [authorizations] }
  | deliver {before after : List (List GuestAuthorization)}
      {authorizations : List GuestAuthorization}
      (here : s.published = before ++ authorizations :: after) :
      Step s .quiet { s with
        published := before ++ after
        handlings := s.handlings ++
          [⟨authorizations, s.now, (newAuthorizations s.now authorizations).run, []⟩] }
  | handle {before after : List Handling} {h : Handling} {o : Nac.Op}
      {next : o.Reply → Prog agent (Except Error Unit)}
      (here : s.handlings = before ++ h :: after) (issues : h.program = .op o next) :
      Step s .quiet { s with
        world := (Nac.handler o s.world).2
        handlings := before ++ { h with
          program := next (Nac.handler o s.world).1
          removed := removedBy o ++ h.removed } :: after }
  | finish {before after : List Handling} {h : Handling}
      (here : s.handlings = before ++ h :: after) (ended : h.program = .done (.ok ())) :
      Step s .quiet { s with handlings := before ++ after, last := some h.authorizations }
  | raise {before after : List Handling} {h : Handling} {e : Error}
      (here : s.handlings = before ++ h :: after) (ended : h.program = .done (.error e)) :
      Step s (.raise h) { s with handlings := before ++ after, last := some h.authorizations }

end Guestbook

/-! ## What is to hold, and when -/

/-- The list has an authorization for `mac` that has not expired. -/
def Approves (now : ℚ) (mac : String) (authorizations : List GuestAuthorization) : Prop :=
  ∃ authz ∈ authorizations, authz.live now ∧ authz.mac = mac

/-- The mark of `mac` has still to be removed. -/
def Handling.Owes (h : Handling) (mac : String) : Prop :=
  Approves h.started mac h.authorizations ∧ .str mac ∉ h.removed

namespace Guestbook

variable (s : Guestbook) (mac : String)

/-- The list that was handled last has an authorization for the device. -/
def Approved : Prop := ∃ authorizations, s.last = some authorizations ∧
  Approves s.now mac authorizations

/-- The requests for the device have returned, and every list has been handled. -/
structure Settled : Prop where
  returned : ∀ t ∈ s.submissions, t.request.mac = mac → t.program.isDone
  published : s.published = []
  handled : s.handlings = []

/-- A mark that is set for the device now is going to be removed, or stands for a request that
no list has answered. -/
def MayMark : Prop :=
  (∃ h ∈ s.handlings, h.Owes mac) ∨
  (∀ h ∈ s.handlings, .str mac ∉ h.removed) ∧
    (s.handlings = [] → s.published = [] → ¬s.Approved mac)

/-- A mark is only set when it may be, and no handling raises before it has removed its marks. -/
def Timely : Event → Prop
  | .quiet => True
  | .write o => ∀ mac, o = markPending mac → s.MayMark mac
  | .raise h => ∀ mac, ¬h.Owes mac

/-- A run whose steps satisfy the guard. -/
def Run (guard : Guestbook → Event → Prop) : Guestbook → Guestbook → Prop :=
  Relation.ReflTransGen fun s t => ∃ e, guard s e ∧ Step s e t

end Guestbook

/-! ## What the manager removes -/

/-- The operation leaves the marks as they are. -/
def SparesMarks (o : Nac.Op) : Prop := ∀ w, pendingIn (Nac.handler o w).2 = pendingIn w

theorem permits_sparesMarks : Permits SparesMarks where
  save _ _ := rfl
  delete _ _ := rfl
  plain o plain w := by
    cases o <;> first | rfl | cases plain

theorem sparesMarks_session {o : Session.Op} (direct : Direct o) : SparesMarks (.session o) := by
  intro w
  cases o <;> first | rfl | cases direct

theorem sparesMarks_sadd (member : Value) :
    SparesMarks (.session (.execute [.sadd macAuthsPath member])) := fun w =>
  congrArg Guests.pending (guests_setMacs w ((w.session.sets macAuthsPath).insert member))

theorem sparesMarks_srem (member : Value) :
    SparesMarks (.session (.execute [.srem macAuthsPath member])) := fun w =>
  congrArg Guests.pending (guests_setMacs w ((w.session.sets macAuthsPath).filter (· ≠ member)))

/-- What a thread has removed, when it issues an operation. -/
inductive Answers : Monitor agent (List Value)
  | aside {q : List Value} {o : Nac.Op} (r : o.Reply) (h : SparesMarks o) : Answers q o r q
  | answer {q : List Value} (member : Value) (r : List Session.Reply) :
      Answers q (.session (.execute [.srem pendingGuestRequestsPath member])) r (member :: q)

section Conforms

variable {now : ℚ} {q : List Value} {mac : String}

/-- A part of the handler that leaves the marks alone. -/
theorem conforms_spares {α : Type} {p : Nac.Call α} (hp : p.Only SparesMarks) :
    p.Conforms Answers q (fun _ q' => q' = q) (fun _ => True) :=
  hp.conforms (fun _ r h => .aside r h) trivial

theorem spares_parseTill (authz : GuestAuthorization) : (parseTill authz).Only SparesMarks := by
  unfold parseTill
  split
  · exact only_pure _
  · exact only_throw _

theorem spares_checkAuthz (reason : String) (source : Option String) :
    (checkAuthz now mac source reason).Only SparesMarks :=
  only_checkAuthz permits_sparesMarks (fun _ => sparesMarks_session) now mac reason source

theorem spares_revoke (member : Value) : (revoke now member).Only SparesMarks :=
  (spares_checkAuthz _ _).bind fun _ =>
    (only_embed (.op (sparesMarks_srem member) fun _ => .done _)).bind fun _ => only_pure _

theorem spares_addGuest (authz : GuestAuthorization) : (addGuest now mac authz).Only SparesMarks :=
  (spares_parseTill authz).bind fun _ =>
    only_direct (fun _ => sparesMarks_session) (direct_addAuthenticationSession _ _ _)

/-- Each device with an authorization that has not expired is among those filed. -/
theorem conforms_fileByMac (byMac : Dict String (List GuestAuthorization))
    (authorizations : List GuestAuthorization) :
    (fileByMac now byMac authorizations).Conforms Answers q (fun byMac' q' => q' = q ∧
      ∀ mac, mac ∈ byMac.keys ∨ Approves now mac authorizations → mac ∈ byMac'.keys)
      (fun _ => True) := by
  induction authorizations generalizing byMac with
  | nil => exact conforms_pure ⟨rfl, fun mac h => h.resolve_right nofun⟩
  | cons authz authorizations ih =>
    rw [fileByMac]
    cases dated : authz.date with
    | none =>
      have raises : parseTill authz = throw .date := by
        rw [parseTill, dated]
      rw [raises]
      exact conforms_throw trivial
    | some date =>
      have parsed : parseTill authz = pure date.epoch := by
        rw [parseTill, dated]
      have live : authz.live now = decide (now < date.epoch) := by
        rw [GuestAuthorization.live, dated]
        rfl
      rw [parsed, pure_bind]
      refine (ih _).mono fun byMac' q' kept => ?_
      obtain ⟨same, filed⟩ := kept
      refine ⟨same, fun mac h => filed mac ?_⟩
      rcases h with h | ⟨authz', mem, lasts, same⟩
      · refine .inl ?_
        split
        · exact Dict.mem_keys_set.mpr (.inr h)
        · exact h
      · rcases List.mem_cons.mp mem with rfl | mem
        · rw [live, decide_eq_true_eq] at lasts
          rw [if_pos lasts]
          exact .inl (Dict.mem_keys_set.mpr (.inl same.symm))
        · exact .inr ⟨authz', mem, lasts, same⟩

theorem conforms_grant (authorizations : List GuestAuthorization) :
    (GuestAccessManager.grant now mac authorizations).Conforms Answers q
      (fun _ q' => q' = .str mac :: q) (fun _ => True) := by
  have answered : (srem pendingGuestRequestsPath mac).Conforms Answers q
      (fun _ q' => q' = .str mac :: q) (fun _ => True) :=
    fun r => ⟨_, .answer mac r, rfl⟩
  refine answered.bind fun _ q' same => ?_
  subst same
  refine conforms_spares ?_
  refine ((only_embed (.op (sparesMarks_sadd mac) fun _ => .done _)).bind
    fun _ => only_pure _).bind fun _ => ?_
  refine (only_direct (fun _ => sparesMarks_session) (direct_removeWhere _ _)).bind fun _ => ?_
  refine (only_each spares_addGuest authorizations).bind fun _ => ?_
  exact (spares_checkAuthz _ _).bind fun _ => only_pure _

/-- A handler that returns has removed the mark of each device that the list approves. -/
theorem conforms_newAuthorizations (authorizations : List GuestAuthorization) :
    (newAuthorizations now authorizations).Conforms Answers []
      (fun _ q => ∀ mac, Approves now mac authorizations → .str mac ∈ q) (fun _ => True) := by
  refine (conforms_fileByMac .empty authorizations).bind fun byMac q h => ?_
  obtain ⟨rfl, filed⟩ := h
  refine (conforms_spares (only_direct (fun _ => sparesMarks_session) (direct_op ?_))).bind
    fun macs q same => ?_
  · trivial
  subst same
  refine (conforms_spares (only_each spares_revoke _)).bind fun _ q same => ?_
  subst same
  -- Each turn of the loop removes the mark of its device.
  have granted (items : List (String × List GuestAuthorization)) (q : List Value) :
      (each (fun (item : String × List GuestAuthorization) =>
        GuestAccessManager.grant now item.1 item.2) items).Conforms Answers q
        (fun _ q' => q ⊆ q' ∧ ∀ item ∈ items, .str item.1 ∈ q') (fun _ => True) := by
    induction items generalizing q with
    | nil => exact ⟨List.Subset.refl q, nofun⟩
    | cons item items ih =>
      refine (conforms_grant item.2).bind fun _ q' same => ?_
      subst same
      refine (ih _).mono fun _ q' ⟨sub, rest⟩ => ⟨fun m h => sub (List.mem_cons_of_mem _ h), ?_⟩
      exact List.forall_mem_cons.mpr ⟨sub List.mem_cons_self, rest⟩
  refine (granted byMac.items []).mono fun _ q ⟨_, removed⟩ mac approved => ?_
  obtain ⟨item, mem, rfl⟩ := List.mem_map.mp (filed mac (.inr approved))
  exact removed item mem

end Conforms

theorem mem_pendingIn_removed (w : Nac.World) (member : Value) {m : Value} :
    m ∈ pendingIn (Nac.handler (.session
      (.execute [.srem pendingGuestRequestsPath member])) w).2 ↔ m ∈ pendingIn w ∧ m ≠ member := by
  have removed : pendingIn (Nac.handler (.session
      (.execute [.srem pendingGuestRequestsPath member])) w).2 =
        (pendingIn w).filter (· ≠ member) :=
    congrArg Guests.pending (guests_setPending w ((pendingIn w).filter (· ≠ member)))
  rw [removed, List.mem_filter, decide_eq_true_eq]

theorem notMem_pendingIn {o : Nac.Op} {m : Value} (h : m ∈ removedBy o) (w : Nac.World) :
    m ∉ pendingIn (Nac.handler o w).2 := by
  unfold removedBy at h
  split at h
  · split at h
    · obtain rfl := List.mem_singleton.mp h
      subst ‹_ = pendingGuestRequestsPath›
      exact fun marked => ((mem_pendingIn_removed w m).mp marked).2 rfl
    · cases h
  · cases h

/-- A thread of the manager marks nothing, and what it removes is no longer marked. -/
theorem Answers.effect {q q' : List Value} {o : Nac.Op} {r : o.Reply} (h : Answers q o r q')
    (w : Nac.World) : (∀ m ∈ pendingIn (Nac.handler o w).2, m ∈ pendingIn w ∧ m ∉ removedBy o) ∧
      q' ⊆ removedBy o ++ q := by
  have kept : ∀ m ∈ pendingIn (Nac.handler o w).2, m ∉ removedBy o :=
    fun m marked removed => notMem_pendingIn removed w marked
  cases h with
  | aside r spares =>
    exact ⟨fun m h => ⟨spares w ▸ h, kept m h⟩, List.subset_append_right _ _⟩
  | answer member r =>
    refine ⟨fun m h => ⟨((mem_pendingIn_removed w member).mp h).1, kept m h⟩, ?_⟩
    rw [removedBy, if_pos rfl]
    exact List.Subset.refl _

/-! ## Every run -/

theorem Approves.earlier {now now' : ℚ} {mac : String} {authorizations : List GuestAuthorization}
    (h : Approves now' mac authorizations) (le : now ≤ now') : Approves now mac authorizations := by
  obtain ⟨authz, mem, live, same⟩ := h
  obtain ⟨date, dated, later⟩ := (Option.any_eq_true ..).mp live
  refine ⟨authz, mem, (Option.any_eq_true ..).mpr ⟨date, dated, ?_⟩, same⟩
  exact decide_eq_true (le.trans_lt (of_decide_eq_true later))

/-- A submission only works on Redis to mark its device. -/
def PortalOp.Marks (mac : String) (o : PortalOp) : Prop :=
  ∀ o', o = .session o' → o' = markPending mac

theorem mem_pendingIn_mark (w : Nac.World) (mac : String) {m : Value} :
    m ∈ pendingIn (w.setSession (Session.handler (markPending mac) w.session).2) ↔
      m = .str mac ∨ m ∈ pendingIn w := by
  have marked : pendingIn (w.setSession (Session.handler (markPending mac) w.session).2) =
      (pendingIn w).insert (Value.str mac) :=
    congrArg Guests.pending (guests_setPending w ((pendingIn w).insert (Value.str mac)))
  rw [marked, List.mem_insert_iff]

/-- The request is sent, and the mark is set once it is answered. -/
theorem run_submitGuestRequest (request : GuestRequest) : (submitGuestRequest request).run =
    .op (.call request) fun
      | .ok r => .op (.session (markPending request.mac)) fun _ => .done (.ok r)
      | .error e => .done (.error e) := by
  have call : (submitGuestRequest request).run = .op (.call request) _ := rfl
  rw [call]
  congr 1
  funext answer
  cases answer <;> rfl

theorem marks_submitGuestRequest (request : GuestRequest) :
    Prog.Only (PortalOp.Marks request.mac) (submitGuestRequest request).run := by
  rw [run_submitGuestRequest]
  refine .op (fun _ h => nomatch h) fun answer => ?_
  cases answer with
  | error e => exact .done _
  | ok answer => exact .op (fun _ h => (PortalOp.session.inj h).symm) fun _ => .done _

/-- What is left of a handling removes each mark that it owes before it returns. -/
def Handling.Proceeds (h : Handling) : Prop :=
  ∃ q, q ⊆ h.removed ∧ Call.Conforms Answers h.program q
    (fun _ q => ∀ mac, Approves h.started mac h.authorizations → .str mac ∈ q) fun _ => True

namespace Guestbook

/-- Each mark may be there. -/
structure Invariant (s : Guestbook) : Prop where
  submissions : ∀ t ∈ s.submissions, t.program.Only (PortalOp.Marks t.request.mac)
  started : ∀ h ∈ s.handlings, h.started ≤ s.now
  proceeds : ∀ h ∈ s.handlings, h.Proceeds
  marks : ∀ mac, .str mac ∈ pendingIn s.world → s.MayMark mac

theorem invariant_start (now : ℚ) (world : Nac.World) : (start now world).Invariant where
  submissions := nofun
  started := nofun
  proceeds := nofun
  marks _ _ := .inr ⟨nofun, fun _ _ ⟨_, handled, _⟩ => nomatch handled⟩

/-- A handling that owes nothing may end. -/
theorem mayMark_end {s : Guestbook} {before after : List Handling} {h : Handling} {mac : String}
    (here : s.handlings = before ++ h :: after) (started : h.started ≤ s.now)
    (paid : ¬h.Owes mac) (may : s.MayMark mac) :
    ({ s with handlings := before ++ after, last := some h.authorizations } : Guestbook).MayMark
      mac := by
  rcases may with ⟨h', mem, owes⟩ | ⟨unremoved, -⟩
  · refine .inl ⟨h', ?_, owes⟩
    rw [here] at mem
    have other : h' ≠ h := by
      rintro rfl
      exact paid owes
    simpa [other] using mem
  · rw [here] at unremoved
    refine .inr ⟨fun h' mem => unremoved h' ?_, fun _ _ approved => ?_⟩
    · rcases List.mem_append.mp mem with mem | mem <;> simp [mem]
    · obtain ⟨_, ⟨⟩, approves⟩ := approved
      exact paid ⟨approves.earlier started, unremoved h (by simp)⟩

/-- What holds of every element still does, when one is replaced. -/
theorem forall_replaced {α : Type} {P : α → Prop} {l before after : List α} {x y : α}
    (here : l = before ++ x :: after) (h : ∀ z ∈ l, P z) (hy : P y) :
    ∀ z ∈ before ++ y :: after, P z := by
  intro z mem
  rcases List.mem_append.mp mem with mem | mem
  · exact h z (by simp [here, mem])
  · rcases List.mem_cons.mp mem with rfl | mem
    · exact hy
    · exact h z (by simp [here, mem])

theorem forall_removed {α : Type} {P : α → Prop} {l before after : List α} {x : α}
    (here : l = before ++ x :: after) (h : ∀ z ∈ l, P z) : ∀ z ∈ before ++ after, P z := by
  intro z mem
  rcases List.mem_append.mp mem with mem | mem <;> exact h z (by simp [here, mem])

theorem mem_handlings {s : Guestbook} {before after : List Handling} {h : Handling}
    (here : s.handlings = before ++ h :: after) : h ∈ s.handlings := by
  rw [here]
  exact List.mem_append_right _ List.mem_cons_self

/-- The end of a handling that owes nothing. -/
theorem Invariant.ended {s : Guestbook} (inv : s.Invariant) {before after : List Handling}
    {h : Handling} (here : s.handlings = before ++ h :: after) (paid : ∀ mac, ¬h.Owes mac) :
    ({ s with handlings := before ++ after, last := some h.authorizations } :
      Guestbook).Invariant where
  submissions := inv.submissions
  started := forall_removed here inv.started
  proceeds := forall_removed here inv.proceeds
  marks mac marked :=
    mayMark_end here (inv.started h (mem_handlings here)) (paid mac) (inv.marks mac marked)

theorem Invariant.handle {s : Guestbook} (inv : s.Invariant) {before after : List Handling}
    {h : Handling} {o : Nac.Op} {next : o.Reply → Prog agent (Except Error Unit)}
    (here : s.handlings = before ++ h :: after) (issues : h.program = .op o next) :
    ({ s with
        world := (Nac.handler o s.world).2
        handlings := before ++ { h with
          program := next (Nac.handler o s.world).1
          removed := removedBy o ++ h.removed } :: after } : Guestbook).Invariant := by
  obtain ⟨q, sub, conforms⟩ := inv.proceeds h (mem_handlings here)
  rw [issues] at conforms
  obtain ⟨q', permitted, conforms⟩ := conforms (Nac.handler o s.world).1
  obtain ⟨kept, sub'⟩ := permitted.effect s.world
  have proceeds : q' ⊆ removedBy o ++ h.removed := fun m mem =>
    (List.mem_append.mp (sub' mem)).elim (List.mem_append_left _)
      fun old => List.mem_append_right _ (sub old)
  refine ⟨inv.submissions, forall_replaced here inv.started (inv.started h (mem_handlings here)),
    forall_replaced here inv.proceeds ⟨q', proceeds, conforms⟩, fun mac marked => ?_⟩
  obtain ⟨marked, unremoved⟩ := kept _ marked
  have owes (h' : Handling) (mem : h' ∈ s.handlings) (ho : h'.Owes mac) :
      ∃ h' ∈ before ++ { h with
        program := next (Nac.handler o s.world).1
        removed := removedBy o ++ h.removed } :: after, h'.Owes mac := by
    rw [here] at mem
    rcases List.mem_append.mp mem with mem | mem
    · exact ⟨h', List.mem_append_left _ mem, ho⟩
    · rcases List.mem_cons.mp mem with rfl | mem
      · refine ⟨_, List.mem_append_right _ List.mem_cons_self, ho.1, ?_⟩
        exact fun removed => (List.mem_append.mp removed).elim unremoved ho.2
      · exact ⟨h', List.mem_append_right _ (List.mem_cons_of_mem _ mem), ho⟩
  rcases inv.marks mac marked with ⟨h', mem, ho⟩ | ⟨fresh, -⟩
  · exact .inl (owes h' mem ho)
  · refine .inr ⟨forall_replaced here fresh fun removed => ?_, fun none => ?_⟩
    · exact (List.mem_append.mp removed).elim unremoved (fresh h (mem_handlings here))
    · simp at none

/-- The write of a submission is the mark, and that it may be set is the guard. -/
theorem Invariant.write {s : Guestbook} (inv : s.Invariant) {before after : List Submission}
    {t : Submission} {o : Session.Op}
    {next : o.Reply → Prog portal (Except Neuron.Failure Neuron.Json)}
    (here : s.submissions = before ++ t :: after) (issues : t.program = .op (.session o) next)
    (timely : s.Timely (.write o)) :
    ({ s with
        world := s.world.setSession (Session.handler o s.world.session).2
        submissions := before ++
          { t with program := next (Session.handler o s.world.session).1 } :: after } :
      Guestbook).Invariant := by
  have mine : t.program.Only (PortalOp.Marks t.request.mac) :=
    inv.submissions t (by rw [here]; exact List.mem_append_right _ List.mem_cons_self)
  rw [issues] at mine
  cases mine with
  | op marks rest =>
    obtain rfl := marks o rfl
    refine ⟨forall_replaced here inv.submissions (rest _), inv.started, inv.proceeds,
      fun mac marked => ?_⟩
    rcases (mem_pendingIn_mark _ _).mp marked with same | marked
    · obtain rfl := Value.str.inj same
      exact timely t.request.mac rfl
    · exact inv.marks mac marked

theorem invariant_step {s t : Guestbook} {e : Event} (inv : s.Invariant) (timely : s.Timely e)
    (step : Step s e t) : t.Invariant := by
  cases step with
  | wait later =>
    refine ⟨inv.submissions, fun h mem => (inv.started h mem).trans later, inv.proceeds,
      fun mac marked => ?_⟩
    refine (inv.marks mac marked).imp_right (And.imp_right fun may none published approved => ?_)
    obtain ⟨l, handled, approves⟩ := approved
    exact may none published ⟨l, handled, approves.earlier later⟩
  | others same =>
    exact ⟨inv.submissions, inv.started, inv.proceeds, fun mac marked =>
      inv.marks mac (same ▸ marked)⟩
  | submit request =>
    refine ⟨fun t mem => ?_, inv.started, inv.proceeds, inv.marks⟩
    rcases List.mem_append.mp mem with mem | mem
    · exact inv.submissions t mem
    · obtain rfl := List.mem_singleton.mp mem
      exact marks_submitGuestRequest request
  | call here issues answer =>
    refine ⟨forall_replaced here inv.submissions ?_, inv.started, inv.proceeds, inv.marks⟩
    have mine := inv.submissions _ (by rw [here]; exact List.mem_append_right _ List.mem_cons_self)
    rw [issues] at mine
    cases mine with
    | op _ rest => exact rest answer
  | write here issues => exact inv.write here issues timely
  | publish authorizations =>
    refine ⟨inv.submissions, inv.started, inv.proceeds, fun mac marked => ?_⟩
    refine (inv.marks mac marked).imp_right (And.imp_right fun _ _ published => ?_)
    simp at published
  | deliver here =>
    refine ⟨inv.submissions, fun h mem => ?_, fun h mem => ?_, fun mac marked => ?_⟩
    · rcases List.mem_append.mp mem with mem | mem
      · exact inv.started h mem
      · obtain rfl := List.mem_singleton.mp mem
        exact le_refl s.now
    · rcases List.mem_append.mp mem with mem | mem
      · exact inv.proceeds h mem
      · obtain rfl := List.mem_singleton.mp mem
        exact ⟨[], List.Subset.refl _, conforms_newAuthorizations _⟩
    · rcases inv.marks mac marked with ⟨h, mem, owes⟩ | ⟨fresh, -⟩
      · exact .inl ⟨h, List.mem_append_left _ mem, owes⟩
      · refine .inr ⟨fun h mem => ?_, fun none => ?_⟩
        · rcases List.mem_append.mp mem with mem | mem
          · exact fresh h mem
          · obtain rfl := List.mem_singleton.mp mem
            exact List.not_mem_nil
        · simp at none
  | handle here issues => exact inv.handle here issues
  | finish here ended =>
    refine inv.ended here fun mac ⟨approves, unremoved⟩ => ?_
    obtain ⟨q, sub, conforms⟩ := inv.proceeds _ (mem_handlings here)
    rw [ended] at conforms
    exact unremoved (sub (conforms mac approves))
  | raise here ended => exact inv.ended here timely

theorem invariant_run {s t : Guestbook} (run : Run Timely s t) (inv : s.Invariant) :
    t.Invariant := by
  induction run with
  | refl => exact inv
  | tail _ step ih =>
    obtain ⟨e, timely, step⟩ := step
    exact invariant_step ih timely step

/-- If each mark is set when it may be, and no handling raises too early, no device is pending
that the last list approves, once all is handled. -/
theorem not_pending_of_approved {now : ℚ} {world : Nac.World} {s : Guestbook}
    (run : Run Timely (start now world) s) {mac : String} (settled : s.Settled mac)
    (approved : s.Approved mac) :
    ((isAuthzPending mac).run Session.handler s.world.session).1 = false := by
  have inv := invariant_run run (invariant_start now world)
  obtain ⟨-, published, handled⟩ := settled
  refine decide_eq_false fun marked => ?_
  rcases inv.marks mac marked with ⟨h, mem, -⟩ | ⟨-, answered⟩
  · rw [handled] at mem
    cases mem
  · exact answered handled published approved

/-! ## Two orders of the same events -/

section Orders

variable {guard : Guestbook → Event → Prop} (quiet : ∀ s, guard s .quiet) (s : Guestbook)

/-- The submission has its answer, and is about to mark the device. -/
def asked (request : GuestRequest) (answer : Neuron.Json) : Guestbook :=
  { s with submissions := s.submissions ++
      [⟨request, .op (.session (markPending request.mac)) fun _ => .done (.ok answer)⟩] }

/-- The submission has returned. -/
def marked (request : GuestRequest) (answer : Neuron.Json) : Guestbook :=
  { s with
    world := s.world.setSession (Session.handler (markPending request.mac) s.world.session).2
    submissions := s.submissions ++ [⟨request, .done (.ok answer)⟩] }

/-- The list has been handled. -/
def handled (authorizations : List GuestAuthorization) : Guestbook :=
  { s with
    world := ((newAuthorizations s.now authorizations).exec s.world).2
    last := some authorizations }

theorem step_marked (request : GuestRequest) (answer : Neuron.Json) :
    Step (s.asked request answer) (.write (markPending request.mac)) (s.marked request answer) := by
  have left : (s.asked request answer).submissions = s.submissions ++
      ⟨request, .op (.session (markPending request.mac)) fun _ => .done (.ok answer)⟩ :: [] := rfl
  exact .write left rfl

include quiet

theorem run_asked (request : GuestRequest) (answer : Neuron.Json) :
    Run guard s (s.asked request answer) := by
  have submitted : ({ s with submissions := s.submissions ++
      [⟨request, (submitGuestRequest request).run⟩] } : Guestbook).submissions =
        s.submissions ++ ⟨request, (submitGuestRequest request).run⟩ :: [] := rfl
  refine .tail (.single ⟨_, quiet _, .submit request⟩) ⟨_, quiet _, ?_⟩
  exact .call submitted (run_submitGuestRequest request) (.ok answer)

theorem run_handlings {h : Handling} (here : s.handlings = [h]) : ∃ removed,
    Run guard s { s with
      world := (h.program.run Nac.handler s.world).2
      handlings :=
        [{ h with program := .done (h.program.run Nac.handler s.world).1, removed }] } := by
  obtain ⟨l, started, program, removed⟩ := h
  induction program generalizing s removed with
  | done a =>
    refine ⟨removed, ?_⟩
    have same : ({ s with handlings := [⟨l, started, .done a, removed⟩] } : Guestbook) = s := by
      rw [← here]
    exact same ▸ .refl
  | op o next ih =>
    have here : s.handlings = [] ++ ⟨l, started, .op o next, removed⟩ :: [] := here
    obtain ⟨removed', run⟩ := ih (Nac.handler o s.world).1
      { s with
        world := (Nac.handler o s.world).2
        handlings := [⟨l, started, next (Nac.handler o s.world).1, removedBy o ++ removed⟩] }
      (removedBy o ++ removed) rfl
    exact ⟨removed', .head ⟨_, quiet s, .handle here rfl⟩ run⟩

theorem run_handled {authorizations : List GuestAuthorization} (published : s.published = [])
    (handlings : s.handlings = [])
    (returns : ((newAuthorizations s.now authorizations).exec s.world).1 = .ok ()) :
    Run guard s (s.handled authorizations) := by
  let program := (newAuthorizations s.now authorizations).run
  have same : ({ s with published := [], handlings := [] } : Guestbook) = s := by
    rw [← published, ← handlings]
  rw [← same]
  -- The list is published, delivered and handled; then the thread ends.
  have delivered : ({ s with published := [authorizations], handlings := [] } :
      Guestbook).published = [] ++ authorizations :: [] := rfl
  refine .head ⟨_, quiet _, .publish authorizations⟩ (.head ⟨_, quiet _, .deliver delivered⟩ ?_)
  obtain ⟨removed, run⟩ := run_handlings quiet { s with
    published := [], handlings := [⟨authorizations, s.now, program, []⟩] } rfl
  have returned : (program.run Nac.handler s.world).1 = .ok () := returns
  dsimp only at run
  rw [returned] at run
  have left : ({ s with
      world := (program.run Nac.handler s.world).2
      published := []
      handlings := [⟨authorizations, s.now, .done (.ok ()), removed⟩] } : Guestbook).handlings =
        [] ++ ⟨authorizations, s.now, .done (.ok ()), removed⟩ :: [] := rfl
  exact .tail run ⟨_, quiet _, .finish left rfl⟩

end Orders

/-- A guest asks for access. -/
def guestRequest : GuestRequest := ⟨"00:00:00:00:00:01", ∅⟩

/-- The portal and the manager are running. -/
def running : Guestbook := start 1700000000 (.empty fun _ => some .none)

theorem serving_running : Serving running.world := by
  intro n
  exact ⟨.none, rfl, nofun, nofun⟩

theorem returns_twoGuests {world : Nac.World} (serving : Serving world) :
    ((newAuthorizations 1700000000 twoGuests).exec world).1 = .ok () := by
  have dated : ∀ authz ∈ twoGuests, authz.date.isSome := by decide
  obtain ⟨byMac, v, -, ran, -⟩ := exec_newAuthorizations 1700000000 dated serving
  rw [ran]

theorem approves_twoGuests : Approves 1700000000 guestRequest.mac twoGuests :=
  ⟨_, List.mem_cons_self, by decide, rfl⟩

theorem settled_running {s : Guestbook}
    (submissions : s.submissions = [⟨guestRequest, .done (.ok .null)⟩])
    (published : s.published = []) (handled : s.handlings = []) : s.Settled guestRequest.mac := by
  refine ⟨fun t mem _ => ?_, published, handled⟩
  rw [submissions] at mem
  rw [List.mem_singleton.mp mem]
  rfl

/-- The request is answered and the mark set before the list comes. -/
theorem not_pending_of_approved_inOrder : ∃ s, Run Timely running s ∧
    s.Settled guestRequest.mac ∧ s.Approved guestRequest.mac ∧
    ((isAuthzPending guestRequest.mac).run Session.handler s.world.session).1 = false := by
  have timely : (running.asked guestRequest .null).Timely
      (.write (markPending guestRequest.mac)) :=
    fun mac _ => .inr ⟨nofun, fun _ _ ⟨_, handled, _⟩ => nomatch handled⟩
  have asked : Run Timely running (running.asked guestRequest .null) :=
    run_asked (fun _ => trivial) running guestRequest .null
  have marked : Run Timely running (running.marked guestRequest .null) :=
    asked.tail ⟨_, timely, step_marked running guestRequest .null⟩
  have handled : Run Timely (running.marked guestRequest .null)
      ((running.marked guestRequest .null).handled twoGuests) :=
    run_handled (fun _ => trivial) _ rfl rfl (returns_twoGuests serving_running)
  have settled : ((running.marked guestRequest .null).handled twoGuests).Settled guestRequest.mac :=
    settled_running rfl rfl rfl
  have approved : ((running.marked guestRequest .null).handled twoGuests).Approved
      guestRequest.mac := ⟨twoGuests, rfl, approves_twoGuests⟩
  exact ⟨_, marked.trans handled, settled, approved,
    not_pending_of_approved (marked.trans handled) settled approved⟩

/-- The list comes before the answer: the device stays pending. -/
theorem pending_of_approved : ∃ s, Run (fun _ _ => True) running s ∧
    s.Settled guestRequest.mac ∧ s.Approved guestRequest.mac ∧
    ((isAuthzPending guestRequest.mac).run Session.handler s.world.session).1 = true := by
  have asked : Run (fun _ _ => True) running (running.asked guestRequest .null) :=
    run_asked (fun _ => trivial) running guestRequest .null
  have handled : Run (fun _ _ => True) (running.asked guestRequest .null)
      ((running.handled twoGuests).asked guestRequest .null) :=
    run_handled (fun _ => trivial) _ rfl rfl (returns_twoGuests serving_running)
  have marked : Run (fun _ _ => True) running
      ((running.handled twoGuests).marked guestRequest .null) :=
    (asked.trans handled).tail ⟨_, trivial, step_marked _ guestRequest .null⟩
  refine ⟨_, marked, settled_running rfl rfl rfl, ⟨twoGuests, rfl, approves_twoGuests⟩, ?_⟩
  have member : Value.str guestRequest.mac ∈ pendingIn
      ((running.handled twoGuests).marked guestRequest .null).world :=
    (mem_pendingIn_mark _ _).mpr (.inl rfl)
  exact decide_eq_true member

end Guestbook

end ElanAgent.CaptivePortal
