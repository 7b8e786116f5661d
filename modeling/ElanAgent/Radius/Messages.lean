import ElanAgent.Radius.Macs

/-!
# Runs of requests

Requests are handled one after the other. Those that see a device store its MAC, and
`extract_mac` may have found none. As long as it finds one, the stores stay canonical, and
the other requests leave them as they are.
-/

namespace ElanAgent.Radius

open Raising Redis
open Session (Obj handler)

/-- What a server tells the agent. -/
inductive Message where
  | postAuth (request : Request)
  | accounting (request : Request)

namespace Message

def request : Message → Request
  | postAuth request | accounting request => request

/-- The message goes through `session.seen`. -/
def Sees : Message → Prop
  | postAuth _ => True
  | accounting request => request.attribute "Acct-Status-Type" ∈
      [Value.str "Start", .int 1, .str "Interim-Update", .int 3]

def handle (now : ℚ) : Message → Handling Unit
  | postAuth request => do
    let _ ← Radius.postAuth now request
    pure ()
  | accounting request => Radius.accounting now request

end Message

namespace World

/-- The world once a message has been handled, at a time. -/
def handle (w : World) (m : ℚ × Message) : World := (exec (m.2.handle m.1) w).2

def run (w : World) (messages : List (ℚ × Message)) : World := messages.foldl handle w

@[simp] theorem run_append_singleton (w : World) (messages : List (ℚ × Message))
    (m : ℚ × Message) : w.run (messages ++ [m]) = (w.run messages).handle m := by
  simp [run]

/-- Nothing is stored. -/
def start (snmp : Snmp.World) (answers : Nat → Option Nac.NetworkAssignments) : World where
  snmp := snmp
  agent := .empty answers

end World

/-- What a message sees has a recognisable MAC, or the search for it and its port raises. -/
def Recognised (w : World) (m : Message) : Prop :=
  m.Sees → m.request.mac ≠ none ∨ ∃ e, (exec (locate m.request) w.snmp).1 = .error e

theorem canonical_empty (answers : Nat → Option Nac.NetworkAssignments) :
    Canonical (.empty answers) where
  session :=
    { lastSeen := fun _ h => absurd rfl h
      sessionIds := fun _ h => absurd rfl h
      macPort := fun _ h => absurd rfl h
      macLastPort := fun _ h => absurd rfl h
      sets := fun _ h => absurd rfl h
      authentication := fun _ h => absurd rfl h }
  sessions := fun _ h => absurd rfl h
  expiry := fun _ h => absurd rfl h

/-! ## A recognisable MAC -/

theorem keeps_handle (now : ℚ) {m : Message} {mac : String} (hmac : m.request.mac = some mac) :
    Keeps (m.handle now) (OfAgent Canonical) := by
  cases m with
  | postAuth request =>
    refine Keeps.then (keeps_ite ?_ ?_) fun _ => keeps_pure _
    · exact Keeps.then (keeps_seen now hmac) fun _ => keeps_pure _
    · exact Keeps.then (keeps_getAssignments now hmac) fun _ => keeps_pure _
  | accounting request =>
    exact keeps_ite (keeps_endMac now request) (keeps_ite (keeps_seen now hmac) (keeps_pure _))

/-! ## No MAC -/

theorem not_macValue_none : ¬ MacValue .none := by
  rintro ⟨mac, -, h⟩
  cases h

/-- The pipeline that ends the session of no MAC finds nothing to remove. -/
theorem endPipe_none {w : Session.World} (h : CanonicalSessions w) :
    Session.execute (Session.endPipe w .none .none .none) w =
      ([.id none, .count 0, .count 0, .count 0], w) := by
  have id : w.sessionIds.lookup (Obj.mac .none).field = none := by
    by_contra present
    obtain ⟨o, owner, same⟩ := h.sessionIds _ present
    exact field_ne owner (x := .mac .none) rfl same
  have score : w.lastSeen.lookup (.mac .none) = none := by
    by_contra present
    exact not_macValue_none (h.lastSeen _ present)
  have vlans : w.sets (Session.macVlansPath .none) = [] := by
    by_contra present
    exact indexKey_ne (h.sets _ present) rfl
  have kept : w.setMembers (Session.macVlansPath .none) [] = w := by
    rw [Session.World.setMembers, ← vlans, Function.update_eq_self]
  have noId : (Obj.mac .none).field ∉ w.sessionIds.keys := AList.lookup_eq_none.mp id
  have noScore : Obj.mac .none ∉ w.lastSeen.keys := AList.lookup_eq_none.mp score
  simp [Session.endPipe, Session.vlansPipe, Session.Cmd.exec, Session.counted, id, vlans, noId,
    noScore, erase_absent id, erase_absent score, kept]

theorem endSession_none (now : ℚ) {w : Session.World} (h : CanonicalSessions w) :
    ((Session.endSession now .none .none .none none).run handler w).2 = w := by
  rw [Session.endSession_run now (.inl rfl), endPipe_none h]
  rfl

/-- A call that raises before anything is stored. -/
def RaisesEarly {α : Type} (x : Handling α) (w : World) : Prop :=
  ∃ failure snmp, exec x w = (.error failure, { w with snmp := snmp })

theorem RaisesEarly.bind {α β : Type} {x : Handling α} {w : World} (h : RaisesEarly x w)
    (f : α → Handling β) : RaisesEarly (x >>= f) w := by
  obtain ⟨failure, snmp, ran⟩ := h
  exact ⟨failure, snmp, exec_bind_error ran⟩

theorem raisesEarly_locating {request : Request} {w : World} {e : Error}
    (raises : (exec (locate request) w.snmp).1 = .error e) :
    RaisesEarly (locating (locate request)) w := by
  refine ⟨.locating e, (exec (locate request) w.snmp).2, ?_⟩
  simp [locating, raises, Except.mapError]

theorem raisesEarly_postAuth (now : ℚ) {request : Request} {w : World} {e : Error}
    (raises : (exec (locate request) w.snmp).1 = .error e) :
    RaisesEarly (postAuth now request) w := by
  have located := raisesEarly_locating raises
  unfold postAuth
  split_ifs with reject
  · exact (located.bind _).bind _
  · exact (located.bind _).bind _

theorem keeps_endMac_none (now : ℚ) {request : Request} {agent : Nac.World}
    (hmac : request.mac = none) (h : Canonical agent) :
    Keeps (endMac now request) (OfAgent (· = agent)) := by
  refine (keeps_locating _ _).bind (returns_locating (returns_callingMac request)) ?_
  rintro _ rfl
  rw [hmac]
  refine Keeps.then ?_ fun _ => keeps_pure _
  rintro w rfl
  simp only [OfAgent, authorizing, exec_raiseAs, exec_zoom, exec_ofRun, Nac.exec_onSessions]
  exact congrArg w.agent.setSession (endSession_none now h.session)

/-- A message without a MAC changes nothing that the agent stores. -/
theorem handle_none (now : ℚ) {m : Message} {w : World} (hmac : m.request.mac = none)
    (recognised : Recognised w m) (h : Canonical w.agent) :
    (w.handle (now, m)).agent = w.agent := by
  have raises (sees : m.Sees) : ∃ e, (exec (locate m.request) w.snmp).1 = .error e :=
    (recognised sees).resolve_left (absurd hmac)
  cases m with
  | postAuth request =>
    obtain ⟨e, raises⟩ := raises trivial
    obtain ⟨failure, snmp, ran⟩ := (raisesEarly_postAuth now raises).bind fun _ => pure ()
    exact congrArg (fun result => result.2.agent) ran
  | accounting request =>
    simp only [World.handle, Message.handle, accounting]
    split_ifs with stop sees
    · exact keeps_endMac_none now hmac h w rfl
    · obtain ⟨e, raises⟩ := raises sees
      obtain ⟨failure, snmp, ran⟩ := (raisesEarly_locating raises).bind fun located =>
        sessionSeen now located.1 located.2
      exact congrArg (fun result => result.2.agent) ran
    · rfl

/-! ## Runs -/

theorem handle_canonical {now : ℚ} {m : Message} {w : World} (recognised : Recognised w m)
    (h : Canonical w.agent) : Canonical (w.handle (now, m)).agent := by
  cases hmac : m.request.mac with
  | none =>
    rw [handle_none now hmac recognised h]
    exact h
  | some mac => exact keeps_handle now hmac w h

/-- Every message is recognised in the world in which it is handled. -/
def AllRecognised (w : World) (messages : List (ℚ × Message)) : Prop :=
  ∀ before m, before ++ [m] <+: messages → Recognised (w.run before) m.2

theorem run_canonical {w : World} (start : Canonical w.agent) {messages : List (ℚ × Message)}
    (recognised : AllRecognised w messages) : ∀ before, before <+: messages →
      Canonical (w.run before).agent := by
  intro before
  induction before using List.reverseRecOn with
  | nil => exact fun _ => start
  | append_singleton before m ih =>
    intro reached
    rw [World.run_append_singleton]
    exact handle_canonical (recognised before m reached)
      (ih ((List.prefix_append before [m]).trans reached))

/-- From empty stores, while every message that sees a device has a recognisable MAC, every
MAC that is a key is canonical, and a message without a MAC changes nothing. -/
theorem macs_canonical (snmp : Snmp.World) (answers : Nat → Option Nac.NetworkAssignments)
    (messages : List (ℚ × Message)) (recognised : AllRecognised (.start snmp answers) messages) :
    (∀ before, before <+: messages → Canonical ((World.start snmp answers).run before).agent) ∧
    ∀ before m, before ++ [m] <+: messages → m.2.request.mac = none →
      ((World.start snmp answers).run (before ++ [m])).agent =
        ((World.start snmp answers).run before).agent := by
  have reached := run_canonical (canonical_empty answers) recognised
  refine ⟨reached, fun before m hm hmac => ?_⟩
  rw [World.run_append_singleton]
  exact handle_none m.1 hmac (recognised before m hm)
    (reached before ((List.prefix_append before [m]).trans hm))

theorem allRecognised_of_mac {w : World} {messages : List (ℚ × Message)}
    (recognisable : ∀ m ∈ messages, m.2.Sees → m.2.request.mac ≠ none) :
    AllRecognised w messages := by
  intro before m reached sees
  exact .inl (recognisable m (reached.subset (by simp)) sees)

/-- An accounting message of the switch with one port. -/
def accountingMessage (status : String) : Message :=
  .accounting (portRequest.set "Acct-Status-Type" (.one status))

/-- One device starts and a second one, without a MAC, stops. -/
def startAndStop : List (ℚ × Message) :=
  [(0, .accounting ((portRequest.set "Acct-Status-Type" (.one "Start")).set "Calling-Station-Id"
    (.one "00-11-22-AA-BB-CC"))), (10, accountingMessage "Stop")]

theorem macs_canonical_startAndStop :
    let start := World.start oneSwitch fun _ => none
    (∀ before, before <+: startAndStop → Canonical (start.run before).agent) ∧
    ∀ before m, before ++ [m] <+: startAndStop → m.2.request.mac = none →
      (start.run (before ++ [m])).agent = (start.run before).agent := by
  refine macs_canonical oneSwitch (fun _ => none) startAndStop (allRecognised_of_mac fun m hm => ?_)
  simp only [startAndStop, List.mem_cons, List.not_mem_nil, or_false] at hm
  rcases hm with rfl | rfl
  · exact fun _ => by decide +kernel
  · exact fun sees => absurd sees (by unfold Message.Sees accountingMessage; decide +kernel)

/-- A device without a MAC starts. Its session is stored under `None`. -/
theorem start_stores_none :
    let start := World.start oneSwitch fun _ => none
    let after := start.run [(0, accountingMessage "Start")]
    (accountingMessage "Start").request.mac = none ∧
    ¬ Canonical after.agent ∧ after.agent ≠ start.agent := by
  have stored : ((World.start oneSwitch fun _ => none).run
      [(0, accountingMessage "Start")]).agent.session.lastSeen.lookup (.mac .none) = some 0 := by
    decide +kernel
  refine ⟨by decide +kernel, fun canonical => ?_, fun same => ?_⟩
  · exact not_macValue_none (canonical.session.lastSeen (.mac .none) (by simp [stored]))
  · rw [same] at stored
    cases stored

end ElanAgent.Radius
