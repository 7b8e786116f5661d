import ElanAgent.Library.Text
import ElanAgent.Nac.Events
import ElanAgent.Radius.Handlers
import ElanAgent.Radius.LocalIds

/-!
# The MACs under which requests are kept

A MAC comes into the stores by the key of a command. All commands of a handler have the MAC
that `extract_mac` has found, which is canonical if there is one. What is read and removed
adds no key.
-/

namespace ElanAgent.Radius

open Atomic Raising Redis
open Session (Obj Port handler)

/-- A canonical MAC, as a value. -/
def MacValue (v : Value) : Prop := ∃ mac, IsMac mac ∧ v = .str mac

/-- The key of an index of a canonical MAC, or of a port of a request. -/
def IndexKey (key : String) : Prop :=
  (∃ mac : String, IsMac mac ∧
    (key = Session.macVlansPath mac ∨ ∃ vlan, key = Session.macVlanIpsPath mac vlan)) ∨
  ∃ port, TextId port ∧ key = Session.portMacsPath port

/-- Every MAC that is a key of the sessions and their authentications is canonical. -/
structure CanonicalSessions (w : Session.World) : Prop where
  lastSeen : ∀ o, w.lastSeen.lookup o ≠ none → MacValue o.owner
  sessionIds : ∀ f, w.sessionIds.lookup f ≠ none → ∃ o : Obj, MacValue o.owner ∧ o.field = f
  macPort : ∀ f, w.macPort.lookup f ≠ none → IsMac f
  macLastPort : ∀ f, w.macLastPort.lookup f ≠ none → IsMac f
  sets : ∀ key, w.sets key ≠ [] → IndexKey key
  authentication : ∀ key, w.authentication key ≠ [] →
    ∃ mac : String, IsMac mac ∧ key = Session.macAuthSessionPath mac

/-- And so is every MAC that is a key of the authorizations. -/
structure Canonical (w : Nac.World) : Prop where
  session : CanonicalSessions w.session
  sessions : ∀ mac, w.sessions.lookup mac ≠ none → IsMac mac
  expiry : ∀ mac, w.expiry.lookup mac ≠ none → IsMac mac

/-! ## Commands -/

/-- The command adds no key but canonical ones. -/
def CanonicalCmd : Session.Cmd → Prop
  | .zadd _ obj => MacValue obj.owner
  | .hset field _ => ∃ o : Obj, MacValue o.owner ∧ o.field = field
  | .sadd key _ => IndexKey key
  | .hsetPort mac _ | .hsetLastPort mac _ => MacValue mac
  | _ => True

/-- The operation adds no key but canonical ones. -/
def CanonicalOp : Session.Op → Prop
  | .execute pipe => ∀ c ∈ pipe, CanonicalCmd c
  | .saddAuth key _ => ∃ mac : String, IsMac mac ∧ key = Session.macAuthSessionPath mac
  | _ => True

variable {w : Session.World}

theorem setMembers_sets_ne {key k : String} {l : List Value} (h : CanonicalSessions w)
    (hkey : l ≠ [] → IndexKey key) (hk : (w.setMembers key l).sets k ≠ []) : IndexKey k := by
  rw [Session.setMembers_sets] at hk
  split at hk
  · subst k
    exact hkey hk
  · exact h.sets k hk

theorem canonical_exec {c : Session.Cmd} (hc : CanonicalCmd c) (h : CanonicalSessions w) :
    CanonicalSessions (c.exec w).2 := by
  obtain ⟨lastSeen, sessionIds, macPort, macLastPort, sets, authentication⟩ := id h
  cases c with
  | zadd score obj =>
    have lastSeen := fields_insert (P := fun o : Obj => MacValue o.owner) hc lastSeen score
    exact ⟨lastSeen, sessionIds, macPort, macLastPort, sets, authentication⟩
  | zrem obj =>
    have lastSeen := fields_erase lastSeen obj
    exact ⟨lastSeen, sessionIds, macPort, macLastPort, sets, authentication⟩
  | hset field id =>
    have sessionIds :=
      fields_insert (P := fun f => ∃ o : Obj, MacValue o.owner ∧ o.field = f) hc sessionIds id
    exact ⟨lastSeen, sessionIds, macPort, macLastPort, sets, authentication⟩
  | hget field => exact h
  | hdel field =>
    have sessionIds := fields_erase sessionIds field
    exact ⟨lastSeen, sessionIds, macPort, macLastPort, sets, authentication⟩
  | sadd key member =>
    refine ⟨lastSeen, sessionIds, macPort, macLastPort, fun k hk => ?_, authentication⟩
    exact setMembers_sets_ne h (fun _ => hc) hk
  | srem key member =>
    refine ⟨lastSeen, sessionIds, macPort, macLastPort, fun k hk => ?_, authentication⟩
    refine setMembers_sets_ne h (fun left => sets key fun empty => left ?_) hk
    rw [empty, List.filter_nil]
  | delete key =>
    refine ⟨lastSeen, sessionIds, macPort, macLastPort, fun k hk => ?_, authentication⟩
    exact setMembers_sets_ne h (absurd rfl) hk
  | hsetPort mac port =>
    obtain ⟨mac, canonical, rfl⟩ := hc
    have macPort := fields_insert (P := IsMac) canonical macPort port
    exact ⟨lastSeen, sessionIds, macPort, macLastPort, sets, authentication⟩
  | hsetLastPort mac port =>
    obtain ⟨mac, canonical, rfl⟩ := hc
    have macLastPort := fields_insert (P := IsMac) canonical macLastPort port
    exact ⟨lastSeen, sessionIds, macPort, macLastPort, sets, authentication⟩
  | hdelPort mac =>
    have macPort := fields_erase macPort mac.format
    exact ⟨lastSeen, sessionIds, macPort, macLastPort, sets, authentication⟩

theorem canonical_execute {pipe : List Session.Cmd} (hp : ∀ c ∈ pipe, CanonicalCmd c)
    (h : CanonicalSessions w) : CanonicalSessions (Session.execute pipe w).2 := by
  induction pipe generalizing w with
  | nil => exact h
  | cons c pipe ih =>
    exact ih (fun d hd => hp d (List.mem_cons_of_mem _ hd))
      (canonical_exec (hp c List.mem_cons_self) h)

theorem canonical_handler {o : Session.Op} (ho : CanonicalOp o) (h : CanonicalSessions w) :
    CanonicalSessions (handler o w).2 := by
  obtain ⟨lastSeen, sessionIds, macPort, macLastPort, sets, authentication⟩ := id h
  cases o with
  | execute pipe => exact canonical_execute ho h
  | saddAuth key session =>
    refine ⟨lastSeen, sessionIds, macPort, macLastPort, sets, fun k hk => ?_⟩
    by_cases same : k = key
    · exact same ▸ ho
    · exact authentication k (by simpa [handler, same] using hk)
  | sremAuth key session =>
    refine ⟨lastSeen, sessionIds, macPort, macLastPort, sets, fun k hk => authentication k ?_⟩
    by_cases same : k = key
    · subst same
      intro empty
      simp [handler, empty] at hk
    · simpa [handler, same] using hk
  | publish message => exact ⟨lastSeen, sessionIds, macPort, macLastPort, sets, authentication⟩
  | getUniqueId => exact ⟨lastSeen, sessionIds, macPort, macLastPort, sets, authentication⟩
  | _ => exact h

theorem canonical_of_only {α : Type} {p : Prog Session.synapse α} (hp : p.Only CanonicalOp)
    (h : CanonicalSessions w) : CanonicalSessions (p.run handler w).2 :=
  hp.run (fun _ _ ho hs => canonical_handler ho hs) h

theorem canonicalOp_of_issues {o : Session.Op} (h : o.Issues CanonicalCmd) : CanonicalOp o := by
  cases o with
  | saddAuth key session => exact h.elim
  | _ => exact h

/-! ## Calls on the sessions -/

theorem canonical_endSession (now : ℚ) (mac : Value) (time : Option ℚ)
    (h : CanonicalSessions w) :
    CanonicalSessions ((Session.endSession now mac .none .none time).run handler w).2 := by
  rw [Session.endSession_run now (.inl rfl)]
  refine canonical_of_only ((Session.endNotify_issues _ _ _ _ _ _ trivial fun _ => trivial).imp
    fun _ => canonicalOp_of_issues) (canonical_execute (fun c hc => ?_) h)
  have removes := Session.removes_endPipe w mac .none .none c hc
  cases c with
  | zadd | hset | sadd | hsetPort | hsetLastPort => exact removes.elim
  | _ => trivial

/-- `seen` on a canonical MAC, on no VLAN. -/
theorem canonical_seen (now : ℚ) {mac : Value} (hmac : MacValue mac) {port : Option Port}
    (hport : ∀ p ∈ port, TextId p) (h : CanonicalSessions w) :
    CanonicalSessions ((Session.seen now mac .none port .none none).run handler w).2 := by
  simp only [Session.seen, Session.seenTouch, Prog.run_bind, Session.run_pipeExecute]
  rw [Session.seenPort_run]
  dsimp only
  have before : CanonicalSessions (if Session.Moves w mac port then
      ((Session.endSession now mac .none .none none).run handler w).2 else w) := by
    split
    · exact canonical_endSession now mac none h
    · exact h
  refine canonical_of_only ((Session.seenAllocate_issues _ _ _ _ _ _ _ _ _ _ (fun id c hc => ?_)
    ?_).imp fun _ => canonicalOp_of_issues) (canonical_execute (fun c hc => ?_) before)
  · obtain ⟨f, rfl⟩ | ⟨o, owner, rfl⟩ := Session.idsPipe_fields hc
    · trivial
    · exact ⟨o, owner ▸ hmac, rfl⟩
  · rintro c ⟨new, merged, hc⟩
    simp only [List.mem_cons, List.not_mem_nil, or_false] at hc
    rcases hc with rfl | rfl | rfl
    · exact hmac
    · exact hmac
    · obtain ⟨p, rfl⟩ : ∃ p, port = some p :=
        Option.ne_none_iff_exists'.mp fun absent => by simp [absent, Session.World.merge] at merged
      obtain ⟨q, hq, same⟩ := Session.merge_localId mac p w
      obtain rfl := Option.some.inj (hq.symm.trans merged)
      obtain ⟨id, text⟩ := hport p rfl
      exact .inr ⟨q, ⟨id, same.trans text⟩, rfl⟩
  · obtain rfl := List.mem_singleton.mp hc
    exact hmac

/-! ## Calls on the authentications -/

theorem canonical_removeWhere (key : String) (test : Session.AuthSession → Bool)
    (h : CanonicalSessions w) :
    CanonicalSessions ((Session.removeWhere key test).run handler w).2 := by
  refine canonical_of_only
    (.op trivial fun listed => Session.only_each (fun session => ?_) listed) h
  split
  · exact Session.only_op trivial
  · exact .done _

theorem canonical_addAuthentication (now : ℚ) {mac : String} (hmac : IsMac mac)
    (session : Session.AuthSession) (h : CanonicalSessions w) :
    CanonicalSessions
      ((Session.addAuthenticationSession now mac session).run handler w).2 := by
  rw [Session.addAuthenticationSession, Prog.run_bind]
  refine canonical_of_only (Session.only_op ?_) (canonical_removeWhere _ _ h)
  exact ⟨mac, hmac, rfl⟩

/-! ## Calls on the authorizations -/

/-- A call that leaves the stores canonical if they are. -/
def CallKeeps {α : Type} (p : Nac.Call α) : Prop := ∀ w, Canonical w → Canonical (p.exec w).2

section Rules

variable {α β : Type}

theorem callKeeps_bind {p : Nac.Call α} {f : α → Nac.Call β} (hp : CallKeeps p)
    (hf : ∀ a, CallKeeps (f a)) : CallKeeps (p >>= f) := by
  intro w h
  rw [Nac.exec_bind]
  cases (p.exec w).1 with
  | ok a => exact hf a _ (hp w h)
  | error e => exact hp w h

theorem callKeeps_pure (a : α) : CallKeeps (pure a) := fun _ h => h

theorem callKeeps_throw (e : Nac.Error) : CallKeeps (throw e : Nac.Call α) := fun _ h => h

theorem keeps_onSessions {p : Prog Session.synapse α}
    (hp : ∀ w, CanonicalSessions w → CanonicalSessions (p.run handler w).2) :
    CallKeeps (Nac.onSessions p) := by
  intro w h
  rw [Nac.exec_onSessions]
  exact ⟨hp w.session h.session, h.sessions, h.expiry⟩

end Rules

open Nac (overridden)
open Nac.RedisMacAuthorization (deleteByMac getByMac ofAssignments)

section Authorizations

variable {mac : String}

theorem keeps_getByMac (mac : String) : CallKeeps (getByMac mac) := by
  intro w h
  rw [Nac.exec_getByMac]
  exact h

theorem keeps_deleteByMac (mac : String) : CallKeeps (deleteByMac mac) := by
  intro w h
  rw [Nac.exec_deleteByMac]
  exact ⟨h.session, fields_erase h.sessions mac, fields_erase h.expiry mac⟩

/-- An operation on the authorizations that is not a pipeline. -/
theorem keeps_plain {o : Nac.Op} (ho : o.Plain) : CallKeeps (Nac.perform o) := by
  intro w h
  cases o with
  | execute | session => exact ho.elim
  | _ => exact ⟨h.session, h.sessions, h.expiry⟩

theorem keeps_storeAuthz (now : ℚ) (hmac : IsMac mac) (a : Nac.Assignments) :
    CallKeeps (Nac.storeAuthz now mac (ofAssignments mac a)) := by
  intro w h
  obtain ⟨published, -, stored⟩ := Nac.exec_storeAuthz w now mac a
  rw [stored]
  exact ⟨h.session, fields_insert hmac h.sessions _, fields_insert hmac h.expiry _⟩

theorem keeps_notifyEnd (now : ℚ) (authz : Nac.RedisMacAuthorization) (reason : String) :
    CallKeeps (Nac.notifyEndAuthorizationSession now authz reason) := keeps_plain trivial

theorem keeps_settleAuthz (now : ℚ) (hmac : IsMac mac) (reason : String)
    (assignments : Nac.NetworkAssignments) (oldAuthz : Option Nac.RedisMacAuthorization) :
    CallKeeps (Nac.settleAuthz now mac reason assignments oldAuthz) := by
  cases assignments with
  | malformed => exact callKeeps_throw _
  | none =>
    refine callKeeps_bind ?_ fun _ => callKeeps_pure _
    cases oldAuthz with
    | none => exact callKeeps_pure _
    | some old =>
      exact callKeeps_bind (keeps_deleteByMac mac) fun _ =>
        callKeeps_bind (keeps_plain trivial) fun _ => keeps_notifyEnd _ _ _
  | granted a =>
    dsimp only [Nac.settleAuthz]
    split
    · exact callKeeps_pure _
    · refine callKeeps_bind (callKeeps_bind ?_ fun _ => keeps_storeAuthz now hmac a)
        fun _ => callKeeps_pure _
      cases oldAuthz with
      | none => exact callKeeps_pure _
      | some old => exact callKeeps_bind (keeps_deleteByMac mac) fun _ => keeps_notifyEnd _ _ _

theorem keeps_removeSource (mac : String) (source : Option String) :
    CallKeeps (Nac.removeSource mac source) := by
  cases source with
  | none => exact callKeeps_pure _
  | some source => exact keeps_onSessions fun _ => canonical_removeWhere _ _

theorem keeps_getNetworkAssignments (now : ℚ) (mac : String) :
    CallKeeps (Nac.getNetworkAssignments now mac) := by
  refine callKeeps_bind (keeps_onSessions fun w h => ?_) fun sessions => ?_
  · rw [Session.getAuthenticationSessions, Prog.run_bind]
    exact canonical_of_only (Session.only_op trivial) (canonical_removeWhere _ _ h)
  · refine callKeeps_bind (keeps_onSessions fun w h => h) fun port => ?_
    refine callKeeps_bind (keeps_plain trivial) fun answer => ?_
    cases answer with
    | some assignments => exact callKeeps_pure _
    | none => exact callKeeps_throw _

theorem keeps_checkAuthz (now : ℚ) (hmac : IsMac mac) (source : Option String) (reason : String) :
    CallKeeps (Nac.checkAuthz now mac source reason) :=
  callKeeps_bind (keeps_removeSource mac source) fun _ =>
    callKeeps_bind (keeps_getNetworkAssignments now mac) fun assignments =>
      callKeeps_bind (keeps_getByMac mac) fun oldAuthz =>
        keeps_settleAuthz now hmac reason assignments oldAuthz

theorem keeps_newAuthz (now : ℚ) (hmac : IsMac mac) (noDuplicateSource : Bool)
    (session : Session.AuthSession) : CallKeeps (Nac.newAuthz now mac noDuplicateSource session) :=
  callKeeps_bind (keeps_removeSource mac _) fun _ =>
    callKeeps_bind (keeps_onSessions fun _ => canonical_addAuthentication now hmac session) fun _ =>
      keeps_checkAuthz now hmac none overridden

end Authorizations

/-! ## Requests -/

/-- The MAC at the beginning of a text. -/
def recognise : Value → Option String
  | .str text => macOf text
  | _ => none

/-- The recognisable MAC of a request. -/
def Request.mac (request : Request) : Option String :=
  recognise (request.attribute "Calling-Station-Id")

theorem isMac_of_mac {request : Request} {mac : String} (h : request.mac = some mac) :
    IsMac mac := by
  unfold Request.mac recognise at h
  split at h
  · exact isMac_of_macOf h
  · cases h

theorem exec_callingMac (request : Request) (s : Snmp.World) :
    exec (callingMac request) s = (.ok request.mac, s) ∨
      ∃ e, exec (callingMac request) s = (.error e, s) := by
  unfold callingMac extractMac extract Request.mac recognise
  cases request.attribute "Calling-Station-Id" with
  | none => exact .inl rfl
  | int n =>
    by_cases zero : n = 0
    · subst zero
      exact .inl rfl
    · right
      simp only [if_neg zero]
      exact ⟨_, rfl⟩
  | str text =>
    left
    by_cases empty : text = ""
    · subst empty
      rfl
    · simp only [if_neg empty]
      rfl

theorem returns_callingMac (request : Request) :
    Returns (callingMac request) fun mac => mac = request.mac := by
  intro s mac h
  rcases exec_callingMac request s with ran | ⟨e, ran⟩
  · rw [ran] at h
    exact (Except.ok.inj h).symm
  · rw [ran] at h
    cases h

theorem returns_locate (request : Request) : Returns (locate request) fun located =>
    located.1 = request.mac ∧ ∀ p ∈ located.2, TextId p :=
  (returns_callingMac request).bind fun _ hmac => (returns_findPort request).bind fun _ hport =>
    returns_pure ⟨hmac, hport⟩

theorem returns_locating {α : Type} {x : Act α} {P : α → Prop} (h : Returns x P) :
    Returns (locating x) P := by
  refine Returns.raiseAs (fun w a ha => ?_) _
  exact h w.snmp a ha

/-- The stores of the agent satisfy `I`. -/
def OfAgent (I : Nac.World → Prop) (w : World) : Prop := I w.agent

theorem keeps_locating {α : Type} (x : Act α) (I : Nac.World → Prop) :
    Keeps (locating x) (OfAgent I) := fun _ h => h

theorem keeps_authorizing {α : Type} {x : Nac.Call α} (h : CallKeeps x) :
    Keeps (authorizing x) (OfAgent Canonical) := fun w hw => h w.agent hw

theorem keeps_sessionSeen (now : ℚ) {mac : Option String} (hmac : MacValue (macValue mac))
    {port : Option Port} (hport : ∀ p ∈ port, TextId p) :
    Keeps (sessionSeen now mac port) (OfAgent Canonical) := by
  refine Keeps.then (keeps_authorizing (keeps_onSessions fun w h => ?_)) fun _ => keeps_pure _
  exact canonical_seen now hmac hport h

section Recognised

variable (now : ℚ) {request : Request} {mac : String} (hmac : request.mac = some mac)

include hmac

theorem keeps_seen : Keeps (seen now request) (OfAgent Canonical) := by
  refine (keeps_locating _ _).bind (returns_locating (returns_locate request)) ?_
  rintro ⟨found, port⟩ ⟨rfl, hport⟩
  refine keeps_sessionSeen now ?_ hport
  rw [hmac]
  exact ⟨mac, isMac_of_mac hmac, rfl⟩

theorem keeps_getAssignments : Keeps (getAssignments now request) (OfAgent Canonical) := by
  have canonical := isMac_of_mac hmac
  refine (keeps_locating _ _).bind (returns_locating (returns_locate request)) ?_
  rintro ⟨found, port⟩ ⟨rfl, hport⟩
  rw [hmac]
  refine Keeps.then (keeps_sessionSeen now ⟨mac, canonical, rfl⟩ hport) fun _ => ?_
  refine Keeps.then ?_ fun authz => ?_
  · unfold authorize
    refine keeps_ite (keeps_authorizing (keeps_checkAuthz now canonical none overridden)) ?_
    exact keeps_ite (keeps_authorizing (keeps_newAuthz now canonical true _)) (keeps_throw _)
  · cases authz with
    | some authz => exact keeps_pure _
    | none => exact keeps_throw _

end Recognised

theorem keeps_endMac (now : ℚ) (request : Request) :
    Keeps (endMac now request) (OfAgent Canonical) := by
  refine (keeps_locating _ _).then fun mac => Keeps.then ?_ fun _ => keeps_pure _
  exact keeps_authorizing (keeps_onSessions fun w h => canonical_endSession now _ none h)

/-! ## No MAC -/

theorem isMac_head {mac : String} (h : IsMac mac) :
    ∃ c rest, mac.toList = c :: rest ∧ isLowerHex c := by
  obtain ⟨groups, length, digits, text⟩ := h
  obtain ⟨g, groups, rfl⟩ := List.exists_cons_of_length_pos (l := groups) (by omega)
  obtain ⟨pair, lower⟩ := digits g List.mem_cons_self
  obtain ⟨c, d, rfl⟩ := List.length_eq_two.mp pair
  refine ⟨c, ?_, ?_, lower c (by simp)⟩
  · exact (mac.toList).tail
  · rw [text]
    cases groups <;> simp [List.intercalate]

/-- A text with `None` where another has a canonical MAC. -/
theorem text_ne_of {start text text' : String} {mac rest rest' : String} (hmac : IsMac mac)
    (h : text = start ++ mac ++ rest) (h' : text' = start ++ "None" ++ rest') : text ≠ text' := by
  obtain ⟨c, tail, head, lower⟩ := isMac_head hmac
  have ne : c ≠ 'N' := by
    rintro rfl
    exact absurd lower (by decide)
  have split : text.toList = start.toList ++ c :: (tail ++ rest.toList) := by simp [h, head]
  have split' : text'.toList = start.toList ++ 'N' :: (['o', 'n', 'e'] ++ rest'.toList) := by
    simp [h']
  exact fun same => text_ne split split' ne (congrArg String.toList same)

theorem field_eq (o : Obj) : ∃ rest, o.field = "mac=" ++ o.owner.format ++ rest := by
  have text (mac vlan ip : Value) :
      ∃ rest, Session.sessionIdsField mac vlan ip = "mac=" ++ mac.format ++ rest := by
    unfold Session.sessionIdsField
    split_ifs
    · exact ⟨",vlan=" ++ vlan.format ++ ",ip=" ++ ip.format, by simp [String.append_assoc]⟩
    · exact ⟨",vlan=" ++ vlan.format, by simp [String.append_assoc]⟩
    · exact ⟨"", by simp⟩
  cases o <;> exact text _ _ _

/-- No canonical MAC has the field of an object without a MAC. -/
theorem field_ne {o x : Obj} (ho : MacValue o.owner) (hx : x.owner = .none) :
    o.field ≠ x.field := by
  obtain ⟨mac, canonical, owner⟩ := ho
  obtain ⟨rest, text⟩ := field_eq o
  obtain ⟨rest', text'⟩ := field_eq x
  rw [owner] at text
  rw [hx] at text'
  exact text_ne_of canonical text text'

theorem exists_digit (id : Nat) : ∃ d ds, (toString id).toList = d :: ds ∧ d.isDigit := by
  have digits : (toString id).toList ≠ [] := by
    simp [Nat.toString_eq_repr]
  obtain ⟨d, ds, head⟩ := List.exists_cons_of_ne_nil digits
  refine ⟨d, ds, head, isDigit_of_mem_decimal (n := id) ?_⟩
  rw [decimal, head]
  exact List.mem_cons_self

/-- No index of a canonical MAC or of a port is that of the VLANs of no MAC. -/
theorem indexKey_ne {key : String} (h : IndexKey key) : key ≠ Session.macVlansPath .none := by
  rcases h with ⟨mac, canonical, rfl | ⟨vlan, rfl⟩⟩ | ⟨port, ⟨id, localId⟩, rfl⟩
  · exact text_ne_of canonical rfl rfl
  · have text : Session.macVlanIpsPath mac vlan =
        "device:mac:" ++ mac ++ (":vlan:" ++ vlan.format ++ ":ips") := by
      simp [Session.macVlanIpsPath, Value.format, String.append_assoc]
    exact text_ne_of canonical text rfl
  · obtain ⟨d, ds, head, digit⟩ := exists_digit id
    have ne : d ≠ 'm' := by
      rintro rfl
      exact absurd digit (by decide)
    have split : (Session.portMacsPath port).toList = "device:".toList ++
        d :: (ds ++ (":port:" ++ port.interface.format).toList) := by
      simp only [Session.portMacsPath, localId, Value.format, String.toList_append, head,
        List.append_assoc, List.cons_append]
    have split' : (Session.macVlansPath .none).toList =
        "device:".toList ++ 'm' :: "ac:None:vlans".toList := by
      decide +kernel
    exact fun same => text_ne split split' ne (congrArg String.toList same)

end ElanAgent.Radius
