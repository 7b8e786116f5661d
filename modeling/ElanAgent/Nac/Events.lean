import ElanAgent.Nac.Expiry

/-!
# What a call does to the authorizations

A call that nothing disturbs removes stored authorizations, announcing the end of each,
and stores granted ones, announcing their start; it does nothing else to them. `Event`
says so for one of these, `History` for a whole call. The parameters of an event bound
the devices that may be granted an authorization and the removals that may happen.
-/

namespace ElanAgent.Nac

open Atomic Redis Session RedisMacAuthorization MacAuthorizationManager

/-- The authorization stored for `mac`. -/
def World.stored (w : World) (mac : String) : Option RedisMacAuthorization :=
  (w.sessions.lookup mac).map ofSerialized

/-- No authorization was touched and nothing was said about one. -/
structure Quiet (w w' : World) : Prop where
  sessions : w'.sessions = w.sessions
  sequence : w'.sequence = w.sequence
  published : w'.published = w.published
  answers : w'.answers = w.answers

/-- The start of the authorization can be announced, and the announcement does not read
as an end. -/
def Assignments.Plain (a : Assignments) : Prop :=
  (∀ e ∈ a.rest, e.1 ≠ "start" ∧ e.1 ≠ "end") ∧ ∀ till, a.till = some till → representable till

/-- The authorization that the control center grants, under the next id. -/
def World.granted (w : World) (mac : String) (a : Assignments) : RedisMacAuthorization :=
  { ofAssignments mac a with localId := some (w.sequence + 1) }

section Event

variable (grants : String → Prop) (removes : String → String → RedisMacAuthorization → Prop)

/-- One change of the stored authorizations, with its announcement. -/
inductive Event (w w' : World) : Prop where
  | quiet (h : Quiet w w')
  | remove {mac reason : String} {authz : RedisMacAuthorization} (ended : ℤ)
      (stored : w.stored mac = some authz) (allowed : removes mac reason authz)
      (sessions : w'.sessions = w.sessions.erase mac) (sequence : w'.sequence = w.sequence)
      (published : w'.published =
        w.published ++ [.ends reason ended authz.mac authz.localId])
      (answers : w'.answers = w.answers)
  | grant {mac : String} {n : Nat} {a : Assignments} (absent : w.stored mac = none)
      (answer : w.answers n = some (.granted a)) (allowed : grants mac)
      (sessions : w'.sessions = w.sessions.insert mac (w.granted mac a).serialize)
      (sequence : w'.sequence = w.sequence + 1)
      (published : (∃ start till, w'.published =
        w.published ++ [.start start { (w.granted mac a).serialize with till }]) ∨
        ¬a.Plain ∧ w'.published = w.published)
      (answers : w'.answers = w.answers)

/-- What a call does, event by event. -/
inductive History : World → World → Prop where
  | refl (w : World) : History w w
  | snoc {w w' w'' : World} (h : History w w') (e : Event grants removes w' w'') : History w w''

end Event

section Rules

variable {grants : String → Prop} {removes : String → String → RedisMacAuthorization → Prop}
variable {w w' w'' : World} {α β : Type}

theorem Quiet.history (h : Quiet w w') : History grants removes w w' := .snoc (.refl w) (.quiet h)

theorem Event.history (h : Event grants removes w w') : History grants removes w w' :=
  .snoc (.refl w) h

theorem History.trans (h : History grants removes w w') (h' : History grants removes w' w'') :
    History grants removes w w'' := by
  induction h' with
  | refl => exact h
  | snoc _ e ih => exact ih.snoc e

theorem History.bind {p : Call α} {f : α → Call β} (hp : History grants removes w (p.exec w).2)
    (hf : ∀ a, (p.exec w).1 = .ok a →
      History grants removes (p.exec w).2 ((f a).exec (p.exec w).2).2) :
    History grants removes w ((p >>= f).exec w).2 := by
  rw [exec_bind]
  cases hr : (p.exec w).1 with
  | ok a => exact hp.trans (hf a hr)
  | error e => exact hp

/-- The loop keeps what one turn keeps, if every turn has its history. -/
theorem History.each {f : α → Call Unit} {Q : World → List α → Prop}
    (step : ∀ w x l, Q w (x :: l) → History grants removes w ((f x).exec w).2 ∧
      Q ((f x).exec w).2 l) {l : List α} (hQ : Q w l) :
    History grants removes w ((Nac.each f l).exec w).2 := by
  induction l generalizing w with
  | nil => exact .refl w
  | cons x l ih =>
    obtain ⟨turn, hQ⟩ := step w x l hQ
    exact turn.bind fun _ _ => ih hQ

/-- A device that is neither granted an authorization nor deprived of one keeps its own. -/
theorem History.stored_eq (h : History grants removes w w') {mac : String} (hg : ¬grants mac)
    (hr : ∀ reason authz, ¬removes mac reason authz) : w'.stored mac = w.stored mac := by
  induction h with
  | refl => rfl
  | snoc _ e ih =>
    rw [← ih]
    cases e with
    | quiet h => simp only [World.stored, h.sessions]
    | remove _ _ allowed sessions =>
      rw [World.stored, sessions, lookup_erase_ite, if_neg]
      · rfl
      · rintro rfl
        exact hr _ _ allowed
    | grant _ _ allowed sessions =>
      rw [World.stored, sessions, lookup_insert_ite, if_neg]
      · rfl
      · rintro rfl
        exact hg allowed

/-- Every authorization is stored under its own MAC. -/
def World.Keyed (w : World) : Prop := ∀ mac authz, w.stored mac = some authz → authz.mac = mac

theorem History.keyed (h : History grants removes w w') (hw : w.Keyed) : w'.Keyed := by
  induction h with
  | refl => exact hw
  | snoc _ e ih =>
    intro mac authz stored
    cases e with
    | quiet h =>
      rw [World.stored, h.sessions] at stored
      exact ih mac authz stored
    | remove _ _ _ sessions =>
      rw [World.stored, sessions, lookup_erase_ite] at stored
      split at stored
      · cases stored
      · exact ih mac authz stored
    | grant _ _ _ sessions =>
      rw [World.stored, sessions, lookup_insert_ite] at stored
      split at stored
      · cases stored
        exact (‹mac = _›).symm
      · exact ih mac authz stored

/-- Every end that is announced is that of an authorization that was removed. -/
theorem History.said (h : History grants removes w w') : ∃ new, w'.published = w.published ++ new ∧
    ∀ reason ended mac id, .ends reason ended mac id ∈ new →
      ∃ key authz, removes key reason authz ∧ authz.mac = mac ∧ authz.localId = id := by
  induction h with
  | refl => exact ⟨[], (List.append_nil _).symm, fun _ _ _ _ h => nomatch h⟩
  | snoc _ e ih =>
    obtain ⟨new, published, removed⟩ := ih
    have snoc {v : World} {m : Notice} (hv : v.published = w.published ++ new ++ [m])
        (hm : ∀ reason ended mac id, m = .ends reason ended mac id →
          ∃ key authz, removes key reason authz ∧ authz.mac = mac ∧ authz.localId = id) :
        ∃ new, v.published = w.published ++ new ∧ ∀ reason ended mac id,
          .ends reason ended mac id ∈ new →
            ∃ key authz, removes key reason authz ∧ authz.mac = mac ∧ authz.localId = id := by
      refine ⟨new ++ [m], by rw [hv, List.append_assoc], fun reason ended mac id h => ?_⟩
      rcases List.mem_append.mp h with h | h
      · exact removed reason ended mac id h
      · exact hm reason ended mac id (List.mem_singleton.mp h).symm
    cases e with
    | quiet h => exact ⟨new, h.published.trans published, removed⟩
    | remove _ _ allowed _ _ said =>
      refine snoc (said.trans (by rw [published])) fun reason ended mac id h => ?_
      cases h
      exact ⟨_, _, allowed, rfl, rfl⟩
    | grant _ _ _ _ _ said =>
      rcases said with ⟨start, till, said⟩ | ⟨-, said⟩
      · exact snoc (said.trans (by rw [published])) fun _ _ _ _ h => by cases h
      · exact ⟨new, said.trans published, removed⟩

theorem History.mono {grants' : String → Prop}
    {removes' : String → String → RedisMacAuthorization → Prop}
    (h : History grants removes w w') (hg : ∀ mac, grants mac → grants' mac)
    (hr : ∀ mac reason authz, removes mac reason authz → removes' mac reason authz) :
    History grants' removes' w w' := by
  induction h with
  | refl => exact .refl w
  | snoc _ e ih =>
    refine ih.snoc ?_
    cases e with
    | quiet h => exact .quiet h
    | remove ended stored allowed sessions sequence published answers =>
      exact .remove ended stored (hr _ _ _ allowed) sessions sequence published answers
    | grant absent answer allowed sessions sequence published answers =>
      exact .grant absent answer (hg _ allowed) sessions sequence published answers

end Rules

/-! ## The calls -/

section Calls

variable {grants : String → Prop} {removes : String → String → RedisMacAuthorization → Prop}
variable (w : World) (now : ℚ) (mac reason : String)

@[simp] theorem exec_getByMac : (getByMac mac).exec w = (.ok (w.stored mac), w) := by
  simp only [getByMac, exec_bind, exec_hget, exec_pure]
  rfl

/-- The store without the authorization of `mac`. -/
def World.deleted (w : World) (mac : String) : World :=
  { w with expiry := w.expiry.erase mac, sessions := w.sessions.erase mac }

@[simp] theorem exec_deleteByMac :
    (deleteByMac mac).exec w = (.ok (w.stored mac), w.deleted mac) := by
  simp only [deleteByMac, exec_bind, exec_pipeExecute]
  simp only [deletePipe, execute, Cmd.exec, World.stored]
  cases w.sessions.lookup mac <;> rfl

@[simp] theorem stored_deleted (mac' : String) :
    (w.deleted mac).stored mac' = if mac' = mac then none else w.stored mac' := by
  simp only [World.stored, World.deleted, lookup_erase_ite]
  split <;> rfl

/-- The store with the authorization `authz`. -/
def World.saved (w : World) (authz : RedisMacAuthorization) : World :=
  { w with
    expiry := w.expiry.insert authz.mac authz.score
    sessions := w.sessions.insert authz.mac authz.serialize }

@[simp] theorem stored_saved (authz : RedisMacAuthorization) (mac' : String) :
    (w.saved authz).stored mac' = if mac' = authz.mac then some authz else w.stored mac' := by
  simp only [World.stored, World.saved, lookup_insert_ite]
  split
  · exact congrArg some (ofSerialized_serialize authz)
  · rfl

theorem exec_save (authz : RedisMacAuthorization) (h : authz.localId = none) :
    authz.save.exec w = (.ok { authz with localId := some (w.sequence + 1) },
      ({ w with sequence := w.sequence + 1 } : World).saved
        { authz with localId := some (w.sequence + 1) }) := by
  simp only [save, identify, h, exec_bind, exec_getUniqueId, exec_pipeExecute, exec_pure]
  rfl

/-- Asking the control center cleans the authentications of the device up. -/
theorem exec_getNetworkAssignments : (getNetworkAssignments now mac).exec w =
    ((w.answers w.asked).elim (.error .call) .ok,
      { w with
        session := ((getAuthenticationSessions now mac).run Session.handler w.session).2
        asked := w.asked + 1 }) := by
  simp only [getNetworkAssignments, exec_bind, exec_onSessions, exec_call]
  simp only [World.setSession, run_macPort]
  cases w.answers w.asked <;> rfl

@[simp] theorem exec_notifyEnd (authz : RedisMacAuthorization) :
    (notifyEndAuthorizationSession now authz reason).exec w =
      (.ok (), w.say (.ends reason (formatDate now none) authz.mac authz.localId)) := rfl

@[simp] theorem exec_authzChanged : (Nac.authzChanged mac).exec w = (.ok (), w.change mac) := rfl

theorem exec_formatTill (till : Option ℚ) :
    (∃ text, (formatTill now till).exec w = (.ok text, w)) ∨
    (formatTill now till).exec w = (.error .date, w) ∧
      ∃ t, till = some t ∧ representable t = false := by
  cases till with
  | none => exact .inl ⟨none, rfl⟩
  | some t =>
    unfold formatTill
    by_cases zero : t = 0
    · exact .inl ⟨some 0, by simp [zero]⟩
    · by_cases h : representable t = true
      · exact .inl ⟨_, by simp [zero, h]; rfl⟩
      · exact .inr ⟨by simp [zero, h], t, rfl, by simpa using h⟩

/-- The announcement is published, unless the authorization cannot be announced. -/
theorem exec_notifyNew (authz : RedisMacAuthorization) :
    (∃ start till, (notifyNewAuthorizationSession now authz).exec w =
      (.ok (), w.say (.start start { authz.serialize with till }))) ∨
    (∃ e, (notifyNewAuthorizationSession now authz).exec w = (.error e, w)) ∧
      (authz.serialize.hasKey "start" = true ∨
        ∃ t, authz.till = some t ∧ representable t = false) := by
  simp only [notifyNewAuthorizationSession, exec_bind]
  obtain ⟨text, h⟩ | ⟨h, bad⟩ := exec_formatTill w now authz.serialize.till
  · rw [h]
    dsimp only
    split
    · exact .inr ⟨⟨.type, rfl⟩, .inl ‹_›⟩
    · exact .inl ⟨_, text, rfl⟩
  · rw [h]
    exact .inr ⟨⟨.date, rfl⟩, .inr bad⟩

theorem not_plain {a : Assignments} {n : Option Nat}
    (h : ({ ofAssignments mac a with localId := n } : RedisMacAuthorization).serialize.hasKey
      "start" = true ∨ ∃ t, a.till = some t ∧ representable t = false) : ¬a.Plain := by
  rintro ⟨names, till⟩
  rcases h with clash | ⟨t, ht, bad⟩
  · obtain ⟨e, he, key⟩ := of_decide_eq_true clash
    exact (names e he).1 key
  · rw [till t ht] at bad
    cases bad

/-- Ending an authorization removes it and announces the end. -/
theorem exec_endAuthz (authz : Option RedisMacAuthorization) :
    (endAuthz now mac reason authz).exec w = (.ok (), authz.elim w fun authz =>
      (w.deleted mac).say (.ends reason (formatDate now none) authz.mac authz.localId)) := by
  cases authz with
  | none => rfl
  | some authz => simp only [endAuthz, exec_bind, exec_deleteByMac, exec_notifyEnd]; rfl

theorem history_endAuthz
    (allowed : ∀ authz, w.stored mac = some authz → removes mac reason authz) :
    History grants removes w ((endAuthz now mac reason (w.stored mac)).exec w).2 := by
  rw [exec_endAuthz]
  cases stored : w.stored mac with
  | none => exact .refl w
  | some authz =>
    exact Event.history
      (.remove (formatDate now none) stored (allowed authz stored) rfl rfl rfl rfl)

theorem stored_endAuthz (mac' : String) :
    ((endAuthz now mac reason (w.stored mac)).exec w).2.stored mac' =
      if mac' = mac then none else w.stored mac' := by
  rw [exec_endAuthz]
  cases stored : w.stored mac with
  | none =>
    split
    · exact ‹mac' = mac› ▸ stored
    · rfl
  | some authz => exact stored_deleted w mac mac'

theorem history_withdrawAuthz
    (allowed : ∀ authz, w.stored mac = some authz → removes mac "expired" authz) :
    History grants removes w ((withdrawAuthz now mac (w.stored mac)).exec w).2 := by
  cases stored : w.stored mac with
  | none => exact .refl w
  | some authz =>
    simp only [withdrawAuthz, exec_bind, exec_deleteByMac, exec_authzChanged, exec_notifyEnd]
    exact Event.history
      (.remove (formatDate now none) stored (allowed authz stored) rfl rfl rfl rfl)

/-- The authorization is stored and announced, or only stored if it cannot be announced. -/
theorem exec_storeAuthz (a : Assignments) : ∃ published,
    ((∃ start till, published =
      w.published ++ [.start start { (w.granted mac a).serialize with till }]) ∨
      ¬a.Plain ∧ published = w.published) ∧
    ((storeAuthz now mac (ofAssignments mac a)).exec w).2 =
      { (({ w with sequence := w.sequence + 1 } : World).saved (w.granted mac a)).change mac with
        published } := by
  simp only [storeAuthz, exec_bind, exec_save w (ofAssignments mac a) rfl, exec_authzChanged]
  obtain ⟨start, till, h⟩ | ⟨⟨e, h⟩, bad⟩ := exec_notifyNew
    ((({ w with sequence := w.sequence + 1 } : World).saved (w.granted mac a)).change mac) now
    (w.granted mac a)
  · unfold World.granted at h ⊢
    rw [h]
    exact ⟨_, .inl ⟨start, till, rfl⟩, rfl⟩
  · unfold World.granted at h ⊢
    rw [h]
    exact ⟨_, .inr ⟨not_plain mac bad, rfl⟩, rfl⟩

theorem history_storeAuthz {n : Nat} {a : Assignments} (absent : w.stored mac = none)
    (answer : w.answers n = some (.granted a)) (granted : grants mac) :
    History grants removes w ((storeAuthz now mac (ofAssignments mac a)).exec w).2 := by
  obtain ⟨published, said, h⟩ := exec_storeAuthz w now mac a
  rw [h]
  exact Event.history (.grant absent answer granted rfl rfl said rfl)

theorem history_settleAuthz {n : Nat} {assignments : NetworkAssignments}
    (answer : w.answers n = some assignments) (granted : grants mac)
    (replaced : ∀ a authz, assignments = .granted a → w.stored mac = some authz →
      (ofAssignments mac a).eq authz = false → removes mac reason authz)
    (withdrawn : ∀ authz, assignments = .none → w.stored mac = some authz →
      removes mac "expired" authz) :
    History grants removes w
      ((settleAuthz now mac reason assignments (w.stored mac)).exec w).2 := by
  cases assignments with
  | malformed => exact .refl w
  | none =>
    exact (history_withdrawAuthz w now mac fun authz => withdrawn authz rfl).bind
      fun _ _ => .refl _
  | granted a =>
    dsimp only [settleAuthz]
    split
    · exact .refl w
    next differs =>
      have ended : History grants removes w
          ((endAuthz now mac reason (w.stored mac)).exec w).2 := by
        refine history_endAuthz w now mac reason fun authz stored => ?_
        refine replaced a authz rfl stored ?_
        rw [stored, Option.any_some] at differs
        simpa using differs
      refine History.bind (ended.bind fun _ _ => ?_) fun _ _ => .refl _
      refine history_storeAuthz _ now mac (n := n) ?_ ?_ granted
      · rw [stored_endAuthz, if_pos rfl]
      · rw [exec_endAuthz, ← answer]
        cases w.stored mac <;> rfl


theorem exec_removeSource (source : Option String) : ∃ session,
    (removeSource mac source).exec w = (.ok (), w.setSession session) := by
  cases source with
  | none => exact ⟨w.session, rfl⟩
  | some source => exact ⟨_, exec_onSessions w _⟩

/-- The store once `checkAuthz` has its answer. -/
theorem exec_checkAuthz (source : Option String) : ∃ session,
    (checkAuthz now mac source reason).exec w =
      match w.answers w.asked with
      | some assignments => (settleAuthz now mac reason assignments (w.stored mac)).exec
          { w with session, asked := w.asked + 1 }
      | none => (.error .call, { w with session, asked := w.asked + 1 }) := by
  obtain ⟨session, h⟩ := exec_removeSource w mac source
  refine ⟨((getAuthenticationSessions now mac).run Session.handler session).2, ?_⟩
  simp only [checkAuthz, exec_bind, h, exec_getNetworkAssignments, exec_getByMac, World.setSession]
  cases w.answers w.asked <;> rfl

theorem exec_newAuthz (noDuplicateSource : Bool) (auth : AuthSession) : ∃ session,
    (newAuthz now mac noDuplicateSource auth).exec w =
      (checkAuthz now mac none overridden).exec (w.setSession session) := by
  obtain ⟨session, h⟩ := exec_removeSource w mac
    (if noDuplicateSource then some auth.source else none)
  refine ⟨((addAuthenticationSession now mac auth).run Session.handler session).2, ?_⟩
  simp only [newAuthz, exec_bind, h, exec_onSessions, World.setSession]

theorem history_checkAuthz (source : Option String) (granted : grants mac)
    (replaced : ∀ a authz, w.answers w.asked = some (.granted a) → w.stored mac = some authz →
      (ofAssignments mac a).eq authz = false → removes mac reason authz)
    (withdrawn : ∀ authz, w.answers w.asked = some .none → w.stored mac = some authz →
      removes mac "expired" authz) :
    History grants removes w ((checkAuthz now mac source reason).exec w).2 := by
  obtain ⟨session, h⟩ := exec_checkAuthz w now mac reason source
  rw [h]
  have asked : Quiet w { w with session, asked := w.asked + 1 } := ⟨rfl, rfl, rfl, rfl⟩
  cases answer : w.answers w.asked with
  | none => exact asked.history
  | some assignments =>
    refine asked.history.trans (history_settleAuthz _ now mac reason answer granted ?_ ?_)
    · rintro a authz rfl
      exact replaced a authz answer
    · rintro authz rfl
      exact withdrawn authz answer

theorem history_newAuthz (noDuplicateSource : Bool) (auth : AuthSession) (granted : grants mac)
    (replaced : ∀ a authz, w.answers w.asked = some (.granted a) → w.stored mac = some authz →
      (ofAssignments mac a).eq authz = false → removes mac overridden authz)
    (withdrawn : ∀ authz, w.answers w.asked = some .none → w.stored mac = some authz →
      removes mac "expired" authz) :
    History grants removes w ((newAuthz now mac noDuplicateSource auth).exec w).2 := by
  obtain ⟨session, h⟩ := exec_newAuthz w now mac noDuplicateSource auth
  have added : Quiet w (w.setSession session) := ⟨rfl, rfl, rfl, rfl⟩
  rw [h]
  exact added.history.trans (history_checkAuthz _ now mac _ none granted replaced withdrawn)

/-- Removing what is stored announces its end and closes the firewall. -/
theorem exec_removeAuthz : (removeAuthz now mac reason none).exec w =
    (.ok (w.stored mac), ((fwDisallowMac mac).exec
      ((endAuthz now mac reason (w.stored mac)).exec w).2).2) := by
  simp only [removeAuthz, givenOrStored, exec_bind, exec_getByMac, exec_endAuthz, fwDisallowMac,
    exec_fwAllowMac, exec_pure]

theorem removeAuthz_stored {authz : RedisMacAuthorization} (stored : w.stored mac = some authz) :
    (removeAuthz now mac reason (some authz)).exec w =
      (removeAuthz now mac reason none).exec w := by
  simp only [removeAuthz, givenOrStored, exec_bind, exec_getByMac, stored, exec_pure]

theorem history_removeAuthz
    (allowed : ∀ authz, w.stored mac = some authz → removes mac reason authz) :
    History grants removes w ((removeAuthz now mac reason none).exec w).2 := by
  rw [exec_removeAuthz]
  exact (history_endAuthz w now mac reason allowed).snoc (.quiet ⟨rfl, rfl, rfl, rfl⟩)

theorem stored_removeAuthz (mac' : String) :
    ((removeAuthz now mac reason none).exec w).2.stored mac' =
      if mac' = mac then none else w.stored mac' := by
  rw [exec_removeAuthz]
  exact stored_endAuthz w now mac reason mac'

theorem history_checkMacs (granted : ∀ mac, grants mac)
    (allowed : ∀ mac reason authz, removes mac reason authz) (macs : List String) :
    History grants removes w ((checkMacs now macs).exec w).2 := by
  refine History.each (Q := fun _ _ => True) (fun w mac l _ => ⟨?_, trivial⟩) trivial
  rw [exec_bind, exec_onSessions]
  refine History.trans (Quiet.history ⟨rfl, rfl, rfl, rfl⟩) ?_
  dsimp only
  split
  · exact (history_checkAuthz _ now mac _ none (granted mac) (fun _ _ _ _ _ => allowed ..)
      (fun _ _ _ => allowed ..)).bind fun _ _ => .refl _
  · exact .refl _

/-- Nothing is removed by checking a device that has no authorization. -/
theorem history_checkMacs_none (granted : grants mac) (absent : w.stored mac = none) :
    History grants removes w ((checkMacs now [mac]).exec w).2 := by
  refine History.bind ?_ fun _ _ => .refl _
  rw [exec_bind, exec_onSessions]
  refine History.trans (Quiet.history ⟨rfl, rfl, rfl, rfl⟩) ?_
  dsimp only
  split
  · refine (history_checkAuthz _ now mac _ none granted ?_ ?_).bind fun _ _ => .refl _
    · exact fun _ _ _ stored => nomatch absent.symm.trans stored
    · exact fun _ _ stored => nomatch absent.symm.trans stored
  · exact .refl _

theorem history_scheduleNextExpiryCheck :
    History grants removes w (scheduleNextExpiryCheck.exec w).2 := by
  refine History.bind (.refl w) fun next _ => ?_
  match next with
  | some (_, some due) => exact Quiet.history ⟨rfl, rfl, rfl, rfl⟩
  | some (_, none) | none => exact .refl _

/-- The expiry check removes what is stored for the devices whose expiry is due. -/
theorem history_checkExpiredAuthz
    (granted : ∀ mac ∈ w.expiry.rangeByScore now, grants mac)
    (allowed : ∀ mac ∈ w.expiry.rangeByScore now, ∀ authz, w.stored mac = some authz →
      removes mac "expired" authz) :
    History grants removes w ((checkExpiredAuthz now).exec w).2 := by
  refine History.bind (Quiet.history ⟨rfl, rfl, rfl, rfl⟩) fun _ _ => ?_
  refine History.bind (.refl _) fun macs listed => ?_
  obtain rfl : w.expiry.rangeByScore now = macs := Except.ok.inj listed
  refine History.bind ?_ fun _ _ => history_scheduleNextExpiryCheck _
  refine History.each (Q := fun v l => l.Nodup ∧ ∀ mac ∈ l, mac ∈ w.expiry.rangeByScore now ∧
    v.stored mac = w.stored mac) ?_
    ⟨Redis.ExpirySet.nodup_rangeByScore w.expiry now, fun mac h => ⟨h, rfl⟩⟩
  rintro v mac l ⟨nodup, same⟩
  obtain ⟨fresh, nodup⟩ := List.nodup_cons.mp nodup
  obtain ⟨due, stored⟩ := same mac (by simp)
  -- One turn changes nothing but the authorization of its device.
  have turn : History (· = mac) (fun m reason authz => m = mac ∧ reason = "expired" ∧
        w.stored mac = some authz) v
      ((do let _ ← removeAuthz now mac "expired" none; checkMacs now [mac] : Call Unit).exec
        v).2 := by
    refine (history_removeAuthz v now mac "expired" fun authz h =>
      ⟨rfl, rfl, stored ▸ h⟩).bind fun _ _ => ?_
    refine history_checkMacs_none _ now mac rfl ?_
    rw [stored_removeAuthz, if_pos rfl]
  refine ⟨turn.mono ?_ ?_, nodup, fun other h => ?_⟩
  · rintro _ rfl
    exact granted _ due
  · rintro _ _ _ ⟨rfl, rfl, h⟩
    exact allowed _ due _ h
  · obtain ⟨due, stored⟩ := same other (by simp [h])
    have distinct : other ≠ mac := ne_of_mem_of_not_mem h fresh
    refine ⟨due, (turn.stored_eq distinct ?_).trans stored⟩
    exact fun _ _ h => distinct h.1

/-- Programming the firewall touches no authorization. -/
theorem history_fwApply (authz : Option RedisMacAuthorization) :
    History grants removes w ((fwApply mac authz).exec w).2 := by
  cases authz <;> exact Quiet.history ⟨rfl, rfl, rfl, rfl⟩

theorem history_authzChanged :
    History grants removes w ((MacAuthorizationManager.authzChanged mac).exec w).2 :=
  History.bind (.refl w) fun authz _ => history_fwApply w mac authz

/-- The device is due for the expiry check. -/
def World.Due (w : World) (now : ℚ) (mac : String) : Prop := mac ∈ w.expiry.rangeByScore now

/-- What is stored in `v` and due there was so in `w`. -/
def World.Within (v w : World) (now : ℚ) : Prop :=
  ∀ mac authz, v.Due now mac → v.stored mac = some authz → w.Due now mac ∧ w.stored mac = some authz

theorem within_fwApply (authz : Option RedisMacAuthorization) :
    ((fwApply mac authz).exec w).2.Within w now := by
  cases authz <;> exact fun _ _ due stored => ⟨due, stored⟩

theorem within_removeAuthz :
    ((removeAuthz now mac reason none).exec w).2.Within w now := by
  intro other authz due stored
  rw [stored_removeAuthz] at stored
  split at stored
  · cases stored
  next distinct =>
    refine ⟨?_, stored⟩
    rw [exec_removeAuthz, exec_endAuthz] at due
    obtain ⟨q, hq, le⟩ := ExpirySet.mem_rangeByScore.mp due
    refine ExpirySet.mem_rangeByScore.mpr ⟨q, ?_, le⟩
    rw [← hq]
    cases w.stored mac with
    | none => rfl
    | some authz => exact (AList.lookup_erase_ne distinct).symm

theorem history_withdrawTillDisconnect
    (disconnected : ∀ authz, w.stored mac = some authz → removes mac "disconnected" authz) :
    History grants removes w ((withdrawTillDisconnect now mac (w.stored mac)).exec w).2 ∧
      ((withdrawTillDisconnect now mac (w.stored mac)).exec w).2.Within w now := by
  have same : w.Within w now := fun _ _ due stored => ⟨due, stored⟩
  cases stored : w.stored mac with
  | none => exact ⟨.refl w, same⟩
  | some authz =>
    dsimp only [withdrawTillDisconnect]
    split
    · have removed : History grants removes w
          ((removeAuthz now mac "disconnected" none).exec w).2 :=
        history_removeAuthz w now mac "disconnected" disconnected
      have ok : ((removeAuthz now mac "disconnected" none).exec w).1 = .ok (w.stored mac) := by
        rw [exec_removeAuthz]
      rw [exec_bind, removeAuthz_stored w now mac "disconnected" stored, ok]
      refine ⟨removed.trans (history_authzChanged _ mac), fun other authz due stored => ?_⟩
      rw [MacAuthorizationManager.authzChanged, exec_bind, exec_getByMac] at due stored
      obtain ⟨due, stored⟩ := within_fwApply _ now mac _ other authz due stored
      exact within_removeAuthz w now mac "disconnected" other authz due stored
    · exact ⟨.refl w, same⟩

theorem history_handleDisconnection (granted : ∀ mac, grants mac)
    (disconnected : ∀ authz, w.stored mac = some authz → removes mac "disconnected" authz)
    (expired : ∀ mac authz, w.Due now mac → w.stored mac = some authz →
      removes mac "expired" authz) :
    History grants removes w ((handleDisconnection now mac).exec w).2 := by
  obtain ⟨withdrawn, within⟩ : History grants removes w _ ∧ _ :=
    history_withdrawTillDisconnect w now mac disconnected
  rw [handleDisconnection, exec_bind, exec_getByMac]
  refine withdrawn.bind fun _ _ => ?_
  refine history_checkExpiredAuthz _ now (fun mac _ => granted mac) fun other due authz stored => ?_
  obtain ⟨due, stored⟩ := within other authz due stored
  exact expired other authz due stored

theorem history_initMacs : History grants removes w (initMacs.exec w).2 := by
  refine History.bind (.refl w) fun macs _ => ?_
  refine History.each (Q := fun _ _ => True) (fun w mac l _ => ⟨?_, trivial⟩) trivial
  refine History.bind (.refl w) fun authz _ => ?_
  cases authz with
  | none => exact .refl w
  | some authz => exact Quiet.history ⟨rfl, rfl, rfl, rfl⟩

end Calls

/-! ## Calls one at a time -/

/-- The world after a call that nothing disturbs. -/
def World.after (w : World) (task : Task) : World := (task.call.exec w).2

/-- The world after the calls, made one at a time. -/
def World.run (w : World) (tasks : List Task) : World := tasks.foldl World.after w

/-- The call does not tell `removeAuthz` which authorization to announce the end of. -/
def Task.RemovesStored : Task → Prop
  | .removeAuthz _ _ _ authz => authz = none
  | _ => True

/-- Every call has its history. -/
theorem history_after (w : World) {task : Task} (removesStored : task.RemovesStored) :
    History (fun _ => True) (fun _ _ _ => True) w (w.after task) := by
  cases task with
  | checkAuthz now mac source endReason =>
    exact (history_checkAuthz w now mac endReason source trivial (fun _ _ _ _ _ => trivial)
      fun _ _ _ => trivial).bind fun _ _ => .refl _
  | newAuthz now mac noDuplicateSource session =>
    exact (history_newAuthz w now mac noDuplicateSource session trivial
      (fun _ _ _ _ _ => trivial) fun _ _ _ => trivial).bind fun _ _ => .refl _
  | removeAuthz now mac reason authz =>
    obtain rfl : authz = none := removesStored
    exact (history_removeAuthz w now mac reason fun _ _ => trivial).bind fun _ _ => .refl _
  | handleAuthzChanged now mac =>
    exact (history_authzChanged w mac).bind fun _ _ =>
      history_checkExpiredAuthz _ now (fun _ _ => trivial) fun _ _ _ _ => trivial
  | handleDisconnection now mac =>
    exact history_handleDisconnection w now mac (fun _ => trivial) (fun _ _ => trivial)
      fun _ _ _ _ => trivial
  | checkMacs now macs =>
    exact history_checkMacs w now (fun _ => trivial) (fun _ _ _ => trivial) macs
  | checkExpiredAuthz now =>
    exact history_checkExpiredAuthz w now (fun _ _ => trivial) fun _ _ _ _ => trivial
  | init now =>
    exact (history_checkExpiredAuthz w now (fun _ _ => trivial) fun _ _ _ _ => trivial).bind
      fun _ _ => history_initMacs _

end ElanAgent.Nac
