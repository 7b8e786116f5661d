import ElanAgent.Nac.Events

/-!
# The ledger of authorization sessions

A consumer of `session/authorization` opens a session for each message with a start and
closes it for each message with an end. While the calls are made one at a time, and the
control center grants only authorizations that can be announced, what is open are the
stored authorizations, and no session is started or ended twice.
-/

namespace ElanAgent.Nac

open Atomic Redis Session RedisMacAuthorization MacAuthorizationManager

/-! ## Folding over the messages -/

/-- What a message does to the open sessions. -/
def Notice.fold (opened : Finset (String × Option Nat)) (m : Notice) :
    Finset (String × Option Nat) :=
  let opened := if m.hasStart then insert m.session opened else opened
  if m.hasEnd then opened.erase m.session else opened

/-- The sessions that the messages leave open. -/
def openSessions (messages : List Notice) : Finset (String × Option Nat) :=
  messages.foldl Notice.fold ∅

/-- The sessions that the messages start, in order. -/
def started (messages : List Notice) : List (String × Option Nat) :=
  (messages.filter Notice.hasStart).map Notice.session

/-- The sessions that the messages end, in order. -/
def ended (messages : List Notice) : List (String × Option Nat) :=
  (messages.filter Notice.hasEnd).map Notice.session

section Fold

variable (messages : List Notice) (m : Notice)

theorem openSessions_snoc : openSessions (messages ++ [m]) = m.fold (openSessions messages) := by
  rw [openSessions, List.foldl_append]
  rfl

theorem started_snoc : started (messages ++ [m]) =
    started messages ++ if m.hasStart then [m.session] else [] := by
  unfold started
  cases h : m.hasStart <;> simp [h]

theorem ended_snoc : ended (messages ++ [m]) =
    ended messages ++ if m.hasEnd then [m.session] else [] := by
  unfold ended
  cases h : m.hasEnd <;> simp [h]

/-- The message of `notify_end` ends a session and starts none. -/
theorem openSessions_ends (reason mac : String) (at_ : ℤ) (id : Option Nat) :
    openSessions (messages ++ [.ends reason at_ mac id]) =
      (openSessions messages).erase (mac, id) :=
  openSessions_snoc ..

theorem started_ends (reason mac : String) (at_ : ℤ) (id : Option Nat) :
    started (messages ++ [.ends reason at_ mac id]) = started messages :=
  (started_snoc ..).trans (List.append_nil _)

theorem ended_ends (reason mac : String) (at_ : ℤ) (id : Option Nat) :
    ended (messages ++ [.ends reason at_ mac id]) = ended messages ++ [(mac, id)] :=
  ended_snoc ..

variable {data : Serialized} (start : ℤ)

/-- The message of `notify_new` starts a session, and ends none if no key of the
authorization says so. -/
theorem openSessions_start (noEnd : data.hasKey "end" = false) :
    openSessions (messages ++ [.start start data]) =
      insert (data.mac, data.localId) (openSessions messages) := by
  rw [openSessions_snoc]
  show (if data.hasKey "end" then _ else _) = _
  rw [noEnd]
  rfl

theorem started_start :
    started (messages ++ [.start start data]) = started messages ++ [(data.mac, data.localId)] :=
  started_snoc ..

theorem ended_start (noEnd : data.hasKey "end" = false) :
    ended (messages ++ [.start start data]) = ended messages := by
  rw [ended_snoc]
  show _ ++ (if data.hasKey "end" then _ else _) = _
  rw [noEnd]
  exact List.append_nil _

end Fold

/-! ## The invariant -/

/-- The messages tell what is stored. Ids are given out in increasing order, so that the
id of a session tells its device. -/
structure World.Ledger (w : World) : Prop where
  keyed : w.Keyed
  opened : ∀ mac id, (mac, id) ∈ openSessions w.published ↔
    ∃ authz, w.stored mac = some authz ∧ authz.localId = id
  balance : ∀ session, session ∈ openSessions w.published ↔
    session ∈ started w.published ∧ session ∉ ended w.published
  startedOnce : ((started w.published).map Prod.snd).Nodup
  endedOnce : ((ended w.published).map Prod.snd).Nodup
  endedStarted : ∀ session ∈ ended w.published, session ∈ started w.published
  bounded : ∀ session ∈ started w.published, ∃ n ≤ w.sequence, session.2 = some n

/-- Two sessions with one id are one session. -/
theorem World.Ledger.session_eq {w : World} (hw : w.Ledger) {session session' : String × Option Nat}
    (h : session ∈ started w.published) (h' : session' ∈ started w.published)
    (id : session.2 = session'.2) : session = session' :=
  List.inj_on_of_nodup_map hw.startedOnce h h' id

theorem ledger_quiet {w w' : World} (hw : w.Ledger) (h : Quiet w w') : w'.Ledger := by
  have stored : w'.stored = w.stored := by
    funext mac
    simp only [World.stored, h.sessions]
  obtain ⟨keyed, opened, balance, startedOnce, endedOnce, endedStarted, bounded⟩ := hw
  rw [← h.published] at opened balance startedOnce endedOnce endedStarted bounded
  rw [World.Keyed, ← stored] at keyed
  rw [← stored] at opened
  rw [← h.sequence] at bounded
  exact ⟨keyed, opened, balance, startedOnce, endedOnce, endedStarted, bounded⟩

theorem ledger_remove {w w' : World} (hw : w.Ledger) (keyed' : w'.Keyed) {mac reason : String}
    {authz : RedisMacAuthorization} {at_ : ℤ} (stored : w.stored mac = some authz)
    (sessions : w'.sessions = w.sessions.erase mac) (sequence : w'.sequence = w.sequence)
    (published : w'.published = w.published ++ [.ends reason at_ authz.mac authz.localId]) :
    w'.Ledger := by
  have stored' : ∀ other, w'.stored other = if other = mac then none else w.stored other := by
    intro other
    rw [World.stored, sessions, lookup_erase_ite]
    split <;> rfl
  have key := hw.keyed mac authz stored
  have opened' : openSessions w'.published =
      (openSessions w.published).erase (mac, authz.localId) := by
    rw [published, openSessions_ends, key]
  have started' : started w'.published = started w.published := by
    rw [published, started_ends]
  have ended' : ended w'.published = ended w.published ++ [(mac, authz.localId)] := by
    rw [published, ended_ends, key]
  have isOpen := (hw.opened mac authz.localId).mpr ⟨authz, stored, rfl⟩
  obtain ⟨isStarted, notEnded⟩ := (hw.balance _).mp isOpen
  constructor
  · exact keyed'
  · intro other id
    rw [opened', Finset.mem_erase, hw.opened, stored']
    by_cases same : other = mac
    · subst other
      simp only [stored, if_true]
      grind
    · simp [same]
  · intro session
    rw [opened', started', ended', Finset.mem_erase, hw.balance, List.mem_append,
      List.mem_singleton]
    tauto
  · rw [started']
    exact hw.startedOnce
  · rw [ended', List.map_append, List.nodup_append]
    refine ⟨hw.endedOnce, List.nodup_singleton _, ?_⟩
    rintro _ h _ h' rfl
    obtain ⟨session, h, id⟩ := List.mem_map.mp h
    have same := hw.session_eq (hw.endedStarted session h) isStarted
      (id.trans (List.mem_singleton.mp h'))
    exact notEnded (same ▸ h)
  · rw [started', ended']
    intro session h
    rcases List.mem_append.mp h with h | h
    · exact hw.endedStarted session h
    · rwa [List.mem_singleton.mp h]
  · rw [started', sequence]
    exact hw.bounded

theorem ledger_grant {w w' : World} (hw : w.Ledger) (keyed' : w'.Keyed) {mac : String}
    {a : Assignments} {start : ℤ} {till : Option ℚ} (plain : a.Plain) (absent : w.stored mac = none)
    (sessions : w'.sessions = w.sessions.insert mac (w.granted mac a).serialize)
    (sequence : w'.sequence = w.sequence + 1)
    (published : w'.published =
      w.published ++ [.start start { (w.granted mac a).serialize with till }]) :
    w'.Ledger := by
  have stored' : ∀ other, w'.stored other =
      if other = mac then some (w.granted mac a) else w.stored other := by
    intro other
    rw [World.stored, sessions, lookup_insert_ite]
    split
    · exact congrArg some (ofSerialized_serialize _)
    · rfl
  have noEnd : (w.granted mac a).serialize.hasKey "end" = false :=
    decide_eq_false (by
      rintro ⟨e, he, key⟩
      exact (plain.1 e he).2 key)
  set session : String × Option Nat := (mac, some (w.sequence + 1)) with hsession
  have opened' : openSessions w'.published = insert session (openSessions w.published) :=
    published ▸ openSessions_start _ _ noEnd
  have started' : started w'.published = started w.published ++ [session] :=
    published ▸ started_start _ _
  have ended' : ended w'.published = ended w.published :=
    published ▸ ended_start _ _ noEnd
  have fresh : ∀ other ∈ started w.published, other.2 ≠ session.2 := by
    intro other h id
    obtain ⟨n, le, hn⟩ := hw.bounded other h
    rw [id] at hn
    have := Option.some.inj hn
    omega
  have notEnded : session ∉ ended w.published := fun h => fresh _ (hw.endedStarted _ h) rfl
  constructor
  · exact keyed'
  · intro other id
    rw [opened', Finset.mem_insert, hw.opened, stored']
    by_cases same : other = mac
    · subst other
      simp only [absent, if_true, hsession, World.granted]
      grind
    · simp [same, hsession]
  · intro other
    rw [opened', started', ended', Finset.mem_insert, hw.balance, List.mem_append,
      List.mem_singleton]
    grind
  · rw [started', List.map_append, List.nodup_append]
    refine ⟨hw.startedOnce, List.nodup_singleton _, ?_⟩
    rintro _ h _ h' rfl
    obtain ⟨other, h, id⟩ := List.mem_map.mp h
    exact fresh other h (id.trans (List.mem_singleton.mp h'))
  · rw [ended']
    exact hw.endedOnce
  · rw [started', ended']
    exact fun other h => List.mem_append_left _ (hw.endedStarted other h)
  · rw [started', sequence]
    intro other h
    rcases List.mem_append.mp h with h | h
    · obtain ⟨n, le, hn⟩ := hw.bounded other h
      exact ⟨n, by omega, hn⟩
    · exact ⟨w.sequence + 1, le_rfl, by rw [List.mem_singleton.mp h]⟩

theorem ledger_history {grants : String → Prop}
    {removes : String → String → RedisMacAuthorization → Prop} {w w' : World}
    (h : History grants removes w w') (hw : w.Ledger)
    (plain : ∀ n a, w.answers n = some (.granted a) → a.Plain) :
    w'.Ledger ∧ w'.answers = w.answers := by
  induction h with
  | refl => exact ⟨hw, rfl⟩
  | snoc _ e ih =>
    obtain ⟨hw, same⟩ := ih
    have keyed' := e.history.keyed hw.keyed
    cases e with
    | quiet h => exact ⟨ledger_quiet hw h, h.answers.trans same⟩
    | remove at_ stored _ sessions sequence published answers =>
      exact ⟨ledger_remove hw keyed' stored sessions sequence published, answers.trans same⟩
    | @grant mac n a absent answer _ sessions sequence published answers =>
      refine ⟨?_, answers.trans same⟩
      rw [same] at answer
      rcases published with ⟨start, till, published⟩ | ⟨notPlain, -⟩
      · exact ledger_grant hw keyed' (plain n a answer) absent sessions sequence published
      · exact absurd (plain n a answer) notPlain

theorem ledger_run {w : World} (hw : w.Ledger)
    (plain : ∀ n a, w.answers n = some (.granted a) → a.Plain) {tasks : List Task}
    (removesStored : ∀ task ∈ tasks, task.RemovesStored) : (w.run tasks).Ledger := by
  induction tasks generalizing w with
  | nil => exact hw
  | cons task tasks ih =>
    obtain ⟨first, rest⟩ := List.forall_mem_cons.mp removesStored
    obtain ⟨hw, answers⟩ := ledger_history (history_after w first) hw plain
    exact ih hw (answers ▸ plain) rest

/-! ## The same answer twice -/

/-- The stored authorization is the one that the answer asks for. -/
def Settled (mac : String) (assignments : NetworkAssignments)
    (stored : Option RedisMacAuthorization) : Prop :=
  match assignments with
  | .granted a => stored.any (ofAssignments mac a).eq
  | .malformed => True
  | .none => stored = none

theorem exec_settleAuthz_settled (w : World) (now : ℚ) (mac reason : String)
    {assignments : NetworkAssignments} {stored : Option RedisMacAuthorization}
    (h : Settled mac assignments stored) :
    ((settleAuthz now mac reason assignments stored).exec w).2 = w := by
  cases assignments with
  | malformed => rfl
  | none =>
    obtain rfl : stored = none := h
    rfl
  | granted a =>
    have h : stored.any (ofAssignments mac a).eq = true := h
    dsimp only [settleAuthz]
    rw [if_pos h]
    rfl

theorem eq_identified (authz : RedisMacAuthorization) (localId : Option Nat) :
    authz.eq { authz with localId } = true := by
  simp [RedisMacAuthorization.eq]

/-- Once `checkAuthz` has settled an answer, the answer asks for what is stored. -/
theorem settled_settleAuthz (w : World) (now : ℚ) (mac reason : String)
    (assignments : NetworkAssignments) :
    let w' := ((settleAuthz now mac reason assignments (w.stored mac)).exec w).2
    Settled mac assignments (w'.stored mac) ∧ w'.answers = w.answers ∧ w'.asked = w.asked := by
  cases assignments with
  | malformed => exact ⟨trivial, rfl, rfl⟩
  | none =>
    cases stored : w.stored mac with
    | none => exact ⟨stored, rfl, rfl⟩
    | some authz =>
      simp only [settleAuthz, withdrawAuthz, exec_bind, exec_deleteByMac, exec_notifyEnd,
        Nac.exec_authzChanged, exec_pure]
      exact ⟨(stored_deleted w mac mac).trans (if_pos rfl), rfl, rfl⟩
  | granted a =>
    dsimp only [settleAuthz]
    by_cases same : (w.stored mac).any (ofAssignments mac a).eq = true
    · rw [if_pos same]
      exact ⟨same, rfl, rfl⟩
    · rw [if_neg same, exec_bind_pure]
      obtain ⟨v, hv, answers, asked⟩ : ∃ v, (endAuthz now mac reason (w.stored mac)).exec w =
          (.ok (), v) ∧ v.answers = w.answers ∧ v.asked = w.asked := by
        rw [exec_endAuthz]
        cases w.stored mac <;> exact ⟨_, rfl, rfl, rfl⟩
      obtain ⟨published, -, h⟩ := exec_storeAuthz v now mac a
      rw [grantAuthz, exec_bind, hv]
      dsimp only
      rw [h]
      have stored := (stored_saved ({ v with sequence := v.sequence + 1 } : World)
        (v.granted mac a) mac).trans (if_pos rfl)
      refine ⟨?_, answers, asked⟩
      show Option.any _ (World.stored _ mac) = true
      exact stored ▸ eq_identified (ofAssignments mac a) _

/-- Asking again and getting the same answer changes nothing and says nothing. -/
theorem checkAuthz_twice (w : World) (now now' : ℚ) (mac reason reason' : String)
    (source source' : Option String) (same : w.answers (w.asked + 1) = w.answers w.asked) :
    let w₁ := ((checkAuthz now mac source reason).exec w).2
    let w₂ := ((checkAuthz now' mac source' reason').exec w₁).2
    w₂ = { w₁ with session := w₂.session, asked := w₂.asked } := by
  intro w₁ w₂
  obtain ⟨session, h⟩ := exec_checkAuthz w now mac reason source
  obtain ⟨session', h'⟩ := exec_checkAuthz w₁ now' mac reason' source'
  have hw₁ : w₁ = _ := congrArg Prod.snd h
  have hw₂ : w₂ = _ := congrArg Prod.snd h'
  cases answer : w.answers w.asked with
  | none =>
    simp only [answer] at hw₁
    have again : w₁.answers w₁.asked = none := by rw [hw₁]; exact same.trans answer
    simp only [again] at hw₂
    rw [hw₂]
  | some assignments =>
    simp only [answer] at hw₁
    obtain ⟨settled, answers, asked⟩ := settled_settleAuthz
      ({ w with session, asked := w.asked + 1 } : World) now mac reason assignments
    have again : w₁.answers w₁.asked = some assignments := by
      rw [hw₁]
      exact (congrFun answers _).trans ((congrArg w.answers asked).trans (same.trans answer))
    simp only [again] at hw₂
    rw [exec_settleAuthz_settled _ now' mac reason' (hw₁ ▸ settled)] at hw₂
    rw [hw₂]

/-! ## Every sequence of calls -/

theorem ledger_empty (answers : Nat → Option NetworkAssignments) (session : Session.World) :
    ({ World.empty answers with session } : World).Ledger where
  keyed _ _ h := nomatch h
  opened _ _ := ⟨fun h => absurd h (Finset.notMem_empty _), fun ⟨_, h, _⟩ => nomatch h⟩
  balance _ := ⟨fun h => absurd h (Finset.notMem_empty _), fun ⟨h, _⟩ => nomatch h⟩
  startedOnce := List.nodup_nil
  endedOnce := List.nodup_nil
  endedStarted _ h := nomatch h
  bounded _ h := nomatch h

/-- After any calls, made one at a time from an empty store, what the messages leave open
are the stored authorizations, one for a device at most; no id is started or ended twice;
and a check that gets the answer of the check before it changes nothing. -/
theorem ledger_tells (answers : Nat → Option NetworkAssignments) (session : Session.World)
    (plain : ∀ n a, answers n = some (.granted a) → a.Plain) (tasks : List Task)
    (removesStored : ∀ task ∈ tasks, task.RemovesStored) :
    let w := ({ World.empty answers with session } : World).run tasks
    (∀ mac id, (mac, id) ∈ openSessions w.published ↔
      ∃ authz, w.stored mac = some authz ∧ authz.localId = id) ∧
    (∀ mac id id', (mac, id) ∈ openSessions w.published → (mac, id') ∈ openSessions w.published →
      id = id') ∧
    ((started w.published).map Prod.snd).Nodup ∧ ((ended w.published).map Prod.snd).Nodup ∧
    (∀ s ∈ ended w.published, s ∈ started w.published) ∧
    ∀ now now' mac reason reason' source source', w.answers (w.asked + 1) = w.answers w.asked →
      let w₁ := w.after (.checkAuthz now mac source reason)
      let w₂ := w₁.after (.checkAuthz now' mac source' reason')
      w₂ = { w₁ with session := w₂.session, asked := w₂.asked } := by
  intro w
  have hw : w.Ledger := ledger_run (ledger_empty answers session) plain removesStored
  refine ⟨hw.opened, ?_, hw.startedOnce, hw.endedOnce, hw.endedStarted, ?_⟩
  · intro mac id id' h h'
    obtain ⟨authz, stored, rfl⟩ := (hw.opened mac id).mp h
    obtain ⟨authz', stored', rfl⟩ := (hw.opened mac id').mp h'
    rw [stored] at stored'
    cases stored'
    rfl
  · intro now now' mac reason reason' source source' same w₁ w₂
    have first : w₁ = ((Nac.checkAuthz now mac source reason).exec w).2 := exec_bind_pure ..
    have second : w₂ = ((Nac.checkAuthz now' mac source' reason').exec w₁).2 := exec_bind_pure ..
    rw [second, first]
    exact checkAuthz_twice w now now' mac reason reason' source source' same

theorem plain_onVlan (vlan : String) : (onVlan vlan).Plain :=
  ⟨fun _ h => absurd h (Finset.notMem_empty _), fun _ h => nomatch h⟩

/-- One grant, its renewal for another VLAN, and its removal. -/
theorem ledger_tells_grants :
    let w := (World.empty fun n => some (.granted (onVlan (if n = 0 then "eth1.10" else
      "eth1.20")))).run
      [.checkAuthz 0 "00:00:00:00:00:01" none overridden,
        .checkAuthz 1 "00:00:00:00:00:01" none overridden,
        .removeAuthz 2 "00:00:00:00:00:01" "expired" none]
    (∀ mac id, (mac, id) ∈ openSessions w.published ↔
      ∃ authz, w.stored mac = some authz ∧ authz.localId = id) ∧
    (∀ mac id id', (mac, id) ∈ openSessions w.published → (mac, id') ∈ openSessions w.published →
      id = id') ∧
    ((started w.published).map Prod.snd).Nodup ∧ ((ended w.published).map Prod.snd).Nodup ∧
    (∀ s ∈ ended w.published, s ∈ started w.published) ∧
    ∀ now now' mac reason reason' source source', w.answers (w.asked + 1) = w.answers w.asked →
      let w₁ := w.after (.checkAuthz now mac source reason)
      let w₂ := w₁.after (.checkAuthz now' mac source' reason')
      w₂ = { w₁ with session := w₂.session, asked := w₂.asked } := by
  refine ledger_tells _ .empty ?_ _ ?_
  · intro n a h
    obtain rfl := NetworkAssignments.granted.inj (Option.some.inj h)
    exact plain_onVlan _
  · intro task h
    simp only [List.mem_cons, List.not_mem_nil, or_false] at h
    rcases h with rfl | rfl | rfl
    · trivial
    · trivial
    · rfl

/-- An authorization with an attribute that clashes with the announcement. -/
def clashing : Assignments := { onVlan "eth1.10" with rest := {("start", .int 0)} }

/-- Such an authorization is stored and never announced. -/
theorem clashing_not_told :
    let w := (World.empty fun _ => some (.granted clashing)).run
      [.checkAuthz 0 "00:00:00:00:00:01" none overridden]
    ¬∀ mac id, (mac, id) ∈ openSessions w.published ↔
      ∃ authz, w.stored mac = some authz ∧ authz.localId = id := by
  intro w told
  have stored : w.stored "00:00:00:00:00:01" =
      some { ofAssignments "00:00:00:00:00:01" clashing with localId := some 1 } := by decide
  have isOpen := (told "00:00:00:00:00:01" (some 1)).mpr ⟨_, stored, rfl⟩
  have silent : openSessions w.published = ∅ := by decide
  rw [silent] at isOpen
  exact Finset.notMem_empty _ isOpen

end ElanAgent.Nac
