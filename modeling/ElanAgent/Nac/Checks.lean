import ElanAgent.Nac.Ledger

/-!
# Concurrent checks of one device

`checkAuthz` reads the stored authorization, and what it deletes, saves and announces
follows from that reading. Nothing orders the checks that the processes make for one
device. As long as no check writes between the reading of another one and its last write,
every authorization session is told once: when all checks are over, those started and not
ended are the stored one.
-/

namespace ElanAgent.Nac

open Atomic Redis Session RedisMacAuthorization

/-- A check: the clock reading of the call, the source to remove and the reason to end. -/
structure Check where
  now : ℚ
  source : Option String
  endReason : String

def Check.call (mac : String) (check : Check) : Call (Option RedisMacAuthorization) :=
  checkAuthz check.now mac check.source check.endReason

/-! ## The stages of a check -/

/-- Before the reading; with `old` to be replaced; with the end of `old` to be announced,
and then perhaps another authorization to be stored; with the id of that one; with its start
to be announced; with nothing left to do. A check that is given an authorization that
cannot be announced has a stage of its own. -/
inductive Check.Stage where
  | asking
  | holding (old : Option RedisMacAuthorization)
  | ending (old : RedisMacAuthorization) (again : Bool)
  | numbered (id : Nat)
  | starting (authz : RedisMacAuthorization)
  | settled
  | unannounceable

open Check.Stage

/-- The operation asks for something other than the stored authorization. -/
def Op.Asks : Op → Prop
  | .session _ | .call .. => True
  | _ => False

/-- What a check of `mac` may issue. -/
inductive Check.Permitted (mac : String) : Monitor agent Check.Stage
  | ask {o : Op} (r : o.Reply) (h : o.Asks) : Permitted mac asking o r asking
  | odd {sessions : List AuthSession} {mac' : String} {port : Option Port} {a : Assignments}
      (h : ¬a.Plain) :
      Permitted mac asking (.call sessions mac' port) (some (.granted a)) unannounceable
  | any {o : Op} (r : o.Reply) : Permitted mac unannounceable o r unannounceable
  | read (r : Option Serialized) :
      Permitted mac asking (.hget mac) r (holding (r.map ofSerialized))
  | leave (r : Option Serialized) : Permitted mac asking (.hget mac) r settled
  | delete (old : RedisMacAuthorization) (again : Bool) (r : List Reply) :
      Permitted mac (holding (some old)) (.execute (deletePipe mac)) r (ending old again)
  | change (old : RedisMacAuthorization) :
      Permitted mac (ending old false) (.publishChange mac) () (ending old false)
  | ends (old : RedisMacAuthorization) (again : Bool) (reason : String) (ended : ℤ) :
      Permitted mac (ending old again) (.publish (.ends reason ended old.mac old.localId)) ()
        (if again then holding none else settled)
  | number (id : Nat) : Permitted mac (holding none) .getUniqueId id (numbered id)
  | save (authz : RedisMacAuthorization) (id : Nat) (r : List Reply) (key : authz.mac = mac)
      (localId : authz.localId = some id) :
      Permitted mac (numbered id) (.execute authz.savePipe) r (starting authz)
  | tell (authz : RedisMacAuthorization) :
      Permitted mac (starting authz) (.publishChange mac) () (starting authz)
  | start (authz : RedisMacAuthorization) (start : ℤ) (data : Serialized)
      (session : (data.mac, data.localId) = (authz.mac, authz.localId))
      (noEnd : data.hasKey "end" = false) :
      Permitted mac (starting authz) (.publish (.start start data)) () settled

/-- The check has nothing left to write or to announce. -/
def Check.Stage.Finished (q : Check.Stage) : Prop := q = asking ∨ q = settled ∨ q = unannounceable

section Conforms

variable (now : ℚ) (mac reason : String)

theorem conforms_deleteByMac (old : RedisMacAuthorization) (again : Bool) :
    (deleteByMac mac).Conforms (Check.Permitted mac) (holding (some old))
      (fun _ q => q = ending old again) Check.Stage.Finished := by
  refine Call.Conforms.bind (M := fun _ q => q = ending old again)
    (fun r => ⟨_, .delete old again r, rfl⟩) fun result q hq => ?_
  split <;> exact hq

theorem conforms_endAuthz (old : Option RedisMacAuthorization) :
    (endAuthz now mac reason old).Conforms (Check.Permitted mac) (holding old)
      (fun _ q => q = holding none) Check.Stage.Finished := by
  cases old with
  | none => exact rfl
  | some old =>
    refine (conforms_deleteByMac mac old true).bind fun _ q hq => ?_
    subst hq
    exact fun _ => ⟨_, .ends old true _ _, rfl⟩

theorem conforms_withdrawAuthz (old : RedisMacAuthorization) :
    (withdrawAuthz now mac (some old)).Conforms (Check.Permitted mac) (holding (some old))
      (fun _ q => q = settled) Check.Stage.Finished := by
  refine (conforms_deleteByMac mac old false).bind fun _ q hq => ?_
  subst hq
  exact fun _ => ⟨_, .change old, fun _ => ⟨_, .ends old false _ _, rfl⟩⟩

theorem formatTill_eq_pure {till : Option ℚ} (h : ∀ t, till = some t → representable t) :
    ∃ text, formatTill now till = pure text := by
  cases till with
  | none => exact ⟨none, rfl⟩
  | some t =>
    dsimp only [formatTill]
    by_cases zero : t = 0
    · exact ⟨some 0, if_pos zero⟩
    · exact ⟨_, by rw [if_neg zero, if_pos (h t rfl)]⟩

theorem conforms_notifyNew {a : Assignments} (plain : a.Plain) (authz : RedisMacAuthorization)
    (till : authz.till = a.till) (rest : authz.rest = a.rest) :
    (notifyNewAuthorizationSession now authz).Conforms (Check.Permitted mac) (starting authz)
      (fun _ q => q = settled) Check.Stage.Finished := by
  have noStart : authz.serialize.hasKey "start" = false :=
    decide_eq_false fun ⟨e, he, key⟩ => (plain.1 e (rest ▸ he)).1 key
  have noEnd : authz.serialize.hasKey "end" = false :=
    decide_eq_false fun ⟨e, he, key⟩ => (plain.1 e (rest ▸ he)).2 key
  obtain ⟨text, formatted⟩ := formatTill_eq_pure now fun t ht => plain.2 t (till ▸ ht)
  have formatted : formatTill now authz.serialize.till = pure text := formatted
  simp only [notifyNewAuthorizationSession, formatted, pure_bind, noStart, Bool.false_eq_true,
    if_false]
  exact fun _ => ⟨_, .start authz _ _ rfl noEnd, rfl⟩

theorem conforms_storeAuthz {a : Assignments} (plain : a.Plain) :
    (storeAuthz now mac (ofAssignments mac a)).Conforms (Check.Permitted mac) (holding none)
      (fun _ q => q = settled) Check.Stage.Finished := by
  refine Call.Conforms.bind (M := fun authz q => q = starting authz ∧ authz.till = a.till ∧
    authz.rest = a.rest) ?_ ?_
  · exact fun id => ⟨_, .number id, fun r => ⟨_, .save _ id r rfl rfl, rfl, rfl, rfl⟩⟩
  · rintro authz _ ⟨rfl, till, rest⟩
    exact fun _ => ⟨_, .tell authz, (conforms_notifyNew now mac plain authz till rest).bind
      fun _ _ hq => hq⟩

/-- Reading decides whether the check has something to replace. -/
theorem conforms_getByMac (replaces : Option RedisMacAuthorization → Bool) :
    (getByMac mac).Conforms (Check.Permitted mac) asking
      (fun old q => q = if replaces old then holding old else settled) Check.Stage.Finished := by
  intro r
  cases h : replaces (r.map ofSerialized) with
  | true => exact ⟨_, .read r, (if_pos h).symm⟩
  | false => exact ⟨_, .leave r, (if_neg (by simp [h])).symm⟩

/-- With the answer at hand, the check reads what is stored and settles. -/
theorem conforms_settleAuthz {assignments : NetworkAssignments}
    (plain : ∀ a, assignments = .granted a → a.Plain) :
    (getByMac mac >>= settleAuthz now mac reason assignments).Conforms (Check.Permitted mac) asking
      (fun _ => Check.Stage.Finished) Check.Stage.Finished := by
  have settles : Check.Stage.Finished settled := .inr (.inl rfl)
  cases assignments with
  | malformed =>
    refine (conforms_getByMac mac fun _ => false).bind fun old q hq => ?_
    exact conforms_throw (hq ▸ settles)
  | none =>
    refine (conforms_getByMac mac Option.isSome).bind fun old q hq => ?_
    subst hq
    refine Call.Conforms.bind (M := fun _ q => q = settled) ?_ fun _ q hq =>
      conforms_pure (hq ▸ settles)
    cases old with
    | none => exact rfl
    | some old => exact conforms_withdrawAuthz now mac old
  | granted a =>
    refine (conforms_getByMac mac fun old => !old.any (ofAssignments mac a).eq).bind
      fun old q hq => ?_
    subst hq
    dsimp only [settleAuthz]
    by_cases same : old.any (ofAssignments mac a).eq = true
    · rw [if_pos same, same]
      exact settles
    · rw [if_neg same, Bool.eq_false_of_not_eq_true same]
      refine Call.Conforms.bind (M := fun _ q => q = settled) ?_ fun _ q hq =>
        conforms_pure (hq ▸ settles)
      refine (conforms_endAuthz now mac reason old).bind fun _ q hq => ?_
      subst hq
      exact conforms_storeAuthz now mac (plain a rfl)

theorem conforms_unannounceable {α : Type} (p : Call α) :
    p.Conforms (Check.Permitted mac) unannounceable (fun _ => Check.Stage.Finished)
      Check.Stage.Finished := by
  have only : p.Only fun _ => True := .of_forall (fun _ => trivial) _
  have last : Check.Stage.Finished unannounceable := .inr (.inr rfl)
  exact (only.conforms (fun _ r _ => .any r) last).mono fun _ q hq => hq ▸ last

theorem conforms_getNetworkAssignments :
    (getNetworkAssignments now mac).Conforms (Check.Permitted mac) asking
      (fun assignments q => q = asking ∧ (∀ a, assignments = .granted a → a.Plain) ∨
        q = unannounceable) Check.Stage.Finished := by
  have before : Check.Stage.Finished asking := .inl rfl
  have asks {α : Type} (p : Prog synapse α) : (onSessions p).Conforms (Check.Permitted mac) asking
      (fun _ q => q = asking) Check.Stage.Finished :=
    (only_onSessions (P := Op.Asks) (fun _ => trivial) p).conforms (fun _ r h => .ask r h) before
  refine (asks _).bind fun sessions _ hq => ?_
  subst hq
  refine (asks _).bind fun port _ hq => ?_
  subst hq
  refine Call.Conforms.bind (M := fun answer q =>
    q = asking ∧ (∀ a, answer = some (.granted a) → a.Plain) ∨ q = unannounceable) ?_ ?_
  · intro (answer : Option NetworkAssignments)
    by_cases plain : ∀ a, answer = some (.granted a) → a.Plain
    · exact ⟨asking, .ask (o := .call ..) answer trivial, .inl ⟨rfl, plain⟩⟩
    · push Not at plain
      obtain ⟨a, rfl, odd⟩ := plain
      exact ⟨unannounceable, .odd odd, .inr rfl⟩
  · intro answer q hq
    cases answer with
    | none =>
      refine conforms_throw ?_
      rcases hq with ⟨rfl, -⟩ | rfl
      · exact before
      · exact .inr (.inr rfl)
    | some assignments =>
      refine conforms_pure (hq.imp_left fun ⟨hq, plain⟩ => ⟨hq, fun a h => plain a ?_⟩)
      rw [h]

theorem conforms_check (check : Check) :
    (check.call mac).Conforms (Check.Permitted mac) asking (fun _ => Check.Stage.Finished)
      Check.Stage.Finished := by
  refine Call.Conforms.bind (M := fun _ q => q = asking) ?_ fun _ q hq => ?_
  · exact (only_removeSource (P := Op.Asks) (fun _ _ => trivial) mac check.source).conforms
      (fun _ r h => .ask r h) (.inl rfl)
  · subst hq
    refine (conforms_getNetworkAssignments check.now mac).bind fun assignments q hq => ?_
    rcases hq with ⟨rfl, plain⟩ | rfl
    · exact conforms_settleAuthz check.now mac check.endReason plain
    · exact conforms_unannounceable mac _

end Conforms

/-! ## The account of the sessions -/

section Told

variable {ι β : Type} {l : List β} {owes : ι → Option β} {i : ι} {a b : β}

/-- `b` was announced, or some thread is about to announce it. -/
def Told (l : List β) (owes : ι → Option β) (b : β) : Prop := b ∈ l ∨ ∃ i, owes i = some b

variable [DecidableEq ι]

theorem told_owe (hi : owes i = none) :
    Told l (Function.update owes i (some a)) b ↔ b = a ∨ Told l owes b := by
  have others : (∃ j, j ≠ i ∧ owes j = some b) ↔ ∃ j, owes j = some b := by
    refine exists_congr fun j => and_iff_right_of_imp ?_
    rintro hj rfl
    rw [hi] at hj
    cases hj
  have split := Function.exists_update_iff owes (a := i) (b := some a) fun _ r => r = some b
  rw [Told, split, others, Option.some_inj, eq_comm, Told, or_left_comm]

theorem told_announce (hi : owes i = some a) :
    Told (l ++ [a]) (Function.update owes i none) b ↔ Told l owes b := by
  have split := Function.exists_update_iff owes (a := i) (b := none) fun _ r => r = some b
  rw [Told, split, List.mem_append, List.mem_singleton, or_assoc, Told]
  refine or_congr_right ?_
  constructor
  · rintro (rfl | h | ⟨j, -, hj⟩)
    · exact ⟨i, hi⟩
    · cases h
    · exact ⟨j, hj⟩
  · rintro ⟨j, hj⟩
    by_cases same : j = i
    · subst j
      exact .inl (Option.some_inj.mp (hj.symm.trans hi))
    · exact .inr (.inr ⟨j, same, hj⟩)

/-- No two threads owe the same, also after one of them has come to owe something else. -/
theorem once_update {r : Option β} (once : ∀ j k b, owes j = some b → owes k = some b → j = k)
    (new : ∀ b, r = some b → ∀ j, owes j ≠ some b) (j k : ι) (b : β)
    (hj : Function.update owes i r j = some b) (hk : Function.update owes i r k = some b) :
    j = k := by
  rw [Function.update_apply] at hj hk
  split at hj <;> split at hk
  · exact ‹j = i›.trans ‹k = i›.symm
  · exact absurd hk (new b hj k)
  · exact absurd hj (new b hk j)
  · exact once j k b hj hk

end Told

/-- The messages and what the threads have still to announce tell, taken together, what is
stored. `starts` and `ends` are the sessions to be announced as started and as ended,
`drawn` the ids that no session has yet. -/
structure Books {ι : Type} (w : World) (starts ends : ι → Option (String × Option Nat))
    (drawn : ι → Option Nat) : Prop where
  keyed : w.Keyed
  balance : ∀ s, (∃ authz, w.stored s.1 = some authz ∧ authz.localId = s.2) ↔
    Told (started w.published) starts s ∧ ¬Told (ended w.published) ends s
  endedOnce : (ended w.published).Nodup
  owed : ∀ i s, ends i = some s → s ∉ ended w.published
  owedOnce : ∀ i j s, ends i = some s → ends j = some s → i = j
  begun : ∀ s, Told (ended w.published) ends s → Told (started w.published) starts s
  bounded : ∀ s, Told (started w.published) starts s → ∃ n ≤ w.sequence, s.2 = some n
  fresh : ∀ i id, drawn i = some id →
    id ≤ w.sequence ∧ ∀ s, Told (started w.published) starts s → s.2 ≠ some id
  freshOnce : ∀ i j id, drawn i = some id → drawn j = some id → i = j

section Books

variable {ι : Type} {w w' : World} {starts ends : ι → Option (String × Option Nat)}
variable {drawn : ι → Option Nat}

theorem books_begin (hw : w.Ledger) :
    Books w (fun _ : ι => none) (fun _ => none) (fun _ => none) := by
  have told : ∀ (l : List (String × Option Nat)) s, Told l (fun _ : ι => none) s ↔ s ∈ l :=
    fun l s => or_iff_left fun ⟨_, h⟩ => nomatch h
  constructor
  case keyed => exact hw.keyed
  case balance => exact fun s => by rw [told, told, ← hw.balance, hw.opened]
  case endedOnce => exact hw.endedOnce.of_map _
  case begun => exact fun s => by rw [told, told]; exact hw.endedStarted s
  case bounded => exact fun s => by rw [told]; exact hw.bounded s
  all_goals exact nofun

theorem books_quiet (hw : Books w starts ends drawn) (h : Quiet w w') :
    Books w' starts ends drawn := by
  have stored : w'.stored = w.stored := by
    funext mac
    simp only [World.stored, h.sessions]
  obtain ⟨keyed, balance, endedOnce, owed, owedOnce, begun, bounded, fresh, freshOnce⟩ := hw
  rw [← h.published] at balance endedOnce owed begun bounded fresh
  rw [← h.sequence] at bounded fresh
  rw [World.Keyed, ← stored] at keyed
  rw [← stored] at balance
  exact ⟨keyed, balance, endedOnce, owed, owedOnce, begun, bounded, fresh, freshOnce⟩

variable [DecidableEq ι] {i : ι}

/-- The stored authorization is deleted, and its end is to be announced. -/
theorem books_delete (hw : Books w starts ends drawn) {mac : String}
    {old : RedisMacAuthorization} (stored : w.stored mac = some old) (hi : ends i = none) :
    Books (w.deleted mac) starts (Function.update ends i (some (mac, old.localId))) drawn := by
  obtain ⟨isBegun, notOver⟩ := (hw.balance (mac, old.localId)).mp ⟨old, stored, rfl⟩
  constructor
  case keyed =>
    intro mac' authz h
    rw [stored_deleted] at h
    split at h
    · cases h
    · exact hw.keyed mac' authz h
  case balance =>
    intro ⟨mac', id⟩
    rw [told_owe hi, stored_deleted, not_or, and_left_comm]
    show _ ↔ _ ∧ Told (started w.published) starts (mac', id) ∧
      ¬Told (ended w.published) ends (mac', id)
    rw [← hw.balance (mac', id)]
    by_cases same : mac' = mac
    · subst mac'
      simp only [if_true, stored]
      grind
    · simp [same]
  case endedOnce => exact hw.endedOnce
  case owed =>
    intro j s hj
    rw [Function.update_apply] at hj
    split at hj
    · cases hj
      exact fun h => notOver (.inl h)
    · exact hw.owed j s hj
  case owedOnce =>
    refine once_update hw.owedOnce fun s hs j hj => ?_
    cases hs
    exact notOver (.inr ⟨j, hj⟩)
  case begun =>
    intro s h
    rcases (told_owe hi).mp h with rfl | h
    · exact isBegun
    · exact hw.begun s h
  case bounded => exact hw.bounded
  case fresh => exact hw.fresh
  case freshOnce => exact hw.freshOnce

/-- The end of a session is announced. -/
theorem books_end (hw : Books w starts ends drawn) {reason mac : String} {at_ : ℤ}
    {id : Option Nat} (hi : ends i = some (mac, id)) :
    Books (w.say (.ends reason at_ mac id)) starts (Function.update ends i none) drawn := by
  have started' : started (w.say (.ends reason at_ mac id)).published = started w.published :=
    started_ends ..
  have ended' : ended (w.say (.ends reason at_ mac id)).published =
      ended w.published ++ [(mac, id)] :=
    ended_ends ..
  have closed : ∀ s, Told (ended (w.say (.ends reason at_ mac id)).published)
      (Function.update ends i none) s ↔ Told (ended w.published) ends s := fun s => by
    rw [ended', told_announce hi]
  constructor
  case keyed => exact hw.keyed
  case balance => exact fun s => by rw [closed, started']; exact hw.balance s
  case endedOnce =>
    rw [ended']
    refine List.nodup_append.mpr ⟨hw.endedOnce, List.nodup_singleton _, ?_⟩
    rintro s h _ h' rfl
    exact hw.owed i _ hi (List.mem_singleton.mp h' ▸ h)
  case owed =>
    intro j s hj
    rw [Function.update_apply] at hj
    split at hj
    · cases hj
    · rw [ended', List.mem_append, List.mem_singleton]
      rintro (h | rfl)
      · exact hw.owed j s hj h
      · exact ‹¬j = i› (hw.owedOnce j i _ hj hi)
  case owedOnce => exact once_update hw.owedOnce nofun
  case begun => exact fun s => by rw [closed, started']; exact hw.begun s
  case bounded => exact fun s => by rw [started']; exact hw.bounded s
  case fresh => exact fun j id => by rw [started']; exact hw.fresh j id
  case freshOnce => exact hw.freshOnce

/-- An id is drawn. -/
theorem books_number (hw : Books w starts ends drawn) :
    Books { w with sequence := w.sequence + 1 } starts ends
      (Function.update drawn i (some (w.sequence + 1))) := by
  constructor
  case bounded =>
    intro s h
    obtain ⟨n, le, hn⟩ := hw.bounded s h
    exact ⟨n, Nat.le_succ_of_le le, hn⟩
  case fresh =>
    intro j id hj
    rw [Function.update_apply] at hj
    split at hj
    · cases hj
      refine ⟨le_rfl, fun s h same => ?_⟩
      obtain ⟨n, le, hn⟩ := hw.bounded s h
      rw [hn, Option.some_inj] at same
      omega
    · exact ⟨Nat.le_succ_of_le (hw.fresh j id hj).1, (hw.fresh j id hj).2⟩
  case freshOnce =>
    refine once_update hw.freshOnce fun id hid j hj => ?_
    cases hid
    exact absurd (hw.fresh j _ hj).1 (Nat.not_succ_le_self _)
  all_goals first | exact hw.keyed | exact hw.balance | exact hw.endedOnce | exact hw.owed
                  | exact hw.owedOnce | exact hw.begun

/-- An authorization is stored under a drawn id, and its start is to be announced. -/
theorem books_save (hw : Books w starts ends drawn) {authz : RedisMacAuthorization} {id : Nat}
    (absent : w.stored authz.mac = none) (localId : authz.localId = some id)
    (drawn_i : drawn i = some id) (hi : starts i = none) :
    Books (w.saved authz) (Function.update starts i (some (authz.mac, authz.localId))) ends
      (Function.update drawn i none) := by
  obtain ⟨le, unused⟩ := hw.fresh i id drawn_i
  have notBegun : ¬Told (started w.published) starts (authz.mac, authz.localId) :=
    fun h => unused _ h localId
  constructor
  case keyed =>
    intro mac' authz' h
    rw [stored_saved] at h
    split at h
    · cases h
      exact (‹mac' = _›).symm
    · exact hw.keyed mac' authz' h
  case balance =>
    intro ⟨mac', id'⟩
    have notOver := mt (hw.begun (authz.mac, authz.localId)) notBegun
    rw [told_owe hi, stored_saved]
    show _ ↔ (_ ∨ Told (started w.published) starts (mac', id')) ∧ _
    by_cases same : mac' = authz.mac
    · subst mac'
      have before := hw.balance (authz.mac, id')
      simp only [absent] at before
      simp only [if_true]
      show (∃ a, some authz = some a ∧ a.localId = id') ↔
        (_ ∨ _) ∧ ¬Told (ended w.published) ends (authz.mac, id')
      grind
    · have before := hw.balance (mac', id')
      simp only [same, if_false, Prod.mk.injEq, false_and, false_or]
      exact before
  case endedOnce => exact hw.endedOnce
  case owed => exact hw.owed
  case owedOnce => exact hw.owedOnce
  case begun => exact fun s h => (told_owe hi).mpr (.inr (hw.begun s h))
  case bounded =>
    intro s h
    rcases (told_owe hi).mp h with rfl | h
    · exact ⟨id, le, localId⟩
    · exact hw.bounded s h
  case fresh =>
    intro j id' hj
    rw [Function.update_apply] at hj
    split at hj
    · cases hj
    · refine ⟨(hw.fresh j id' hj).1, fun s h same => ?_⟩
      rcases (told_owe hi).mp h with rfl | h
      · obtain rfl : id = id' := Option.some_inj.mp (localId.symm.trans same)
        exact ‹¬j = i› (hw.freshOnce j i id hj drawn_i)
      · exact (hw.fresh j id' hj).2 s h same
  case freshOnce => exact once_update hw.freshOnce nofun

/-- The start of a session is announced. -/
theorem books_start (hw : Books w starts ends drawn) {start : ℤ} {data : Serialized}
    (noEnd : data.hasKey "end" = false) (hi : starts i = some (data.mac, data.localId)) :
    Books (w.say (.start start data)) (Function.update starts i none) ends drawn := by
  have started' : started (w.say (.start start data)).published =
      started w.published ++ [(data.mac, data.localId)] :=
    started_start ..
  have ended' : ended (w.say (.start start data)).published = ended w.published :=
    ended_start _ _ noEnd
  have begun : ∀ s, Told (started (w.say (.start start data)).published)
      (Function.update starts i none) s ↔ Told (started w.published) starts s := fun s => by
    rw [started', told_announce hi]
  constructor
  case keyed => exact hw.keyed
  case balance => exact fun s => by rw [begun, ended']; exact hw.balance s
  case endedOnce => exact ended' ▸ hw.endedOnce
  case owed => exact fun j s => by rw [ended']; exact hw.owed j s
  case owedOnce => exact hw.owedOnce
  case begun => exact fun s => by rw [begun, ended']; exact hw.begun s
  case bounded => exact fun s => by rw [begun]; exact hw.bounded s
  case fresh =>
    refine fun j id hj => ⟨(hw.fresh j id hj).1, fun s h => ?_⟩
    exact (hw.fresh j id hj).2 s ((begun s).mp h)
  case freshOnce => exact hw.freshOnce

end Books

/-! ## Every interleaving -/

namespace Check.Stage

/-- The session whose start is to be announced. -/
def starts : Check.Stage → Option (String × Option Nat)
  | starting authz => some (authz.mac, authz.localId)
  | _ => none

/-- The session whose end is to be announced. -/
def ends : Check.Stage → Option (String × Option Nat)
  | ending old _ => some (old.mac, old.localId)
  | _ => none

/-- The id that is drawn and not used. -/
def drawn : Check.Stage → Option Nat
  | numbered id => some id
  | _ => none

/-- The check has read what is stored, and has still to write. -/
def Writing : Check.Stage → Prop
  | holding _ | ending _ true | numbered _ => True
  | _ => False

/-- A check that has still to write takes `stored` to be stored. -/
def Believes : Check.Stage → Option RedisMacAuthorization → Prop
  | holding old, stored => stored = old
  | ending _ true, stored | numbered _, stored => stored = none
  | _, _ => True

theorem believes_of_not_writing {q : Check.Stage} (h : ¬q.Writing)
    (stored : Option RedisMacAuthorization) : q.Believes stored := by
  unfold Writing at h
  split at h
  · exact absurd trivial h
  · exact absurd trivial h
  · exact absurd trivial h
  · unfold Believes
    split
    · simp_all
    · simp_all
    · simp_all
    · trivial

end Check.Stage

/-- The account of a pool of checks, none of which is beyond its stages. -/
structure Accounted {ι : Type} (mac : String) (w : World) (q : ι → Check.Stage) : Prop where
  plain : ∀ n a, w.answers n = some (.granted a) → a.Plain
  inside : ∀ i, q i ≠ unannounceable
  books : Books w (Check.Stage.starts ∘ q) (Check.Stage.ends ∘ q) (Check.Stage.drawn ∘ q)
  believes : ∀ i, (q i).Believes (w.stored mac)

section Pool

variable {ι : Type} [DecidableEq ι] {mac : String} {w : World} {q : ι → Check.Stage} {i : ι}
variable {q' : Check.Stage}

theorem update_same {β : Type} (f : Check.Stage → β) (h : f q' = f (q i)) :
    Function.update (f ∘ q) i (f q') = f ∘ q := by
  rw [h]
  exact Function.update_eq_self i (f ∘ q)

/-- A step that keeps the books, to a stage that is not beyond them. -/
theorem accounted_update (hw : Accounted mac w q) {w' : World} (answers : w'.answers = w.answers)
    (inside : q' ≠ unannounceable)
    (books : Books w' (Function.update (Check.Stage.starts ∘ q) i q'.starts)
      (Function.update (Check.Stage.ends ∘ q) i q'.ends)
      (Function.update (Check.Stage.drawn ∘ q) i q'.drawn))
    (mine : q'.Believes (w'.stored mac))
    (others : ∀ j, j ≠ i → (q j).Believes (w'.stored mac)) :
    Accounted mac w' (Function.update q i q') := by
  constructor
  case plain => exact answers ▸ hw.plain
  case inside =>
    intro j
    rw [Function.update_apply]
    split
    · exact inside
    · exact hw.inside j
  case books => simpa only [Function.comp_update] using books
  case believes =>
    intro j
    rw [Function.update_apply]
    split
    · exact mine
    · exact others j ‹_›

/-- A step that touches no authorization, to a stage that owes what the one before did. -/
theorem accounted_quiet (hw : Accounted mac w q) {w' : World} (h : Quiet w w')
    (inside : q' ≠ unannounceable) (starts : q'.starts = (q i).starts)
    (ends : q'.ends = (q i).ends) (drawn : q'.drawn = (q i).drawn)
    (mine : q'.Believes (w.stored mac)) : Accounted mac w' (Function.update q i q') := by
  have stored : w'.stored mac = w.stored mac := by simp only [World.stored, h.sessions]
  refine accounted_update hw h.answers inside ?_ (stored ▸ mine) fun j _ => stored ▸ hw.believes j
  rw [update_same _ starts, update_same _ ends, update_same _ drawn]
  exact books_quiet hw.books h

theorem quiet_of_asks {o : Op} (h : o.Asks) (w : World) : Quiet w (handler o w).2 := by
  cases o with
  | session o => exact ⟨rfl, rfl, rfl, rfl⟩
  | call => exact ⟨rfl, rfl, rfl, rfl⟩
  | _ => cases h

theorem accounted_step (hw : Accounted mac w q) {o : Op}
    (others : (∃ pipe, o = .execute pipe) → ∀ j, j ≠ i → ¬(q j).Writing)
    (permitted : Check.Permitted mac (q i) o (handler o w).1 q') :
    Accounted mac (handler o w).2 (Function.update q i q') := by
  have books := hw.books
  have mine := hw.believes i
  generalize hq : q i = qi at permitted mine
  generalize hr : (handler o w).1 = r at permitted
  cases permitted with
  | ask _ asks =>
    exact accounted_quiet hw (quiet_of_asks asks w) nofun (hq ▸ rfl) (hq ▸ rfl) (hq ▸ rfl) trivial
  | odd odd => exact absurd (hw.plain _ _ hr) odd
  | any => exact absurd hq (hw.inside i)
  | read =>
    subst hr
    exact accounted_quiet hw ⟨rfl, rfl, rfl, rfl⟩ nofun (hq ▸ rfl) (hq ▸ rfl) (hq ▸ rfl) rfl
  | leave =>
    exact accounted_quiet hw ⟨rfl, rfl, rfl, rfl⟩ nofun (hq ▸ rfl) (hq ▸ rfl) (hq ▸ rfl) trivial
  | change old =>
    exact accounted_quiet hw ⟨rfl, rfl, rfl, rfl⟩ nofun (hq ▸ rfl) (hq ▸ rfl) (hq ▸ rfl) trivial
  | tell authz =>
    exact accounted_quiet hw ⟨rfl, rfl, rfl, rfl⟩ nofun (hq ▸ rfl) (hq ▸ rfl) (hq ▸ rfl) trivial
  | delete old again =>
    have stored : w.stored mac = some old := mine
    have key : old.mac = mac := books.keyed mac old stored
    have gone : (w.deleted mac).stored mac = none := (stored_deleted ..).trans (if_pos rfl)
    refine accounted_update hw rfl nofun ?_ ?_ fun j hj =>
      Check.Stage.believes_of_not_writing (others ⟨_, rfl⟩ j hj) _
    · rw [update_same Check.Stage.starts (hq ▸ rfl), update_same Check.Stage.drawn (hq ▸ rfl)]
      have ends : (Check.Stage.ending old again).ends = some (mac, old.localId) := key ▸ rfl
      exact ends ▸ books_delete books stored (congrArg Check.Stage.ends hq)
    · cases again with
      | true => exact gone
      | false => trivial
  | ends old again reason at_ =>
    have none_of : (if again then holding none else settled).starts = none ∧
        (if again then holding none else settled).ends = none ∧
        (if again then holding none else settled).drawn = none := by cases again <;> decide
    refine accounted_update hw rfl (by cases again <;> nofun) ?_ ?_ fun j _ => hw.believes j
    · rw [update_same Check.Stage.starts (none_of.1.trans (hq ▸ rfl)),
        update_same Check.Stage.drawn (none_of.2.2.trans (hq ▸ rfl)), none_of.2.1]
      exact books_end books (congrArg Check.Stage.ends hq)
    · cases again with
      | true => exact mine
      | false => trivial
  | number =>
    subst hr
    refine accounted_update hw rfl nofun ?_ mine fun j _ => hw.believes j
    rw [update_same Check.Stage.starts (hq ▸ rfl), update_same Check.Stage.ends (hq ▸ rfl)]
    exact books_number books
  | save authz id _ key localId =>
    refine accounted_update hw rfl nofun ?_ trivial fun j hj =>
      Check.Stage.believes_of_not_writing (others ⟨_, rfl⟩ j hj) _
    rw [update_same Check.Stage.ends (hq ▸ rfl)]
    exact books_save books (key ▸ mine) localId (congrArg Check.Stage.drawn hq)
      (congrArg Check.Stage.starts hq)
  | start authz start data session noEnd =>
    refine accounted_update hw rfl nofun ?_ trivial fun j _ => hw.believes j
    rw [update_same Check.Stage.ends (hq ▸ rfl), update_same Check.Stage.drawn (hq ▸ rfl)]
    exact books_start books noEnd
      ((congrArg Check.Stage.starts hq).trans (congrArg some session.symm))

/-- The operation executes a pipeline. -/
def Op.Writes (o : Op) : Prop := ∃ pipe, o = .execute pipe

/-- When a check deletes or saves, no other one is between its reading and its last write. -/
def Undisturbed (mac : String)
    (c : Config agent World (Except Error (Option RedisMacAuthorization)) ι) (i : ι) : Prop :=
  ∀ pipe next, c.threads i = .op (.execute pipe) next →
    ∀ j, j ≠ i → ¬(c.threads j).Owes Op.Writes (Op.Reads mac)

theorem owes_writes {p : Prog agent (Except Error (Option RedisMacAuthorization))}
    {q : Check.Stage}
    (hp : p.Conforms (Check.Permitted mac) q
      (Outcome (fun _ => Check.Stage.Finished) Check.Stage.Finished))
    (hq : q.Writing) : p.Owes Op.Writes (Op.Reads mac) := by
  refine hp.owes (R := Check.Stage.Writing) ?_ ?_ hq
  · rintro (_ | _) q writing (rfl | rfl | rfl) <;> exact writing
  · intro q o r q' writing permitted
    cases permitted with
    | delete => exact .inl ⟨_, rfl⟩
    | save => exact .inl ⟨_, rfl⟩
    | ends old again =>
      cases again with
      | true => exact .inr ⟨nofun, trivial⟩
      | false => cases writing
    | number => exact .inr ⟨nofun, trivial⟩
    | _ => cases writing

/-- Checks of one device that overlap, none of which writes between the reading of another
one and its last write, leave the books balanced: the sessions started and not ended are
those stored, and no session is ended twice. -/
theorem checks_balance (hw : w.Ledger) (plain : ∀ n a, w.answers n = some (.granted a) → a.Plain)
    (mac : String) (checks : ι → Check)
    {d : Config agent World (Except Error (Option RedisMacAuthorization)) ι}
    (run : Run handler (Undisturbed mac) ⟨w, fun i => ((checks i).call mac).run⟩ d)
    (done : d.Done) :
    (∀ mac' id, ((mac', id) ∈ started d.state.published ∧ (mac', id) ∉ ended d.state.published) ↔
      ∃ authz, d.state.stored mac' = some authz ∧ authz.localId = id) ∧
    (ended d.state.published).Nodup := by
  obtain ⟨q, hd, conform⟩ := run.monitored (Q := fun c => Accounted mac c.state)
    (fun s t q i o next q' hs conform undisturbed hi permitted _ =>
      accounted_step hs (fun ⟨pipe, ho⟩ j hj writing =>
        undisturbed pipe (ho ▸ next) (by subst ho; exact hi) j hj (owes_writes (conform j) writing))
        permitted)
    (q := fun _ => asking) ⟨plain, fun _ => nofun, books_begin hw, fun _ => trivial⟩
    (fun i => conforms_check mac (checks i))
  have finished (i : ι) : (q i).Finished := by
    obtain ⟨_ | _, h⟩ := done.conforms conform i <;> exact h
  have quiet (i : ι) : (q i).starts = none ∧ (q i).ends = none := by
    rcases finished i with h | h | h <;> rw [h] <;> exact ⟨rfl, rfl⟩
  refine ⟨fun mac' id => ?_, hd.books.endedOnce⟩
  have balance := hd.books.balance (mac', id)
  have begun : Told (started d.state.published) (Check.Stage.starts ∘ q) (mac', id) ↔
      (mac', id) ∈ started d.state.published := or_iff_left fun ⟨i, h⟩ => by
    rw [Function.comp_apply, (quiet i).1] at h
    cases h
  have closed : Told (ended d.state.published) (Check.Stage.ends ∘ q) (mac', id) ↔
      (mac', id) ∈ ended d.state.published := or_iff_left fun ⟨i, h⟩ => by
    rw [Function.comp_apply, (quiet i).2] at h
    cases h
  rw [begun, closed] at balance
  exact balance.symm

end Pool

/-- Two checks at time 0, which are answered with one VLAN and then another. -/
def twoChecks : Config agent World (Except Error (Option RedisMacAuthorization)) (Fin 2) :=
  ⟨World.empty fun n => some (.granted (onVlan (if n = 0 then "eth1.10" else "eth1.20"))),
    fun _ => ((⟨0, none, overridden⟩ : Check).call "00:00:00:00:00:01").run⟩

/-- Both checks ask before either reads, and the second replaces what the first stores. -/
theorem checks_balance_two :
    let d := twoChecks.follow handler
      [0, 0, 0, 0, 1, 1, 1, 1, 0, 0, 0, 0, 0, 1, 1, 1, 1, 1, 1, 1]
    (∀ mac' id, ((mac', id) ∈ started d.state.published ∧ (mac', id) ∉ ended d.state.published) ↔
      ∃ authz, d.state.stored mac' = some authz ∧ authz.localId = id) ∧
    (ended d.state.published).Nodup := by
  have other : ∀ i j : Fin 2, j ≠ i → j = 1 - i := by decide
  refine checks_balance (ledger_empty _ .empty) ?_ "00:00:00:00:00:01"
    (fun _ => ⟨0, none, overridden⟩) (Config.follow_run ?_) (Config.done_iff.mpr (by decide))
  · intro n a h
    obtain rfl := NetworkAssignments.granted.inj (Option.some.inj h)
    exact plain_onVlan _
  · refine ⟨nofun, nofun, nofun, nofun, nofun, nofun, nofun, nofun, nofun, nofun, ?_, nofun, nofun,
      nofun, ?_, nofun, nofun, ?_, nofun, nofun, trivial⟩
    · rintro pipe next - j hj
      rw [other _ _ hj]
      -- the second check has still to read
      rintro (⟨_, h⟩ | h)
      · cases h
      · exact (h none).1 rfl
    · rintro pipe next - j hj
      rw [other _ _ hj]
      exact id
    · rintro pipe next - j hj
      rw [other _ _ hj]
      exact id

/-- Both checks read before either writes: the session of the first is never ended, and the
second is stored in its place. -/
theorem overlapping_checks_unbalanced :
    ∃ d : Config agent World (Except Error (Option RedisMacAuthorization)) (Fin 2),
      Run handler (fun _ _ => True) twoChecks d ∧ d.Done ∧
      ¬∀ mac' id, ((mac', id) ∈ started d.state.published ∧
          (mac', id) ∉ ended d.state.published) ↔
        ∃ authz, d.state.stored mac' = some authz ∧ authz.localId = id := by
  refine ⟨twoChecks.follow handler [0, 0, 0, 0, 0, 1, 1, 1, 1, 1, 0, 0, 0, 0, 1, 1, 1, 1],
    Config.follow_run (Config.guarded_true _ _), Config.done_iff.mpr (by decide), ?_⟩
  intro balance
  obtain ⟨authz, stored, localId⟩ := (balance "00:00:00:00:00:01" (some 1)).mp (by decide)
  obtain ⟨authz', stored', localId'⟩ := (balance "00:00:00:00:00:01" (some 2)).mp (by decide)
  rw [stored] at stored'
  cases stored'
  rw [localId] at localId'
  cases localId'

end ElanAgent.Nac
