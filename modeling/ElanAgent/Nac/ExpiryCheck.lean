import ElanAgent.Nac.Events

/-!
# Expired authorizations

The check of the expiries removes what has expired, device by device, and asks the control
center anew for each device that is online. The request is made in the thread of the check,
so that one that fails ends the loop: the devices after it keep their authorization, and
the timer for the next expiry, which has been cancelled, is not started again.
-/

namespace ElanAgent.Nac

open Atomic Redis Session RedisMacAuthorization MacAuthorizationManager

/-! ## The requests -/

/-- `is_online(mac)`, as the store is. -/
def World.online (w : World) (mac : String) : Bool :=
  (w.session.lastSeen.lookup (.mac mac)).getD 0 ≠ 0

/-- The requests for those of `macs` that are online, each with its answer, the first of
them being the `n`-th of all. -/
def requestsFrom (online : String → Bool) (answers : Nat → Option NetworkAssignments) :
    Nat → List String → List (String × Option NetworkAssignments)
  | _, [] => []
  | n, mac :: macs =>
    if online mac then (mac, answers n) :: requestsFrom online answers (n + 1) macs
    else requestsFrom online answers n macs

/-- The requests for `macs` that are made next. -/
def World.requests (w : World) (macs : List String) : List (String × Option NetworkAssignments) :=
  requestsFrom w.online w.answers w.asked macs

theorem requestsFrom_append (online : String → Bool) (answers : Nat → Option NetworkAssignments)
    (n : Nat) (macs macs' : List String) :
    requestsFrom online answers n (macs ++ macs') = requestsFrom online answers n macs ++
      requestsFrom online answers (n + (requestsFrom online answers n macs).length) macs' := by
  induction macs generalizing n with
  | nil => rfl
  | cons mac macs ih =>
    simp only [List.cons_append, requestsFrom]
    split
    · rw [ih, List.length_cons, List.cons_append, Nat.add_right_comm, Nat.add_assoc]
    · exact ih n

theorem mem_of_mem_requestsFrom {online : String → Bool}
    {answers : Nat → Option NetworkAssignments} {n : Nat} {macs : List String}
    {r : String × Option NetworkAssignments} (h : r ∈ requestsFrom online answers n macs) :
    r.1 ∈ macs := by
  induction macs generalizing n with
  | nil => cases h
  | cons mac macs ih =>
    rw [requestsFrom] at h
    split at h
    · rcases List.mem_cons.mp h with rfl | h
      · exact List.mem_cons_self
      · exact List.mem_cons_of_mem _ (ih h)
    · exact List.mem_cons_of_mem _ (ih h)

/-! ## One turn -/

section Turn

variable (w : World) (now : ℚ) (mac : String)

/-- What one turn of the loop does. -/
def expire (now : ℚ) (mac : String) : Call Unit := do
  let _ ← removeAuthz now mac "expired" none
  checkMacs now [mac]

/-- The entries for `mac` in the dictionaries of the manager. -/
def World.cached (w : World) (mac : String) : Finset String × Finset String :=
  (w.firewall.allowedVlans mac, w.firewall.bridgedVlans mac)

/-- What the turns of `macs` leave: nothing of what was stored or open for them, and what the
answers to the requests have granted. -/
structure Turned (w u : World) (macs : List String) : Prop where
  others : ∀ mac ∉ macs, u.stored mac = w.stored mac ∧ u.cached mac = w.cached mac
  closed : ∀ mac ∈ macs, u.cached mac = (∅, ∅)
  granted : ∀ mac ∈ macs, ∀ till, (∃ authz, u.stored mac = some authz ∧ authz.till = till) ↔
    ∃ a : Assignments, (mac, some (.granted a)) ∈ w.requests macs ∧ a.till = till
  online : u.online = w.online
  answers : u.answers = w.answers
  asked : u.asked = w.asked + (w.requests macs).length
  nextCheck : u.nextCheck = w.nextCheck

variable {w mac}

end Turn

/-! ## The loop -/

section Loop

variable {w v u : World} {macs macs' : List String}

theorem mem_of_mem_requests {r : String × Option NetworkAssignments} (h : r ∈ w.requests macs) :
    r.1 ∈ macs := mem_of_mem_requestsFrom h

theorem Turned.requests (h : Turned w v macs) (macs' : List String) :
    w.requests (macs ++ macs') = w.requests macs ++ v.requests macs' := by
  simp only [World.requests, h.online, h.answers, h.asked, requestsFrom_append]

theorem Turned.refl (w : World) : Turned w w [] :=
  ⟨fun _ _ => ⟨rfl, rfl⟩, nofun, nofun, rfl, rfl, rfl, rfl⟩

theorem Turned.append (h : Turned w v macs) (h' : Turned v u macs')
    (disjoint : macs.Disjoint macs') : Turned w u (macs ++ macs') where
  others mac absent := by
    rw [List.mem_append, not_or] at absent
    obtain ⟨stored, cached⟩ := h.others mac absent.1
    obtain ⟨stored', cached'⟩ := h'.others mac absent.2
    exact ⟨stored'.trans stored, cached'.trans cached⟩
  closed mac member := by
    by_cases later : mac ∈ macs'
    · exact h'.closed mac later
    · have earlier := (List.mem_append.mp member).resolve_right later
      exact (h'.others mac later).2.trans (h.closed mac earlier)
  granted mac member till := by
    simp only [h.requests, List.mem_append]
    by_cases later : mac ∈ macs'
    · have fresh (answer) : (mac, answer) ∉ w.requests macs :=
        fun asked => disjoint (mem_of_mem_requests asked) later
      simpa only [fresh, false_or] using h'.granted mac later till
    · have earlier := (List.mem_append.mp member).resolve_right later
      have fresh (answer) : (mac, answer) ∉ v.requests macs' :=
        fun asked => later (mem_of_mem_requests asked)
      simpa only [fresh, or_false, (h'.others mac later).1] using h.granted mac earlier till
  online := h'.online.trans h.online
  answers := h'.answers.trans h.answers
  asked := by rw [h'.asked, h.asked, h.requests, List.length_append, Nat.add_assoc]
  nextCheck := h'.nextCheck.trans h.nextCheck

end Loop

/-! ## The timer -/

/-- A stored authorization ends at `till`. -/
def World.Ends (w : World) (till : ℚ) : Prop :=
  ∃ mac authz, w.stored mac = some authz ∧ authz.till = some till

section Timer

variable {w : World}

theorem World.Agrees.score_lookup (hw : w.Agrees) {mac : String} {authz : RedisMacAuthorization}
    (stored : w.stored mac = some authz) : w.expiry.lookup mac = some authz.score := by
  obtain ⟨data, found, rfl⟩ := Option.map_eq_some_iff.mp stored
  exact hw.scores mac data found

theorem World.Agrees.stored_of_lookup (hw : w.Agrees) {mac : String} {score : WithTop ℚ}
    (found : w.expiry.lookup mac = some score) :
    ∃ authz, w.stored mac = some authz ∧ authz.score = score := by
  have member : mac ∈ w.sessions := by
    rw [← hw.members, ← AList.lookup_isSome, found]
    rfl
  obtain ⟨data, present⟩ := Option.isSome_iff_exists.mp (AList.lookup_isSome.mpr member)
  refine ⟨ofSerialized data, congrArg (Option.map ofSerialized) present, ?_⟩
  exact Option.some.inj ((hw.scores mac data present).symm.trans found)

theorem score_eq_coe {authz : RedisMacAuthorization} {till : ℚ} :
    authz.score = (till : WithTop ℚ) ↔ authz.till = some till := by
  cases h : authz.till with
  | none => simp [RedisMacAuthorization.score, h]
  | some t => simp [RedisMacAuthorization.score, h]

end Timer

/-! ## The check -/

/-- The devices whose authorization has expired, in the order of their turns. -/
def World.expired (w : World) (now : ℚ) : List String := w.expiry.rangeByScore now

section Check

variable {w u : World} {now : ℚ}

theorem mem_expired (hw : w.Agrees) {mac : String} : mac ∈ w.expired now ↔
    ∃ authz till, w.stored mac = some authz ∧ authz.till = some till ∧ till ≤ now := by
  rw [World.expired, ExpirySet.mem_rangeByScore]
  constructor
  · rintro ⟨till, found, due⟩
    obtain ⟨authz, stored, score⟩ := hw.stored_of_lookup found
    exact ⟨authz, till, stored, score_eq_coe.mp score, due⟩
  · rintro ⟨authz, till, stored, ends, due⟩
    exact ⟨till, (hw.score_lookup stored).trans (congrArg some (score_eq_coe.mpr ends)), due⟩

/-- Once all have had their turn, nothing of what had expired is left. -/
theorem Turned.removed (hw : w.Agrees)
    (later : ∀ r ∈ w.requests (w.expired now), ∀ a till, r.2 = some (.granted a) →
      a.till = some till → now < till) (turned : Turned w u (w.expired now)) (mac : String)
    (authz : RedisMacAuthorization) (till : ℚ) (stored : w.stored mac = some authz)
    (ends : authz.till = some till) (due : till ≤ now) :
    u.stored mac ≠ some authz ∧ u.cached mac = (∅, ∅) := by
  have member : mac ∈ w.expired now := (mem_expired hw).mpr ⟨authz, till, stored, ends, due⟩
  refine ⟨fun kept => ?_, turned.closed mac member⟩
  obtain ⟨a, asked, granted⟩ := (turned.granted mac member (some till)).mp ⟨authz, kept, ends⟩
  exact absurd (later _ asked a till rfl granted) (not_lt.mpr due)

end Check

end ElanAgent.Nac
