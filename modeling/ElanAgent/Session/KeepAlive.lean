import ElanAgent.Session.CheckEffect

/-!
# A device that answers

The tracker pings an IP once it has not been seen for four minutes, at every check until
it is seen again, and ends it after five. Other daemons see devices at the time of what
they captured, which is older than the call: `delay` bounds by how much.

A check pings an IP at most 250 seconds after its time, so an answer within what is left
of the five minutes keeps it, and with it the VLAN and the MAC above it, whose own times
may be older than the IP's by the delay.
-/

namespace ElanAgent.Session

open Atomic Redis Hierarchy

variable {N : Set Obj} {P : Set Port} {w : World} {delay : ℚ}

/-- The reading of the clock by the call. -/
def Call.clock : Call → ℚ
  | .seen now .. => now
  | .ends now .. => now

/-- The time that the call gives is not in the future, and not older than the delay. -/
def Call.Late (delay : ℚ) : Call → Prop
  | .seen now _ _ _ _ time => now - delay ≤ time.getD now ∧ time.getD now ≤ now
  | .ends .. => True

theorem Call.Late.score {c : Call} (late : c.Late delay) {s : ℚ} (hs : c.score = some s) :
    c.clock - delay ≤ s ∧ s ≤ c.clock := by
  cases c with
  | seen now mac vlan port ip time =>
    obtain rfl := Option.some.inj hs
    exact late
  | ends => cases hs

/-- The call does not end a session of the MAC, nor find it on another port. -/
def Remains (mac : Value) (w : World) : Call → Prop
  | .seen _ m _ port _ _ => m = mac → Moves w mac port = false
  | .ends _ m _ _ _ => m ≠ mac

/-! ## Scores near the clock -/

/-- No score is in the future, and none is below that of an object under it by more than
the delay. -/
structure Near (delay now : ℚ) (w : World) : Prop where
  le : ∀ x s, w.seenAt x = some s → s ≤ now
  near : ∀ x y, x ≤ y → ∀ s t, w.seenAt x = some s → w.seenAt y = some t → t ≤ s + delay

theorem Near.later {now now' : ℚ} (h : Near delay now w) (hle : now ≤ now') :
    Near delay now' w :=
  ⟨fun x s hs => (h.le x s hs).trans hle, h.near⟩

/-- Removing objects keeps the scores near. -/
theorem Near.removed {now : ℚ} {w' : World} (h : Near delay now w)
    (removes : ∀ x, w'.seenAt x = none ∨ w'.seenAt x = w.seenAt x) : Near delay now w' := by
  have old : ∀ x s, w'.seenAt x = some s → w.seenAt x = some s := by
    intro x s hs
    rcases removes x with hn | hw
    · rw [hn] at hs
      cases hs
    · exact hw ▸ hs
  exact ⟨fun x s hs => h.le x s (old x s hs),
    fun x y hxy s t hs ht => h.near x y hxy s t (old x s hs) (old y t ht)⟩

theorem Near.step (nonneg : 0 ≤ delay) {now : ℚ} (h : Near delay now w) {c : Call}
    (late : c.Late delay) (after : now ≤ c.clock) : Near delay c.clock (w.step c) := by
  cases c with
  | seen clock mac vlan port ip time =>
    obtain ⟨hlow, hhigh⟩ := late
    have before : Near delay clock ((seenPort clock mac port).run handler w).2 :=
      (h.later after).removed fun x => seenPort_seenAt clock mac port w x
    have score : ∀ x s, (w.step (.seen clock mac vlan port ip time)).seenAt x = some s →
        (x ≤ objOf mac vlan ip ∧ s = time.getD clock) ∨
          (¬ x ≤ objOf mac vlan ip ∧
            ((seenPort clock mac port).run handler w).2.seenAt x = some s) := by
      intro x s hs
      rw [step_seen] at hs
      by_cases hx : x ≤ objOf mac vlan ip
      · rw [cover_of_le hx] at hs
        exact .inl ⟨hx, (Option.some.inj hs).symm⟩
      · rw [cover_of_not_le hx] at hs
        exact .inr ⟨hx, hs⟩
    constructor
    · intro x s hs
      rcases score x s hs with ⟨-, rfl⟩ | ⟨-, hs⟩
      · exact hhigh
      · exact before.le x s hs
    · intro x y hxy s t hs ht
      rcases score y t ht with ⟨hy, rfl⟩ | ⟨hy, ht⟩
      · obtain ⟨-, rfl⟩ := (score x s hs).resolve_right fun hx => hx.1 (hxy.trans hy)
        linarith
      · rcases score x s hs with ⟨-, rfl⟩ | ⟨-, hs⟩
        · have := before.le y t ht
          change t ≤ clock at this
          linarith
        · exact before.near x y hxy s t hs ht
  | ends clock mac vlan ip time =>
    exact (h.later after).removed fun x => step_ends clock mac vlan ip time w x

theorem Near.calls (nonneg : 0 ≤ delay) {now stop : ℚ} (h : Near delay now w) {cs : List Call}
    (late : ∀ c ∈ cs, c.Late delay) (between : ∀ c ∈ cs, now ≤ c.clock ∧ c.clock ≤ stop)
    (order : cs.Pairwise fun c d => c.clock ≤ d.clock) (hle : now ≤ stop) :
    Near delay stop (w.calls cs) := by
  induction cs generalizing w now with
  | nil => exact h.later hle
  | cons c cs ih =>
    obtain ⟨first, order⟩ := List.pairwise_cons.mp order
    obtain ⟨hafter, hbefore⟩ := between c List.mem_cons_self
    have here := h.step nonneg (late c List.mem_cons_self) hafter
    refine ih here (fun d hd => late d (List.mem_cons_of_mem _ hd)) (fun d hd => ?_) order hbefore
    exact ⟨first d hd, (between d (List.mem_cons_of_mem _ hd)).2⟩

/-! ## The wait, from one object -/

theorem one_le_wait (now : ℚ) (w : World) :
    1 ≤ ((getSecondsBeforeNextCheck now).run handler w).1 := by
  cases hfirst : w.lastSeen.first with
  | none => simp [getSecondsBeforeNextCheck, hfirst, pingObjectsAfter]
  | some e =>
    by_cases hping : e.2 + pingObjectsAfter ≤ now
    · simp [getSecondsBeforeNextCheck, hfirst, hping, pingEvery]
    · have hfloor : 0 ≤ ⌊e.2 + pingObjectsAfter - now⌋ := Int.floor_nonneg.mpr (by linarith)
      have hwait : ((getSecondsBeforeNextCheck now).run handler w).1 =
          truncate (e.2 + pingObjectsAfter - now) + 1 := by
        simp [getSecondsBeforeNextCheck, hfirst, hping]
      rw [hwait, truncate_nonneg (by linarith)]
      omega

/-- The next check is ten seconds away, or at most 241 seconds after any score. -/
theorem wait_of_seen (now : ℚ) {s : ℚ} {x : Obj} (hs : w.seenAt x = some s) :
    let t := ((getSecondsBeforeNextCheck now).run handler w).1
    t = 10 ∨ now + t ≤ s + 241 := by
  cases hfirst : w.lastSeen.first with
  | none =>
    rw [World.seenAt, SortedSet.first_eq_none.mp hfirst x] at hs
    cases hs
  | some e =>
    obtain ⟨o, last⟩ := e
    have oldest : last ≤ s := SortedSet.first_le hfirst hs
    by_cases hping : last + pingObjectsAfter ≤ now
    · exact .inl (by simp [getSecondsBeforeNextCheck, hfirst, hping, pingEvery])
    · right
      have hwait : ((getSecondsBeforeNextCheck now).run handler w).1 =
          ⌊last + pingObjectsAfter - now⌋ + 1 := by
        rw [← truncate_nonneg (by linarith)]
        simp [getSecondsBeforeNextCheck, hfirst, hping]
      have hfloor := Int.floor_le (last + pingObjectsAfter - now)
      rw [hwait]
      push_cast [pingObjectsAfter] at hfloor ⊢
      linarith

theorem wait_le {now : ℚ} (h : ∀ x s, w.seenAt x = some s → s ≤ now) :
    ((getSecondsBeforeNextCheck now).run handler w).1 ≤ 241 := by
  cases hfirst : w.lastSeen.first with
  | none => simp [getSecondsBeforeNextCheck, hfirst, pingObjectsAfter]
  | some e =>
    obtain ⟨o, last⟩ := e
    have hs : w.seenAt o = some last := SortedSet.first_mem hfirst
    have hnow := h o last hs
    rcases wait_of_seen now hs with ht | ht
    · omega
    · have : ((((getSecondsBeforeNextCheck now).run handler w).1 : ℤ) : ℚ) ≤ (241 : ℤ) := by
        push_cast
        linarith
      exact_mod_cast this

/-! ## One check -/

/-- The IPs that a check pings are those whose time in the store that it leaves is four
minutes old. -/
theorem mem_pings {now : ℚ} {x : Obj} : x ∈ ((checkSessions now).run handler w).1 ↔
    x.kind = .ip ∧ ∃ s, ((checkSessions now).run handler w).2.seenAt x = some s ∧
      s ≤ now - pingObjectsAfter := by
  simp only [checkSessions, Prog.run_bind, run_zrangebyscore, Prog.run_pure, List.mem_filter,
    List.mem_map, Prod.exists, exists_and_right, exists_eq_right, SortedSet.mem_rangeByScore,
    decide_eq_true_eq, World.seenAt]
  exact and_comm

/-- A check keeps an object under none that has expired, and its id. -/
theorem check_keeps (names : Names N P) (inv : Invariant N P w) (now : ℚ) {x : Obj}
    (fresh : ∀ y ≤ x, ¬ Expired now w y) :
    ((checkSessions now).run handler w).2.seenAt x = w.seenAt x ∧
      (x ∈ N → ((checkSessions now).run handler w).2.idOf x = w.idOf x) := by
  have there : ∀ e ∈ endedOf now w, e.1 ∈ support w.seenAt := fun e he => by
    simp [(mem_endedOf.mp he).1]
  obtain ⟨-, -, kept, -⟩ := calls_endOf names inv now there (endedOf_apart now w)
  rw [checkSessions_run, checkCalls]
  refine kept x fun e he hle => fresh e.1 hle ?_
  exact ⟨e.2, (mem_endedOf.mp he).1, (mem_endedOf.mp he).2.1⟩

/-! ## Runs -/

/-- The calls use the names and are made between the checks that surround them, one after
the other, each with a time that is not older than the delay. -/
structure Schedule.Timed (N : Set Obj) (P : Set Port) (delay : ℚ) (r : Schedule) : Prop where
  uses : ∀ k, ∀ c ∈ r.calls k, c.Uses N P
  late : ∀ k, ∀ c ∈ r.calls k, c.Late delay
  between : ∀ k, ∀ c ∈ r.calls k, r.time k ≤ c.clock ∧ c.clock ≤ r.time (k + 1)
  order : ∀ k, (r.calls k).Pairwise fun c d => c.clock ≤ d.clock

/-- The object is seen soon after each check that pings it. -/
def Schedule.Answered (delay : ℚ) (r : Schedule) (x : Obj) : Prop :=
  ∀ k, x ∈ ((checkSessions (r.time k)).run handler (r.found k)).1 →
    ∃ j, k ≤ j ∧ ∃ c ∈ r.calls j, c.Sees x ∧ c.clock < r.time k + (50 - delay)

namespace Schedule

variable {r : Schedule} {x : Obj} {s : ℚ} {i j : ℕ}

theorem time_lt (r : Schedule) (k : ℕ) : r.time k < r.time (k + 1) := by
  have : (1 : ℚ) ≤ r.wait k := by exact_mod_cast one_le_wait (r.time k) (r.checked k)
  rw [time_succ]
  linarith

theorem time_mono (r : Schedule) : Monotone r.time :=
  monotone_nat_of_le_succ fun k => (r.time_lt k).le

theorem checked_removes (names : Names N P) {k : ℕ} (inv : Invariant N P (r.found k)) (x : Obj) :
    (r.checked k).seenAt x = none ∨ (r.checked k).seenAt x = (r.found k).seenAt x :=
  ((checkSessions_spec names inv (r.time k)).2 x).2

/-- What holds of the store that each check finds. -/
theorem Timed.found (names : Names N P) (nonneg : 0 ≤ delay) (timed : r.Timed N P delay)
    (k : ℕ) : Invariant N P (r.found k) ∧ Near delay (r.time k) (r.found k) := by
  induction k with
  | zero =>
    refine ⟨invariant_empty N P, ?_, ?_⟩
    · simp [Schedule.found, check, World.seenAt, World.empty]
    · simp [Schedule.found, check, World.seenAt, World.empty]
  | succ k ih =>
    obtain ⟨inv, near⟩ := ih
    have inv' := (checkSessions_spec names inv (r.time k)).1
    have near' := near.removed (checked_removes names inv)
    refine ⟨?_, ?_⟩
    · exact (calls_rule names (Q := fun _ => True) (fun _ _ _ _ _ _ _ => trivial) (r.calls k)
        (timed.uses k) inv' trivial).1
    · exact near'.calls nonneg (timed.late k) (timed.between k) (timed.order k) (r.time_lt k).le

/-- A score is the one that the last check left, or a call's since. -/
theorem Timed.score (timed : r.Timed N P delay) {k : ℕ}
    (hs : (r.found (k + 1)).seenAt x = some s) :
    (r.checked k).seenAt x = some s ∨ r.time k - delay ≤ s := by
  rw [found_succ] at hs
  refine (calls_score hs).imp_right ?_
  rintro ⟨c, hc, hs⟩
  have := ((timed.late k c hc).score hs).1
  have := (timed.between k c hc).1
  linarith

/-- A score that is older than a check was there at the check. -/
theorem Timed.stood (names : Names N P) (nonneg : 0 ≤ delay) (timed : r.Timed N P delay)
    (hij : i ≤ j) (old : s + delay < r.time i) (hs : (r.found j).seenAt x = some s) :
    (r.found i).seenAt x = some s := by
  induction j, hij using Nat.le_induction with
  | base => exact hs
  | succ j hij ih =>
    have left : (r.checked j).seenAt x = some s := by
      refine (timed.score hs).resolve_right fun hlow => ?_
      have := r.time_mono hij
      linarith
    rcases checked_removes names (timed.found names nonneg j).1 x with hn | hf
    · rw [hn] at left
      cases left
    · exact ih (hf ▸ left)

/-- An object that a call sees has no older score after it. -/
theorem Timed.refreshed (timed : r.Timed N P delay) {c : Call} (hc : c ∈ r.calls j)
    (sees : c.Sees x) (old : s + delay < r.time j) : (r.found (j + 1)).seenAt x ≠ some s := by
  intro hs
  obtain ⟨before, after, split⟩ := List.append_of_mem hc
  have recent : ∀ d ∈ r.calls j, d.score ≠ some s := by
    intro d hd hscore
    have := ((timed.late j d hd).score hscore).1
    have := (timed.between j d hd).1
    linarith
  rw [found_succ, split, calls_append] at hs
  rcases calls_score hs with hs' | ⟨d, hd, hscore⟩
  · have later : ((((r.checked j).calls before).step c).calls after).seenAt x = some s := hs
    have hstep : (((r.checked j).calls before).step c).seenAt x = some s := by
      rcases calls_score later with hs | ⟨d, hd, hscore⟩
      · exact hs
      · exact absurd hscore (recent d (by simp [split, hd]))
    cases c with
    | seen now mac vlan port ip time =>
      rw [step_seen, cover_of_le sees] at hstep
      exact recent _ hc hstep
    | ends => exact sees
  · exact absurd hscore (recent d (by rw [split]; exact List.mem_append_right _ hd))

/-- A check pings an IP whose time is old, less than ten seconds after it could. -/
theorem Timed.pinged (names : Names N P) (nonneg : 0 ≤ delay) (small : delay ≤ 9)
    (timed : r.Timed N P delay) (kind : x.kind = .ip) (hs : (r.found j).seenAt x = some s)
    (old : s + 240 ≤ r.time j) :
    ∃ i ≤ j, s + 240 ≤ r.time i ∧ r.time i ≤ s + 250 ∧
      x ∈ ((checkSessions (r.time i)).run handler (r.found i)).1 := by
  classical
  have due : ∃ i, s + 240 ≤ r.time i := ⟨j, old⟩
  obtain ⟨i, hi⟩ : ∃ i, Nat.find due = i := ⟨_, rfl⟩
  have hdue : s + 240 ≤ r.time i := hi ▸ Nat.find_spec due
  have hij : i ≤ j := hi ▸ Nat.find_min' due old
  have found : (r.found i).seenAt x = some s :=
    timed.stood names nonneg hij (by linarith) hs
  have soon : r.time i ≤ s + 250 := by
    cases i with
    | zero => simp [Schedule.found, check, World.seenAt, World.empty] at found
    | succ m =>
      have early : r.time m < s + 240 := by
        have := Nat.find_min due (m := m) (by omega)
        exact not_le.mp this
      rw [time_succ]
      obtain ⟨inv, near⟩ := timed.found names nonneg m
      rcases timed.score found with left | called
      · rcases wait_of_seen (r.time m) left with ht | ht
        · have ht : (r.wait m : ℚ) = 10 := by exact_mod_cast ht
          linarith
        · change r.time m + r.wait m ≤ s + 241 at ht
          linarith
      · have near' := near.removed (checked_removes names inv)
        have ht : (r.wait m : ℚ) ≤ 241 := by exact_mod_cast wait_le near'.le
        linarith
  refine ⟨i, hij, hdue, soon, mem_pings.mpr ⟨kind, s, ?_, ?_⟩⟩
  · obtain ⟨inv, near⟩ := timed.found names nonneg i
    rw [(check_keeps names inv _ fun y hy => ?_).1, found]
    rintro ⟨t, ht, hexp⟩
    have := near.near y x hy t s ht found
    push_cast [expiryObjectAfter] at hexp
    linarith
  · push_cast [pingObjectsAfter]
    linarith

/-- Nothing above an IP whose pings are answered has expired at a check. -/
theorem Timed.fresh (names : Names N P) (nonneg : 0 ≤ delay) (small : delay ≤ 9)
    (timed : r.Timed N P delay) (kind : x.kind = .ip) (answered : r.Answered delay x)
    (hs : (r.found j).seenAt x = some s) {y : Obj} (hy : y ≤ x) :
    ¬ Expired (r.time j) (r.found j) y := by
  rintro ⟨t, ht, hexp⟩
  have near := (timed.found names nonneg j).2.near y x hy t s ht hs
  push_cast [expiryObjectAfter] at hexp
  obtain ⟨i, hij, hlow, hhigh, pinged⟩ :=
    timed.pinged names nonneg small kind hs (by linarith)
  obtain ⟨l, hil, c, hc, sees, hclock⟩ := answered i pinged
  have hbetween := (timed.between l c hc).1
  have hlj : l < j := by
    by_contra hjl
    have := r.time_mono (not_lt.mp hjl)
    linarith
  have hmono := r.time_mono hil
  have hnext := r.time_lt l
  refine timed.refreshed hc sees (s := s) (by linarith) ?_
  exact timed.stood names nonneg (Nat.succ_le_of_lt hlj) (by linarith) hs

end Schedule

/-- A call that leaves the MAC where it is keeps its objects. -/
theorem step_remains {c : Call} {x : Obj} (stays : Remains x.owner w c)
    (hx : w.seenAt x ≠ none) : (w.step c).seenAt x ≠ none := by
  by_cases other : x.owner = c.owner
  · cases c with
    | seen now mac vlan port ip time =>
      obtain rfl : x.owner = mac := other
      rw [step_seen, seenPort_run, stays rfl]
      by_cases hle : x ≤ objOf x.owner vlan ip
      · simp [cover_of_le hle]
      · simpa [cover_of_not_le hle] using hx
    | ends now mac vlan ip time => exact absurd other.symm stays
  · rwa [step_seenAt other]

theorem calls_remains {cs : List Call} {x : Obj} (stays : Along (Remains x.owner) w cs)
    (hx : w.seenAt x ≠ none) : (w.calls cs).seenAt x ≠ none := by
  induction cs generalizing w with
  | nil => exact hx
  | cons c cs ih => exact ih stays.2 (step_remains stays.1 hx)

/-- Where every ping of an IP is answered, no check takes the time or the id of the IP, nor
of the VLAN and the MAC above it: only another port or an `end` by someone else ends its
session. -/
theorem kept_alive (names : Names N P) (nonneg : 0 ≤ delay) (small : delay ≤ 9)
    {r : Schedule} (timed : r.Timed N P delay) {x : Obj} (kind : x.kind = .ip)
    (answered : r.Answered delay x) :
    (∀ k, (r.found k).seenAt x ≠ none → ∀ y ≤ x,
      (r.checked k).seenAt y = (r.found k).seenAt y ∧
        (r.checked k).idOf y = (r.found k).idOf y) ∧
    ∀ k, (r.found k).seenAt x ≠ none →
      (∀ j, k ≤ j → Along (Remains x.owner) (r.checked j) (r.calls j)) →
        ∀ j, k ≤ j → (r.found j).seenAt x ≠ none := by
  have keeps : ∀ k, (r.found k).seenAt x ≠ none → ∀ y ≤ x,
      (r.checked k).seenAt y = (r.found k).seenAt y ∧
        (r.checked k).idOf y = (r.found k).idOf y := by
    intro k hx y hy
    obtain ⟨s, hs⟩ := Option.ne_none_iff_exists'.mp hx
    obtain ⟨inv, -⟩ := timed.found names nonneg k
    obtain ⟨seenAt, idOf⟩ := check_keeps names inv (r.time k) (x := y) fun z hz =>
      timed.fresh names nonneg small kind answered hs (hz.trans hy)
    exact ⟨seenAt, idOf (names.lower hy (inv.named hx))⟩
  refine ⟨keeps, fun k hx stays j hkj => ?_⟩
  induction j, hkj using Nat.le_induction with
  | base => exact hx
  | succ j hkj ih =>
    rw [Schedule.found_succ]
    refine calls_remains (stays j hkj) ?_
    rwa [(keeps j ih x le_rfl).1]

/-- A device answers the ping of the check at 242 seconds, and leaves. -/
def answeringSchedule : Schedule where
  start := 0
  calls k := match k with
    | 0 => [.seen 2 "00:11" "eth0" none "10.0.0.2" (some 1)]
    | 2 => [.seen 243 "00:11" "eth0" none "10.0.0.2" (some 242), .ends 250 "00:11" .none .none none]
    | _ => []

theorem answeringSchedule_timed :
    answeringSchedule.Timed {o | o ∈ roamingObjs} {p | p ∈ roamingPorts} 1 := by
  have h0 : answeringSchedule.time 0 = 0 := rfl
  have h1 : answeringSchedule.time 1 = 240 := by decide +kernel
  have h2 : answeringSchedule.time 2 = 242 := by decide +kernel
  have h3 : answeringSchedule.time 3 = 252 := by decide +kernel
  constructor
  · rintro (_ | _ | _ | k) c hc <;> simp only [answeringSchedule, List.mem_cons,
      List.not_mem_nil, or_false] at hc
    · subst c
      simp [Call.Uses, Call.obj, Call.port, objOf, roamingObjs]
    · rcases hc with rfl | rfl <;>
        simp [Call.Uses, Call.obj, Call.port, objOf, roamingObjs]
  · rintro (_ | _ | _ | k) c hc <;> simp only [answeringSchedule, List.mem_cons,
      List.not_mem_nil, or_false] at hc
    · subst c
      norm_num [Call.Late]
    · rcases hc with rfl | rfl <;> norm_num [Call.Late]
  · rintro (_ | _ | _ | k) c hc <;> simp only [answeringSchedule, List.mem_cons,
      List.not_mem_nil, or_false] at hc
    · subst c
      norm_num [Call.clock, h0, h1]
    · rcases hc with rfl | rfl <;> norm_num [Call.clock, h2, h3]
  · rintro (_ | _ | _ | k)
    · norm_num [answeringSchedule]
    · norm_num [answeringSchedule]
    · norm_num [answeringSchedule, Call.clock]
    · exact List.Pairwise.nil

theorem answeringSchedule_gone {k : ℕ} (hk : 3 ≤ k) :
    (answeringSchedule.found k).seenAt (.ip "00:11" "eth0" "10.0.0.2") = none := by
  induction k, hk using Nat.le_induction with
  | base => decide +kernel
  | succ k hk ih =>
    have inv := (answeringSchedule_timed.found roamingNames zero_le_one k).1
    have quiet : answeringSchedule.calls k = [] := by
      obtain ⟨m, rfl⟩ := Nat.exists_eq_add_of_le' hk
      rfl
    rw [Schedule.found_succ, quiet]
    rcases Schedule.checked_removes roamingNames inv (.ip "00:11" "eth0" "10.0.0.2") with hn | hf
    · exact hn
    · exact hf.trans ih

theorem answeringSchedule_answered :
    answeringSchedule.Answered 1 (.ip "00:11" "eth0" "10.0.0.2") := by
  rintro (_ | _ | _ | k) hk
  · exact absurd hk (by decide +kernel)
  · exact absurd hk (by decide +kernel)
  · have h2 : answeringSchedule.time 2 = 242 := by decide +kernel
    refine ⟨2, le_rfl, _, List.mem_cons_self, by simp [Call.Sees, objOf], ?_⟩
    norm_num [Call.clock, h2]
  · obtain ⟨-, s, hs, -⟩ := mem_pings.mp hk
    have gone := answeringSchedule_gone (show 3 ≤ k + 3 by omega)
    have inv := (answeringSchedule_timed.found roamingNames zero_le_one (k + 3)).1
    rcases Schedule.checked_removes roamingNames inv (.ip "00:11" "eth0" "10.0.0.2") with hn | hf
    · exact absurd (hn.symm.trans hs) (by simp)
    · exact absurd ((hf.trans gone).symm.trans hs) (by simp)

theorem answeringSchedule_kept :
    (answeringSchedule.checked 2).seenAt (.mac "00:11") = some 1 ∧
      (answeringSchedule.found 3).seenAt (.mac "00:11") = none := by
  have found : (answeringSchedule.found 2).seenAt (.mac "00:11") = some 1 := by decide +kernel
  have kept := (kept_alive roamingNames zero_le_one (by norm_num) answeringSchedule_timed rfl
    answeringSchedule_answered).1 2 (by decide +kernel) (.mac "00:11") (by simp)
  exact ⟨kept.1.trans found, by decide +kernel⟩

end ElanAgent.Session
