import ElanAgent.Session.Scores
import Mathlib.Algebra.Order.Archimedean.Basic
import Mathlib.Tactic.Linarith

/-!
# The session tracker

`bin/session_trackerd.py` ends what has not been seen for five minutes. It sleeps until
the oldest object may need a ping, polls every ten seconds once one does, and four
minutes when there is nothing to watch.

`Schedule` is a run of its loop: the calls that other daemons make between two checks
are arbitrary, the times of the checks follow from the waits. The bound on how late an
object expires comes from one invariant of the scores at each check.
-/

namespace ElanAgent.Session

open Atomic Redis Hierarchy

def pingObjectsAfter : ℤ := 240
def pingEvery : ℤ := 10
def expiryObjectAfter : ℤ := 300

/-- `int(x)`, which rounds towards zero. -/
def truncate (x : ℚ) : ℤ := if 0 ≤ x then ⌊x⌋ else ⌈x⌉

/-- The call that ends an object, seen last at the given time. -/
def endOf (now : ℚ) : Obj × ℚ → Call
  | (.mac m, lastSeen) => .ends now m .none .none (some lastSeen)
  | (.vlan m v, lastSeen) => .ends now m v .none (some lastSeen)
  | (.ip m v i, lastSeen) => .ends now m v i (some (truncate lastSeen))

/-- End an expired object, unless an object that it is under has expired too. -/
def expire (now : ℚ) (expired : List Obj) (e : Obj × ℚ) : Prog synapse Unit :=
  if ∀ o ∈ e.1.parents, o ∉ expired then (endOf now e).prog else pure ()

/-- End the expired objects, the deepest first. Returns the IPs to ping. -/
def checkSessions (now : ℚ) : Prog synapse (List Obj) := do
  let expiredObjects ← zrangebyscore (now - expiryObjectAfter)
  let lastSeenIps := expiredObjects.filter fun e => e.1.kind = .ip
  let lastSeenVlans := expiredObjects.filter fun e => e.1.kind = .vlan
  let lastSeenMacs := expiredObjects.filter fun e => e.1.kind = .mac
  let expired := (lastSeenVlans ++ lastSeenMacs).map (·.1)
  each (expire now expired) lastSeenIps
  each (expire now expired) lastSeenVlans
  each (expire now expired) lastSeenMacs
  let objects ← zrangebyscore (now - pingObjectsAfter)
  pure ((objects.map (·.1)).filter fun o => o.kind = .ip)

/-- How long to sleep before the next check. -/
def getSecondsBeforeNextCheck (now : ℚ) : Prog synapse ℤ := do
  let nextobj ← zrangeFirst
  match nextobj with
  | some (_, lastSeen) =>
    if lastSeen + pingObjectsAfter ≤ now then pure pingEvery
    else pure (truncate (lastSeen + pingObjectsAfter - now) + 1)
  | none => pure pingObjectsAfter

/-- The first check, and the calls between each check and the next. -/
structure Schedule where
  start : ℚ
  calls : ℕ → List Call

namespace Schedule

/-- The time of a check and the store that it finds. -/
def check (r : Schedule) : ℕ → ℚ × World
  | 0 => (r.start, World.empty)
  | k + 1 =>
    let (now, found) := r.check k
    let checked := ((checkSessions now).run handler found).2
    let wait := ((getSecondsBeforeNextCheck now).run handler checked).1
    (now + wait, checked.calls (r.calls k))

variable (r : Schedule) (k : ℕ)

def time : ℚ := (r.check k).1

/-- The store that a check finds. -/
def found : World := (r.check k).2

/-- The store that a check leaves. -/
def checked : World := ((checkSessions (r.time k)).run handler (r.found k)).2

def wait : ℤ := ((getSecondsBeforeNextCheck (r.time k)).run handler (r.checked k)).1

theorem time_succ : r.time (k + 1) = r.time k + r.wait k := rfl

theorem found_succ : r.found (k + 1) = (r.checked k).calls (r.calls k) := rfl

end Schedule

variable {N : Set Obj} {P : Set Port} {w : World}

/-! ## One check -/

/-- A loop that makes some of the calls makes them one after the other. -/
theorem each_calls {α : Type} (p : α → Prop) [DecidablePred p] (f : α → Call) (xs : List α)
    (w : World) : ((each (fun x => if p x then (f x).prog else pure ()) xs).run handler w).2 =
      w.calls ((xs.filter p).map f) := by
  induction xs generalizing w with
  | nil => rfl
  | cons x xs ih =>
    simp only [each, Prog.run_bind]
    by_cases hx : p x
    · rw [if_pos hx, ih, List.filter_cons_of_pos (by simpa using hx)]
      rfl
    · rw [if_neg hx, ih, List.filter_cons_of_neg (by simpa using hx)]
      rfl

theorem calls_append (w : World) (cs ds : List Call) :
    w.calls (cs ++ ds) = (w.calls cs).calls ds := List.foldl_append ..

/-- The expired objects of a kind. -/
def expiredOf (now : ℚ) (w : World) (kind : Kind) : List (Obj × ℚ) :=
  (w.lastSeen.rangeByScore (now - expiryObjectAfter)).filter fun e => e.1.kind = kind

/-- The objects that a check ends, in its order. -/
def endedOf (now : ℚ) (w : World) : List (Obj × ℚ) :=
  let expired := (expiredOf now w .vlan ++ expiredOf now w .mac).map (·.1)
  (expiredOf now w .ip ++ expiredOf now w .vlan ++ expiredOf now w .mac).filter fun e =>
    ∀ o ∈ e.1.parents, o ∉ expired

/-- The calls that a check makes. -/
def checkCalls (now : ℚ) (w : World) : List Call := (endedOf now w).map (endOf now)

theorem checkSessions_run (now : ℚ) (w : World) :
    ((checkSessions now).run handler w).2 = w.calls (checkCalls now w) := by
  have loop : ∀ expired xs (u : World), ((each (expire now expired) xs).run handler u).2 =
      u.calls ((xs.filter fun e => ∀ o ∈ e.1.parents, o ∉ expired).map (endOf now)) :=
    fun expired xs u => each_calls (fun e : Obj × ℚ => ∀ o ∈ e.1.parents, o ∉ expired)
      (endOf now) xs u
  simp only [checkSessions, Prog.run_bind, run_zrangebyscore, Prog.run_pure, loop, checkCalls,
    endedOf, List.filter_append, List.map_append, calls_append]
  rfl

theorem mem_expiredOf {now : ℚ} {kind : Kind} {o : Obj} {s : ℚ} :
    (o, s) ∈ expiredOf now w kind ↔
      w.seenAt o = some s ∧ s ≤ now - expiryObjectAfter ∧ o.kind = kind := by
  rw [expiredOf, List.mem_filter, SortedSet.mem_rangeByScore, decide_eq_true_eq, and_assoc]
  rfl

/-- The object has not been seen since the expiry. -/
def Expired (now : ℚ) (w : World) (o : Obj) : Prop :=
  ∃ s, w.seenAt o = some s ∧ s ≤ now - expiryObjectAfter

theorem mem_endedOf {now : ℚ} {o : Obj} {s : ℚ} : (o, s) ∈ endedOf now w ↔
    w.seenAt o = some s ∧ s ≤ now - expiryObjectAfter ∧ ∀ p ∈ o.parents, ¬ Expired now w p := by
  have above : ∀ p : Obj, p ∈ (expiredOf now w .vlan ++ expiredOf now w .mac).map (·.1) ↔
      Expired now w p ∧ p.kind ≠ .ip := by
    intro p
    simp only [List.mem_map, List.mem_append, Prod.exists, mem_expiredOf, Expired]
    cases p <;> simp [Obj.kind]
  have kinds : ∀ o p : Obj, p ∈ o.parents → p.kind ≠ .ip := by
    intro o p hp
    cases o <;> simp [Obj.parents] at hp <;> rcases hp with rfl | rfl <;> simp [Obj.kind]
  have listed : (o, s) ∈ expiredOf now w .ip ++ expiredOf now w .vlan ++
      expiredOf now w .mac ↔ w.seenAt o = some s ∧ s ≤ now - expiryObjectAfter := by
    simp only [List.mem_append, mem_expiredOf]
    cases o <;> simp [Obj.kind]
  simp only [endedOf, List.mem_filter, listed, above, decide_eq_true_eq, and_assoc]
  refine and_congr_right fun _ => and_congr_right fun _ => forall₂_congr fun p hp => ?_
  simp only [kinds o p hp, ne_eq, not_false_eq_true, and_true]

theorem nodup_endedOf (now : ℚ) (w : World) : ((endedOf now w).map (·.1)).Nodup := by
  have each : ∀ kind, ((expiredOf now w kind).map (·.1)).Nodup := fun kind =>
    (SortedSet.nodup_rangeByScore w.lastSeen _).sublist (List.filter_sublist.map _)
  have kinds : ∀ kind, ∀ o ∈ (expiredOf now w kind).map (·.1), o.kind = kind := by
    intro kind o ho
    obtain ⟨⟨o, s⟩, he, rfl⟩ := List.mem_map.mp ho
    exact (mem_expiredOf.mp he).2.2
  have all : ((expiredOf now w .ip ++ expiredOf now w .vlan ++ expiredOf now w .mac).map
      (·.1)).Nodup := by
    simp only [List.map_append, List.nodup_append, List.mem_append]
    refine ⟨⟨each .ip, each .vlan, ?_⟩, each .mac, ?_⟩
    · rintro o ho _ ho' rfl
      exact Kind.noConfusion ((kinds _ o ho).symm.trans (kinds _ o ho'))
    · rintro o (ho | ho) _ ho' rfl <;>
        exact Kind.noConfusion ((kinds _ o ho).symm.trans (kinds _ o ho'))
  exact all.sublist (List.filter_sublist.map _)

/-- Every expired object is under one that is ended. -/
theorem exists_ended {now : ℚ} {x : Obj} (h : Expired now w x) :
    ∃ e ∈ endedOf now w, e.1 ≤ x := by
  have top : ∀ o, o ≤ x → Expired now w o → (∀ p ∈ o.parents, ¬ Expired now w p) →
      ∃ e ∈ endedOf now w, e.1 ≤ x := by
    rintro o hle ⟨s, hs, hexp⟩ hp
    exact ⟨(o, s), mem_endedOf.mpr ⟨hs, hexp, hp⟩, hle⟩
  cases x with
  | mac m => exact top _ le_rfl h (by simp [Obj.parents])
  | vlan m v =>
    by_cases hm : Expired now w (.mac m)
    · exact top (.mac m) (by simp) hm (by simp [Obj.parents])
    · exact top _ le_rfl h (by simpa [Obj.parents] using hm)
  | ip m v i =>
    by_cases hm : Expired now w (.mac m)
    · exact top (.mac m) (by simp) hm (by simp [Obj.parents])
    · by_cases hv : Expired now w (.vlan m v)
      · exact top (.vlan m v) (by simp) hv (by simpa [Obj.parents] using hm)
      · exact top _ le_rfl h (by simpa [Obj.parents] using ⟨hm, hv⟩)

theorem endOf_obj {now s : ℚ} {o : Obj} (h : o.Proper) : (endOf now (o, s)).obj = o := by
  cases o with
  | mac m => simp [endOf, Call.obj]
  | vlan m v => exact objOf_vlan h
  | ip m v i => exact objOf_ip h.1 h.2

/-- The call is an `end` that does not raise. -/
def Call.Ends : Call → Prop
  | .seen .. => False
  | .ends _ _ vlan ip _ => ip = .none ∨ vlan ≠ .none

theorem endOf_ends {now s : ℚ} {o : Obj} (h : o.Proper) : (endOf now (o, s)).Ends := by
  cases o with
  | mac m => exact .inl rfl
  | vlan m v => exact .inl rfl
  | ip m v i => exact .inr h.1

/-- A sequence of ends removes what lies under one of their objects, and nothing else. -/
theorem calls_ends (names : Names N P) (inv : Invariant N P w) {cs : List Call}
    (h : ∀ c ∈ cs, c.Ends ∧ c.obj ∈ N) :
    Invariant N P (w.calls cs) ∧
    ∀ x, ((∃ c ∈ cs, c.obj ≤ x) → (w.calls cs).seenAt x = none) ∧
      ((w.calls cs).seenAt x = none ∨ (w.calls cs).seenAt x = w.seenAt x) := by
  induction cs generalizing w with
  | nil => exact ⟨inv, fun x => ⟨by simp, .inr rfl⟩⟩
  | cons c cs ih =>
    obtain ⟨hc, hN⟩ := h c List.mem_cons_self
    cases c with
    | seen => exact hc.elim
    | ends now mac vlan ip time =>
      have effect := ends_effect inv names now hc hN time
      have hstep : ((endSession now mac vlan ip time).run handler w).2 =
          w.step (.ends now mac vlan ip time) := by simp [World.step, Call.prog]
      rw [hstep] at effect
      obtain ⟨inv', rest⟩ := ih (effect.invariant inv names hN)
        fun d hd => h d (List.mem_cons_of_mem _ hd)
      refine ⟨inv', fun x => ?_⟩
      obtain ⟨gone, kept⟩ := rest x
      have seenAt := congrFun effect.seenAt x
      by_cases hle : objOf mac vlan ip ≤ x
      · rw [prune_of_le hle] at seenAt
        rw [seenAt, or_self] at kept
        exact ⟨fun _ => kept, .inl kept⟩
      · rw [prune_of_not_le hle] at seenAt
        rw [seenAt] at kept
        refine ⟨?_, kept⟩
        rintro ⟨d, hd, hdx⟩
        rcases List.mem_cons.mp hd with rfl | hd
        · exact absurd hdx hle
        · exact gone ⟨d, hd, hdx⟩

/-- A check removes every object that has expired, and changes no score. -/
theorem checkSessions_spec (names : Names N P) (inv : Invariant N P w) (now : ℚ) :
    Invariant N P ((checkSessions now).run handler w).2 ∧
    ∀ x, (Expired now w x → ((checkSessions now).run handler w).2.seenAt x = none) ∧
      (((checkSessions now).run handler w).2.seenAt x = none ∨
        ((checkSessions now).run handler w).2.seenAt x = w.seenAt x) := by
  have present : ∀ e ∈ endedOf now w, e.1 ∈ support w.seenAt := fun e he => by
    rw [mem_support, (mem_endedOf.mp he).1]
    exact Option.some_ne_none _
  rw [checkSessions_run]
  have ends : ∀ c ∈ checkCalls now w, c.Ends ∧ c.obj ∈ N := by
    intro c hc
    obtain ⟨e, he, rfl⟩ := List.mem_map.mp hc
    have ho := present e he
    rw [endOf_obj (inv.proper _ ho)]
    exact ⟨endOf_ends (inv.proper _ ho), inv.named ho⟩
  obtain ⟨inv', rest⟩ := calls_ends names inv ends
  refine ⟨inv', fun x => ⟨fun hexp => ?_, (rest x).2⟩⟩
  obtain ⟨e, he, hle⟩ := exists_ended hexp
  refine (rest x).1 ⟨_, List.mem_map_of_mem he, ?_⟩
  rwa [endOf_obj (inv.proper _ (present e he))]

/-! ## The wait -/

theorem truncate_nonneg {x : ℚ} (h : 0 ≤ x) : truncate x = ⌊x⌋ := if_pos h

/-- The wait is positive, and short enough for what was last seen less than five minutes
ago to be found before it is ten seconds late. -/
theorem wait_spec {now : ℚ} (h : ∀ x s, w.seenAt x = some s → now - 300 < s ∧ s ≤ now) :
    let t := ((getSecondsBeforeNextCheck now).run handler w).1
    0 < t ∧ now + t - 310 < now ∧ ∀ x s, w.seenAt x = some s → now + t - 310 < s := by
  cases hfirst : w.lastSeen.first with
  | none =>
    have ht : ((getSecondsBeforeNextCheck now).run handler w).1 = pingObjectsAfter := by
      simp [getSecondsBeforeNextCheck, hfirst]
    have absent := SortedSet.first_eq_none.mp hfirst
    dsimp only
    rw [ht]
    push_cast [pingObjectsAfter]
    refine ⟨by decide, by linarith, fun x s hs => ?_⟩
    rw [World.seenAt, absent x] at hs
    cases hs
  | some e =>
    obtain ⟨o, last⟩ := e
    have oldest : ∀ x s, w.seenAt x = some s → last ≤ s := fun x s hs =>
      SortedSet.first_le hfirst hs
    obtain ⟨hlate, hearly⟩ := h o last (SortedSet.first_mem hfirst)
    by_cases hping : last + pingObjectsAfter ≤ now
    · have ht : ((getSecondsBeforeNextCheck now).run handler w).1 = pingEvery := by
        simp [getSecondsBeforeNextCheck, hfirst, hping]
      dsimp only
      rw [ht]
      push_cast [pingEvery]
      refine ⟨by decide, by linarith, fun x s hs => ?_⟩
      have := (h x s hs).1
      linarith
    · have ht : ((getSecondsBeforeNextCheck now).run handler w).1 =
          ⌊last + pingObjectsAfter - now⌋ + 1 := by
        rw [← truncate_nonneg (by linarith)]
        simp [getSecondsBeforeNextCheck, hfirst, hping]
      have hnonneg : 0 ≤ ⌊last + pingObjectsAfter - now⌋ := Int.floor_nonneg.mpr (by linarith)
      have hfloor := Int.floor_le (last + pingObjectsAfter - now)
      dsimp only
      rw [ht]
      push_cast [pingObjectsAfter] at hfloor hnonneg ⊢
      refine ⟨by omega, by linarith, fun x s hs => ?_⟩
      have := oldest x s hs
      linarith

/-! ## Runs of the tracker -/

/-- The call is made between two moments, and gives its own as the time. -/
def Call.Between (a b : ℚ) : Call → Prop
  | .seen now _ _ _ _ time => time.getD now = now ∧ a ≤ now ∧ now ≤ b
  | .ends .. => True

/-- What the calls leave was there before, or was seen between the two moments. -/
theorem calls_between {a b : ℚ} {cs : List Call} (h : ∀ c ∈ cs, c.Between a b) {x : Obj} {s : ℚ}
    (hs : (w.calls cs).seenAt x = some s) : w.seenAt x = some s ∨ a ≤ s ∧ s ≤ b := by
  refine (calls_score hs).imp_right ?_
  rintro ⟨c, hc, hs⟩
  cases c with
  | seen now mac vlan port ip time =>
    obtain ⟨htime, ha, hb⟩ := h _ hc
    obtain rfl : now = s := htime.symm.trans (Option.some.inj hs)
    exact ⟨ha, hb⟩
  | ends => cases hs

namespace Schedule

variable (r : Schedule)

/-- The calls use the names, and are made between the checks that surround them. -/
def Fits (N : Set Obj) (P : Set Port) (r : Schedule) : Prop :=
  ∀ k, ∀ c ∈ r.calls k, c.Uses N P ∧ c.Between (r.time k) (r.time (k + 1))

/-- What a check leaves was found, and was seen in the last five minutes. -/
theorem checked_spec (names : Names N P) {k : ℕ} (inv : Invariant N P (r.found k))
    (h : ∀ x s, (r.found k).seenAt x = some s → s ≤ r.time k) :
    Invariant N P (r.checked k) ∧
    ∀ x s, (r.checked k).seenAt x = some s →
      (r.found k).seenAt x = some s ∧ r.time k - 300 < s ∧ s ≤ r.time k := by
  obtain ⟨inv', check⟩ := checkSessions_spec names inv (r.time k)
  refine ⟨inv', fun x s hs => ?_⟩
  obtain ⟨gone, kept⟩ := check x
  rcases kept with hn | hk
  · rw [checked, hn] at hs
    cases hs
  · have hfound : (r.found k).seenAt x = some s := hk.symm.trans hs
    refine ⟨hfound, ?_, h x s hfound⟩
    by_contra hlate
    have hexp : Expired (r.time k) (r.found k) x :=
      ⟨s, hfound, by push_cast [expiryObjectAfter]; linarith⟩
    rw [checked, gone hexp] at hs
    cases hs

/-- What holds of the store that each check finds. -/
theorem found_spec (names : Names N P) (fits : r.Fits N P) (k : ℕ) :
    Invariant N P (r.found k) ∧
    ∀ x s, (r.found k).seenAt x = some s → r.time k - 310 < s ∧ s ≤ r.time k := by
  induction k with
  | zero =>
    refine ⟨invariant_empty N P, fun x s hs => ?_⟩
    simp [found, check, World.seenAt, World.empty] at hs
  | succ k ih =>
    obtain ⟨inv, scores⟩ := ih
    obtain ⟨inv', left⟩ := r.checked_spec names inv fun x s hs => (scores x s hs).2
    obtain ⟨-, hshort, hold⟩ := wait_spec fun x s hs => (left x s hs).2
    have htime : r.time (k + 1) = r.time k +
        ((getSecondsBeforeNextCheck (r.time k)).run handler (r.checked k)).1 := r.time_succ k
    have later : r.time k ≤ r.time (k + 1) := by
      have := (wait_spec fun x s hs => (left x s hs).2).1
      rw [htime]
      have : (0 : ℚ) < ((getSecondsBeforeNextCheck (r.time k)).run handler (r.checked k)).1 := by
        exact_mod_cast this
      linarith
    refine ⟨?_, fun x s hs => ?_⟩
    · exact (calls_rule names (Q := fun _ => True) (fun _ _ _ _ _ _ _ => trivial) (r.calls k)
        (fun c hc => (fits k c hc).1) inv' trivial).1
    · rcases calls_between (fun c hc => (fits k c hc).2) hs with hs | ⟨hlow, hhigh⟩
      · have := hold x s hs
        rw [htime]
        exact ⟨this, htime ▸ (left x s hs).2.2.trans later⟩
      · rw [htime] at hhigh ⊢
        exact ⟨by linarith, hhigh⟩

theorem wait_pos (names : Names N P) (fits : r.Fits N P) (k : ℕ) : 0 < r.wait k := by
  obtain ⟨inv, scores⟩ := r.found_spec names fits k
  obtain ⟨-, left⟩ := r.checked_spec names inv fun x s hs => (scores x s hs).2
  exact (wait_spec fun x s hs => (left x s hs).2).1

/-- The checks go on for ever: a wait lasts at least a second. -/
theorem time_unbounded (names : Names N P) (fits : r.Fits N P) (t : ℚ) : ∃ k, t ≤ r.time k := by
  have grows : ∀ k : ℕ, r.start + k ≤ r.time k := by
    intro k
    induction k with
    | zero => simp [time, check]
    | succ k ih =>
      have : (1 : ℚ) ≤ r.wait k := by exact_mod_cast r.wait_pos names fits k
      rw [time_succ]
      push_cast
      linarith
  obtain ⟨k, hk⟩ := exists_nat_ge (t - r.start)
  exact ⟨k, by linarith [grows k]⟩

end Schedule

/-- The call covers an object. -/
def Call.Sees (x : Obj) : Call → Prop
  | .seen _ mac vlan _ ip _ => x ≤ objOf mac vlan ip
  | .ends .. => False

theorem calls_unseen {cs : List Call} {x : Obj} (h : ∀ c ∈ cs, ¬ c.Sees x) :
    (w.calls cs).seenAt x = none ∨ (w.calls cs).seenAt x = w.seenAt x := by
  induction cs generalizing w with
  | nil => exact .inr rfl
  | cons c cs ih =>
    have step : (w.step c).seenAt x = none ∨ (w.step c).seenAt x = w.seenAt x := by
      have hc := h c List.mem_cons_self
      cases c with
      | seen now mac vlan port ip time =>
        rw [step_seen, cover_of_not_le hc]
        exact seenPort_seenAt ..
      | ends now mac vlan ip time => exact step_ends ..
    rcases ih (w := w.step c) (fun d hd => h d (List.mem_cons_of_mem _ hd)) with hn | hs
    · exact .inl hn
    · rcases step with hn | hw
      · exact .inl (hs.trans hn)
      · exact .inr (hs.trans hw)

/-- Every wait of the tracker is positive, and no check finds an object that has not been
seen for 310 seconds. So an object that is not seen again is gone after the first check
at or after its expiry, and if that check ends it, it does so less than 10 seconds late. -/
theorem tracker_timely (names : Names N P) (r : Schedule) (fits : r.Fits N P) :
    (∀ k, 0 < r.wait k) ∧
    (∀ k x s, (r.found k).seenAt x = some s → r.time k - 310 < s) ∧
    ∀ k x s, (r.found k).seenAt x = some s → (∀ j, k ≤ j → ∀ c ∈ r.calls j, ¬ c.Sees x) →
      ∃ j, k ≤ j ∧ s + 300 ≤ r.time j ∧ (∀ i, k ≤ i → i < j → r.time i < s + 300) ∧
        (r.checked j).seenAt x = none ∧
        ((r.found j).seenAt x ≠ none → r.time j < s + 310) := by
  refine ⟨r.wait_pos names fits, fun k x s hs => ((r.found_spec names fits k).2 x s hs).1, ?_⟩
  intro k x s hs unseen
  have check : ∀ j, (Expired (r.time j) (r.found j) x → (r.checked j).seenAt x = none) ∧
      ((r.checked j).seenAt x = none ∨ (r.checked j).seenAt x = (r.found j).seenAt x) :=
    fun j => (checkSessions_spec names (r.found_spec names fits j).1 (r.time j)).2 x
  have kept : ∀ j, k ≤ j → (r.found j).seenAt x = none ∨ (r.found j).seenAt x = some s := by
    intro j hj
    induction j, hj using Nat.le_induction with
    | base => exact .inr hs
    | succ j hj ih =>
      rw [r.found_succ j]
      rcases calls_unseen (w := r.checked j) (unseen j hj) with hn | hw
      · exact .inl hn
      · rw [hw]
        rcases (check j).2 with hn | hf
        · exact .inl hn
        · rw [hf]
          exact ih
  have due : ∃ j, k ≤ j ∧ s + 300 ≤ r.time j := by
    by_contra hno
    obtain ⟨j, hj⟩ := r.time_unbounded names fits (s + 300)
    rcases le_total k j with hkj | hjk
    · exact hno ⟨j, hkj, hj⟩
    · have mono : ∀ i, j ≤ i → r.time j ≤ r.time i := by
        intro i hi
        induction i, hi using Nat.le_induction with
        | base => exact le_rfl
        | succ i _ ih =>
          have : (0 : ℚ) < r.wait i := by exact_mod_cast r.wait_pos names fits i
          rw [r.time_succ i]
          linarith
      exact hno ⟨k, le_rfl, hj.trans (mono k hjk)⟩
  classical
  obtain ⟨hkj, hdue⟩ := Nat.find_spec due
  refine ⟨Nat.find due, hkj, hdue, fun i hki hi => ?_, ?_, fun hpresent => ?_⟩
  · by_contra hlate
    exact Nat.find_min due hi ⟨hki, not_lt.mp hlate⟩
  · rcases kept _ hkj with hn | hs
    · rcases (check (Nat.find due)).2 with h | h
      · exact h
      · rw [h, hn]
    · exact (check _).1 ⟨s, hs, by push_cast [expiryObjectAfter]; linarith⟩
  · have hs := (kept _ hkj).resolve_left hpresent
    linarith [((r.found_spec names fits _).2 x s hs).1]

/-- One device is seen, once, a second after the first check. -/
def quietSchedule : Schedule where
  start := 0
  calls k := if k = 0 then [.seen 1 "00:11" "eth0" none "10.0.0.2" none] else []

theorem quietSchedule_fits :
    quietSchedule.Fits {o | o ∈ roamingObjs} {p | p ∈ roamingPorts} := by
  have h0 : quietSchedule.time 0 = 0 := rfl
  have h1 : quietSchedule.time 1 = 240 := by decide +kernel
  rintro (_ | k) c hc
  · simp only [quietSchedule, if_true, List.mem_singleton] at hc
    subst c
    rw [h0, h1]
    simp [Call.Uses, Call.obj, Call.port, objOf, roamingObjs, Call.Between]
  · simp [quietSchedule] at hc

theorem quietSchedule_timely :
    (∀ k, 0 < quietSchedule.wait k) ∧
    (∀ k x s, (quietSchedule.found k).seenAt x = some s → quietSchedule.time k - 310 < s) ∧
    ∀ k x s, (quietSchedule.found k).seenAt x = some s →
      (∀ j, k ≤ j → ∀ c ∈ quietSchedule.calls j, ¬ c.Sees x) →
      ∃ j, k ≤ j ∧ s + 300 ≤ quietSchedule.time j ∧
        (∀ i, k ≤ i → i < j → quietSchedule.time i < s + 300) ∧
        (quietSchedule.checked j).seenAt x = none ∧
        ((quietSchedule.found j).seenAt x ≠ none → quietSchedule.time j < s + 310) :=
  tracker_timely roamingNames quietSchedule quietSchedule_fits

/-- A device whose IP index is deleted with another's, when that one changes port. -/
def sharedKeySchedule : Schedule where
  start := 0
  calls k := if k = 0 then
    [.seen 1 "a" "b:vlan:c" none "10.0.0.2" none,
      .seen 2 "a:vlan:b" "c" (some ⟨"sw1", "g1", none, ∅⟩) .none none,
      .seen 3 "a:vlan:b" "c" (some ⟨"sw1", "g2", none, ∅⟩) .none none] else []

/-- The check that ends the device misses the IP, and the next one finds it too late. -/
theorem sharedKeySchedule_late :
    (∀ k, ∀ c ∈ sharedKeySchedule.calls k,
      c.Between (sharedKeySchedule.time k) (sharedKeySchedule.time (k + 1))) ∧
    sharedKeySchedule.time 9 = 312 ∧
    (sharedKeySchedule.found 9).seenAt (.ip "a" "b:vlan:c" "10.0.0.2") = some 1 := by
  have h0 : sharedKeySchedule.time 0 = 0 := rfl
  have h1 : sharedKeySchedule.time 1 = 240 := by decide +kernel
  refine ⟨?_, by decide +kernel, by decide +kernel⟩
  rintro (_ | k) c hc
  · rw [h0, h1]
    simp only [sharedKeySchedule, if_true, List.mem_cons, List.not_mem_nil, or_false] at hc
    rcases hc with rfl | rfl | rfl <;> norm_num [Call.Between]
  · simp [sharedKeySchedule] at hc

end ElanAgent.Session
