import ElanAgent.Session.Frames
import ElanAgent.Session.Runs
import Mathlib.Order.Bounds.Basic

/-!
# The scores of `LAST_SEEN`

`ZADD` replaces a score, so an object carries the time of the call that covered it
last, which is the latest time only if calls are processed in the order of their times.
Nothing here needs the names of keys: of the whole of `seen` and `end`, only two
pipelines touch `LAST_SEEN`.
-/

namespace ElanAgent.Session

open Atomic Redis Hierarchy

variable {w : World}

/-! ## What touches `LAST_SEEN` -/

def Cmd.KeepsLastSeen : Cmd → Prop
  | .zadd _ _ | .zrem _ => False
  | _ => True

def Op.KeepsLastSeen : Op → Prop
  | .execute pipe => ∀ c ∈ pipe, c.KeepsLastSeen
  | _ => True

theorem execute_lastSeen {pipe : List Cmd} (h : ∀ c ∈ pipe, c.KeepsLastSeen) (w : World) :
    (execute pipe w).2.lastSeen = w.lastSeen := by
  induction pipe generalizing w with
  | nil => rfl
  | cons c pipe ih =>
    have hc := h c List.mem_cons_self
    rw [execute_cons, ih fun c hc => h c (List.mem_cons_of_mem _ hc)]
    cases c with
    | zadd | zrem => exact hc.elim
    | _ => rfl

theorem handler_lastSeen (o : Op) (w : World) (h : o.KeepsLastSeen) :
    (handler o w).2.lastSeen = w.lastSeen := by
  cases o with
  | execute pipe => exact execute_lastSeen h w
  | _ => rfl

theorem lastSeen_of_only {α : Type} {p : Prog synapse α} (h : Prog.Only Op.KeepsLastSeen p)
    (w : World) : (p.run handler w).2.lastSeen = w.lastSeen :=
  h.run (Q := fun u => u.lastSeen = w.lastSeen)
    (fun o u ho hu => (handler_lastSeen o u ho).trans hu) rfl

theorem keeps_of_issues {α : Type} {p : Prog synapse α}
    (h : p.Only (Op.Issues Cmd.KeepsLastSeen)) : p.Only Op.KeepsLastSeen :=
  h.imp fun o ho => by cases o <;> first | exact ho | exact ho.elim

theorem seenAllocate_keeps (now : ℚ) (mac vlan : Value) (port oldPort : Option Port) (ip : Value)
    (time : ℚ) (macAdded vlanAdded ipAdded : Bool) :
    Prog.Only Op.KeepsLastSeen
      (seenAllocate now mac vlan port oldPort ip time macAdded vlanAdded ipAdded) := by
  refine keeps_of_issues (seenAllocate_issues _ _ _ _ _ _ _ _ _ _ (fun id c hc => ?_) ?_)
  · obtain ⟨f, rfl⟩ | ⟨o, -, rfl⟩ := idsPipe_fields hc <;> trivial
  · rintro c ⟨newPort, -, hc⟩
    simp only [List.mem_cons, List.not_mem_nil, or_false] at hc
    rcases hc with rfl | rfl | rfl <;> trivial

theorem endNotify_keeps (now : ℚ) (mac vlan ip : Value) (time : ℚ) (results : List Reply) :
    Prog.Only Op.KeepsLastSeen (endNotify now mac vlan ip time results) :=
  keeps_of_issues (endNotify_issues _ _ _ _ _ _ trivial fun _ => trivial)

/-- `seen` covers its object, in the store that the end of another port's session leaves. -/
theorem seen_seenAt (now : ℚ) (mac vlan : Value) (port : Option Port) (ip : Value)
    (time : Option ℚ) (w : World) :
    ((seen now mac vlan port ip time).run handler w).2.seenAt =
      cover (objOf mac vlan ip) (fun _ => time.getD now)
        ((seenPort now mac port).run handler w).2.seenAt := by
  funext x
  simp only [seen, seenTouch, Prog.run_bind, run_pipeExecute]
  unfold World.seenAt
  rw [lastSeen_of_only (seenAllocate_keeps ..)]
  exact touchPipe_lastSeen mac vlan ip _ _ x

/-- `end` removes what its pipeline does, and changes no other score. -/
theorem endSession_score (now : ℚ) {mac vlan ip : Value} (h : ip = .none ∨ vlan ≠ .none)
    (time : Option ℚ) (w : World) (x : Obj) :
    ((endSession now mac vlan ip time).run handler w).2.seenAt x =
      if .zrem x ∈ endPipe w mac vlan ip then none else w.seenAt x := by
  rw [endSession_run now h, World.seenAt, lastSeen_of_only (endNotify_keeps ..),
    execute_removes_lastSeen (removes_endPipe w mac vlan ip)]
  rfl

/-- `end` changes no score; it only removes. -/
theorem endSession_seenAt (now : ℚ) (mac vlan ip : Value) (time : Option ℚ) (w : World)
    (x : Obj) :
    ((endSession now mac vlan ip time).run handler w).2.seenAt x = none ∨
      ((endSession now mac vlan ip time).run handler w).2.seenAt x = w.seenAt x := by
  by_cases h : ip = .none ∨ vlan ≠ .none
  · rw [endSession_score now h]
    split
    · exact .inl rfl
    · exact .inr rfl
  · obtain ⟨hi, hv⟩ : ip ≠ .none ∧ vlan = .none := by tauto
    rw [endSession_raise now hi hv]
    exact .inr rfl

theorem seenPort_seenAt (now : ℚ) (mac : Value) (port : Option Port) (w : World) (x : Obj) :
    ((seenPort now mac port).run handler w).2.seenAt x = none ∨
      ((seenPort now mac port).run handler w).2.seenAt x = w.seenAt x := by
  rw [seenPort_run]
  dsimp only
  split
  · exact endSession_seenAt ..
  · exact .inr rfl

/-! ## Scores over runs -/

/-- The times of the calls that covered `x` since it was last created, the latest call
first: those of `times` that survive the call, and the call's own. -/
def World.covering (w : World) (x : Obj) (times : List ℚ) : Call → List ℚ
  | .seen now mac vlan port ip time =>
    let u := ((seenPort now mac port).run handler w).2
    let kept := if u.seenAt x = none then [] else times
    if x ≤ objOf mac vlan ip then time.getD now :: kept else kept
  | .ends now mac vlan ip time =>
    if (w.step (.ends now mac vlan ip time)).seenAt x = none then [] else times

/-- The times that have covered `x` after the calls. -/
def World.coverings (w : World) (x : Obj) (times : List ℚ) : List Call → List ℚ
  | [] => times
  | c :: cs => (w.step c).coverings x (w.covering x times c) cs

/-- The call is not processed late: its time is not below a score that an object of its
MAC has. -/
def InOrder (w : World) : Call → Prop
  | .seen now mac _ _ _ time =>
    ∀ e ∈ SortedSet.pairs w.lastSeen, e.1.owner = mac → e.2 ≤ time.getD now
  | .ends .. => True

instance (w : World) (c : Call) : Decidable (InOrder w c) := by
  cases c <;> unfold InOrder <;> infer_instance

theorem step_seen (now : ℚ) (mac vlan : Value) (port : Option Port) (ip : Value)
    (time : Option ℚ) (w : World) : (w.step (.seen now mac vlan port ip time)).seenAt =
      cover (objOf mac vlan ip) (fun _ => time.getD now)
        ((seenPort now mac port).run handler w).2.seenAt := by
  rw [← seen_seenAt]
  simp [World.step, Call.prog]

theorem step_ends (now : ℚ) (mac vlan ip : Value) (time : Option ℚ) (w : World) (x : Obj) :
    (w.step (.ends now mac vlan ip time)).seenAt x = none ∨
      (w.step (.ends now mac vlan ip time)).seenAt x = w.seenAt x := by
  have := endSession_seenAt now mac vlan ip time w x
  simpa [World.step, Call.prog] using this

/-- `end` changes no score of another MAC's objects. -/
theorem endSession_seenAt_of_ne (now : ℚ) {mac : Value} (vlan ip : Value) (time : Option ℚ)
    {x : Obj} (other : x.owner ≠ mac) (w : World) :
    ((endSession now mac vlan ip time).run handler w).2.seenAt x = w.seenAt x := by
  by_cases h : ip = .none ∨ vlan ≠ .none
  · rw [endSession_score now h, if_neg]
    rw [zrem_mem_endPipe]
    exact fun ended => other ended.owner
  · obtain ⟨hi, hv⟩ : ip ≠ .none ∧ vlan = .none := by tauto
    rw [endSession_raise now hi hv]

/-- A call changes no score but those of the objects of its MAC. -/
theorem step_seenAt {c : Call} {x : Obj} (other : x.owner ≠ c.owner) (w : World) :
    (w.step c).seenAt x = w.seenAt x := by
  cases c with
  | seen now mac vlan port ip time =>
    have uncovered : ¬ x ≤ objOf mac vlan ip := fun hle =>
      other ((Obj.owner_eq_of_le hle).trans (objOf_owner ..))
    rw [step_seen, cover_of_not_le uncovered, seenPort_run]
    dsimp only
    split
    · exact endSession_seenAt_of_ne now .none .none none other w
    · rfl
  | ends now mac vlan ip time =>
    have kept := @endSession_seenAt_of_ne now mac vlan ip time x other w
    simpa [World.step, Call.prog] using kept

/-- A MAC that a call ends has no session afterwards. -/
theorem step_ends_mac (now : ℚ) (mac : Value) (time : Option ℚ) (w : World) :
    (w.step (.ends now mac .none .none time)).seenAt (.mac mac) = none := by
  have ended : Ended w mac .none .none (.mac mac) := ⟨rfl, rfl⟩
  have gone : ((endSession now mac .none .none time).run handler w).2.seenAt (.mac mac) = none := by
    rw [endSession_score now (.inl rfl), if_pos (zrem_mem_endPipe.mpr ended)]
  simpa [World.step, Call.prog] using gone

theorem covering_head {x : Obj} {times : List ℚ} (h : w.seenAt x = times.head?) (c : Call) :
    (w.step c).seenAt x = (w.covering x times c).head? := by
  cases c with
  | seen now mac vlan port ip time =>
    rw [step_seen, World.covering]
    by_cases hle : x ≤ objOf mac vlan ip
    · rw [cover_of_le hle, if_pos hle, List.head?_cons]
    · rw [cover_of_not_le hle, if_neg hle]
      rcases seenPort_seenAt now mac port w x with hn | hs
      · rw [if_pos hn, hn, List.head?_nil]
      · split
        · rename_i hn
          rw [hn, List.head?_nil]
        · rw [hs, h]
  | ends now mac vlan ip time =>
    rw [World.covering]
    split
    · rename_i hn
      rw [hn, List.head?_nil]
    · rename_i hne
      rcases step_ends now mac vlan ip time w x with hn | hs
      · exact absurd hn hne
      · rw [hs, h]

theorem coverings_head {x : Obj} {times : List ℚ} (h : w.seenAt x = times.head?)
    (cs : List Call) : (w.calls cs).seenAt x = (w.coverings x times cs).head? := by
  induction cs generalizing w times with
  | nil => exact h
  | cons c cs ih => exact ih (covering_head h c)

/-- The score that a call gives to the objects that it covers. -/
def Call.score : Call → Option ℚ
  | .seen now _ _ _ _ time => some (time.getD now)
  | .ends .. => none

/-- A score was there before the call, or is the one that the call gives. -/
theorem step_score {c : Call} {x : Obj} {s : ℚ} (hs : (w.step c).seenAt x = some s) :
    w.seenAt x = some s ∨ c.score = some s := by
  cases c with
  | seen now mac vlan port ip time =>
    rw [step_seen] at hs
    by_cases hle : x ≤ objOf mac vlan ip
    · rw [cover_of_le hle] at hs
      exact .inr hs
    · rw [cover_of_not_le hle] at hs
      rcases seenPort_seenAt now mac port w x with hn | hw
      · rw [hn] at hs
        cases hs
      · exact .inl (hw ▸ hs)
  | ends now mac vlan ip time =>
    rcases step_ends now mac vlan ip time w x with hn | hw
    · rw [hn] at hs
      cases hs
    · exact .inl (hw ▸ hs)

theorem calls_score {cs : List Call} {x : Obj} {s : ℚ} (hs : (w.calls cs).seenAt x = some s) :
    w.seenAt x = some s ∨ ∃ c ∈ cs, c.score = some s := by
  induction cs generalizing w with
  | nil => exact .inl hs
  | cons c cs ih =>
    rcases ih hs with hs | ⟨d, hd, hs⟩
    · exact (step_score hs).imp_right fun hs => ⟨c, List.mem_cons_self, hs⟩
    · exact .inr ⟨d, List.mem_cons_of_mem _ hd, hs⟩

/-- Calls whose scores never decrease are in order. -/
theorem along_inOrder {cs : List Call} (h : (cs.filterMap Call.score).Pairwise (· ≤ ·))
    (below : ∀ x s, w.seenAt x = some s → ∀ t ∈ cs.filterMap Call.score, s ≤ t) :
    Along InOrder w cs := by
  induction cs generalizing w with
  | nil => trivial
  | cons c cs ih =>
    have here : InOrder w c := by
      cases c with
      | seen now mac vlan port ip time =>
        rintro ⟨x, s⟩ he -
        exact below x s (SortedSet.mem_pairs.mp he) _ (by simp [Call.score])
      | ends => trivial
    refine ⟨here, ih (h.sublist ((List.sublist_cons_self c cs).filterMap _)) fun x s hs t ht => ?_⟩
    have later : ∀ r, c.score = some r → r ≤ t := fun r hr =>
      (List.pairwise_cons.mp (by rwa [List.filterMap_cons_some hr] at h)).1 t ht
    rcases step_score hs with hs | hs
    · exact below x s hs t (((List.sublist_cons_self c cs).filterMap _).subset ht)
    · exact later s hs

theorem InOrder.le {now : ℚ} {mac vlan : Value} {port : Option Port} {ip : Value}
    {time : Option ℚ} (h : InOrder w (.seen now mac vlan port ip time)) {x : Obj}
    (hx : x.owner = mac) {s : ℚ} (hs : w.seenAt x = some s) : s ≤ time.getD now :=
  h (x, s) (SortedSet.mem_pairs.mpr hs) hx

/-- A call in order keeps the score above all the times that cover `x`. -/
theorem covering_le {x : Obj} {times : List ℚ} {c : Call} (order : InOrder w c)
    (h : ∀ s, w.seenAt x = some s → ∀ t ∈ times, t ≤ s) :
    ∀ s, (w.step c).seenAt x = some s → ∀ t ∈ w.covering x times c, t ≤ s := by
  intro s hs t ht
  cases c with
  | seen now mac vlan port ip time =>
    rw [step_seen] at hs
    unfold World.covering at ht
    have kept : ∀ t ∈ (if ((seenPort now mac port).run handler w).2.seenAt x = none then []
        else times), ∃ s, w.seenAt x = some s ∧
          ((seenPort now mac port).run handler w).2.seenAt x = some s ∧ t ≤ s := by
      intro t ht
      split at ht
      · cases ht
      · rename_i hne
        obtain ⟨s, hu⟩ := Option.ne_none_iff_exists'.mp hne
        rcases seenPort_seenAt now mac port w x with hn | hw
        · exact absurd hn hne
        · exact ⟨s, hw ▸ hu, hu, h s (hw ▸ hu) t ht⟩
    by_cases hle : x ≤ objOf mac vlan ip
    · rw [cover_of_le hle] at hs
      obtain rfl := Option.some.inj hs
      simp only [hle, if_true] at ht
      rcases List.mem_cons.mp ht with rfl | ht
      · exact le_rfl
      · obtain ⟨s, hw, -, hts⟩ := kept t ht
        exact hts.trans (order.le ((Obj.owner_eq_of_le hle).trans (objOf_owner ..)) hw)
    · rw [cover_of_not_le hle] at hs
      simp only [hle, if_false] at ht
      obtain ⟨s', -, hu, hts⟩ := kept t ht
      rw [hs] at hu
      rwa [Option.some.inj hu]
  | ends now mac vlan ip time =>
    simp only [World.covering, hs, reduceCtorEq, if_false] at ht
    rcases step_ends now mac vlan ip time w x with hn | hw
    · rw [hn] at hs
      cases hs
    · exact h s (hw ▸ hs) t ht

theorem coverings_le {x : Obj} {times : List ℚ} {cs : List Call} (order : Along InOrder w cs)
    (h : ∀ s, w.seenAt x = some s → ∀ t ∈ times, t ≤ s) :
    ∀ s, (w.calls cs).seenAt x = some s → ∀ t ∈ w.coverings x times cs, t ≤ s := by
  induction cs generalizing w times with
  | nil => exact h
  | cons c cs ih => exact ih order.2 (covering_le order.1 h)

/-- No object has a score below that of an object under it. -/
def Ordered (w : World) : Prop :=
  ∀ x y, x ≤ y → ∀ s t, w.seenAt x = some s → w.seenAt y = some t → t ≤ s

theorem Ordered.step (h : Ordered w) {c : Call} (order : InOrder w c) : Ordered (w.step c) := by
  intro x y hxy s t hs ht
  cases c with
  | seen now mac vlan port ip time =>
    rw [step_seen] at hs ht
    have old : ∀ z r, ((seenPort now mac port).run handler w).2.seenAt z = some r →
        w.seenAt z = some r := by
      intro z r hr
      rcases seenPort_seenAt now mac port w z with hn | hw
      · rw [hn] at hr
        cases hr
      · exact hw ▸ hr
    by_cases hx : x ≤ objOf mac vlan ip
    · rw [cover_of_le hx] at hs
      by_cases hy : y ≤ objOf mac vlan ip
      · rw [cover_of_le hy, hs] at ht
        exact (Option.some.inj ht).ge
      · rw [cover_of_not_le hy] at ht
        rw [← Option.some.inj hs]
        have howner : y.owner = mac :=
          (Obj.owner_eq_of_le hxy).symm.trans ((Obj.owner_eq_of_le hx).trans (objOf_owner ..))
        exact order.le howner (old y t ht)
    · have hy : ¬ y ≤ objOf mac vlan ip := fun hy => hx (hxy.trans hy)
      rw [cover_of_not_le hx] at hs
      rw [cover_of_not_le hy] at ht
      exact h x y hxy s t (old x s hs) (old y t ht)
  | ends now mac vlan ip time =>
    have old : ∀ z r, (w.step (.ends now mac vlan ip time)).seenAt z = some r →
        w.seenAt z = some r := by
      intro z r hr
      rcases step_ends now mac vlan ip time w z with hn | hw
      · rw [hn] at hr
        cases hr
      · exact hw ▸ hr
    exact h x y hxy s t (old x s hs) (old y t ht)

theorem Ordered.calls {cs : List Call} (h : Ordered w) (order : Along InOrder w cs) :
    Ordered (w.calls cs) := by
  induction cs generalizing w with
  | nil => exact h
  | cons c cs ih => exact ih (h.step order.1) order.2

/-- Every score is the time of the call that covered the object last. On a run whose calls
come in the order of their times, it is the greatest of the times that have covered the
object since it was created, and never below the score of an object under it. -/
theorem score_is_last (cs : List Call) :
    (∀ x, (World.empty.calls cs).seenAt x = (World.empty.coverings x [] cs).head?) ∧
    (Along InOrder World.empty cs →
      (∀ x s, (World.empty.calls cs).seenAt x = some s →
        IsGreatest {t | t ∈ World.empty.coverings x [] cs} s) ∧
      Ordered (World.empty.calls cs)) := by
  have head : ∀ x, (World.empty.calls cs).seenAt x = (World.empty.coverings x [] cs).head? :=
    fun x => coverings_head rfl cs
  refine ⟨head, fun order => ⟨fun x s hs => ⟨?_, ?_⟩, ?_⟩⟩
  · exact List.mem_of_mem_head? (head x ▸ hs)
  · exact coverings_le order (by simp) s hs
  · refine Ordered.calls (fun x y _ s t hs => ?_) order
    simp [World.seenAt, World.empty] at hs

theorem score_is_last_roaming :
    Ordered (World.empty.calls roamingCalls) :=
  ((score_is_last roamingCalls).2 (by decide)).2

/-- A trap handled late takes the score of a MAC below that of its VLAN. -/
theorem score_lowered :
    let cs := [Call.seen 200 "00:11" "eth0" none .none none,
      .seen 210 "00:11" .none none .none (some 100)]
    (World.empty.calls cs).seenAt (.mac "00:11") = some 100 ∧
    World.empty.coverings (.mac "00:11") [] cs = [100, 200] ∧
    (World.empty.calls cs).seenAt (.vlan "00:11" "eth0") = some 200 := by
  decide

end ElanAgent.Session
