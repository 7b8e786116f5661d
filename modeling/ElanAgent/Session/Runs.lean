import ElanAgent.Session.SeenEffect

/-!
# Runs of calls, one at a time

`CallEffect` collects what a call can do to a store that meets the invariant: an
`end` that raises does nothing, and a `seen` may end its MAC first. Every result
about sequences of calls goes by `calls_rule`, from what one effect preserves.
-/

namespace ElanAgent.Session

open Atomic Redis Hierarchy

variable {N : Set Obj} {P : Set Port} {w : World}

/-- What a call does to the store. -/
inductive CallEffect (N : Set Obj) (P : Set Port) : Call → World → World → Prop where
  | raises {now mac vlan ip time w} : ip ≠ .none → vlan = .none →
      CallEffect N P (.ends now mac vlan ip time) w w
  | ends {now mac vlan ip time w w'} : (ip = .none ∨ vlan ≠ .none) →
      Ends N P now mac vlan ip (time.getD now) w w' →
      CallEffect N P (.ends now mac vlan ip time) w w'
  | stays {now mac vlan port ip time w w'} : Moves w mac port = false →
      Touches N P now mac vlan (w.merge mac port) (if port = none then none else w.portOf mac) ip
        (time.getD now) w w' →
      CallEffect N P (.seen now mac vlan port ip time) w w'
  | moves {now mac vlan port ip time w u w'} : Moves w mac port = true →
      Ends N P now mac .none .none now w u → Invariant N P u →
      Touches N P now mac vlan (w.merge mac port) (if port = none then none else w.portOf mac) ip
        (time.getD now) u w' →
      CallEffect N P (.seen now mac vlan port ip time) w w'

theorem step_effect (names : Names N P) (inv : Invariant N P w) {c : Call} (h : c.Uses N P) :
    CallEffect N P c w (w.step c) := by
  obtain ⟨hN, hP⟩ := h
  cases c with
  | seen now mac vlan port ip time =>
    have hP : ∀ p ∈ port, p ∈ P := hP
    obtain ⟨u, hmoves, hinv, htouch⟩ := seen_effect inv names now hN hP time
    have hstep : w.step (.seen now mac vlan port ip time) =
        ((seen now mac vlan port ip time).run handler w).2 := by
      simp [World.step, Call.prog]
    rw [hstep]
    cases hm : Moves w mac port with
    | false =>
      rw [hm, if_neg Bool.false_ne_true] at hmoves
      exact .stays hm (hmoves ▸ htouch)
    | true =>
      rw [hm, if_pos rfl] at hmoves
      exact .moves hm hmoves hinv htouch
  | ends now mac vlan ip time =>
    have hstep : w.step (.ends now mac vlan ip time) =
        ((endSession now mac vlan ip time).run handler w).2 := by
      simp [World.step, Call.prog]
    rw [hstep]
    by_cases h : ip = .none ∨ vlan ≠ .none
    · exact .ends h (ends_effect inv names now h hN time)
    · obtain ⟨hi, hv⟩ : ip ≠ .none ∧ vlan = .none := by tauto
      rw [endSession_raise now hi hv]
      exact .raises hi hv

theorem CallEffect.invariant (names : Names N P) {c : Call} {w' : World}
    (effect : CallEffect N P c w w') (inv : Invariant N P w) (h : c.Uses N P) :
    Invariant N P w' := by
  obtain ⟨hN, hP⟩ := h
  cases effect with
  | raises => exact inv
  | ends _ effect => exact effect.invariant inv names hN
  | stays _ touch => exact touch.invariant inv names hN fun p => merge_named inv.portNamed hP
  | moves _ _ hinv touch =>
    exact touch.invariant hinv names hN fun p => merge_named inv.portNamed hP

/-- Every call of the run meets `ok` in the store that it finds. -/
def Along (ok : World → Call → Prop) : World → List Call → Prop
  | _, [] => True
  | w, c :: cs => ok w c ∧ Along ok (w.step c) cs

instance decidableAlong {ok : World → Call → Prop} [∀ w c, Decidable (ok w c)] :
    ∀ w cs, Decidable (Along ok w cs)
  | _, [] => isTrue trivial
  | w, c :: cs =>
    have : Decidable (Along ok (w.step c) cs) := decidableAlong (w.step c) cs
    inferInstanceAs (Decidable (ok w c ∧ Along ok (w.step c) cs))

theorem along_true (w : World) (cs : List Call) : Along (fun _ _ => True) w cs := by
  induction cs generalizing w with
  | nil => trivial
  | cons c cs ih => exact ⟨trivial, ih _⟩

/-- A property of stores that every permitted effect preserves holds after every run. -/
theorem along_rule (names : Names N P) {ok : World → Call → Prop} {Q : World → Prop}
    (step : ∀ c w w', c.Uses N P → Invariant N P w → CallEffect N P c w w' → ok w c → Q w → Q w')
    {cs : List Call} (h : ∀ c ∈ cs, c.Uses N P) (along : Along ok w cs) (inv : Invariant N P w)
    (hQ : Q w) : Invariant N P (w.calls cs) ∧ Q (w.calls cs) := by
  induction cs generalizing w with
  | nil => exact ⟨inv, hQ⟩
  | cons c cs ih =>
    obtain ⟨hok, along⟩ := along
    have hc := h c List.mem_cons_self
    have effect := step_effect names inv hc
    exact ih (fun d hd => h d (List.mem_cons_of_mem c hd)) along
      (effect.invariant names inv hc) (step c w _ hc inv effect hok hQ)

/-- A property of stores that every effect preserves holds after every run. -/
theorem calls_rule (names : Names N P) {Q : World → Prop}
    (step : ∀ c w w', c.Uses N P → Invariant N P w → CallEffect N P c w w' → Q w → Q w')
    (cs : List Call) (h : ∀ c ∈ cs, c.Uses N P) (inv : Invariant N P w) (hQ : Q w) :
    Invariant N P (w.calls cs) ∧ Q (w.calls cs) :=
  along_rule names (fun c w w' hc inv effect _ hQ => step c w w' hc inv effect hQ) h
    (along_true w cs) inv hQ

theorem invariant_calls (names : Names N P) (cs : List Call) (h : ∀ c ∈ cs, c.Uses N P) :
    Invariant N P (World.empty.calls cs) :=
  (calls_rule names (Q := fun _ => True) (fun _ _ _ _ _ _ _ => trivial) cs h
    (invariant_empty N P) trivial).1

/-! ## The store is consistent after every call -/

/-- After any calls on names that do not collide, the structures of the store agree, and
ending a MAC or a VLAN then leaves no descendant. -/
theorem consistent_calls (names : Names N P) (cs : List Call) (h : ∀ c ∈ cs, c.Uses N P) :
    Consistent N (World.empty.calls cs) ∧
    ∀ now mac vlan time, objOf mac vlan .none ∈ N → ∀ x, objOf mac vlan .none ≤ x →
      ((World.empty.calls cs).step (.ends now mac vlan .none time)).seenAt x = none ∧
      (x ∈ N → ((World.empty.calls cs).step (.ends now mac vlan .none time)).idOf x = none) := by
  have inv := invariant_calls names cs h
  refine ⟨inv.toConsistent, fun now mac vlan time hN x hx => ?_⟩
  have effect := ends_effect inv names now (.inl rfl) hN time
  have hstep : (World.empty.calls cs).step (.ends now mac vlan .none time) =
      ((endSession now mac vlan .none time).run handler (World.empty.calls cs)).2 := by
    simp [World.step, Call.prog]
  rw [hstep]
  refine ⟨?_, fun hxN => ?_⟩
  · rw [effect.seenAt, prune_of_le hx]
  · rw [effect.idOf x hxN, prune_of_le hx]

/-- The objects, ports and calls of a device that roams from one switch port to another. -/
def roamingObjs : List Obj :=
  [.mac "00:11", .vlan "00:11" "eth0", .ip "00:11" "eth0" "10.0.0.2"]

def roamingPorts : List Port := [⟨"sw1", "g1", none, ∅⟩, ⟨"sw1", "g2", none, ∅⟩]

def roamingCalls : List Call :=
  [.seen 100 "00:11" "eth0" (some ⟨"sw1", "g1", none, ∅⟩) "10.0.0.2" (some 90),
    .seen 101 "00:11" "eth0" (some ⟨"sw1", "g2", none, ∅⟩) "10.0.0.2" none,
    .ends 102 "00:11" "eth0" "10.0.0.2" none]

theorem roamingCalls_uses :
    ∀ c ∈ roamingCalls, c.Uses {o | o ∈ roamingObjs} {p | p ∈ roamingPorts} := by
  simp [roamingCalls, Call.Uses, Call.obj, Call.port, objOf, roamingObjs, roamingPorts]

theorem roamingNames : Names {o | o ∈ roamingObjs} {p | p ∈ roamingPorts} :=
  names_of_ok (by decide)

theorem consistent_roaming :
    Consistent {o | o ∈ roamingObjs} (World.empty.calls roamingCalls) ∧
    ∀ now mac vlan time, objOf mac vlan .none ∈ {o | o ∈ roamingObjs} →
      ∀ x, objOf mac vlan .none ≤ x →
      ((World.empty.calls roamingCalls).step (.ends now mac vlan .none time)).seenAt x = none ∧
      (x ∈ {o | o ∈ roamingObjs} →
        ((World.empty.calls roamingCalls).step (.ends now mac vlan .none time)).idOf x = none) :=
  consistent_calls roamingNames roamingCalls roamingCalls_uses

/-- Every object over MACs and VLANs for which two indexes of IPs have one key. -/
def sharedKeyObjs : List Obj :=
  [Value.str "a", "a:vlan:b"].flatMap fun m =>
    .mac m :: [Value.str "b:vlan:c", "c"].flatMap fun v => [.vlan m v, .ip m v "10.0.0.2"]

def sharedKeyCalls : List Call :=
  [.seen 100 "a" "b:vlan:c" none "10.0.0.2" none, .ends 101 "a:vlan:b" "c" .none none]

/-- Session id fields are distinct, yet ending `c` on `a:vlan:b` deletes the index that
leads to the IPs of `b:vlan:c` on `a`. -/
theorem shared_key_not_consistent :
    (∀ o ∈ sharedKeyObjs, ∀ x ∈ sharedKeyObjs, o.field = x.field → o = x) ∧
    (∀ c ∈ sharedKeyCalls, c.Uses {o | o ∈ sharedKeyObjs} ∅) ∧
    ¬ Consistent {o | o ∈ sharedKeyObjs} (World.empty.calls sharedKeyCalls) := by
  refine ⟨by decide, ?_, fun h => ?_⟩
  · simp [sharedKeyCalls, Call.Uses, Call.obj, Call.port, objOf, sharedKeyObjs]
  · have present : Obj.ip "a" "b:vlan:c" "10.0.0.2" ∈
        support (World.empty.calls sharedKeyCalls).seenAt := by
      rw [mem_support]
      decide
    have indexed := h.ips _ _ _ present
    revert indexed
    decide

end ElanAgent.Session
