import ElanAgent.Session.Consistency

/-!
# What `end` does

`Ends` is the effect of an `end` that does not raise, structure by structure, in the
terms of the object that it names: both maps on objects are pruned there. The proof
goes through the two parts of the call, its pipeline and what follows it.
-/

namespace ElanAgent.Session

open Atomic Redis Hierarchy

variable {N : Set Obj} {P : Set Port} {w : World}

/-- The message that closes the session of an object, given the ids of sessions. -/
def endMessage (now : ℚ) (ids : Obj → Option Nat) (time : ℚ) : Obj → Message
  | .mac m =>
    { topic := macSessionTopic, mac := m, vlan := none, ip := none, localId := ids (.mac m),
      macLocalId := none, vlanLocalId := none, start := none,
      ended := some (formatDate now (some time)), port := none }
  | .vlan m v =>
    { topic := vlanSessionTopic, mac := m, vlan := some v, ip := none,
      localId := ids (.vlan m v), macLocalId := ids (.mac m), vlanLocalId := none,
      start := none, ended := some (formatDate now (some time)), port := none }
  | .ip m v i =>
    { topic := ipSessionTopic, mac := m, vlan := some v, ip := some i,
      localId := ids (.ip m v i), macLocalId := ids (.mac m),
      vlanLocalId := ids (.vlan m v), start := none,
      ended := some (formatDate now (some time)), port := none }

/-- The call closes the session of `mac`, so its port is forgotten. -/
def ClosesMac (w : World) (mac vlan : Value) : Prop := vlan = .none ∧ w.idOf (.mac mac) ≠ none

instance (w : World) (mac vlan : Value) : Decidable (ClosesMac w mac vlan) :=
  inferInstanceAs (Decidable (_ ∧ _))

/-- The effect of `end` from `w` to `w'`. -/
structure Ends (N : Set Obj) (P : Set Port) (now : ℚ) (mac vlan ip : Value) (time : ℚ)
    (w w' : World) : Prop where
  seenAt : w'.seenAt = prune (objOf mac vlan ip) w.seenAt
  idOf : ∀ x ∈ N, w'.idOf x = prune (objOf mac vlan ip) w.idOf x
  idsOld : ∀ f id, w'.sessionIds.lookup f = some id → w.sessionIds.lookup f = some id
  sequence : w'.sequence = w.sequence
  macPort : ∀ f, w'.macPort.lookup f =
    if ClosesMac w mac vlan ∧ f = mac.format then none else w.macPort.lookup f
  vlans : ∀ m v, Obj.mac m ∈ N → (v ∈ w'.sets (macVlansPath m) ↔
    v ∈ w.sets (macVlansPath m) ∧ ¬ objOf mac vlan ip ≤ .vlan m v)
  ips : ∀ m v i, Obj.vlan m v ∈ N → (i ∈ w'.sets (macVlanIpsPath m v) ↔
    i ∈ w.sets (macVlanIpsPath m v) ∧ ¬ objOf mac vlan ip ≤ .vlan m v)
  portMacs : ∀ p : Port, Key.portMacs p.localId p.interface ∈ keysOf N P → ∀ m,
    (m ∈ w'.sets (portMacsPath p) ↔ m ∈ w.sets (portMacsPath p) ∧
      ¬ (ClosesMac w mac vlan ∧ m = mac ∧
        ∃ old, w.portOf mac = some old ∧ portMacsPath p = portMacsPath old))
  published : w'.published = w.published ++
    if w.idOf (objOf mac vlan ip) = none then []
    else [endMessage now w.idOf time (objOf mac vlan ip)]

/-! ## The pipeline -/

section Pipeline

variable {mac vlan ip : Value}

theorem endPipe_seenAt (inv : Invariant N P w) (names : Names N P)
    (h : ip = .none ∨ vlan ≠ .none) :
    (execute (endPipe w mac vlan ip) w).2.seenAt = prune (objOf mac vlan ip) w.seenAt := by
  funext x
  rw [World.seenAt, execute_removes_lastSeen (removes_endPipe w mac vlan ip)]
  by_cases hx : objOf mac vlan ip ≤ x
  · rw [prune_of_le hx, ite_eq_left_iff]
    intro hnot
    by_contra hne
    exact hnot (zrem_mem_endPipe.mpr (inv.ended names h hne hx))
  · rw [prune_of_not_le hx, if_neg (fun he => hx (le_of_ended h (zrem_mem_endPipe.mp he)))]
    rfl

theorem endPipe_idOf (inv : Invariant N P w) (names : Names N P)
    (h : ip = .none ∨ vlan ≠ .none) (hN : objOf mac vlan ip ∈ N) {x : Obj} (hx : x ∈ N) :
    (execute (endPipe w mac vlan ip) w).2.idOf x = prune (objOf mac vlan ip) w.idOf x := by
  rw [World.idOf, execute_removes_sessionIds (removes_endPipe w mac vlan ip)]
  have hdel : .hdel x.field ∈ endPipe w mac vlan ip ↔ Ended w mac vlan ip x := by
    rw [hdel_mem_endPipe]
    constructor
    · rintro ⟨y, hy, he⟩
      rwa [← names.field (inv.ended_named names h hN hy) hx he]
    · exact fun hx => ⟨x, hx, rfl⟩
  by_cases hle : objOf mac vlan ip ≤ x
  · rw [prune_of_le hle, ite_eq_left_iff]
    intro hnot
    by_contra hne
    exact hnot (hdel.mpr (inv.ended names h ((inv.ids x hx).mpr hne) hle))
  · rw [prune_of_not_le hle, if_neg (fun he => hle (le_of_ended h (hdel.mp he)))]
    rfl

theorem endPipe_vlans (inv : Invariant N P w) (names : Names N P)
    (h : ip = .none ∨ vlan ≠ .none) (hN : objOf mac vlan ip ∈ N) {m v : Value}
    (hm : Obj.mac m ∈ N) :
    v ∈ (execute (endPipe w mac vlan ip) w).2.sets (macVlansPath m) ↔
      v ∈ w.sets (macVlansPath m) ∧ ¬ objOf mac vlan ip ≤ .vlan m v := by
  rw [execute_removes_sets (removes_endPipe w mac vlan ip), delete_mem_endPipe, srem_mem_endPipe]
  have hmac : Obj.mac mac ∈ N := names.lower (mac_le_objOf mac vlan ip) hN
  have hips : ∀ v' ∈ endedVlans w mac vlan, ip = .none → macVlansPath m ≠ macVlanIpsPath mac v' :=
    fun v' hv' hi => vlans_ne_ips names hm
      (inv.ended_named names h hN (x := .vlan mac v') ⟨rfl, hi, hv'⟩)
  refine and_congr_right fun hv => ?_
  by_cases hvn : vlan = .none
  · subst hvn
    obtain rfl : ip = .none := by tauto
    simp only [objOf_mac, Obj.mac_le_vlan, endedVlans, if_true, true_and,
      macVlansPath_inj names hm hmac]
    constructor
    · rintro ⟨hd, -⟩ rfl
      exact hd (.inl rfl)
    · intro hne
      refine ⟨?_, fun hs => hne hs.2.symm⟩
      rintro (rfl | ⟨v', hv', he⟩)
      · exact hne rfl
      · exact hips v' (by simpa [endedVlans] using hv') rfl he
  · by_cases hi : ip = .none
    · subst hi
      simp only [objOf_vlan hvn, Obj.vlan_le_vlan, hvn, false_and, false_or, true_and,
        macVlansPath_inj names hm hmac]
      simp only [endedVlans, hvn, if_false, List.mem_singleton]
      constructor
      · rintro ⟨-, hs⟩ ⟨rfl, rfl⟩
        exact hs ⟨rfl, rfl⟩
      · intro hne
        refine ⟨?_, fun hs => hne ⟨hs.2.symm, hs.1.symm⟩⟩
        rintro ⟨v', rfl, he⟩
        exact hips v' (by simp [endedVlans, hvn]) rfl he
    · simp [objOf_ip hvn hi, hvn, hi]

theorem endPipe_ips (inv : Invariant N P w) (names : Names N P)
    (h : ip = .none ∨ vlan ≠ .none) (hN : objOf mac vlan ip ∈ N) {m v i : Value}
    (hv : Obj.vlan m v ∈ N) :
    i ∈ (execute (endPipe w mac vlan ip) w).2.sets (macVlanIpsPath m v) ↔
      i ∈ w.sets (macVlanIpsPath m v) ∧ ¬ objOf mac vlan ip ≤ .vlan m v := by
  rw [execute_removes_sets (removes_endPipe w mac vlan ip), delete_mem_endPipe, srem_mem_endPipe]
  have hmac : Obj.mac mac ∈ N := names.lower (mac_le_objOf mac vlan ip) hN
  have hne : macVlanIpsPath m v ≠ macVlansPath mac := (vlans_ne_ips names hmac hv).symm
  refine and_congr_right fun hi => ?_
  have hpresent : Obj.vlan m v ∈ support w.seenAt := (inv.ipsUnder m v i hv hi).1
  simp only [hne, and_false, false_or, not_false_eq_true, and_true, not_iff_not]
  constructor
  · rintro ⟨hin, v', hv', he⟩
    have hx : Ended w mac vlan ip (.vlan mac v') := ⟨rfl, hin, hv'⟩
    obtain ⟨rfl, rfl⟩ := (macVlanIpsPath_inj names hv (inv.ended_named names h hN hx)).mp he
    exact le_of_ended h hx
  · intro hle
    obtain ⟨rfl, hin, hv'⟩ := inv.ended names h hpresent hle
    exact ⟨hin, v, hv', rfl⟩

theorem endPipe_portMacs (inv : Invariant N P w) (names : Names N P)
    (h : ip = .none ∨ vlan ≠ .none) (hN : objOf mac vlan ip ∈ N) {p : Port}
    (hp : Key.portMacs p.localId p.interface ∈ keysOf N P) {m : Value} :
    m ∈ (execute (endPipe w mac vlan ip) w).2.sets (portMacsPath p) ↔
      m ∈ w.sets (portMacsPath p) := by
  rw [execute_removes_sets (removes_endPipe w mac vlan ip), delete_mem_endPipe, srem_mem_endPipe]
  have hmac : Obj.mac mac ∈ N := names.lower (mac_le_objOf mac vlan ip) hN
  have hvlans : portMacsPath p ≠ macVlansPath mac := (vlans_ne_portMacs names hp hmac).symm
  have hips : ip = .none → ∀ v ∈ endedVlans w mac vlan,
      portMacsPath p ≠ macVlanIpsPath mac v := fun hi v hv =>
    (ips_ne_portMacs names hp
      (inv.ended_named names h hN (x := .vlan mac v) ⟨rfl, hi, hv⟩)).symm
  simp only [hvlans, and_false, false_or, not_false_eq_true, and_true, and_iff_left_iff_imp]
  rintro - ⟨hi, v, hv, he⟩
  exact hips hi v hv he

/-- The positions of the ids that the pipeline reads. -/
theorem endPipe_replies (w : World) (mac : Value) (h : ip = .none ∨ vlan ≠ .none) :
    ((execute (endPipe w mac vlan ip) w).1.getD 0 default).sessionId = w.idOf (.mac mac) ∧
    (vlan ≠ .none →
      ((execute (endPipe w mac vlan ip) w).1.getD 1 default).sessionId = w.idOf (.vlan mac vlan)) ∧
    (ip ≠ .none →
      ((execute (endPipe w mac vlan ip) w).1.getD 2 default).sessionId =
        w.idOf (.ip mac vlan ip)) := by
  refine ⟨?_, fun hv => ?_, fun hi => ?_⟩
  · by_cases hv : vlan = .none <;> simp [endPipe, hv, Cmd.exec, Reply.sessionId, World.idOf]
  · simp [endPipe, hv, Cmd.exec, Reply.sessionId, World.idOf]
  · have hv : vlan ≠ .none := by tauto
    simp [endPipe, hv, hi, vlansPipe, Cmd.exec, Reply.sessionId, World.idOf]

end Pipeline

/-! ## After the pipeline -/

/-- Only the authentication sessions change. -/
def World.AuthOnly (w w' : World) : Prop := ∃ a, w' = { w with authentication := a }

theorem World.AuthOnly.trans {w w' w'' : World} (h : w.AuthOnly w') (h' : w'.AuthOnly w'') :
    w.AuthOnly w'' := by
  obtain ⟨a, rfl⟩ := h
  obtain ⟨b, rfl⟩ := h'
  exact ⟨b, rfl⟩

theorem each_authOnly {α : Type} {f : α → Prog synapse Unit}
    (hf : ∀ x w, World.AuthOnly w ((f x).run handler w).2) (xs : List α) (w : World) :
    w.AuthOnly ((each f xs).run handler w).2 := by
  induction xs generalizing w with
  | nil => exact ⟨w.authentication, rfl⟩
  | cons x xs ih =>
    simp only [each, Prog.run_bind]
    exact (hf x w).trans (ih _)

theorem removeTillDisconnect_authOnly (mac : Value) (w : World) :
    w.AuthOnly ((removeTillDisconnectAuthenticationSession mac).run handler w).2 := by
  simp only [removeTillDisconnectAuthenticationSession, Prog.run_bind, run_smembersAuth]
  refine each_authOnly (fun session w => ?_) _ w
  split
  · exact ⟨_, rfl⟩
  · exact ⟨w.authentication, rfl⟩

/-- Forget the port of `mac` and take `mac` out of the port's set. -/
def World.forgetPort (w : World) (mac : Value) : World :=
  (execute (.hdelPort mac :: ((w.portOf mac).map fun port =>
    Cmd.srem (portMacsPath port) mac).toList) w).2

theorem forgetPort_frame (w : World) (mac : Value) :
    (w.forgetPort mac).lastSeen = w.lastSeen ∧ (w.forgetPort mac).sessionIds = w.sessionIds ∧
    (w.forgetPort mac).sequence = w.sequence ∧ (w.forgetPort mac).published = w.published := by
  unfold World.forgetPort
  cases w.portOf mac <;> exact ⟨rfl, rfl, rfl, rfl⟩

theorem forgetPort_macPort (w : World) (mac : Value) (f : String) :
    (w.forgetPort mac).macPort.lookup f =
      if f = mac.format then none else w.macPort.lookup f := by
  unfold World.forgetPort
  cases w.portOf mac <;> exact lookup_erase_ite f mac.format w.macPort

theorem forgetPort_sets (w : World) (mac : Value) (k : String) (m : Value) :
    m ∈ (w.forgetPort mac).sets k ↔
      m ∈ w.sets k ∧ ¬ (m = mac ∧ ∃ old, w.portOf mac = some old ∧ k = portMacsPath old) := by
  unfold World.forgetPort
  cases h : w.portOf mac with
  | none => simp [Cmd.exec]
  | some old =>
    by_cases hk : k = portMacsPath old <;> simp [Cmd.exec, hk]

theorem closePort_frame (c : Prop) [Decidable c] (w : World) (mac : Value) :
    (if c then w.forgetPort mac else w).lastSeen = w.lastSeen ∧
    (if c then w.forgetPort mac else w).sessionIds = w.sessionIds ∧
    (if c then w.forgetPort mac else w).sequence = w.sequence ∧
    (if c then w.forgetPort mac else w).published = w.published := by
  split
  · exact forgetPort_frame w mac
  · exact ⟨rfl, rfl, rfl, rfl⟩

theorem closePort_macPort (c : Prop) [Decidable c] (w : World) (mac : Value) (f : String) :
    (if c then w.forgetPort mac else w).macPort.lookup f =
      if c ∧ f = mac.format then none else w.macPort.lookup f := by
  by_cases hc : c
  · simp only [hc, if_true, true_and, forgetPort_macPort]
  · simp only [hc, if_false, false_and]

theorem closePort_sets (c : Prop) [Decidable c] (w : World) (mac : Value) (k : String)
    (m : Value) :
    m ∈ (if c then w.forgetPort mac else w).sets k ↔ m ∈ w.sets k ∧
      ¬ (c ∧ m = mac ∧ ∃ old, w.portOf mac = some old ∧ k = portMacsPath old) := by
  by_cases hc : c
  · simp only [hc, if_true, true_and, forgetPort_sets]
  · simp only [hc, if_false, false_and, not_false_eq_true, and_true]

/-- The run of what follows the pipeline, when the replies hold the ids of `u`. -/
theorem endNotify_run (now : ℚ) {mac vlan ip : Value} (h : ip = .none ∨ vlan ≠ .none) (time : ℚ)
    {results : List Reply} {u : World} (w : World)
    (pos : ∀ x id, u.idOf x = some id → 0 < id)
    (hmac : (results.getD 0 default).sessionId = u.idOf (.mac mac))
    (hvlan : vlan ≠ .none → (results.getD 1 default).sessionId = u.idOf (.vlan mac vlan))
    (hip : ip ≠ .none → (results.getD 2 default).sessionId = u.idOf (.ip mac vlan ip)) :
    World.AuthOnly ((if ClosesMac u mac vlan then w.forgetPort mac else w).say
        (if u.idOf (objOf mac vlan ip) = none then []
          else [endMessage now u.idOf time (objOf mac vlan ip)]))
      ((endNotify now mac vlan ip time results).run handler w).2 := by
  have known : ∀ x, (u.idOf x).getD 0 ≠ 0 ↔ u.idOf x ≠ none := by
    intro x
    cases hx : u.idOf x with
    | none => simp
    | some id => simpa using (pos x id hx).ne'
  by_cases hv : vlan = .none
  · subst hv
    obtain rfl : ip = .none := by tauto
    by_cases hid : u.idOf (.mac mac) = none
    · simp only [endNotify, hmac, hid, ClosesMac, objOf_mac]
      simpa using ⟨w.authentication, rfl⟩
    · simp only [endNotify, hmac, known, hid, ClosesMac, objOf_mac, not_true, not_false_eq_true,
        if_true, if_false, Prog.run_bind, run_macPort, run_pipeExecute, true_and, ne_eq]
      obtain ⟨a, ha⟩ := removeTillDisconnect_authOnly mac (w.forgetPort mac)
      refine ⟨a, ?_⟩
      change ((notifyEndMacSession now mac _ (some time)).run handler
        ((removeTillDisconnectAuthenticationSession mac).run handler (w.forgetPort mac)).2).2 = _
      rw [ha]
      simp [notifyEndMacSession, endMessage, World.say]
  · by_cases hi : ip = .none
    · subst hi
      by_cases hid : u.idOf (.vlan mac vlan) = none
      · simp only [endNotify, hmac, hvlan hv, known, hid, ClosesMac, objOf_vlan hv]
        simpa [hv] using ⟨w.authentication, rfl⟩
      · simp only [endNotify, hmac, hvlan hv, known, hid, ClosesMac, objOf_vlan hv]
        simpa [hv, hid, notifyEndVlanSession, endMessage] using ⟨w.authentication, rfl⟩
    · by_cases hid : u.idOf (.ip mac vlan ip) = none
      · simp only [endNotify, hmac, hvlan hv, hip hi, known, hid, ClosesMac, objOf_ip hv hi]
        simpa [hv, hi] using ⟨w.authentication, rfl⟩
      · simp only [endNotify, hmac, hvlan hv, hip hi, known, hid, ClosesMac, objOf_ip hv hi]
        simpa [hv, hi, hid, notifyEndIpSession, endMessage] using ⟨w.authentication, rfl⟩

/-! ## The whole call -/

theorem ends_effect (inv : Invariant N P w) (names : Names N P) (now : ℚ)
    {mac vlan ip : Value} (h : ip = .none ∨ vlan ≠ .none) (hN : objOf mac vlan ip ∈ N)
    (time : Option ℚ) :
    Ends N P now mac vlan ip (time.getD now) w
      ((endSession now mac vlan ip time).run handler w).2 := by
  rw [endSession_run now h]
  have removes := removes_endPipe w mac vlan ip
  obtain ⟨hseq, hport, -, -, hpub⟩ := execute_removes_rest removes w
  obtain ⟨hr0, hr1, hr2⟩ := endPipe_replies w mac h
  obtain ⟨a, ha⟩ := endNotify_run now h (time.getD now) (execute (endPipe w mac vlan ip) w).2
    (fun x id hx => inv.idPos x.field id hx) hr0 hr1 hr2
  have hseen : (execute (endPipe w mac vlan ip) w).2.seenAt = prune (objOf mac vlan ip) w.seenAt :=
    endPipe_seenAt inv names h
  have hid := fun x hx => endPipe_idOf inv names h hN (x := x) hx
  have hold := execute_removes_sessionIds removes w
  have hvlans := fun m v hm => endPipe_vlans inv names h hN (m := m) (v := v) hm
  have hips := fun m v i hv => endPipe_ips inv names h hN (m := m) (v := v) (i := i) hv
  have hports := fun p hp m => endPipe_portMacs inv names h hN (p := p) hp (m := m)
  generalize (execute (endPipe w mac vlan ip) w).2 = u at *
  rw [ha]
  obtain ⟨hlast, hids, hseq', hpub'⟩ := closePort_frame (ClosesMac w mac vlan) u mac
  have hportOf : u.portOf mac = w.portOf mac := by unfold World.portOf; rw [hport]
  refine ⟨?_, ?_, ?_, hseq'.trans hseq, ?_, ?_, ?_, ?_, ?_⟩
  · rw [← hseen]
    exact congrArg (fun l => fun x => l.lookup x) hlast
  · intro x hx
    rw [← hid x hx]
    exact congrArg (·.lookup x.field) hids
  · intro f id hf
    have hf : u.sessionIds.lookup f = some id := hids ▸ hf
    rw [hold f] at hf
    split at hf
    · cases hf
    · exact hf
  · intro f
    rw [← hport]
    exact closePort_macPort (ClosesMac w mac vlan) u mac f
  · intro m v hm
    rw [← hvlans m v hm]
    refine (closePort_sets (ClosesMac w mac vlan) u mac _ v).trans (and_iff_left ?_)
    rintro ⟨hc, rfl, old, hp, he⟩
    have hp : w.macPort.lookup v.format = some old := hport ▸ hp
    exact vlans_ne_portMacs names (inv.portNamed _ _ hp) hm he
  · intro m v i hv
    rw [← hips m v i hv]
    refine (closePort_sets (ClosesMac w mac vlan) u mac _ i).trans (and_iff_left ?_)
    rintro ⟨hc, rfl, old, hp, he⟩
    have hp : w.macPort.lookup i.format = some old := hport ▸ hp
    exact ips_ne_portMacs names (inv.portNamed _ _ hp) hv he
  · intro p hp m
    rw [← hports p hp m, ← hportOf]
    exact closePort_sets (ClosesMac w mac vlan) u mac _ m
  · rw [← hpub, ← hpub']
    rfl

theorem Ends.portOf {now time : ℚ} {mac vlan ip : Value} {w' : World}
    (effect : Ends N P now mac vlan ip time w w') (names : Names N P)
    (hN : objOf mac vlan ip ∈ N) {m : Value} (hm : Obj.mac m ∈ N) :
    w'.portOf m = if ClosesMac w mac vlan ∧ m = mac then none else w.portOf m := by
  have hf : m.format = mac.format ↔ m = mac :=
    mac_format_iff names.toFields hm (names.lower (mac_le_objOf mac vlan ip) hN)
  simp only [World.portOf, effect.macPort, hf]

theorem Ends.invariant {now time : ℚ} {mac vlan ip : Value} {w' : World}
    (effect : Ends N P now mac vlan ip time w w') (inv : Invariant N P w) (names : Names N P)
    (hN : objOf mac vlan ip ∈ N) : Invariant N P w' where
  ids o ho := by
    have := inv.ids o ho
    rw [mem_support, mem_support] at this ⊢
    rw [effect.seenAt, effect.idOf o ho]
    unfold prune
    split <;> simp_all
  lower := by
    rw [effect.seenAt]
    exact lower_prune inv.lower _
  vlans m v hm := by
    rw [effect.vlans m v hm, effect.seenAt, support_prune, inv.vlans m v hm]
    rfl
  ips m v i hi := by
    rw [effect.seenAt, support_prune] at hi
    have hv : Obj.vlan m v ∈ N := names.vlan (inv.named hi.1)
    refine (effect.ips m v i hv).mpr ⟨inv.ips m v i hi.1, fun hle => hi.2 ?_⟩
    exact hle.trans (by simp)
  port m hm hp := by
    rw [World.portOf, effect.macPort] at hp
    split at hp
    · exact absurd rfl hp
    · rename_i hclose
      have hpresent := inv.port m hm hp
      rw [effect.seenAt, support_prune]
      refine ⟨hpresent, fun hle => hclose ?_⟩
      obtain ⟨rfl, rfl⟩ := objOf_le_mac.mp hle
      exact ⟨⟨rfl, (inv.ids _ hm).mp hpresent⟩, rfl⟩
  named := by
    rw [effect.seenAt, support_prune]
    exact Set.sdiff_subset.trans inv.named
  proper x hx := by
    rw [effect.seenAt, support_prune] at hx
    exact inv.proper x hx.1
  ipsUnder m v i hv hi := by
    obtain ⟨hi, hle⟩ := (effect.ips m v i hv).mp hi
    rw [effect.seenAt, support_prune]
    obtain ⟨hvlan, hip⟩ := inv.ipsUnder m v i hv hi
    exact ⟨⟨hvlan, hle⟩, hip⟩
  portNamed f p hp := by
    rw [effect.macPort] at hp
    split at hp
    · cases hp
    · exact inv.portNamed f p hp
  portMac f p hp := by
    rw [effect.macPort] at hp
    split at hp
    · cases hp
    · exact inv.portMac f p hp
  fieldNamed f id hid := inv.fieldNamed f id (effect.idsOld f id hid)
  idPos f id hid := inv.idPos f id (effect.idsOld f id hid)
  idLe f id hid := by
    rw [effect.sequence]
    exact inv.idLe f id (effect.idsOld f id hid)

end ElanAgent.Session
