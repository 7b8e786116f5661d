import ElanAgent.Session.Names

/-!
# What the pipelines do

`seen` writes with short pipelines of fixed shape, computed command by command. The
pipeline of `end` grows with the index sets it has read, but only reads and removes,
so its effect on each structure is read off its commands, in any order.

`endPipe` is that pipeline when nothing changes the index sets while it is built.
-/

namespace ElanAgent.Session

open Atomic Redis

variable {w : World}

@[simp] theorem execute_nil (w : World) : execute [] w = ([], w) := rfl

@[simp] theorem execute_cons (c : Cmd) (pipe : List Cmd) (w : World) :
    execute (c :: pipe) w =
      ((c.exec w).1 :: (execute pipe (c.exec w).2).1, (execute pipe (c.exec w).2).2) := rfl

@[simp] theorem setMembers_self (w : World) (key : String) (l : List Value) :
    (w.setMembers key l).sets key = l := Function.update_self ..

@[simp] theorem setMembers_of_ne {w : World} {key k : String} (h : k ≠ key) (l : List Value) :
    (w.setMembers key l).sets k = w.sets k := Function.update_of_ne h ..

theorem setMembers_sets (w : World) (key k : String) (l : List Value) :
    (w.setMembers key l).sets k = if k = key then l else w.sets k := by
  split
  · subst k
    exact setMembers_self w key l
  · exact setMembers_of_ne ‹_› l

/-! ## Pipelines that read and remove -/

/-- The commands that `end` issues on the sessions and their index. -/
def Cmd.Removes : Cmd → Prop
  | .zrem _ | .hget _ | .hdel _ | .srem _ _ | .delete _ => True
  | _ => False

variable {pipe : List Cmd}

theorem execute_removes_lastSeen (h : ∀ c ∈ pipe, c.Removes) (w : World) (o : Obj) :
    (execute pipe w).2.lastSeen.lookup o =
      if .zrem o ∈ pipe then none else w.lastSeen.lookup o := by
  induction pipe generalizing w with
  | nil => simp
  | cons c pipe ih =>
    rw [execute_cons, ih (fun c hc => h c (List.mem_cons_of_mem _ hc))]
    have hc := h c List.mem_cons_self
    cases c with
    | zrem o' =>
      by_cases ho : o = o' <;> simp [Cmd.exec, lookup_erase_ite, ho]
    | hget | hdel | srem | delete => simp [Cmd.exec, World.setMembers]
    | _ => exact hc.elim

theorem execute_removes_sessionIds (h : ∀ c ∈ pipe, c.Removes) (w : World) (f : String) :
    (execute pipe w).2.sessionIds.lookup f =
      if .hdel f ∈ pipe then none else w.sessionIds.lookup f := by
  induction pipe generalizing w with
  | nil => simp
  | cons c pipe ih =>
    rw [execute_cons, ih (fun c hc => h c (List.mem_cons_of_mem _ hc))]
    have hc := h c List.mem_cons_self
    cases c with
    | hdel f' =>
      by_cases hf : f = f' <;> simp [Cmd.exec, lookup_erase_ite, hf]
    | hget | zrem | srem | delete => simp [Cmd.exec, World.setMembers]
    | _ => exact hc.elim

theorem execute_removes_sets (h : ∀ c ∈ pipe, c.Removes) (w : World) (k : String) (v : Value) :
    v ∈ (execute pipe w).2.sets k ↔
      v ∈ w.sets k ∧ .delete k ∉ pipe ∧ .srem k v ∉ pipe := by
  induction pipe generalizing w with
  | nil => simp
  | cons c pipe ih =>
    rw [execute_cons, ih (fun c hc => h c (List.mem_cons_of_mem _ hc))]
    have hc := h c List.mem_cons_self
    cases c with
    | srem k' v' =>
      by_cases hk : k = k'
      · subst k'
        simp [Cmd.exec]
        tauto
      · simp [Cmd.exec, hk]
    | delete k' =>
      by_cases hk : k = k' <;> simp [Cmd.exec, hk]
    | hget | zrem | hdel => simp [Cmd.exec]
    | _ => exact hc.elim

/-- The structures that only `seen`, or the end of a MAC, writes. -/
structure World.SameRest (w w' : World) : Prop where
  sequence : w'.sequence = w.sequence
  macPort : w'.macPort = w.macPort
  macLastPort : w'.macLastPort = w.macLastPort
  authentication : w'.authentication = w.authentication
  published : w'.published = w.published

theorem execute_removes_rest (h : ∀ c ∈ pipe, c.Removes) (w : World) :
    w.SameRest (execute pipe w).2 := by
  induction pipe generalizing w with
  | nil => exact ⟨rfl, rfl, rfl, rfl, rfl⟩
  | cons c pipe ih =>
    have hc := h c List.mem_cons_self
    have rest := ih (fun c hc => h c (List.mem_cons_of_mem _ hc)) (c.exec w).2
    obtain ⟨h1, h2, h3, h4, h5⟩ := rest
    cases c with
    | hget | zrem | hdel | srem | delete => exact ⟨h1, h2, h3, h4, h5⟩
    | _ => exact hc.elim

/-! ## The pipeline of `end` -/

/-- The commands for the VLANs of `mac`, with the IPs that the index has for them. -/
def vlansPipe (w : World) (mac ip : Value) (vlans : List Value) : List Cmd :=
  vlans.flatMap fun v =>
    if ip = .none then
      [.hdel (Obj.vlan mac v).field, .zrem (.vlan mac v), .srem (macVlansPath mac) v,
        .delete (macVlanIpsPath mac v)] ++ endIps mac v (w.sets (macVlanIpsPath mac v))
    else [.hget (Obj.ip mac v ip).field] ++ endIps mac v [ip]

/-- The pipeline of `end` in the store `w`. -/
def endPipe (w : World) (mac vlan ip : Value) : List Cmd :=
  if vlan = .none then
    [.hget (Obj.mac mac).field, .hdel (Obj.mac mac).field, .zrem (.mac mac),
      .delete (macVlansPath mac)] ++ vlansPipe w mac ip (w.sets (macVlansPath mac))
  else
    [.hget (Obj.mac mac).field, .hget (Obj.vlan mac vlan).field] ++ vlansPipe w mac ip [vlan]

theorem endVlans_run (mac ip : Value) (pipe : List Cmd) (vlans : List Value) (w : World) :
    (endVlans mac ip pipe vlans).run handler w = (pipe ++ vlansPipe w mac ip vlans, w) := by
  induction vlans generalizing pipe with
  | nil => simp [endVlans, vlansPipe]
  | cons v vlans ih =>
    by_cases hi : ip = .none
    · simp only [endVlans, hi, if_true, Prog.run_bind, run_smembers] at ih ⊢
      rw [ih]
      simp [vlansPipe]
    · simp only [endVlans, hi, if_false] at ih ⊢
      rw [ih]
      simp [vlansPipe, hi]

theorem endSession_run (now : ℚ) {mac vlan ip : Value} (h : ip = .none ∨ vlan ≠ .none)
    (time : Option ℚ) (w : World) :
    ((endSession now mac vlan ip time).run handler w).2 =
      ((endNotify now mac vlan ip (time.getD now) (execute (endPipe w mac vlan ip) w).1).run
        handler (execute (endPipe w mac vlan ip) w).2).2 := by
  have hraise : ¬ (ip ≠ .none ∧ vlan = .none) := by tauto
  simp only [endSession, if_neg hraise]
  by_cases hv : vlan = .none <;>
    simp [endMac, endPipe, hv, endVlans_run, -execute_cons]

/-- Ending an IP without its VLAN raises and leaves the store as it is. -/
theorem endSession_raise (now : ℚ) {mac vlan ip : Value} (hi : ip ≠ .none) (hv : vlan = .none)
    (time : Option ℚ) (w : World) :
    (endSession now mac vlan ip time).run handler w =
      (.error "Error: when ending IP, VLAN should be specified...", w) := by
  simp [endSession, hi, hv]

theorem removes_endIps (mac vlan : Value) (ips : List Value) :
    ∀ c ∈ endIps mac vlan ips, c.Removes := by
  intro c hc
  obtain ⟨i, _, hc⟩ := List.mem_flatMap.mp hc
  rcases List.mem_pair.mp hc with rfl | rfl <;> trivial

theorem removes_vlansPipe (w : World) (mac ip : Value) (vlans : List Value) :
    ∀ c ∈ vlansPipe w mac ip vlans, c.Removes := by
  intro c hc
  obtain ⟨v, _, hc⟩ := List.mem_flatMap.mp hc
  split at hc
  · rcases List.mem_append.mp hc with hc | hc
    · simp only [List.mem_cons, List.not_mem_nil, or_false] at hc
      rcases hc with rfl | rfl | rfl | rfl <;> trivial
    · exact removes_endIps _ _ _ c hc
  · rcases List.mem_append.mp hc with hc | hc
    · rw [List.mem_singleton.mp hc]
      trivial
    · exact removes_endIps _ _ _ c hc

theorem removes_endPipe (w : World) (mac vlan ip : Value) :
    ∀ c ∈ endPipe w mac vlan ip, c.Removes := by
  intro c hc
  unfold endPipe at hc
  split at hc <;> rcases List.mem_append.mp hc with hc | hc
  · simp only [List.mem_cons, List.not_mem_nil, or_false] at hc
    rcases hc with rfl | rfl | rfl | rfl <;> trivial
  · exact removes_vlansPipe _ _ _ _ c hc
  · rcases List.mem_pair.mp hc with rfl | rfl <;> trivial
  · exact removes_vlansPipe _ _ _ _ c hc

/-! ## The commands in the pipeline of `end` -/

/-- The VLANs that `end` goes through. -/
def endedVlans (w : World) (mac vlan : Value) : List Value :=
  if vlan = .none then w.sets (macVlansPath mac) else [vlan]

/-- The IPs of a VLAN that `end` goes through. -/
def endedIps (w : World) (mac v ip : Value) : List Value :=
  if ip = .none then w.sets (macVlanIpsPath mac v) else [ip]

/-- The objects that the pipeline of `end` removes. -/
def Ended (w : World) (mac vlan ip : Value) : Obj → Prop
  | .mac m => vlan = .none ∧ m = mac
  | .vlan m v => m = mac ∧ ip = .none ∧ v ∈ endedVlans w mac vlan
  | .ip m v i => m = mac ∧ v ∈ endedVlans w mac vlan ∧ i ∈ endedIps w mac v ip

theorem mem_vlansPipe {c : Cmd} {mac ip : Value} {vlans : List Value} :
    c ∈ vlansPipe w mac ip vlans ↔ ∃ v ∈ vlans,
      (ip = .none ∧ (c = .hdel (Obj.vlan mac v).field ∨ c = .zrem (.vlan mac v) ∨
        c = .srem (macVlansPath mac) v ∨ c = .delete (macVlanIpsPath mac v))) ∨
      (ip ≠ .none ∧ c = .hget (Obj.ip mac v ip).field) ∨
      ∃ i ∈ endedIps w mac v ip, c = .hdel (Obj.ip mac v i).field ∨ c = .zrem (.ip mac v i) := by
  by_cases hi : ip = .none <;>
    simp [vlansPipe, endIps, endedIps, hi, or_assoc]

theorem mem_endPipe {c : Cmd} {mac vlan ip : Value} :
    c ∈ endPipe w mac vlan ip ↔
      (vlan = .none ∧ (c = .hdel (Obj.mac mac).field ∨ c = .zrem (.mac mac) ∨
        c = .delete (macVlansPath mac))) ∨
      c = .hget (Obj.mac mac).field ∨ (vlan ≠ .none ∧ c = .hget (Obj.vlan mac vlan).field) ∨
      c ∈ vlansPipe w mac ip (endedVlans w mac vlan) := by
  by_cases hv : vlan = .none
  · simp [endPipe, endedVlans, hv]
    tauto
  · simp [endPipe, endedVlans, hv]

theorem zrem_mem_endPipe {x : Obj} {mac vlan ip : Value} :
    .zrem x ∈ endPipe w mac vlan ip ↔ Ended w mac vlan ip x := by
  simp only [mem_endPipe, mem_vlansPipe, reduceCtorEq, Cmd.zrem.injEq, and_false, false_or,
    or_false]
  cases x with
  | mac m => simp [Ended]
  | vlan m v =>
    simp only [Ended, Obj.vlan.injEq, reduceCtorEq, and_false, false_or, exists_false, or_false]
    constructor
    · rintro ⟨v', hv', hi, rfl, rfl⟩
      exact ⟨rfl, hi, hv'⟩
    · rintro ⟨rfl, hi, hv⟩
      exact ⟨v, hv, hi, rfl, rfl⟩
  | ip m v i =>
    simp only [Ended, Obj.ip.injEq, reduceCtorEq, and_false, false_or]
    constructor
    · rintro ⟨v', hv', i', hi', rfl, rfl, rfl⟩
      exact ⟨rfl, hv', hi'⟩
    · rintro ⟨rfl, hv, hi⟩
      exact ⟨v, hv, i, hi, rfl, rfl, rfl⟩

theorem hdel_mem_endPipe {f : String} {mac vlan ip : Value} :
    .hdel f ∈ endPipe w mac vlan ip ↔ ∃ x, Ended w mac vlan ip x ∧ x.field = f := by
  simp only [mem_endPipe, mem_vlansPipe, reduceCtorEq, Cmd.hdel.injEq, and_false, false_or,
    or_false]
  constructor
  · rintro (⟨hv, rfl⟩ | ⟨v, hv, ⟨hi, rfl⟩ | ⟨i, hi, rfl⟩⟩)
    · exact ⟨.mac mac, ⟨hv, rfl⟩, rfl⟩
    · exact ⟨.vlan mac v, ⟨rfl, hi, hv⟩, rfl⟩
    · exact ⟨.ip mac v i, ⟨rfl, hv, hi⟩, rfl⟩
  · rintro ⟨x, hx, rfl⟩
    cases x with
    | mac m => exact .inl ⟨hx.1, by rw [hx.2]⟩
    | vlan m v => exact .inr ⟨v, hx.2.2, .inl ⟨hx.2.1, by rw [hx.1]⟩⟩
    | ip m v i => exact .inr ⟨v, hx.2.1, .inr ⟨i, hx.2.2, by rw [hx.1]⟩⟩

theorem delete_mem_endPipe {k : String} {mac vlan ip : Value} :
    .delete k ∈ endPipe w mac vlan ip ↔ (vlan = .none ∧ k = macVlansPath mac) ∨
      ip = .none ∧ ∃ v ∈ endedVlans w mac vlan, k = macVlanIpsPath mac v := by
  simp only [mem_endPipe, mem_vlansPipe, reduceCtorEq, Cmd.delete.injEq, and_false, false_or,
    or_false, exists_false]
  constructor
  · rintro (h | ⟨v, hv, hi, rfl⟩)
    · exact .inl h
    · exact .inr ⟨hi, v, hv, rfl⟩
  · rintro (h | ⟨hi, v, hv, rfl⟩)
    · exact .inl h
    · exact .inr ⟨v, hv, hi, rfl⟩

theorem srem_mem_endPipe {k : String} {v mac vlan ip : Value} :
    .srem k v ∈ endPipe w mac vlan ip ↔
      ip = .none ∧ v ∈ endedVlans w mac vlan ∧ k = macVlansPath mac := by
  simp only [mem_endPipe, mem_vlansPipe, reduceCtorEq, Cmd.srem.injEq, and_false, false_or,
    or_false, exists_false]
  constructor
  · rintro ⟨v', hv', hi, rfl, rfl⟩
    exact ⟨hi, hv', rfl⟩
  · rintro ⟨hi, hv, rfl⟩
    exact ⟨v, hv, hi, rfl, rfl⟩

end ElanAgent.Session
