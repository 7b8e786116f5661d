import ElanAgent.Session.SeenEffect

/-!
# What calls leave alone

Facts on `seen` and `end` in any store, whatever its names and indexes are. After their
first pipelines, all that these calls issue is known up to the values they were given, so
what no such command touches stays as it is.
-/

namespace ElanAgent.Session

open Atomic Redis Hierarchy

variable {w : World}

/-- Every command of a pipeline satisfies `C`, and no authentication session is added. -/
def Op.Issues (C : Cmd → Prop) : Op → Prop
  | .execute pipe => ∀ c ∈ pipe, C c
  | .saddAuth _ _ => False
  | _ => True

variable {C : Cmd → Prop}

/-- A single operation. -/
theorem only_op {P : Op → Prop} {α : Type} {o : Op} {f : Op.Reply o → α} (h : P o) :
    Prog.Only P (.op o fun r => .done (f r) : Prog synapse α) := .op h fun _ => .done _

theorem only_each {P : Op → Prop} {α : Type} {f : α → Prog synapse Unit}
    (hf : ∀ x, Prog.Only P (f x)) (xs : List α) : Prog.Only P (each f xs) := by
  induction xs with
  | nil => exact .done _
  | cons x xs ih => exact .bind (hf x) fun _ => ih

/-- The commands with which `seen` records a port of a MAC. -/
def Cmd.Records (mac : Value) (port : Option Port) (c : Cmd) : Prop :=
  ∃ new ∈ port, c ∈ [.hsetPort mac new, .hsetLastPort mac new, .sadd (portMacsPath new) mac]

theorem seenStore_issues (now : ℚ) (mac vlan : Value) (port oldPort : Option Port) (ip : Value)
    (time : ℚ) (macAdded vlanAdded ipAdded : Bool) (localId : Nat)
    (ids : ∀ c ∈ idsPipe mac vlan ip macAdded vlanAdded ipAdded localId, C c)
    (record : ∀ c, Cmd.Records mac port c → C c) :
    Prog.Only (Op.Issues C)
      (seenStore now mac vlan port oldPort ip time macAdded vlanAdded ipAdded localId) := by
  simp only [seenStore, pipeExecute, Prog.op_bind, Prog.done_bind]
  refine .op ids fun results => .bind ?_ fun _ => .bind ?_ fun _ => .done _
  · unfold seenRecord
    split
    · exact .done _
    · rename_i newPort
      split
      · refine .op (fun c hc => record c ⟨newPort, rfl, hc⟩) fun _ => ?_
        split
        · exact only_op trivial
        · exact .done _
      · exact .done _
  · unfold seenNotify
    split_ifs <;> first | exact only_op trivial | exact .done _

theorem seenAllocate_issues (now : ℚ) (mac vlan : Value) (port oldPort : Option Port) (ip : Value)
    (time : ℚ) (macAdded vlanAdded ipAdded : Bool)
    (ids : ∀ id, ∀ c ∈ idsPipe mac vlan ip macAdded vlanAdded ipAdded id, C c)
    (record : ∀ c, Cmd.Records mac port c → C c) :
    Prog.Only (Op.Issues C)
      (seenAllocate now mac vlan port oldPort ip time macAdded vlanAdded ipAdded) := by
  unfold seenAllocate
  split
  · exact .op trivial fun id => seenStore_issues now mac vlan port oldPort ip time macAdded
      vlanAdded ipAdded id (ids id) record
  · exact
      seenStore_issues now mac vlan port oldPort ip time macAdded vlanAdded ipAdded 0 (ids 0) record

theorem endNotify_issues (now : ℚ) (mac vlan ip : Value) (time : ℚ) (results : List Reply)
    (hdel : C (.hdelPort mac)) (srem : ∀ port, C (.srem (portMacsPath port) mac)) :
    Prog.Only (Op.Issues C) (endNotify now mac vlan ip time results) := by
  unfold endNotify
  dsimp only
  split_ifs
  · exact only_op trivial
  · exact .done _
  · exact only_op trivial
  · exact .done _
  · simp only [Session.macPort, pipeExecute, Prog.op_bind, Prog.done_bind]
    refine .op trivial fun port => .op ?_ fun _ => .bind ?_ fun _ => only_op trivial
    · intro c hc
      rcases List.mem_cons.mp hc with rfl | hc
      · exact hdel
      · obtain ⟨p, -, rfl⟩ := List.mem_map.mp (Option.toList_map .. ▸ hc)
        exact srem p
    · refine .op trivial fun sessions => only_each (fun session => ?_) sessions
      split
      · exact only_op trivial
      · exact .done _
  · exact .done _

/-! ## The ids of other objects -/

/-- The MAC whose sessions a call is about. -/
def Call.owner : Call → Value
  | .seen _ mac _ _ _ _ => mac
  | .ends _ mac _ _ _ => mac

def Cmd.KeepsId (f : String) : Cmd → Prop
  | .hset f' _ | .hdel f' => f' ≠ f
  | _ => True

theorem execute_idOf {f : String} {pipe : List Cmd} (h : ∀ c ∈ pipe, c.KeepsId f) (w : World) :
    (execute pipe w).2.sessionIds.lookup f = w.sessionIds.lookup f := by
  induction pipe generalizing w with
  | nil => rfl
  | cons c pipe ih =>
    have hc := h c List.mem_cons_self
    rw [execute_cons, ih fun c hc => h c (List.mem_cons_of_mem _ hc)]
    cases c with
    | hset | hdel => simp [Cmd.exec, Ne.symm hc]
    | _ => rfl

theorem idOf_of_issues {f : String} {α : Type} {p : Prog synapse α}
    (h : p.Only (Op.Issues (Cmd.KeepsId f))) (w : World) :
    (p.run handler w).2.sessionIds.lookup f = w.sessionIds.lookup f := by
  refine h.run (Q := fun u : World => u.sessionIds.lookup f = w.sessionIds.lookup f) ?_ rfl
  intro o u ho hu
  cases o with
  | execute pipe => exact (execute_idOf ho u).trans hu
  | _ => exact hu

/-- No object of `mac` has its id under `f`. -/
def Foreign (mac : Value) (f : String) : Prop := ∀ x : Obj, x.owner = mac → x.field ≠ f

theorem Ended.owner {mac vlan ip : Value} {x : Obj} (h : Ended w mac vlan ip x) :
    x.owner = mac := by
  cases x with
  | mac m => exact h.2
  | vlan m v => exact h.1
  | ip m v i => exact h.1

/-- `end` of a MAC's sessions leaves the ids of others alone. -/
theorem endSession_idOf (now : ℚ) {mac : Value} (vlan ip : Value) (time : Option ℚ) {f : String}
    (foreign : Foreign mac f) (w : World) :
    ((endSession now mac vlan ip time).run handler w).2.sessionIds.lookup f =
      w.sessionIds.lookup f := by
  by_cases h : ip = .none ∨ vlan ≠ .none
  · have kept : .hdel f ∉ endPipe w mac vlan ip := by
      rw [hdel_mem_endPipe]
      rintro ⟨x, ended, same⟩
      exact foreign x ended.owner same
    rw [endSession_run now h,
      idOf_of_issues (endNotify_issues _ _ _ _ _ _ trivial fun _ => trivial),
      execute_removes_sessionIds (removes_endPipe w mac vlan ip), if_neg kept]
  · obtain ⟨hi, hv⟩ : ip ≠ .none ∧ vlan = .none := by tauto
    rw [endSession_raise now hi hv]

theorem seenPort_idOf (now : ℚ) {mac : Value} (port : Option Port) {f : String}
    (foreign : Foreign mac f) (w : World) :
    ((seenPort now mac port).run handler w).2.sessionIds.lookup f = w.sessionIds.lookup f := by
  rw [seenPort_run]
  dsimp only
  split
  · exact endSession_idOf now .none .none none foreign w
  · rfl

/-- Every field that is rendered with a MAC is that of an object of this MAC. -/
theorem exists_field (mac vlan ip : Value) :
    ∃ o : Obj, o.owner = mac ∧ o.field = sessionIdsField mac vlan ip := by
  cases ip with
  | none => exact ⟨.vlan mac vlan, rfl, rfl⟩
  | int | str => exact ⟨.ip mac vlan _, rfl, rfl⟩

/-- The ids that `seen` stores are under fields of its MAC. -/
theorem idsPipe_fields {mac vlan ip : Value} {macAdded vlanAdded ipAdded : Bool} {localId : Nat}
    {c : Cmd} (hc : c ∈ idsPipe mac vlan ip macAdded vlanAdded ipAdded localId) :
    (∃ f, c = .hget f) ∨ ∃ o : Obj, o.owner = mac ∧ c = .hset o.field localId := by
  have field (v i : Value) : ∃ o : Obj, o.owner = mac ∧
      Cmd.hset (sessionIdsField mac v i) localId = .hset o.field localId := by
    obtain ⟨o, owner, same⟩ := exists_field mac v i
    exact ⟨o, owner, by rw [same]⟩
  unfold idsPipe at hc
  cases macAdded <;> cases vlanAdded <;> cases ipAdded <;> simp at hc <;>
    rcases hc with rfl | rfl | rfl <;> first | exact .inl ⟨_, rfl⟩ | exact .inr (field _ _)

theorem idsPipe_keepsId {mac : Value} (vlan ip : Value) (macAdded vlanAdded ipAdded : Bool)
    (localId : Nat) {f : String} (foreign : Foreign mac f) :
    ∀ c ∈ idsPipe mac vlan ip macAdded vlanAdded ipAdded localId, c.KeepsId f := by
  intro c hc
  obtain ⟨f', rfl⟩ | ⟨o, owner, rfl⟩ := idsPipe_fields hc
  · trivial
  · exact foreign o owner

/-- `seen` leaves the ids of the objects of other MACs alone. -/
theorem seen_idOf (now : ℚ) {mac : Value} (vlan : Value) (port : Option Port) (ip : Value)
    (time : Option ℚ) {f : String} (foreign : Foreign mac f) (w : World) :
    ((seen now mac vlan port ip time).run handler w).2.sessionIds.lookup f =
      w.sessionIds.lookup f := by
  simp only [seen, seenTouch, Prog.run_bind, run_pipeExecute]
  rw [idOf_of_issues, (touchPipe_rest ..).2, seenPort_idOf now port foreign]
  refine seenAllocate_issues _ _ _ _ _ _ _ _ _ _ (fun id => ?_) ?_
  · exact idsPipe_keepsId vlan ip _ _ _ id foreign
  · rintro c ⟨newPort, -, hc⟩
    simp only [List.mem_cons, List.not_mem_nil, or_false] at hc
    rcases hc with rfl | rfl | rfl <;> trivial

/-- A call changes no id but those of the objects of its MAC. -/
theorem step_idOf {c : Call} {f : String} (foreign : Foreign c.owner f) (w : World) :
    (w.step c).sessionIds.lookup f = w.sessionIds.lookup f := by
  cases c with
  | seen now mac vlan port ip time =>
    have kept := @seen_idOf now mac vlan port ip time f foreign w
    simpa [World.step, Call.prog] using kept
  | ends now mac vlan ip time =>
    have kept := @endSession_idOf now mac vlan ip time f foreign w
    simpa [World.step, Call.prog] using kept

end ElanAgent.Session
