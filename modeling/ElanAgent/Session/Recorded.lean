import ElanAgent.Session.Indexes
import ElanAgent.Session.Scores

/-!
# The port that `seen` records

In any store, `seen` leaves the MAC on a port of the device that it was given. When this is
not the device on which the MAC was, the session of the MAC is ended first, so that the MAC
is new to the rest of the call.
-/

namespace ElanAgent.Session

open Atomic Redis Hierarchy

variable {w : World}

theorem seenNotify_says (now : ℚ) (mac vlan : Value) (port : Option Port) (ip : Value) (time : ℚ)
    (macAdded vlanAdded ipAdded : Bool) (localId : Nat) (macLocalId vlanLocalId : Option Nat)
    (w : World) :
    ∃ messages, ((seenNotify now mac vlan port ip time macAdded vlanAdded ipAdded localId
      macLocalId vlanLocalId).run handler w).2 = w.say messages := by
  unfold seenNotify
  split_ifs
  · exact ⟨_, rfl⟩
  · exact ⟨_, rfl⟩
  · exact ⟨_, rfl⟩
  · exact ⟨[], by simp [World.say]⟩

theorem seenStore_portOf (now : ℚ) (mac vlan : Value) (port oldPort : Option Port) (ip : Value)
    (time : ℚ) (macAdded vlanAdded ipAdded : Bool) (localId : Nat) (w : World) :
    ((seenStore now mac vlan port oldPort ip time macAdded vlanAdded ipAdded localId).run
      handler w).2.portOf mac = (newPort port oldPort).or (w.portOf mac) := by
  simp only [seenStore, Prog.run_bind, run_pipeExecute, Prog.run_pure]
  have record (macLocalId : Option Nat) := seenRecord_run mac port oldPort macAdded
    (fun _ => macLocalId) (execute (idsPipe mac vlan ip macAdded vlanAdded ipAdded localId) w).2
  have ids := (idsPipe_rest mac vlan ip macAdded vlanAdded ipAdded localId w).1
  rw [record]
  obtain ⟨messages, said⟩ := seenNotify_says now mac vlan port ip time macAdded vlanAdded ipAdded
    localId _ _ _
  rw [said]
  change (World.recordPort _ mac (newPort port oldPort)).macPort.lookup mac.format = _
  rw [recordPort_macPort, if_pos rfl, ids.macPort]
  rfl

theorem seenAllocate_portOf (now : ℚ) (mac vlan : Value) (port oldPort : Option Port) (ip : Value)
    (time : ℚ) (macAdded vlanAdded ipAdded : Bool) (w : World) :
    ((seenAllocate now mac vlan port oldPort ip time macAdded vlanAdded ipAdded).run
      handler w).2.portOf mac = (newPort port oldPort).or (w.portOf mac) := by
  unfold seenAllocate
  split
  · simp only [Prog.run_bind, run_getUniqueId]
    exact seenStore_portOf ..
  · exact seenStore_portOf ..

/-- `seen` records the port that it goes on with, unless this is the recorded one. -/
theorem seen_portOf (now : ℚ) (mac vlan : Value) (port : Port) (ip : Value) (time : Option ℚ)
    (w : World) :
    ((seen now mac vlan (some port) ip time).run handler w).2.portOf mac =
      w.merge mac (some port) := by
  simp only [seen, seenTouch, Prog.run_bind, run_pipeExecute, seenPort_run, reduceCtorEq, if_false]
  rw [seenAllocate_portOf]
  by_cases same : w.merge mac (some port) = w.portOf mac
  · have stays : Moves w mac (some port) = false := by
      unfold Moves
      cases hold : w.portOf mac with
      | none => rfl
      | some old =>
        by_contra changed
        simp only [Bool.not_eq_false] at changed
        simp only [World.merge, hold, changed, if_true, Option.map_some, Option.some.injEq] at same
        rw [same] at changed
        simp [Port.changed] at changed
    rw [newPort, if_pos same, stays, same]
    change (execute _ w).2.macPort.lookup _ = w.macPort.lookup _
    rw [(touchPipe_rest mac vlan ip (time.getD now) w).1.macPort]
  · rw [newPort, if_neg same]
    rfl

theorem merge_localId (mac : Value) (port : Port) (w : World) :
    ∃ q, w.merge mac (some port) = some q ∧ q.localId = port.localId := by
  refine ⟨_, rfl, ?_⟩
  dsimp only
  split
  · rfl
  · split <;> rfl

/-- `seen` leaves the MAC on the device that it was given. -/
theorem seen_localId (now : ℚ) (mac vlan : Value) (port : Port) (ip : Value) (time : Option ℚ)
    (w : World) :
    ∃ q, (w.step (.seen now mac vlan (some port) ip time)).portOf mac = some q ∧
      q.localId = port.localId := by
  obtain ⟨q, merged, same⟩ := merge_localId mac port w
  refine ⟨q, ?_, same⟩
  rw [← merged, ← seen_portOf now mac vlan port ip time w]
  simp [World.step, Call.prog]

theorem seenAllocate_macAdded (now : ℚ) (mac vlan : Value) (port oldPort : Option Port) (ip : Value)
    (time : ℚ) (macAdded vlanAdded ipAdded : Bool) (w : World) :
    ((seenAllocate now mac vlan port oldPort ip time macAdded vlanAdded ipAdded).run
      handler w).1.macAdded = macAdded := by
  unfold seenAllocate
  split <;> simp [seenStore]

/-- `seen` tells that the MAC is new if it had no session once that on another port has been
ended. -/
theorem seen_macAdded (now : ℚ) (mac vlan : Value) (port : Option Port) (ip : Value)
    (time : Option ℚ) (w : World) :
    ((seen now mac vlan port ip time).run handler w).1.macAdded =
      decide (((seenPort now mac port).run handler w).2.seenAt (.mac mac) = none) := by
  simp only [seen, seenTouch, Prog.run_bind, run_pipeExecute]
  rw [seenAllocate_macAdded, (touchPipe_replies mac vlan ip _ _).1]
  simp [World.isNew, mac_le_objOf]

/-- The MAC is new to `seen` if it was on another device. -/
theorem seen_moved (now : ℚ) (mac vlan : Value) {port old : Port} (ip : Value) (time : Option ℚ)
    (hold : w.portOf mac = some old) (moved : port.localId ≠ old.localId) :
    ((seen now mac vlan (some port) ip time).run handler w).1.macAdded = true := by
  have moves : Moves w mac (some port) = true := by
    simp [Moves, hold, Port.changed, moved]
  have ended : Ended w mac .none .none (.mac mac) := ⟨rfl, rfl⟩
  rw [seen_macAdded, seenPort_run]
  simp only [moves, if_true, decide_eq_true_eq]
  rw [endSession_score now (.inl rfl), if_pos (zrem_mem_endPipe.mpr ended)]

end ElanAgent.Session
