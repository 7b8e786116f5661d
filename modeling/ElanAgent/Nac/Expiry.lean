import ElanAgent.Nac.Operations

/-!
# The sorted set of expiries

The sorted set that `check_expired_authz` reads is written beside the hash of the
authorizations by two pipelines, from several processes that no lock orders. The two
stores agree in every state that any interleaving of the calls reaches, because no other
operation writes either of them.
-/

namespace ElanAgent.Nac

open Atomic Redis RedisMacAuthorization

/-- The sorted set has the MACs of the hash, each with the expiry of its authorization. -/
structure World.Agrees (w : World) : Prop where
  members : ∀ mac, mac ∈ w.expiry ↔ mac ∈ w.sessions
  scores : ∀ mac data, w.sessions.lookup mac = some data →
    w.expiry.lookup mac = some (ofSerialized data).score

theorem World.Agrees.of_eq {w w' : World} (hw : w.Agrees) (expiry : w'.expiry = w.expiry)
    (sessions : w'.sessions = w.sessions) : w'.Agrees := by
  obtain ⟨members, scores⟩ := hw
  rw [← expiry, ← sessions] at members scores
  exact ⟨members, scores⟩

/-- The operation is not a pipeline, or one of the two that write both stores. -/
inductive Op.Paired : Op → Prop
  | save (authz : RedisMacAuthorization) : Paired (.execute authz.savePipe)
  | delete (mac : String) : Paired (.execute (deletePipe mac))
  | other {o : Op} (h : ∀ pipe, o ≠ .execute pipe) : Paired o

theorem agrees_save {w : World} (hw : w.Agrees) (authz : RedisMacAuthorization) :
    (execute authz.savePipe w).2.Agrees := by
  constructor
  · intro mac
    simp only [savePipe, execute, Cmd.exec, AList.mem_insert, hw.members]
  · intro mac data
    simp only [savePipe, execute, Cmd.exec, lookup_insert_ite]
    split
    · rintro ⟨⟩
      rw [ofSerialized_serialize]
    · exact hw.scores mac data

theorem agrees_delete {w : World} (hw : w.Agrees) (mac : String) :
    (execute (deletePipe mac) w).2.Agrees := by
  constructor
  · intro mac'
    simp only [deletePipe, execute, Cmd.exec, AList.mem_erase, hw.members]
  · intro mac' data
    simp only [deletePipe, execute, Cmd.exec, lookup_erase_ite]
    split
    · rintro ⟨⟩
    · exact hw.scores mac' data

theorem agrees_handler {o : Op} {w : World} (paired : o.Paired) (hw : w.Agrees) :
    (handler o w).2.Agrees := by
  cases paired with
  | save authz => exact agrees_save hw authz
  | delete mac => exact agrees_delete hw mac
  | other h =>
    cases o with
    | execute pipe => exact absurd rfl (h pipe)
    | _ => exact hw.of_eq rfl rfl

theorem permits_paired : Permits Op.Paired where
  save := .save
  delete := .delete
  plain o ho := .other fun pipe h => by
    subst h
    exact ho

/-! ## Every interleaving -/

/-- Whatever the processes run, the sorted set agrees with the hash in every state they
reach. -/
theorem expiry_agrees {ι : Type} [DecidableEq ι] {w : World} (hw : w.Agrees) (tasks : ι → Task)
    {d : Config agent World (Except Error Unit) ι}
    (run : Run handler (fun _ _ => True) ⟨w, fun i => (tasks i).call.run⟩ d) : d.state.Agrees :=
  (run.only (fun _ _ => agrees_handler) (fun i => only_call permits_paired
    (fun _ _ => .other (by simp)) (tasks i)) hw).1

theorem agrees_empty (answers : Nat → Option NetworkAssignments) : (World.empty answers).Agrees :=
  ⟨fun _ => Iff.rfl, fun _ _ h => nomatch h⟩

/-- Two calls for one device, each of which stores an authorization. -/
theorem expiry_agrees_twoChecks :
    (Config.follow handler
      ⟨World.empty fun n => some (.granted (onVlan (if n = 0 then "eth1.10" else "eth1.20"))),
        fun _ : Fin 2 => (Task.checkAuthz 0 "00:00:00:00:00:01" none overridden).call.run⟩
      [0, 1, 0, 1, 0, 1, 0, 1, 0, 1, 1, 1, 0, 0]).state.Agrees :=
  expiry_agrees (agrees_empty _) (fun _ => .checkAuthz 0 "00:00:00:00:00:01" none overridden)
    (Config.follow_run (Config.guarded_true _ _))

end ElanAgent.Nac
