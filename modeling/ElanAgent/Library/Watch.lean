import ElanAgent.Library.Atomic

/-!
# What one thread of a pool has seen

A thread is deterministic: the states in which it has moved determine what it has done, and
what it does next, whatever the other threads do between its moves.
-/

namespace ElanAgent.Atomic

variable {I : Interface} {σ α ι : Type} [DecidableEq ι]
variable {h : Handler I σ} {G : Config I σ α ι → ι → Prop}

/-- What is left of a program once it has issued an operation in each of the given states. -/
def Prog.after (h : Handler I σ) : Prog I α → List σ → Prog I α
  | p, [] => p
  | .done a, _ :: _ => .done a
  | .op o next, s :: seen => (next (h o s).1).after h seen

@[simp] theorem Prog.after_nil (p : Prog I α) : p.after h [] = p := by
  cases p <;> rfl

@[simp] theorem Prog.after_done (a : α) (seen : List σ) :
    (Prog.done a : Prog I α).after h seen = .done a := by
  cases seen <;> rfl

@[simp] theorem Prog.after_op_cons (o : I.Op) (next : I.Reply o → Prog I α) (s : σ)
    (seen : List σ) : (Prog.op o next).after h (s :: seen) = (next (h o s).1).after h seen := rfl

theorem Prog.after_append (p : Prog I α) (seen rest : List σ) :
    p.after h (seen ++ rest) = (p.after h seen).after h rest := by
  induction seen generalizing p with
  | nil => rw [List.nil_append, after_nil]
  | cons s seen ih =>
    cases p with
    | done a => rw [after_done, after_done, after_done]
    | op o next => exact ih _

/-- A guarded run, and the states in which thread `i` has moved in it, oldest first. -/
inductive Watched (h : Handler I σ) (G : Config I σ α ι → ι → Prop) (i : ι) :
    Config I σ α ι → List σ → Config I σ α ι → Prop where
  | refl (c) : Watched h G i c [] c
  | moves {c d e seen} : Watched h G i c seen d → G d i → Step h d i e →
      Watched h G i c (seen ++ [d.state]) e
  | waits {c d e seen j} : Watched h G i c seen d → j ≠ i → G d j → Step h d j e →
      Watched h G i c seen e

theorem Run.watched {c d : Config I σ α ι} (run : Run h G c d) (i : ι) :
    ∃ seen, Watched h G i c seen d := by
  induction run with
  | refl => exact ⟨[], .refl _⟩
  | @snoc d e j _ guarded step ih =>
    obtain ⟨seen, watched⟩ := ih
    by_cases same : j = i
    · subst j
      exact ⟨_, watched.moves guarded step⟩
    · exact ⟨_, watched.waits same guarded step⟩

theorem Watched.threads {i : ι} {c d : Config I σ α ι} {seen : List σ}
    (watched : Watched h G i c seen d) : d.threads i = (c.threads i).after h seen := by
  induction watched with
  | refl => rw [Prog.after_nil]
  | moves _ _ step ih =>
    cases step with
    | mk hi =>
      dsimp only at ih
      rw [Prog.after_append, ← ih, hi, Prog.after_op_cons, Prog.after_nil]
      exact Function.update_self ..
  | waits _ other _ step ih =>
    cases step with
    | mk hi => exact (Function.update_of_ne other.symm ..).trans ih

end ElanAgent.Atomic
