import Mathlib.Data.Option.Basic
import Mathlib.Tactic.Common

/-!
# Following a partial function to its end

`Leads next n a b` says that `n` steps of a partial function lead from `a` to `b`, and
`Ends` that there is none after `b`. `chase` looks for the end with a bounded number of
calls, as a recursive program does. It finds the end if, and only if, the bound exceeds
the number of steps; on a cycle no bound suffices.
-/

namespace ElanAgent.Chase

variable {α : Type*} {next : α → Option α} {n k : ℕ} {a b c : α}

/-- `n` steps lead from `a` to `b`. -/
inductive Leads (next : α → Option α) : ℕ → α → α → Prop
  | refl (a : α) : Leads next 0 a a
  | step {n : ℕ} {a b c : α} (h : next a = some b) (rest : Leads next n b c) :
      Leads next (n + 1) a c

/-- `n` steps lead from `a` to `b`, and no further. -/
def Ends (next : α → Option α) (n : ℕ) (a b : α) : Prop := Leads next n a b ∧ next b = none

/-- The steps from `a` come to a cycle. -/
def Cycles (next : α → Option α) (a : α) : Prop :=
  ∃ n k b, Leads next n a b ∧ Leads next (k + 1) b b

/-- The end of the steps from `a`, if `frames` calls are enough to find it. -/
def chase (next : α → Option α) : ℕ → α → Option α
  | 0, _ => none
  | frames + 1, a =>
    match next a with
    | none => some a
    | some b => chase next frames b

theorem Leads.trans (hab : Leads next n a b) (hbc : Leads next k b c) :
    Leads next (k + n) a c := by
  induction hab with
  | refl => exact hbc
  | step h _ ih => exact .step h (ih hbc)

theorem Leads.eq_or_step (leads : Leads next n a b) : n = 0 ∧ b = a ∨ ∃ c, next c = some b := by
  induction leads with
  | refl => exact .inl ⟨rfl, rfl⟩
  | step h _ ih =>
    rcases ih with ⟨-, rfl⟩ | last
    · exact .inr ⟨_, h⟩
    · exact .inr last

/-- Steps that end pass through whatever the same start leads to. -/
theorem Ends.through (ends : Ends next n a b) (leads : Leads next k a c) :
    ∃ m, n = m + k ∧ Ends next m c b := by
  induction leads generalizing n with
  | refl => exact ⟨n, rfl, ends⟩
  | step h _ ih =>
    obtain ⟨leads, last⟩ := ends
    cases leads with
    | refl => cases h.symm.trans last
    | step h' rest =>
      obtain rfl := Option.some.inj (h.symm.trans h')
      obtain ⟨m, rfl, ends⟩ := ih ⟨rest, last⟩
      exact ⟨m, rfl, ends⟩

theorem Ends.not_cycles (ends : Ends next n a b) : ¬Cycles next a := by
  rintro ⟨m, k, c, leads, cycle⟩
  obtain ⟨left, -, ends⟩ := ends.through leads
  -- going once around the cycle takes one off what is left
  induction left using Nat.strongRecOn with
  | ind left ih =>
    obtain ⟨less, rfl, sooner⟩ := ends.through cycle
    exact ih less (by omega) sooner

theorem chase_eq_some {frames : ℕ} :
    chase next frames a = some b ↔ ∃ n < frames, Ends next n a b := by
  induction frames generalizing a with
  | zero => simp [chase]
  | succ frames ih =>
    cases h : next a with
    | none =>
      simp only [chase, h, Option.some.injEq]
      constructor
      · rintro rfl
        exact ⟨0, Nat.succ_pos _, .refl _, h⟩
      · rintro ⟨n, -, leads, -⟩
        cases leads with
        | refl => rfl
        | step h' => cases h.symm.trans h'
    | some c =>
      simp only [chase, h, ih]
      constructor
      · rintro ⟨n, less, leads, last⟩
        exact ⟨n + 1, Nat.succ_lt_succ less, .step h leads, last⟩
      · rintro ⟨n, less, leads, last⟩
        cases leads with
        | refl => cases h.symm.trans last
        | step h' rest =>
          obtain rfl := Option.some.inj (h.symm.trans h')
          exact ⟨_, Nat.lt_of_succ_lt_succ less, rest, last⟩

theorem chase_eq_none {frames : ℕ} :
    chase next frames a = none ↔ ¬∃ n < frames, ∃ b, Ends next n a b := by
  rw [← not_iff_not, not_not, ← Ne, Option.ne_none_iff_exists']
  simp only [chase_eq_some]
  exact ⟨fun ⟨b, n, less, ends⟩ => ⟨n, less, b, ends⟩, fun ⟨n, less, b, ends⟩ => ⟨b, n, less, ends⟩⟩

end ElanAgent.Chase
