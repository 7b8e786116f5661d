import Mathlib.Logic.Function.Basic
import Mathlib.Data.List.Count

/-!
# Pools of machines that may loop

A thread of `Atomic` is a tree of operations, so it stops on every branch. Here a thread is
a local state and a step function, which may go round a loop for as long as the others
disturb it. `Pool.follow_induction` is the invariant rule; `Pool.follow_returned` says that
a thread which moves often enough returns, where a measure of the pool decreases when it
moves and never increases when another thread does.
-/

namespace ElanAgent.Machines

/-- One atomic step of a thread: nothing when the thread has returned. -/
abbrev Machine (σ κ : Type) := σ → κ → Option (σ × κ)

/-- Threads over a shared state. -/
structure Pool (σ κ ι : Type) where
  state : σ
  threads : ι → κ

variable {σ κ ι : Type} [DecidableEq ι] {m : Machine σ κ}

/-- Let thread `i` take its next step, if it has not returned. -/
def Pool.move (m : Machine σ κ) (p : Pool σ κ ι) (i : ι) : Pool σ κ ι :=
  match m p.state (p.threads i) with
  | none => p
  | some (s, k) => ⟨s, Function.update p.threads i k⟩

/-- Follow a schedule, one step for each entry. -/
def Pool.follow (m : Machine σ κ) (p : Pool σ κ ι) (schedule : List ι) : Pool σ κ ι :=
  schedule.foldl (Pool.move m) p

@[simp] theorem Pool.follow_nil (p : Pool σ κ ι) : p.follow m [] = p := rfl

@[simp] theorem Pool.follow_cons (p : Pool σ κ ι) (i : ι) (schedule : List ι) :
    p.follow m (i :: schedule) = (p.move m i).follow m schedule := rfl

theorem Pool.move_of_none {p : Pool σ κ ι} {i : ι} (h : m p.state (p.threads i) = none) :
    p.move m i = p := by
  simp only [Pool.move, h]

theorem Pool.move_of_some {p : Pool σ κ ι} {i : ι} {s : σ} {k : κ}
    (h : m p.state (p.threads i) = some (s, k)) :
    p.move m i = ⟨s, Function.update p.threads i k⟩ := by
  simp only [Pool.move, h]

/-- What every step keeps, every schedule keeps. -/
theorem Pool.follow_induction {P : Pool σ κ ι → Prop}
    (step : ∀ p i s k, P p → m p.state (p.threads i) = some (s, k) →
      P ⟨s, Function.update p.threads i k⟩)
    {p : Pool σ κ ι} (start : P p) (schedule : List ι) : P (p.follow m schedule) := by
  induction schedule generalizing p with
  | nil => exact start
  | cons i schedule ih =>
    rw [Pool.follow_cons]
    cases h : m p.state (p.threads i) with
    | none =>
      rw [Pool.move_of_none h]
      exact ih start
    | some next =>
      rw [Pool.move_of_some h]
      exact ih (step p i next.1 next.2 start h)

/-- A thread that has returned stays where it is. -/
theorem Pool.follow_threads {p : Pool σ κ ι} {i : ι} (h : ∀ s, m s (p.threads i) = none)
    (schedule : List ι) : (p.follow m schedule).threads i = p.threads i := by
  refine Pool.follow_induction (P := fun q => q.threads i = p.threads i) ?_ rfl schedule
  intro q j s k same moved
  have other : i ≠ j := by
    rintro rfl
    rw [same, h] at moved
    cases moved
  exact (Function.update_of_ne other ..).trans same

/-- A thread returns once it has moved as often as the measure says, where the measure
decreases when it moves and does not increase when another thread moves. -/
theorem Pool.follow_returned {P : Pool σ κ ι → Prop} {μ : Pool σ κ ι → Nat} {i : ι}
    (step : ∀ p j s k, P p → m p.state (p.threads j) = some (s, k) →
      P ⟨s, Function.update p.threads j k⟩)
    (mine : ∀ p s k, P p → m p.state (p.threads i) = some (s, k) →
      μ ⟨s, Function.update p.threads i k⟩ < μ p)
    (others : ∀ p j s k, P p → j ≠ i → m p.state (p.threads j) = some (s, k) →
      μ ⟨s, Function.update p.threads j k⟩ ≤ μ p)
    (returned : ∀ k s t, m s k = none → m t k = none)
    {p : Pool σ κ ι} (start : P p) {schedule : List ι} (enough : μ p ≤ schedule.count i) :
    ∀ s, m s ((p.follow m schedule).threads i) = none := by
  induction schedule generalizing p with
  | nil =>
    cases h : m p.state (p.threads i) with
    | none => exact fun s => returned _ _ _ h
    | some next =>
      have := mine p next.1 next.2 start h
      simp only [List.count_nil] at enough
      omega
  | cons j schedule ih =>
    rw [List.count_cons] at enough
    rw [Pool.follow_cons]
    cases h : m p.state (p.threads j) with
    | none =>
      rw [Pool.move_of_none h]
      by_cases same : j = i
      · subst j
        have stopped := fun s => returned _ _ s h
        rwa [Pool.follow_threads stopped]
      · exact ih start (by simpa [same] using enough)
    | some next =>
      rw [Pool.move_of_some h]
      refine ih (step p j next.1 next.2 start h) ?_
      by_cases same : j = i
      · subst j
        have := mine p next.1 next.2 start h
        simp only [beq_self_eq_true, if_true] at enough
        omega
      · have := others p j next.1 next.2 start same h
        simp only [beq_eq_false_iff_ne.mpr same] at enough
        exact Nat.le_trans this (by simpa using enough)

end ElanAgent.Machines
