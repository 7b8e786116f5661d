import Mathlib.Data.List.Basic

/-!
# Policies with configurable fail-over

A section of a policy of FreeRADIUS is a list of statements, each of which ends with a return
code. For every code a statement has an action: to return from the section with the code, or a
priority, and a section that is run to its end has the code of the highest priority, the
first of them. A condition may ask for the code of the statement before it.

What the modules do, what an update writes and what a condition reads is left open.
-/

namespace ElanAgent.Failover

/-- The return codes of modules. -/
inductive Code where
  | reject
  | fail
  | ok
  | handled
  | invalid
  | userlock
  | notfound
  | noop
  | updated
  deriving DecidableEq, Repr

inductive Action where
  | leave
  | priority (n : ℕ)
  deriving DecidableEq, Repr

/-- A statement, over modules `M`, updates `U` and conditions `Q`. -/
inductive Statement (M U Q : Type) where
  | call (module : M) (actions : Code → Action)
  | update (u : U)
  | ifThen (condition : Q) (body : List (Statement M U Q))
  | elsif (condition : Q) (body : List (Statement M U Q))
  | group (body : List (Statement M U Q))

/-- What the parts of a policy mean for a request `ρ`, and the actions of the statements that
give none. -/
structure Semantics (M U Q ρ : Type) where
  call : M → ρ → Code × ρ
  update : U → ρ → ρ
  holds : Q → Code → ρ → Bool
  actions : Code → Action

/-- The code of the highest priority so far. -/
structure Standing where
  code : Code
  priority : ℕ
  deriving DecidableEq, Repr

/-- Another code, with its priority. -/
def Standing.weigh (s : Standing) (c : Code) (n : ℕ) : Standing :=
  if s.priority < n then ⟨c, n⟩ else s

theorem Standing.le_weigh (s : Standing) (c : Code) (n : ℕ) :
    s.priority ≤ (s.weigh c n).priority ∧ n ≤ (s.weigh c n).priority := by
  unfold Standing.weigh
  split
  · rename_i low
    exact ⟨Nat.le_of_lt low, Nat.le_refl n⟩
  · omega

theorem Standing.weigh_of_le {s : Standing} {n : ℕ} (h : n ≤ s.priority) (c : Code) :
    s.weigh c n = s := if_neg (by omega)

/-- A section that is being run: the code of its last statement, where it stands, and whether
the `if` before was taken. -/
structure Frame where
  last : Option Code
  standing : Standing
  taken : Bool
  deriving DecidableEq, Repr

/-- A section is left with a code, or goes on. -/
inductive Outcome where
  | left (c : Code)
  | next (f : Frame)
  deriving DecidableEq, Repr

namespace Frame

/-- A section inside another one. -/
def enter (f : Frame) : Frame := ⟨none, ⟨f.standing.code, 0⟩, false⟩

/-- A statement has ended with a code. -/
def settle (f : Frame) (c : Code) (taken : Bool) : Action → Outcome
  | .leave => .left c
  | .priority n => .next ⟨some c, f.standing.weigh c n, taken⟩

/-- The code that a condition may ask for. -/
def code (f : Frame) : Code := f.last.getD f.standing.code

end Frame

/-- The code of a section that has ended. -/
def Outcome.code : Outcome → Code
  | .left c => c
  | .next f => f.standing.code

variable {M U Q ρ : Type}

mutual

@[grind =]
def Statement.run (sem : Semantics M U Q ρ) : Statement M U Q → Frame → ρ → Outcome × ρ
  | .call module actions, f, r =>
    let (c, r) := sem.call module r
    (f.settle c false (actions c), r)
  | .update u, f, r => (f.settle .noop false (sem.actions .noop), sem.update u r)
  | .ifThen condition body, f, r =>
    if sem.holds condition f.code r then
      let (inner, r) := runAll sem body f.enter r
      (f.settle inner.code true (sem.actions inner.code), r)
    else (.next { f with taken := false }, r)
  | .elsif condition body, f, r =>
    if f.taken then (.next f, r)
    else if sem.holds condition f.code r then
      let (inner, r) := runAll sem body f.enter r
      (f.settle inner.code true (sem.actions inner.code), r)
    else (.next f, r)
  | .group body, f, r =>
    let (inner, r) := runAll sem body f.enter r
    (f.settle inner.code false (sem.actions inner.code), r)

/-- Run statements one after the other, until one of them returns from the section. -/
@[grind =]
def runAll (sem : Semantics M U Q ρ) : List (Statement M U Q) → Frame → ρ → Outcome × ρ
  | [], f, r => (.next f, r)
  | s :: rest, f, r =>
    match s.run sem f r with
    | (.next f, r) => runAll sem rest f r
    | (.left c, r) => (.left c, r)

end

/-- A section of its own, which is `noop` before its first statement. -/
def runSection (sem : Semantics M U Q ρ) (body : List (Statement M U Q)) (r : ρ) : Code × ρ :=
  let (inner, r) := runAll sem body ⟨none, ⟨.noop, 0⟩, false⟩ r
  (inner.code, r)

section Laws

variable {sem : Semantics M U Q ρ} {f : Frame} {r r' : ρ}

theorem runAll_nil (sem : Semantics M U Q ρ) (f : Frame) (r : ρ) :
    runAll sem [] f r = (.next f, r) := by rw [runAll]

theorem runAll_cons_next {s : Statement M U Q} {f' : Frame} (h : s.run sem f r = (.next f', r'))
    (rest : List (Statement M U Q)) : runAll sem (s :: rest) f r = runAll sem rest f' r' := by
  rw [runAll, h]

theorem runAll_cons_left {s : Statement M U Q} {c : Code} (h : s.run sem f r = (.left c, r'))
    (rest : List (Statement M U Q)) : runAll sem (s :: rest) f r = (.left c, r') := by
  rw [runAll, h]

/-- An update ends with `noop`. -/
theorem runAll_update {n : ℕ} (action : sem.actions .noop = .priority n) (u : U)
    (rest : List (Statement M U Q)) : runAll sem (.update u :: rest) f r =
      runAll sem rest ⟨some .noop, f.standing.weigh .noop n, false⟩ (sem.update u r) := by
  refine runAll_cons_next ?_ rest
  rw [Statement.run, action]
  rfl

section Call

variable {module : M} {actions : Code → Action} {c : Code}

theorem runAll_call_next {n : ℕ} (called : sem.call module r = (c, r'))
    (action : actions c = .priority n) (rest : List (Statement M U Q)) :
    runAll sem (.call module actions :: rest) f r =
      runAll sem rest ⟨some c, f.standing.weigh c n, false⟩ r' := by
  refine runAll_cons_next ?_ rest
  rw [Statement.run, called]
  simp only [action]
  rfl

theorem runAll_call_left (called : sem.call module r = (c, r')) (action : actions c = .leave)
    (rest : List (Statement M U Q)) :
    runAll sem (.call module actions :: rest) f r = (.left c, r') := by
  refine runAll_cons_left ?_ rest
  rw [Statement.run, called]
  simp only [action]
  rfl

end Call

section Sections

variable {condition : Q} {body : List (Statement M U Q)} {inner : Outcome}

theorem runAll_ifThen_false (h : sem.holds condition f.code r = false)
    (rest : List (Statement M U Q)) : runAll sem (.ifThen condition body :: rest) f r =
      runAll sem rest { f with taken := false } r := by
  refine runAll_cons_next ?_ rest
  rw [Statement.run, h]
  rfl

theorem run_ifThen (h : sem.holds condition f.code r = true)
    (ran : runAll sem body f.enter r = (inner, r')) :
    (Statement.ifThen condition body).run sem f r =
      (f.settle inner.code true (sem.actions inner.code), r') := by
  rw [Statement.run, h, ran]
  rfl

theorem runAll_elsif_taken (h : f.taken = true) (rest : List (Statement M U Q)) :
    runAll sem (.elsif condition body :: rest) f r = runAll sem rest f r := by
  refine runAll_cons_next ?_ rest
  rw [Statement.run, h]
  rfl

theorem runAll_elsif_false (h : sem.holds condition f.code r = false)
    (rest : List (Statement M U Q)) :
    runAll sem (.elsif condition body :: rest) f r = runAll sem rest f r := by
  refine runAll_cons_next ?_ rest
  rw [Statement.run, h]
  simp

theorem run_elsif (untaken : f.taken = false) (h : sem.holds condition f.code r = true)
    (ran : runAll sem body f.enter r = (inner, r')) :
    (Statement.elsif condition body).run sem f r =
      (f.settle inner.code true (sem.actions inner.code), r') := by
  rw [Statement.run, untaken, h, ran]
  rfl

theorem run_group (ran : runAll sem body f.enter r = (inner, r')) :
    (Statement.group body : Statement M U Q).run sem f r =
      (f.settle inner.code false (sem.actions inner.code), r') := by
  rw [Statement.run, ran]

theorem runAll_group_next {n : ℕ} (ran : runAll sem body f.enter r = (inner, r'))
    (action : sem.actions inner.code = .priority n) (rest : List (Statement M U Q)) :
    runAll sem (.group body :: rest) f r =
      runAll sem rest ⟨some inner.code, f.standing.weigh inner.code n, false⟩ r' := by
  refine runAll_cons_next ?_ rest
  rw [run_group ran, action]
  rfl

theorem runAll_group_left (ran : runAll sem body f.enter r = (inner, r'))
    (action : sem.actions inner.code = .leave) (rest : List (Statement M U Q)) :
    runAll sem (.group body :: rest) f r = (.left inner.code, r') := by
  refine runAll_cons_left ?_ rest
  rw [run_group ran, action]
  rfl

/-- A group that is all of a section leaves its code to it. -/
theorem runAll_group_alone (counts : ∀ c n, sem.actions c = .priority n → 0 < n)
    (ran : runAll sem body f.enter r = (inner, r')) :
    ∃ o, runAll sem [.group body] f.enter r = (o, r') ∧ o.code = inner.code := by
  have ran' : runAll sem body f.enter.enter r = (inner, r') := ran
  cases action : sem.actions inner.code with
  | leave => exact ⟨.left inner.code, runAll_group_left ran' action [], rfl⟩
  | priority n =>
    refine ⟨_, (runAll_group_next ran' action []).trans (runAll_nil _ _ _), ?_⟩
    have low : f.enter.standing.priority < n := counts _ n action
    simp [Standing.weigh, low, Outcome.code]

end Sections

end Laws

end ElanAgent.Failover
