import Mathlib.Logic.Basic

/-!
# Calls that change a state and may raise

A call that raises has changed the state up to there, and whoever catches the exception
goes on from what it left. `exec` runs a call, and the equations of the primitives let
`simp` follow it from left to right.
-/

namespace ElanAgent

/-- A call that returns an `α` or raises an `ε`, and changes a state `σ` either way. -/
abbrev Raising (ε σ : Type) := ExceptT ε (StateM σ)

namespace Raising

variable {ε σ α β : Type}

/-- The outcome of a call, and the state that it leaves. -/
def exec (x : Raising ε σ α) (s : σ) : Except ε α × σ := x.run.run s

variable {x : Raising ε σ α} {f : α → Raising ε σ β} {s t : σ}

@[simp] theorem exec_pure (a : α) (s : σ) :
    exec (pure a : Raising ε σ α) s = (.ok a, s) := rfl

@[simp] theorem exec_throw (e : ε) (s : σ) :
    exec (throw e : Raising ε σ α) s = (.error e, s) := rfl

@[simp] theorem exec_modify (g : σ → σ) (s : σ) :
    exec (modify g : Raising ε σ Unit) s = (.ok (), g s) := rfl

@[simp] theorem exec_set (s t : σ) : exec (set t : Raising ε σ Unit) s = (.ok (), t) := rfl

theorem exec_bind (x : Raising ε σ α) (f : α → Raising ε σ β) (s : σ) :
    exec (x >>= f) s = match exec x s with
      | (.ok a, t) => exec (f a) t
      | (.error e, t) => (.error e, t) := by
  unfold exec
  rw [ExceptT.run_bind, StateT.run_bind]
  rcases h : x.run.run s with ⟨_ | _, _⟩ <;> rfl

@[simp] theorem exec_map (g : α → β) (x : Raising ε σ α) (s : σ) :
    exec (g <$> x) s = ((exec x s).1.map g, (exec x s).2) := by
  rw [map_eq_pure_bind, exec_bind]
  rcases exec x s with ⟨_ | _, _⟩ <;> rfl

theorem exec_bind_ok {a : α} (h : exec x s = (.ok a, t)) :
    exec (x >>= f) s = exec (f a) t := by
  rw [exec_bind, h]

theorem exec_bind_error {e : ε} (h : exec x s = (.error e, t)) :
    exec (x >>= f) s = (.error e, t) := by
  rw [exec_bind, h]

theorem exec_pure_eq_ok {a b : α} :
    exec (pure a : Raising ε σ α) s = (.ok b, t) ↔ a = b ∧ s = t := by
  rw [exec_pure, Prod.mk.injEq, Except.ok.injEq]

/-- A call that returns has returned from each of its parts. -/
theorem exec_bind_eq_ok {b : β} {u : σ} : exec (x >>= f) s = (.ok b, u) ↔
    ∃ a t, exec x s = (.ok a, t) ∧ exec (f a) t = (.ok b, u) := by
  rw [exec_bind]
  rcases exec x s with ⟨e | a, t⟩
  · simp
  · simp [and_assoc]

@[simp] theorem exec_get_bind (f : σ → Raising ε σ β) (s : σ) :
    exec (get >>= f) s = exec (f s) s := rfl

@[simp] theorem exec_set_bind (t : σ) (f : Unit → Raising ε σ β) (s : σ) :
    exec (set t >>= f) s = exec (f ()) t := rfl

@[simp] theorem exec_modify_bind (g : σ → σ) (f : Unit → Raising ε σ β) (s : σ) :
    exec (modify g >>= f) s = exec (f ()) (g s) := rfl

theorem exec_catch (x : Raising ε σ α) (handle : ε → Raising ε σ α) (s : σ) :
    exec (tryCatch x handle) s = match exec x s with
      | (.ok a, t) => (.ok a, t)
      | (.error e, t) => exec (handle e) t := by
  unfold exec
  rw [ExceptT.run_tryCatch, StateT.run_bind]
  rcases h : x.run.run s with ⟨_ | _, _⟩ <;> rfl

theorem exec_catch_ok {a : α} (h : exec x s = (.ok a, t)) (handle : ε → Raising ε σ α) :
    exec (tryCatch x handle) s = (.ok a, t) := by
  rw [exec_catch, h]

/-- Raise an exception unless the condition holds. -/
def ensure (c : Bool) (e : ε) : Raising ε σ Unit := if c then pure () else throw e

theorem exec_ensure_eq_ok {c : Bool} {e : ε} {u : Unit} :
    exec (ensure c e) s = (.ok u, t) ↔ c = true ∧ s = t := by
  cases c <;> simp [ensure]

/-- A call, by its outcome and the state that it leaves. -/
def ofRun (run : σ → Except ε α × σ) : Raising ε σ α := ExceptT.mk run

@[simp] theorem exec_ofRun (run : σ → Except ε α × σ) (s : σ) : exec (ofRun run) s = run s := rfl

/-- A call on a part of the state. -/
def zoom {τ : Type} (get : σ → τ) (put : τ → σ → σ) (x : Raising ε τ α) : Raising ε σ α :=
  ofRun fun s => ((exec x (get s)).1, put (exec x (get s)).2 s)

@[simp] theorem exec_zoom {τ : Type} (get : σ → τ) (put : τ → σ → σ) (x : Raising ε τ α) (s : σ) :
    exec (zoom get put x) s = ((exec x (get s)).1, put (exec x (get s)).2 s) := rfl

/-- A call whose exceptions are some of many. -/
def raiseAs {ε' : Type} (raise : ε → ε') (x : Raising ε σ α) : Raising ε' σ α :=
  ofRun fun s => ((exec x s).1.mapError raise, (exec x s).2)

@[simp] theorem exec_raiseAs {ε' : Type} (raise : ε → ε') (x : Raising ε σ α) (s : σ) :
    exec (raiseAs raise x) s = ((exec x s).1.mapError raise, (exec x s).2) := rfl

/-! ## What a call returns -/

/-- Whatever the call returns, from any state, satisfies `P`. -/
def Returns (x : Raising ε σ α) (P : α → Prop) : Prop :=
  ∀ s a, (exec x s).1 = .ok a → P a

variable {P : α → Prop} {Q : β → Prop}

theorem returns_pure {a : α} (h : P a) : Returns (pure a : Raising ε σ α) P := by
  intro s b hb
  exact Except.ok.inj hb ▸ h

theorem returns_throw (e : ε) : Returns (throw e : Raising ε σ α) P := by
  intro s b hb
  cases hb

theorem returns_ite {c : Prop} [Decidable c] {x y : Raising ε σ α} (hx : Returns x P)
    (hy : Returns y P) : Returns (if c then x else y) P := by
  split
  · exact hx
  · exact hy

theorem Returns.bind (hx : Returns x P) (hf : ∀ a, P a → Returns (f a) Q) :
    Returns (x >>= f) Q := by
  intro s b hb
  rw [exec_bind] at hb
  split at hb
  · rename_i a t h
    exact hf a (hx s a (by rw [h])) t b hb
  · cases hb

/-- Whatever the first call returns. -/
theorem returns_bind (hf : ∀ a, Returns (f a) Q) : Returns (x >>= f) Q :=
  Returns.bind (P := fun _ => True) (fun _ _ _ => trivial) fun a _ => hf a

theorem Returns.raiseAs {ε' : Type} (hx : Returns x P) (raise : ε → ε') :
    Returns (raiseAs raise x) P := by
  intro s a ha
  refine hx s a ?_
  simp only [exec_raiseAs] at ha
  cases h : (exec x s).1 with
  | ok b =>
    rw [h] at ha
    exact congrArg _ (Except.ok.inj ha)
  | error e =>
    rw [h] at ha
    cases ha

/-! ## What a call keeps -/

/-- Whatever the outcome, the call leaves `I` true if it was. -/
def Keeps (x : Raising ε σ α) (I : σ → Prop) : Prop := ∀ s, I s → I (exec x s).2

variable {I : σ → Prop}

theorem keeps_pure (a : α) : Keeps (pure a : Raising ε σ α) I := fun _ h => h

theorem keeps_throw (e : ε) : Keeps (throw e : Raising ε σ α) I := fun _ h => h

theorem Keeps.bind (hx : Keeps x I) (returns : Returns x P) (hf : ∀ a, P a → Keeps (f a) I) :
    Keeps (x >>= f) I := by
  intro s h
  rw [exec_bind]
  split
  · rename_i a t ran
    have kept := hx s h
    rw [ran] at kept
    exact hf a (returns s a (by rw [ran])) t kept
  · rename_i e t ran
    have kept := hx s h
    rwa [ran] at kept

/-- Whatever the first call returns. -/
theorem Keeps.then (hx : Keeps x I) (hf : ∀ a, Keeps (f a) I) : Keeps (x >>= f) I :=
  Keeps.bind (P := fun _ => True) hx (fun _ _ _ => trivial) fun a _ => hf a

theorem keeps_ite {c : Prop} [Decidable c] {x y : Raising ε σ α} (hx : Keeps x I)
    (hy : Keeps y I) : Keeps (if c then x else y) I := by
  split
  · exact hx
  · exact hy

theorem keeps_ensure (c : Bool) (e : ε) : Keeps (ensure c e : Raising ε σ Unit) I :=
  keeps_ite (keeps_pure _) (keeps_throw _)

theorem keeps_get_bind {f : σ → Raising ε σ β} (hf : ∀ s, Keeps (f s) I) :
    Keeps (get >>= f) I := by
  intro s h
  rw [exec_get_bind]
  exact hf s s h

end Raising

end ElanAgent
