import Mathlib.Logic.Function.Basic
import ElanAgent.Library.Raising

/-!
# Handlers that skip what they remember

A handler is handed values, one after the other. It skips a value that does not differ from
what it remembers. Any other value it remembers first, and then it writes something for it. A
handling that raises in between leaves a value that is remembered and not written, and that is
skipped from then on. What has been written is right in every run that skips nothing but what
it has written.
-/

namespace ElanAgent

open Raising

variable {ε : Type}

/-! ## Runs -/

section Visits

variable {σ γ η : Type}

/-- A value that has been handled, with the states before and after. -/
structure Visit (γ σ : Type) where
  value : γ
  before : σ
  after : σ
  returned : Bool

/-- The visits of a handler that is handed values, each in an environment of its own. -/
def visits (handle : η → γ → Raising ε σ Unit) : σ → List (η × γ) → List (Visit γ σ)
  | _, [] => []
  | s, (env, value) :: rest =>
    let ran := exec (handle env value) s
    ⟨value, s, ran.2, ran.1.isOk⟩ :: visits handle ran.2 rest

variable {handle : η → γ → Raising ε σ Unit} {Differs : σ → γ → Prop} {Written : γ → σ → Prop}

/-- Only such values are skipped as come after a visit that has found a difference and has
returned, without a change since. `settled` tells whether there was such a visit before. -/
def Retried (Differs : σ → γ → Prop) : Prop → List (Visit γ σ) → Prop
  | _, [] => True
  | settled, v :: rest =>
    (Differs v.before v.value ∨ settled) ∧
      Retried Differs
        (v.returned ∧ Differs v.before v.value ∨ settled ∧ v.after = v.before) rest

/-- A value that differs is written, with all that may be skipped from then on. Any other is
skipped. -/
structure Rewrites (handle : η → γ → Raising ε σ Unit) (Differs : σ → γ → Prop)
    (Written : γ → σ → Prop) : Prop where
  writes : ∀ {env value s s'}, exec (handle env value) s = (.ok (), s') → Differs s value →
    Written value s'
  settles : ∀ {env value s s'}, exec (handle env value) s = (.ok (), s') → Differs s value →
    ∀ other, ¬Differs s' other → Written other s'
  skips : ∀ {env value s s'}, exec (handle env value) s = (.ok (), s') → ¬Differs s value →
    s' = s

theorem exec_of_isOk {x : Raising ε σ Unit} {s : σ} (returned : (exec x s).1.isOk) :
    exec x s = (.ok (), (exec x s).2) := by
  generalize exec x s = ran at returned ⊢
  obtain ⟨_ | ⟨⟨⟩⟩, t⟩ := ran
  · cases returned
  · rfl

/-- Whenever the handler returns, what is written is right. -/
theorem Rewrites.written (rewrites : Rewrites handle Differs Written) {s : σ} {settled : Prop}
    (start : settled → ∀ value, ¬Differs s value → Written value s) {steps : List (η × γ)}
    (retried : Retried Differs settled (visits handle s steps)) :
    ∀ v ∈ visits handle s steps, v.returned → Written v.value v.after := by
  induction steps generalizing s settled with
  | nil => simp [visits]
  | cons step rest ih =>
    obtain ⟨env, value⟩ := step
    obtain ⟨skipped, later⟩ := retried
    intro v mem returned
    rcases List.mem_cons.mp mem with rfl | mem
    · have ran := exec_of_isOk returned
      by_cases differs : Differs s value
      · exact rewrites.writes ran differs
      · have written := start (skipped.resolve_left differs) value differs
        show Written value (exec (handle env value) s).2
        rwa [rewrites.skips ran differs]
    · refine ih ?_ later v mem returned
      rintro (⟨ok, differs⟩ | ⟨earlier, untouched⟩)
      · exact rewrites.settles (exec_of_isOk ok) differs
      · intro other same
        have still : (exec (handle env value) s).2 = s := untouched
        rw [still] at same ⊢
        exact start earlier other same

end Visits

/-! ## Remembering key by key -/

/-- What is remembered of each key, and everything else. -/
structure Remembering {κ : Type} (α : κ → Type) (φ : Type) where
  conf : ∀ k, Option (α k)
  files : φ

namespace Remembering

variable {κ : Type} [DecidableEq κ] {α : κ → Type} [∀ k, DecidableEq (α k)] {φ η : Type}

/-- `conf.get(k, default)` -/
def recalled (default : ∀ k, α k) (conf : ∀ k, Option (α k)) (k : κ) : α k :=
  (conf k).getD (default k)

/-- The values agree with what is remembered of the keys. -/
def Agrees (default : ∀ k, α k) (keys : List κ) (conf handed : ∀ k, Option (α k)) : Prop :=
  ∀ k ∈ keys, handed k = some (recalled default conf k)

section Loop

variable (default : ∀ k, α k) (missing : κ → ε)
  (stored : ∀ k, α k → Raising ε (Remembering α φ) Unit) (handed : ∀ k, Option (α k))

/-- Remember the values of the keys that differ. Is there any? -/
def remember : List κ → Bool → Raising ε (Remembering α φ) Bool
  | [], changed => pure changed
  | k :: keys, changed =>
    match handed k with
    | none => throw (missing k)
    | some value => do
      let s ← get
      if recalled default s.conf k = value then remember keys changed
      else do
        modify fun s => { s with conf := Function.update s.conf k (some value) }
        stored k value
        remember keys true

/-- Remember the values, and generate the files if any of them differs. -/
def update (keys : List κ) (generate : Raising ε (Remembering α φ) Unit) :
    Raising ε (Remembering α φ) Unit := do
  let changed ← remember default missing stored handed keys false
  if changed then generate else pure ()

end Loop

/-- A text that is rendered from what is remembered. -/
def rendered {τ : Type} (render : (∀ k, Option (α k)) → Except ε τ) :
    Raising ε (Remembering α φ) τ := do
  match render (← get).conf with
  | .ok text => pure text
  | .error e => throw e

omit [DecidableEq κ] [∀ k, DecidableEq (α k)] in
theorem rendered_eq_ok {τ : Type} {render : (∀ k, Option (α k)) → Except ε τ} {text : τ}
    {s s' : Remembering α φ} :
    exec (rendered render) s = (.ok text, s') ↔ render s.conf = .ok text ∧ s = s' := by
  unfold rendered
  rw [exec_get_bind]
  cases render s.conf <;> simp

omit [DecidableEq κ] [∀ k, DecidableEq (α k)] in
theorem keeps_rendered {τ : Type} (render : (∀ k, Option (α k)) → Except ε τ)
    (I : Remembering α φ → Prop) : Keeps (rendered render) I := by
  refine keeps_get_bind fun s => ?_
  cases render s.conf with
  | ok text => exact keeps_pure _
  | error e => exact keeps_throw e

omit [DecidableEq κ] [∀ k, DecidableEq (α k)] in
/-- A value that is remembered is the one of any values that agree. -/
theorem Agrees.eq_some {default : ∀ k, α k} {keys : List κ} {conf handed : ∀ k, Option (α k)}
    (agrees : Agrees default keys conf handed) {k : κ} (mem : k ∈ keys) {value : α k}
    (found : conf k = some value) : handed k = some value := by
  rw [agrees k mem, recalled, found, Option.getD_some]

variable {default : ∀ k, α k} {missing : κ → ε}
  {stored : ∀ k, α k → Raising ε (Remembering α φ) Unit} {handed : ∀ k, Option (α k)}
  {s s' : Remembering α φ} {keys : List κ} {changed changed' : Bool}

/-- Nothing is done about values that agree. -/
theorem remember_of_agrees (agrees : Agrees default keys s.conf handed) :
    exec (remember default missing stored handed keys changed) s = (.ok changed, s) := by
  induction keys with
  | nil => rfl
  | cons k keys ih =>
    have here := agrees k List.mem_cons_self
    simp only [remember, here, exec_get_bind, if_pos]
    exact ih fun j mem => agrees j (List.mem_cons_of_mem _ mem)

/-- Values that agree are skipped, whatever has been generated. -/
theorem update_of_agrees {generate : Raising ε (Remembering α φ) Unit}
    (agrees : Agrees default keys s.conf handed) :
    exec (update default missing stored handed keys generate) s = (.ok (), s) := by
  unfold update
  rw [exec_bind_ok (remember_of_agrees agrees)]
  rfl

/-- A loop that returns has found the value of its first key, and has gone on from there. -/
theorem remember_cons {k : κ} (keeps : ∀ k value s, (exec (stored k value) s).2.conf = s.conf)
    (ran : exec (remember default missing stored handed (k :: keys) changed) s =
      (.ok changed', s')) :
    ∃ value, handed k = some value ∧
      (recalled default s.conf k = value ∧
        exec (remember default missing stored handed keys changed) s = (.ok changed', s') ∨
      ∃ t, t.conf = Function.update s.conf k (some value) ∧
        exec (remember default missing stored handed keys true) t = (.ok changed', s')) := by
  cases here : handed k with
  | none =>
    simp only [remember, here, exec_throw] at ran
    cases ran
  | some value =>
    simp only [remember, here, exec_get_bind] at ran
    refine ⟨value, rfl, ?_⟩
    split at ran
    · rename_i same
      exact .inl ⟨same, ran⟩
    · simp only [exec_modify_bind, exec_bind_eq_ok] at ran
      obtain ⟨_, t, saved, ran⟩ := ran
      have kept := keeps k value { s with conf := Function.update s.conf k (some value) }
      rw [saved] at kept
      exact .inr ⟨t, kept, ran⟩

/-- The loop returns if no value is missing and all of them can be stored. -/
theorem exists_remember (complete : ∀ k, (handed k).isSome)
    (stores : ∀ k value s, ∃ t, exec (stored k value) s = (.ok (), t)) (keys : List κ)
    (changed : Bool) (s : Remembering α φ) : ∃ changed' s',
      exec (remember default missing stored handed keys changed) s = (.ok changed', s') := by
  induction keys generalizing changed s with
  | nil => exact ⟨changed, s, rfl⟩
  | cons k keys ih =>
    obtain ⟨value, here⟩ := Option.isSome_iff_exists.mp (complete k)
    simp only [remember, here, exec_get_bind]
    split
    · exact ih changed s
    · obtain ⟨t, saved⟩ := stores k value { s with conf := Function.update s.conf k (some value) }
      simp only [exec_modify_bind, exec_bind_ok saved]
      exact ih true t

section Returned

variable (keeps : ∀ k value s, (exec (stored k value) s).2.conf = s.conf)

include keeps

/-- A value that agrees once agrees ever after. -/
theorem recalled_remember
    (ran : exec (remember default missing stored handed keys changed) s = (.ok changed', s'))
    {j : κ} (agrees : handed j = some (recalled default s.conf j)) :
    handed j = some (recalled default s'.conf j) := by
  induction keys generalizing s changed with
  | nil =>
    obtain ⟨-, rfl⟩ := exec_pure_eq_ok.mp ran
    exact agrees
  | cons k keys ih =>
    obtain ⟨value, here, ⟨-, ran⟩ | ⟨t, conf, ran⟩⟩ := remember_cons keeps ran
    · exact ih ran agrees
    · refine ih ran ?_
      rw [conf]
      by_cases same : j = k
      · subst same
        simp [recalled, here]
      · rw [agrees]
        simp [recalled, same]

/-- In the end all values agree. -/
theorem agrees_remember
    (ran : exec (remember default missing stored handed keys changed) s = (.ok changed', s')) :
    Agrees default keys s'.conf handed := by
  induction keys generalizing s changed with
  | nil =>
    intro k mem
    cases mem
  | cons k keys ih =>
    intro j mem
    obtain ⟨value, here, ⟨same, rest⟩ | ⟨t, conf, rest⟩⟩ := remember_cons keeps ran
    · rcases List.mem_cons.mp mem with rfl | mem
      · exact recalled_remember keeps rest (here.trans (congrArg some same.symm))
      · exact ih rest j mem
    · rcases List.mem_cons.mp mem with rfl | mem
      · refine recalled_remember keeps rest ?_
        simp [recalled, here, conf]
      · exact ih rest j mem

/-- Once there is a difference, there is one in the end. -/
theorem changed_remember
    (ran : exec (remember default missing stored handed keys true) s = (.ok changed, s')) :
    changed = true := by
  induction keys generalizing s with
  | nil => exact (exec_pure_eq_ok.mp ran).1.symm
  | cons k keys ih =>
    obtain ⟨value, -, ⟨-, ran⟩ | ⟨t, -, ran⟩⟩ := remember_cons keeps ran
    · exact ih ran
    · exact ih ran

/-- Without a difference nothing has changed. -/
theorem remember_unchanged
    (ran : exec (remember default missing stored handed keys changed) s = (.ok false, s')) :
    s' = s := by
  induction keys generalizing s changed with
  | nil => exact (exec_pure_eq_ok.mp ran).2.symm
  | cons k keys ih =>
    obtain ⟨value, -, ⟨-, ran⟩ | ⟨t, -, ran⟩⟩ := remember_cons keeps ran
    · exact ih ran
    · cases changed_remember keeps ran

end Returned

/-! ## Runs of a configurator -/

/-- A generator leaves what is remembered alone. Once it has returned, what is written is right
for any values that agree with that. -/
structure Generates (default : ∀ k, α k) (keys : List κ)
    (generate : η → Raising ε (Remembering α φ) Unit)
    (Written : (∀ k, Option (α k)) → φ → Prop) : Prop where
  keeps : ∀ env s, (exec (generate env) s).2.conf = s.conf
  written : ∀ {env s s' handed}, exec (generate env) s = (.ok (), s') →
    Agrees default keys s.conf handed → Written handed s'.files

/-- The handler of such a generator is one that skips what it remembers. -/
theorem Generates.rewrites {generate : η → Raising ε (Remembering α φ) Unit}
    {Written : (∀ k, Option (α k)) → φ → Prop} (generates : Generates default keys generate Written)
    {stored : η → ∀ k, α k → Raising ε (Remembering α φ) Unit}
    (keeps : ∀ env k value s, (exec (stored env k value) s).2.conf = s.conf) :
    Rewrites (fun env handed => update default missing (stored env) handed keys (generate env))
      (fun s handed => ¬Agrees default keys s.conf handed)
      (fun handed s => Written handed s.files) := by
  have generated {env : η} {handed : ∀ k, Option (α k)} {s s' : Remembering α φ}
      (ran : exec (update default missing (stored env) handed keys (generate env)) s =
        (.ok (), s')) (differs : ¬Agrees default keys s.conf handed) :
      ∃ t, exec (generate env) t = (.ok (), s') ∧ Agrees default keys t.conf handed := by
    unfold update at ran
    rw [exec_bind_eq_ok] at ran
    obtain ⟨changed, t, remembered, ran⟩ := ran
    have agrees := agrees_remember (keeps env) remembered
    cases changed with
    | true => exact ⟨t, ran, agrees⟩
    | false =>
      obtain rfl := remember_unchanged (keeps env) remembered
      exact absurd agrees differs
  refine ⟨fun ran differs => ?_, fun {env _ _ _} ran differs other same => ?_, fun ran same => ?_⟩
  · obtain ⟨t, ran, agrees⟩ := generated ran differs
    exact generates.written ran agrees
  · obtain ⟨t, ran, -⟩ := generated ran differs
    have kept := generates.keeps env t
    rw [ran] at kept
    rw [kept] at same
    exact generates.written ran (not_not.mp same)
  · rw [update_of_agrees (not_not.mp same)] at ran
    exact (Prod.mk.inj ran).2.symm

/-- Values that have been remembered are skipped when they are sent again, even if their files
could not be generated. -/
theorem Generates.skipped {generate : η → Raising ε (Remembering α φ) Unit}
    {Written : (∀ k, Option (α k)) → φ → Prop} (generates : Generates default keys generate Written)
    (keeps : ∀ k value s, (exec (stored k value) s).2.conf = s.conf) {env : η}
    (ran : exec (remember default missing stored handed keys false) s = (.ok changed, s'))
    {stored' : ∀ k, α k → Raising ε (Remembering α φ) Unit} (env' : η) :
    exec (update default missing stored' handed keys (generate env'))
        (exec (update default missing stored handed keys (generate env)) s).2 =
      (.ok (), (exec (update default missing stored handed keys (generate env)) s).2) := by
  refine update_of_agrees ?_
  have agrees := agrees_remember keeps ran
  have kept : (exec (update default missing stored handed keys (generate env)) s).2.conf =
      s'.conf := by
    unfold update
    rw [exec_bind_ok ran]
    cases changed with
    | true => exact generates.keeps env s'
    | false => rfl
  rwa [kept]

end Remembering

end ElanAgent
