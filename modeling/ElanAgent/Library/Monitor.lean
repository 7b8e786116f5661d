import ElanAgent.Library.Atomic
import Mathlib.Order.WellFounded

/-!
# Where the threads of a pool stand

A monitor says which operations a thread may issue at each stage of its course, and the
stage that the reply brings it to. `Prog.Conforms` says that a program stays within a
monitor on every branch. `Run.monitored` is the invariant rule for a pool of such
programs: the invariant speaks of the shared state and of the stage of each thread, and a
step has only to be examined for the operations that the monitor permits.
-/

namespace ElanAgent.Atomic

/-- At stage `q` a thread may issue `o`, and the reply `r` brings it to stage `q'`. -/
abbrev Monitor (I : Interface) (S : Type) := S → (o : I.Op) → I.Reply o → S → Prop

namespace Prog

variable {I J : Interface} {S α β : Type} {A : Monitor I S} {q : S}

/-- From stage `q` on, every branch stays within the monitor, and what it returns and the
stage at which it does satisfy `post`. -/
def Conforms (A : Monitor I S) : Prog I α → S → (α → S → Prop) → Prop
  | .done a, q, post => post a q
  | .op o next, q, post => ∀ r, ∃ q', A q o r q' ∧ (next r).Conforms A q' post

theorem Conforms.mono {post post' : α → S → Prop} (imp : ∀ a q, post a q → post' a q)
    {p : Prog I α} (hp : p.Conforms A q post) : p.Conforms A q post' := by
  induction p generalizing q with
  | done a => exact imp a q hp
  | op o next ih =>
    intro r
    obtain ⟨q', permitted, rest⟩ := hp r
    exact ⟨q', permitted, ih r rest⟩

theorem Conforms.bind {M : α → S → Prop} {post : β → S → Prop} {p : Prog I α}
    {f : α → Prog I β} (hp : p.Conforms A q M)
    (hf : ∀ a q', M a q' → (f a).Conforms A q' post) : (p >>= f).Conforms A q post := by
  induction p generalizing q with
  | done a => exact hf a q hp
  | op o next ih =>
    intro r
    obtain ⟨q', permitted, rest⟩ := hp r
    exact ⟨q', permitted, ih r rest⟩

/-- A program whose operations leave the stage as it is. -/
theorem Only.conforms {P : I.Op → Prop} (stays : ∀ o r, P o → A q o r q) {p : Prog I α}
    (hp : p.Only P) : p.Conforms A q fun _ q' => q' = q := by
  induction hp with
  | done a => rfl
  | op ho _ ih => exact fun r => ⟨q, stays _ r ho, ih r⟩

/-- A monitor that is part of another one, its stages being named differently there. -/
theorem Conforms.map {T : Type} {f : S → T} {B : Monitor I T} {post : α → S → Prop}
    {post' : α → T → Prop} (imp : ∀ q o r q', A q o r q' → B (f q) o r (f q'))
    (ends : ∀ a q, post a q → post' a (f q)) {p : Prog I α} (hp : p.Conforms A q post) :
    p.Conforms B (f q) post' := by
  induction p generalizing q with
  | done a => exact ends a q hp
  | op o next ih =>
    intro r
    obtain ⟨q', permitted, rest⟩ := hp r
    exact ⟨f q', imp q o r q' permitted, ih r rest⟩

theorem Conforms.embed {e : Embedding I J} {B : Monitor J S} {post : α → S → Prop}
    (imp : ∀ q o r q', A q o (e.reply o r) q' → B q (e.op o) r q') {p : Prog I α}
    (hp : p.Conforms A q post) : (p.embed e).Conforms B q post := by
  induction p generalizing q with
  | done a => exact hp
  | op o next ih =>
    intro r
    obtain ⟨q', permitted, rest⟩ := hp (e.reply o r)
    exact ⟨q', imp q o r q' permitted, ih _ rest⟩

/-- `p'` is what one operation of `p` leaves. -/
inductive Next : Prog I α → Prog I α → Prop
  | mk {o : I.Op} {next : I.Reply o → Prog I α} (r : I.Reply o) : Next (next r) (.op o next)

theorem wellFounded_next : WellFounded (Next (I := I) (α := α)) := by
  refine ⟨fun p => ?_⟩
  induction p with
  | done a => exact ⟨_, fun _ h => nomatch h⟩
  | op o next ih =>
    refine ⟨_, fun p' h => ?_⟩
    cases h with
    | mk r => exact ih r

/-- A program that has issued an operation is not what it was. -/
theorem ne_of_later {p p' : Prog I α} (h : Relation.TransGen Next p' p) : p' ≠ p := by
  rintro rfl
  exact wellFounded_next.transGen.irrefl.irrefl _ h

/-- Every path issues an operation of `P`, and none of `Q` before it. -/
def Owes (P Q : I.Op → Prop) : Prog I α → Prop
  | .done _ => False
  | .op o next => P o ∨ ∀ r, ¬Q o ∧ (next r).Owes P Q

/-- A thread cannot return from the stages `R` and leaves them only by an operation of `P`. -/
theorem Conforms.owes {P Q : I.Op → Prop} {R : S → Prop} {post : α → S → Prop}
    (returns : ∀ a q, R q → ¬post a q)
    (leaves : ∀ q o r q', R q → A q o r q' → P o ∨ ¬Q o ∧ R q') {p : Prog I α}
    (hp : p.Conforms A q post) (hq : R q) : p.Owes P Q := by
  induction p generalizing q with
  | done a => exact returns a q hq hp
  | op o next ih =>
    by_cases ho : P o
    · exact .inl ho
    · refine .inr fun r => ?_
      obtain ⟨q', permitted, rest⟩ := hp r
      obtain ⟨notQ, hq'⟩ := (leaves q o r q' hq permitted).resolve_left ho
      exact ⟨notQ, ih r rest hq'⟩

end Prog

variable {I : Interface} {σ α S ι : Type} [DecidableEq ι]
variable {h : Handler I σ} {G : Config I σ α ι → ι → Prop}

/-- An invariant of the pool and the stages, kept by every guarded step that the monitors
permit, holds after every guarded run, at stages from which the threads conform. -/
theorem Run.monitored {A : ι → Monitor I S} {post : ι → α → S → Prop}
    {Q : Config I σ α ι → (ι → S) → Prop}
    (step : ∀ (s : σ) (t : ι → Prog I α) (q : ι → S) (i : ι) (o : I.Op)
      (next : I.Reply o → Prog I α) (q' : S), Q ⟨s, t⟩ q →
      (∀ j, (t j).Conforms (A j) (q j) (post j)) → G ⟨s, t⟩ i → t i = .op o next →
      A i (q i) o (h o s).1 q' → (next (h o s).1).Conforms (A i) q' (post i) →
      Q ⟨(h o s).2, Function.update t i (next (h o s).1)⟩ (Function.update q i q'))
    {c d : Config I σ α ι} (run : Run h G c d) {q : ι → S} (hc : Q c q)
    (conform : ∀ j, (c.threads j).Conforms (A j) (q j) (post j)) :
    ∃ q', Q d q' ∧ ∀ j, (d.threads j).Conforms (A j) (q' j) (post j) := by
  induction run with
  | refl => exact ⟨q, hc, conform⟩
  | @snoc d e i _ guarded moved ih =>
    obtain ⟨q, hd, conform⟩ := ih
    cases moved with
    | @mk s t _ o next hi =>
      have mine := conform i
      dsimp only at mine
      rw [hi] at mine
      obtain ⟨q', permitted, rest⟩ := mine (h o s).1
      refine ⟨Function.update q i q', step s t q i o next q' hd conform guarded hi permitted rest,
        fun j => ?_⟩
      dsimp only [Function.update]
      split
      · subst j
        exact rest
      · exact conform j

omit [DecidableEq ι] in
/-- Once every thread has returned, each is at a stage at which it may. -/
theorem Config.Done.conforms {A : ι → Monitor I S} {post : ι → α → S → Prop}
    {c : Config I σ α ι} {q : ι → S} (done : c.Done)
    (conform : ∀ j, (c.threads j).Conforms (A j) (q j) (post j)) (i : ι) :
    ∃ a, post i a (q i) := by
  obtain ⟨a, returned⟩ := done i
  have h := conform i
  rw [returned] at h
  exact ⟨a, h⟩

end ElanAgent.Atomic
