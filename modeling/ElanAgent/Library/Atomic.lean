import Mathlib.Algebra.GroupWithZero.Nat
import Mathlib.Logic.Relation
import Mathlib.Logic.Function.Basic
import Mathlib.Data.List.Basic

/-!
# Programs over atomic operations, alone and interleaved

`Prog I α` is a program that issues operations of an interface `I`, each atomic,
and computes between them with ordinary Lean functions. One definition serves two
readings. `Prog.run` executes it alone, which is a call that nothing disturbs.
`Step` lets any thread of a pool issue its next operation, so a run of the pool is
an interleaving at the grain of the operations.

`Run` carries a guard on the moving thread and the configuration it moves from.
The rule `Run.invariant` turns what one guarded step preserves into what every
guarded run preserves; `run_alone` says that executing a thread alone is one of
the interleavings.
-/

namespace ElanAgent.Atomic

/-- The operations a program can issue, each with the type of its reply. -/
structure Interface where
  Op : Type
  Reply : Op → Type

/-- A program issues one operation and continues with its reply, or stops. -/
inductive Prog (I : Interface) (α : Type) : Type where
  | done (a : α)
  | op (o : I.Op) (next : I.Reply o → Prog I α)

/-- What an operation does to the shared state, and the reply it gives. -/
abbrev Handler (I : Interface) (σ : Type) := (o : I.Op) → σ → I.Reply o × σ

namespace Prog

variable {I : Interface} {σ α β γ : Type}

def bind : Prog I α → (α → Prog I β) → Prog I β
  | .done a, f => f a
  | .op o next, f => .op o fun r => (next r).bind f

instance : Monad (Prog I) where
  pure := .done
  bind := bind

@[simp] theorem done_bind (a : α) (f : α → Prog I β) : (.done a : Prog I α) >>= f = f a := rfl

@[simp] theorem op_bind (o : I.Op) (next : I.Reply o → Prog I α) (f : α → Prog I β) :
    (.op o next : Prog I α) >>= f = .op o fun r => next r >>= f := rfl

theorem bind_done (p : Prog I α) : p >>= .done = p := by
  induction p with
  | done a => rfl
  | op o next ih => simp only [op_bind, ih]

theorem bind_assoc (p : Prog I α) (f : α → Prog I β) (g : β → Prog I γ) :
    p >>= f >>= g = p >>= fun a => f a >>= g := by
  induction p with
  | done a => rfl
  | op o next ih => simp only [op_bind, ih]

instance : LawfulMonad (Prog I) :=
  LawfulMonad.mk' (Prog I) bind_done done_bind bind_assoc

/-- The program has returned. -/
def isDone : Prog I α → Bool
  | .done _ => true
  | .op _ _ => false

/-- Execute a program alone. -/
def run (h : Handler I σ) : Prog I α → σ → α × σ
  | .done a, s => (a, s)
  | .op o next, s => run h (next (h o s).1) (h o s).2

@[simp] theorem run_pure (h : Handler I σ) (a : α) (s : σ) :
    (Pure.pure a : Prog I α).run h s = (a, s) := rfl

@[simp] theorem run_done (h : Handler I σ) (a : α) (s : σ) :
    (.done a : Prog I α).run h s = (a, s) := rfl

@[simp] theorem run_op (h : Handler I σ) (o : I.Op) (next : I.Reply o → Prog I α) (s : σ) :
    (.op o next : Prog I α).run h s = (next (h o s).1).run h (h o s).2 := rfl

@[simp] theorem run_bind (h : Handler I σ) (p : Prog I α) (f : α → Prog I β) (s : σ) :
    (p >>= f).run h s = (f (p.run h s).1).run h (p.run h s).2 := by
  induction p generalizing s with
  | done a => rfl
  | op o next ih => exact ih _ _

@[simp] theorem run_map (h : Handler I σ) (g : α → β) (p : Prog I α) (s : σ) :
    (g <$> p).run h s = (g (p.run h s).1, (p.run h s).2) := by
  exact run_bind h p (.done ∘ g) s

/-- Every operation issued on any branch satisfies `P`. -/
inductive Only (P : I.Op → Prop) : Prog I α → Prop where
  | done (a : α) : Only P (.done a)
  | op {o : I.Op} {next : I.Reply o → Prog I α} :
      P o → (∀ r, Only P (next r)) → Only P (.op o next)

theorem Only.imp {P Q : I.Op → Prop} (h : ∀ o, P o → Q o) {p : Prog I α} (hp : Only P p) :
    Only Q p := by
  induction hp with
  | done a => exact .done a
  | op ho _ ih => exact .op (h _ ho) ih

theorem Only.of_forall {P : I.Op → Prop} (h : ∀ o, P o) (p : Prog I α) : Only P p := by
  induction p with
  | done a => exact .done a
  | op o next ih => exact .op (h o) ih

theorem Only.bind {P : I.Op → Prop} {p : Prog I α} {f : α → Prog I β} (hp : Only P p)
    (hf : ∀ a, Only P (f a)) : Only P (p >>= f) := by
  induction hp with
  | done a => exact hf a
  | op ho _ ih => exact .op ho ih

/-- A state property that every permitted operation keeps survives the whole program. -/
theorem Only.run {P : I.Op → Prop} {h : Handler I σ} {Q : σ → Prop}
    (keeps : ∀ o s, P o → Q s → Q (h o s).2) {p : Prog I α} (hp : Only P p) {s : σ} (hs : Q s) :
    Q (p.run h s).2 := by
  induction hp generalizing s with
  | done a => exact hs
  | op ho _ ih => exact ih _ (keeps _ _ ho hs)

end Prog

variable {I : Interface} {σ α ι : Type} [DecidableEq ι]

/-- A pool of threads over one shared state. A thread's future is its program. -/
structure Config (I : Interface) (σ α ι : Type) where
  state : σ
  threads : ι → Prog I α

/-- The threads of a pool of two are `0` and `1`. -/
instance twoThreads : NeZero 2 := ⟨Nat.succ_ne_zero 1⟩

/-- Every thread has returned. -/
def Config.Done (c : Config I σ α ι) : Prop := ∀ i, ∃ a, c.threads i = .done a

omit [DecidableEq ι] in
theorem Config.done_iff {c : Config I σ α ι} : c.Done ↔ ∀ i, (c.threads i).isDone := by
  refine forall_congr' fun i => ?_
  cases c.threads i <;> simp [Prog.isDone]

/-- Let thread `i` issue its next operation, if it has one. -/
def Config.move (h : Handler I σ) (c : Config I σ α ι) (i : ι) : Config I σ α ι :=
  match c.threads i with
  | .done _ => c
  | .op o next => ⟨(h o c.state).2, Function.update c.threads i (next (h o c.state).1)⟩

/-- Follow a schedule, one operation for each entry. -/
def Config.follow (h : Handler I σ) (c : Config I σ α ι) (schedule : List ι) : Config I σ α ι :=
  schedule.foldl (Config.move h) c

/-- Thread `i` issues one operation, atomically. -/
inductive Step (h : Handler I σ) : Config I σ α ι → ι → Config I σ α ι → Prop where
  | mk {s : σ} {t : ι → Prog I α} {i : ι} {o : I.Op} {next : I.Reply o → Prog I α} :
      t i = .op o next →
      Step h ⟨s, t⟩ i ⟨(h o s).2, Function.update t i (next (h o s).1)⟩

theorem Config.step_move {h : Handler I σ} {c : Config I σ α ι} {i : ι} {o : I.Op}
    {next : I.Reply o → Prog I α} (hi : c.threads i = .op o next) : Step h c i (c.move h i) := by
  simpa only [Config.move, hi] using Step.mk hi

/-- An interleaving in which every step meets the guard `G`, which sees the
configuration before the step and the thread that moves. -/
inductive Run (h : Handler I σ) (G : Config I σ α ι → ι → Prop) :
    Config I σ α ι → Config I σ α ι → Prop where
  | refl (c) : Run h G c c
  | snoc {c d e i} : Run h G c d → G d i → Step h d i e → Run h G c e

variable {h : Handler I σ} {G : Config I σ α ι → ι → Prop}

theorem Run.invariant {Inv : Config I σ α ι → Prop}
    (step : ∀ c i d, Inv c → G c i → Step h c i d → Inv d) {c d : Config I σ α ι}
    (run : Run h G c d) (hc : Inv c) : Inv d := by
  induction run with
  | refl => exact hc
  | snoc _ hG hs ih => exact step _ _ _ ih hG hs

theorem Run.trans {c d e : Config I σ α ι} (hcd : Run h G c d) (hde : Run h G d e) :
    Run h G c e := by
  induction hde with
  | refl => exact hcd
  | snoc _ hG hs ih => exact .snoc ih hG hs

/-- The guard holds at every entry of the schedule. -/
def Config.Guarded (h : Handler I σ) (G : Config I σ α ι → ι → Prop) :
    Config I σ α ι → List ι → Prop
  | _, [] => True
  | c, i :: rest => G c i ∧ Guarded h G (c.move h i) rest

instance Config.decidableGuarded [∀ c i, Decidable (G c i)] :
    (c : Config I σ α ι) → (schedule : List ι) → Decidable (Config.Guarded h G c schedule)
  | _, [] => inferInstanceAs (Decidable True)
  | c, i :: rest =>
    have := Config.decidableGuarded (c.move h i) rest
    inferInstanceAs (Decidable (G c i ∧ Config.Guarded h G (c.move h i) rest))

theorem Config.Guarded.imp {G' : Config I σ α ι → ι → Prop} (imp : ∀ c i, G c i → G' c i)
    {c : Config I σ α ι} {schedule : List ι} (guarded : Config.Guarded h G c schedule) :
    Config.Guarded h G' c schedule := by
  induction schedule generalizing c with
  | nil => trivial
  | cons i rest ih => exact ⟨imp c i guarded.1, ih guarded.2⟩

/-- Following a schedule is a run; an entry that cannot move is skipped. -/
theorem Config.follow_run {c : Config I σ α ι} {schedule : List ι}
    (guarded : Config.Guarded h G c schedule) : Run h G c (c.follow h schedule) := by
  induction schedule generalizing c with
  | nil => exact .refl c
  | cons i rest ih =>
    obtain ⟨hG, guarded⟩ := guarded
    refine Run.trans ?_ (ih guarded)
    cases hi : c.threads i with
    | done a => simpa only [Config.move, hi] using Run.refl c
    | op o next => exact .snoc (.refl c) hG (Config.step_move hi)

theorem Config.guarded_of_forall (hG : ∀ c i, G c i) (c : Config I σ α ι) (schedule : List ι) :
    Config.Guarded h G c schedule := by
  induction schedule generalizing c with
  | nil => trivial
  | cons i rest ih => exact ⟨hG c i, ih _⟩

theorem Config.guarded_true (c : Config I σ α ι) (schedule : List ι) :
    Config.Guarded h (fun _ _ => True) c schedule :=
  Config.guarded_of_forall (fun _ _ => trivial) c schedule

/-- Executing one thread alone to its end is one of the interleavings. -/
theorem run_alone (s : σ) (t : ι → Prog I α) (i : ι) :
    Run h (fun _ _ => True) ⟨s, t⟩
      ⟨((t i).run h s).2, Function.update t i (.done ((t i).run h s).1)⟩ := by
  generalize hp : t i = p
  induction p generalizing s t with
  | done a =>
    have ht : Function.update t i (.done a) = t := by rw [← hp, Function.update_eq_self]
    simpa only [Prog.run_done, ht] using Run.refl (h := h) ⟨s, t⟩
  | op o next ih =>
    have first := Run.snoc (G := fun _ _ => True) (Run.refl (h := h) ⟨s, t⟩) trivial
      (Step.mk hp)
    have rest := ih (h o s).1 (h o s).2 (Function.update t i (next (h o s).1))
      (Function.update_self ..)
    rw [Function.update_idem] at rest
    exact first.trans rest

/-- Executing distinct threads one after the other is one of the interleavings. -/
theorem run_each {l : List ι} (nodup : l.Nodup) (s : σ) (t : ι → Prog I α) :
    ∃ t', Run h (fun _ _ => True) ⟨s, t⟩ ⟨l.foldl (fun s i => ((t i).run h s).2) s, t'⟩ ∧
      (∀ i ∈ l, ∃ a, t' i = .done a) ∧ ∀ i, i ∉ l → t' i = t i := by
  induction l generalizing s t with
  | nil => exact ⟨t, .refl _, by simp, fun _ _ => rfl⟩
  | cons i l ih =>
    obtain ⟨hi, nodup⟩ := List.nodup_cons.mp nodup
    have first := run_alone (h := h) s t i
    set u := Function.update t i (.done ((t i).run h s).1) with hu
    obtain ⟨t', rest, returned, same⟩ := ih nodup ((t i).run h s).2 u
    have other : ∀ s, ∀ j ∈ l, ((u j).run h s).2 = ((t j).run h s).2 := fun s j hj => by
      rw [hu, Function.update_of_ne (ne_of_mem_of_not_mem hj hi)]
    rw [List.foldl_ext _ _ _ other] at rest
    refine ⟨t', first.trans rest, fun j hj => ?_, fun j hj => ?_⟩
    · rcases List.mem_cons.mp hj with rfl | hj
      · exact ⟨_, (same j hi).trans (by rw [hu, Function.update_self])⟩
      · exact returned j hj
    · obtain ⟨hne, hj⟩ := not_or.mp (mt List.mem_cons.mpr hj)
      rw [same j hj, hu, Function.update_of_ne hne]

theorem Step.only {P : I.Op → Prop} {Q : σ → Prop} (keeps : ∀ o s, P o → Q s → Q (h o s).2)
    {c d : Config I σ α ι} {i : ι} (moved : Step h c i d)
    (hc : Q c.state ∧ ∀ j, (c.threads j).Only P) : Q d.state ∧ ∀ j, (d.threads j).Only P := by
  obtain ⟨hs, only⟩ := hc
  cases moved with
  | @mk s t _ o next hi =>
    have mine := only i
    dsimp only at mine
    rw [hi] at mine
    cases mine with
    | op ho rest =>
      refine ⟨keeps o s ho hs, fun j => ?_⟩
      dsimp only [Function.update]
      split
      · subst j
        exact rest _
      · exact only j

/-- A pool whose programs only issue operations of `P` keeps what those keep. -/
theorem Run.only {P : I.Op → Prop} {Q : σ → Prop} (keeps : ∀ o s, P o → Q s → Q (h o s).2)
    {c d : Config I σ α ι} (run : Run h G c d) (only : ∀ i, (c.threads i).Only P)
    (hc : Q c.state) : Q d.state ∧ ∀ i, (d.threads i).Only P := by
  induction run with
  | refl => exact ⟨hc, only⟩
  | snoc _ _ moved ih => exact moved.only keeps ih

/-! ## A program over a part of the operations -/

/-- An interface whose operations are among those of another one. -/
structure Embedding (I J : Interface) where
  op : I.Op → J.Op
  reply : ∀ o, J.Reply (op o) → I.Reply o

namespace Prog

variable {J : Interface} {τ β : Type}

def embed (e : Embedding I J) : Prog I α → Prog J α
  | .done a => .done a
  | .op o next => .op (e.op o) fun r => (next (e.reply o r)).embed e

theorem Only.embed {e : Embedding I J} {P : I.Op → Prop} {P' : J.Op → Prop}
    (imp : ∀ o, P o → P' (e.op o)) {p : Prog I α} (hp : Only P p) : Only P' (p.embed e) := by
  induction hp with
  | done a => exact .done a
  | op ho _ ih => exact .op (imp _ ho) fun r => ih _

/-- Where the operations act on the part `get` of the state, so does the program. -/
theorem run_embed {e : Embedding I J} {h : Handler I σ} {h' : Handler J τ} (get : τ → σ)
    (set : τ → σ → τ) (get_set : ∀ t s, get (set t s) = s)
    (set_get : ∀ t, set t (get t) = t) (set_set : ∀ t s s', set (set t s) s' = set t s')
    (acts : ∀ o t, e.reply o (h' (e.op o) t).1 = (h o (get t)).1 ∧
      (h' (e.op o) t).2 = set t (h o (get t)).2) (p : Prog I α) (t : τ) :
    (p.embed e).run h' t = ((p.run h (get t)).1, set t (p.run h (get t)).2) := by
  induction p generalizing t with
  | done a => exact Prod.ext rfl (set_get t).symm
  | op o next ih =>
    obtain ⟨reply, state⟩ := acts o t
    simp only [Prog.embed, run_op, ih, reply, state, get_set, set_set]

end Prog

end ElanAgent.Atomic
