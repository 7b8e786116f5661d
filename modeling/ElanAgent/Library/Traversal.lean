import Mathlib.Data.List.Nodup
import Mathlib.Logic.Relation

/-!
# Depth-first traversals

A traversal visits nodes from left to right, each before its children, and ignores what it
has met before. `Visits` lists what is visited, in order. From a single node, with nothing to
ignore, these are the nodes that can be reached from it, each once.

`Walks` lists what a walk that remembers nothing meets, in order, and the visits are the first
occurrences in it.
-/

namespace ElanAgent.Traversal

open Relation

variable {κ : Type}

/-- Going through `todo`, where the nodes of `ignore` have been met, visits the nodes of the
third list. -/
inductive Visits (children : κ → List κ) : List κ → List κ → List κ → Prop where
  | nil {ignore : List κ} : Visits children ignore [] []
  | skip {ignore todo new : List κ} {x : κ} : x ∈ ignore → Visits children ignore todo new →
      Visits children ignore (x :: todo) new
  | visit {ignore todo inner new : List κ} {x : κ} : x ∉ ignore →
      Visits children (ignore ++ [x]) (children x) inner →
      Visits children (ignore ++ x :: inner) todo new →
      Visits children ignore (x :: todo) (x :: inner ++ new)

variable {children : κ → List κ} {ignore todo new : List κ}

/-- One step down. -/
def Child (children : κ → List κ) (x y : κ) : Prop := y ∈ children x

/-- Every node is visited once, and no node that is ignored. -/
theorem Visits.nodup (h : Visits children ignore todo new) :
    new.Nodup ∧ ∀ x ∈ new, x ∉ ignore := by
  induction h with
  | nil => simp
  | skip _ _ ih => exact ih
  | visit hx _ _ inside after =>
    obtain ⟨nodup, out⟩ := inside
    obtain ⟨nodup', out'⟩ := after
    refine ⟨?_, ?_⟩
    · rw [List.nodup_append, List.nodup_cons]
      refine ⟨⟨fun h => out _ h (by simp), nodup⟩, nodup', ?_⟩
      rintro a ha b hb rfl
      exact out' a hb (List.mem_append_right _ ha)
    · intro y hy
      rcases List.mem_append.mp hy with hy | hy
      · rcases List.mem_cons.mp hy with rfl | hy
        · exact hx
        · exact fun h => out y hy (List.mem_append_left _ h)
      · exact fun h => out' y hy (List.mem_append_left _ h)

/-- All of `todo` has been met afterwards. -/
theorem Visits.covers (h : Visits children ignore todo new) :
    ∀ x ∈ todo, x ∈ ignore ∨ x ∈ new := by
  induction h with
  | nil => simp
  | skip hx _ ih => grind
  | visit _ _ _ _ after => grind

/-- So have the children of whatever was visited. -/
theorem Visits.closed (h : Visits children ignore todo new) :
    ∀ x ∈ new, ∀ y ∈ children x, y ∈ ignore ∨ y ∈ new := by
  induction h with
  | nil => simp
  | skip _ _ ih => exact ih
  | visit _ visited _ inside after =>
    have := visited.covers
    grind

/-- Only what can be reached is visited. -/
theorem Visits.reaches (h : Visits children ignore todo new) :
    ∀ y ∈ new, ∃ x ∈ todo, ReflTransGen (Child children) x y := by
  induction h with
  | nil => simp
  | skip _ _ ih => grind
  | @visit _ _ _ _ x _ _ _ inside after =>
    intro y hy
    rcases List.mem_append.mp hy with hy | hy
    · refine ⟨x, List.mem_cons_self, ?_⟩
      rcases List.mem_cons.mp hy with rfl | hy
      · exact .refl
      · obtain ⟨z, hz, path⟩ := inside y hy
        exact .head hz path
    · obtain ⟨z, hz, path⟩ := after y hy
      exact ⟨z, List.mem_cons_of_mem _ hz, path⟩

/-- From one node, with nothing to ignore, exactly what can be reached is visited. -/
theorem Visits.mem_iff {x y : κ} (h : Visits children [] [x] new) :
    y ∈ new ↔ ReflTransGen (Child children) x y := by
  refine ⟨fun hy => ?_, fun path => ?_⟩
  · obtain ⟨z, hz, path⟩ := h.reaches y hy
    rwa [← List.mem_singleton.mp hz]
  · induction path with
    | refl => exact (h.covers x (by simp)).resolve_left (by simp)
    | tail _ step ih => exact (h.closed _ ih _ step).resolve_left (by simp)

/-- Two parts of `todo`, one after the other. -/
theorem Visits.append {todo' new' : List κ} (h : Visits children ignore todo new)
    (h' : Visits children (ignore ++ new) todo' new') :
    Visits children ignore (todo ++ todo') (new ++ new') := by
  induction h with
  | nil => simpa using h'
  | skip hx _ ih => exact .skip hx (ih h')
  | visit hx inside _ _ ih =>
    rw [List.append_assoc]
    exact .visit hx inside (ih (by simpa using h'))

/-! ## The first occurrences in a walk -/

/-- The walk through all of `todo`, where nothing is remembered but the nodes above: a branch
ends at a node that is its own ancestor, and everything else is met again. -/
inductive Walks (children : κ → List κ) : List κ → List κ → List κ → Prop where
  | nil {path : List κ} : Walks children path [] []
  | stop {path todo met : List κ} {x : κ} : x ∈ path → Walks children path todo met →
      Walks children path (x :: todo) (x :: met)
  | enter {path todo inner met : List κ} {x : κ} : x ∉ path →
      Walks children (x :: path) (children x) inner → Walks children path todo met →
      Walks children path (x :: todo) (x :: inner ++ met)

/-- Whatever has been seen and is not above has no children that are new. -/
def Done (children : κ → List κ) (path seen : List κ) : Prop :=
  ∀ x ∈ seen, x ∉ path → ∀ y ∈ children x, y ∈ seen

/-- A walk does not get out of what is done. -/
theorem Walks.within {path met seen : List κ} (h : Walks children path todo met)
    (done : Done children path seen) (inside : ∀ x ∈ todo, x ∈ seen) : ∀ x ∈ met, x ∈ seen := by
  induction h with
  | nil => simp
  | stop _ _ ih =>
    obtain ⟨here, rest⟩ := List.forall_mem_cons.mp inside
    exact List.forall_mem_cons.mpr ⟨here, ih done rest⟩
  | @enter path _ _ _ x new _ _ below after =>
    obtain ⟨here, rest⟩ := List.forall_mem_cons.mp inside
    have deeper : Done children (x :: path) seen := fun y hy out =>
      done y hy fun above => out (List.mem_cons_of_mem x above)
    refine List.forall_mem_cons.mpr ⟨here, fun y hy => ?_⟩
    rcases List.mem_append.mp hy with hy | hy
    · exact below deeper (done x here new) y hy
    · exact after done rest y hy

section Firsts

variable [DecidableEq κ]

/-- The first occurrence of each node that has not been seen, in order. -/
def firsts : List κ → List κ → List κ
  | _, [] => []
  | seen, x :: met => if x ∈ seen then firsts seen met else x :: firsts (seen ++ [x]) met

variable {seen met met' : List κ} {x : κ}

theorem firsts_cons_of_mem (h : x ∈ seen) : firsts seen (x :: met) = firsts seen met := if_pos h

theorem firsts_cons_of_not_mem (h : x ∉ seen) :
    firsts seen (x :: met) = x :: firsts (seen ++ [x]) met := if_neg h

theorem firsts_append (seen met met' : List κ) :
    firsts seen (met ++ met') = firsts seen met ++ firsts (seen ++ firsts seen met) met' := by
  induction met generalizing seen with
  | nil => simp [firsts]
  | cons x met ih =>
    by_cases h : x ∈ seen
    · rw [List.cons_append, firsts_cons_of_mem h, firsts_cons_of_mem h, ih]
    · rw [List.cons_append, firsts_cons_of_not_mem h, firsts_cons_of_not_mem h, ih]
      simp

theorem firsts_eq_nil (h : ∀ x ∈ met, x ∈ seen) : firsts seen met = [] := by
  induction met with
  | nil => rfl
  | cons x met ih =>
    rw [firsts_cons_of_mem (h x List.mem_cons_self)]
    exact ih fun y hy => h y (List.mem_cons_of_mem x hy)

/-- What a traversal visits, in its order, are the first occurrences in the walk. -/
theorem Visits.eq_firsts {path : List κ} (walk : Walks children path todo met)
    (above : ∀ x ∈ path, x ∈ ignore) (done : Done children path ignore)
    (h : Visits children ignore todo new) : new = firsts ignore met := by
  induction walk generalizing ignore new with
  | nil =>
    cases h
    rfl
  | stop onPath _ ih =>
    cases h with
    | skip here h =>
      rw [firsts_cons_of_mem here]
      exact ih above done h
    | visit out => exact absurd (above _ onPath) out
  | @enter path todo inner met x new' below _ ihBelow ihAfter =>
    have deeper : ∀ ignore, Done children path ignore → Done children (x :: path) ignore :=
      fun _ done y hy out => done y hy fun above => out (List.mem_cons_of_mem x above)
    cases h with
    | skip here h =>
      -- it has been left: all that is below it has been seen
      have seen := below.within (deeper ignore done) (done x here new')
      rw [List.cons_append, firsts_cons_of_mem here, firsts_append, firsts_eq_nil seen]
      simpa using ihAfter above done h
    | @visit _ _ visited _ _ out inside after =>
      have entering : Done children (x :: path) (ignore ++ [x]) := by
        intro y hy notAbove z hz
        rcases List.mem_append.mp hy with hy | hy
        · exact List.mem_append_left _ (deeper ignore done y hy notAbove z hz)
        · exact absurd (List.mem_singleton.mp hy ▸ List.mem_cons_self) notAbove
      have leaving : Done children path (ignore ++ x :: visited) := by
        have covers := inside.covers
        have closed := inside.closed
        intro y hy notAbove z hz
        simp only [List.mem_append, List.mem_cons, List.not_mem_nil, or_false] at hy covers closed ⊢
        rcases hy with hy | rfl | hy
        · exact .inl (done y hy notAbove z hz)
        · rcases covers z hz with (seen | same) | new
          · exact .inl seen
          · exact .inr (.inl same)
          · exact .inr (.inr new)
        · rcases closed y hy z hz with (seen | same) | new
          · exact .inl seen
          · exact .inr (.inl same)
          · exact .inr (.inr new)
      have first : visited = firsts (ignore ++ [x]) inner := by
        refine ihBelow (fun y hy => ?_) entering inside
        rcases List.mem_cons.mp hy with rfl | hy
        · exact List.mem_append_right _ List.mem_cons_self
        · exact List.mem_append_left _ (above y hy)
      have second := ihAfter (fun y hy => List.mem_append_left _ (above y hy)) leaving after
      rw [List.cons_append, List.cons_append, firsts_cons_of_not_mem out, firsts_append, ← first,
        second, List.append_assoc, List.singleton_append]

end Firsts

/-- There is a walk if the nodes that have children are finitely many. -/
theorem exists_walks [DecidableEq κ] {inner : List κ}
    (finite : ∀ x, children x ≠ [] → x ∈ inner) (path todo : List κ) :
    ∃ met, Walks children path todo met := by
  induction hn : (inner.filter (· ∉ path)).length using Nat.strongRecOn
    generalizing path todo with
  | ind n ih =>
    induction todo with
    | nil => exact ⟨[], .nil⟩
    | cons x todo ihTodo =>
      obtain ⟨met, walk⟩ := ihTodo
      by_cases onPath : x ∈ path
      · exact ⟨_, .stop onPath walk⟩
      by_cases leaf : children x = []
      · have below : Walks children (x :: path) (children x) [] := by
          rw [leaf]
          exact .nil
        exact ⟨_, .enter onPath below walk⟩
      · have fewer : (inner.filter (· ∉ x :: path)).length < n := by
          have split : inner.filter (· ∉ x :: path) =
              (inner.filter (· ∉ path)).filter (· ≠ x) := by
            rw [List.filter_filter]
            refine List.filter_congr fun y _ => ?_
            simp
          have here : x ∈ inner.filter (· ∉ path) := by simp [finite x leaf, onPath]
          rw [split, ← hn]
          exact List.length_filter_lt_length_iff_exists.mpr ⟨x, here, by simp⟩
        obtain ⟨met', below⟩ := ih _ fewer (x :: path) (children x) rfl
        exact ⟨_, .enter onPath below walk⟩

end ElanAgent.Traversal
