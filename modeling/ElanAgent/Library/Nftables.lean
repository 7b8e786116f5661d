import Mathlib.Data.List.Basic

/-!
# Rules, chains and verdicts of nftables

A rule is a list of statements run from left to right on a packet of any type `π`: an
expression that does not match, or a map without the key, ends the rule where it is,
and what the earlier statements did to the packet stays. `accept` and `drop` leave the
base chain, and a jumped chain that is run to its end returns to the next rule of the
chain that jumped.

The kernel nests chains to a fixed depth, so the evaluation of a chain takes the
number of chains that may still be entered and is undefined beyond it.
-/

namespace ElanAgent.Nftables

variable {C π : Type}

inductive Verdict (C : Type) where
  | accept
  | drop
  | jump (chain : C)
  deriving DecidableEq, Repr

/-- A statement of a rule. `update` sets a part of the packet to a value that may be
missing, and `vmap` looks its verdict up in a map. -/
inductive Statement (C π : Type) where
  | test (holds : π → Bool)
  | update (value : π → Option π)
  | log
  | verdict (v : Verdict C)
  | vmap (lookup : π → Option (Verdict C))

abbrev Rule (C π : Type) := List (Statement C π)

/-- How a rule or a chain is left: with a verdict, or towards the next rule. -/
inductive Outcome (π : Type) where
  | accept (p : π)
  | drop (p : π)
  | next (p : π)
  deriving DecidableEq, Repr

/-- Follow a verdict, with `enter` for the chains. -/
def Verdict.follow (enter : C → π → Option (Outcome π)) (p : π) :
    Verdict C → Option (Outcome π)
  | .accept => some (.accept p)
  | .drop => some (.drop p)
  | .jump chain => enter chain p

def evalRule (enter : C → π → Option (Outcome π)) : Rule C π → π → Option (Outcome π)
  | [], p => some (.next p)
  | .test holds :: rest, p => if holds p then evalRule enter rest p else some (.next p)
  | .update value :: rest, p => (value p).elim (some (.next p)) (evalRule enter rest)
  | .log :: rest, p => evalRule enter rest p
  | .verdict v :: _, p => v.follow enter p
  | .vmap lookup :: _, p => (lookup p).elim (some (.next p)) (Verdict.follow enter p)

def evalRules (enter : C → π → Option (Outcome π)) : List (Rule C π) → π → Option (Outcome π)
  | [], p => some (.next p)
  | rule :: rules, p =>
    match evalRule enter rule p with
    | some (.next q) => evalRules enter rules q
    | left => left

/-- Evaluate a chain, entering at most `depth` chains one inside the other. -/
def evalChain (rules : C → List (Rule C π)) : Nat → C → π → Option (Outcome π)
  | 0, _, _ => none
  | depth + 1, chain, p => evalRules (evalChain rules depth) (rules chain) p

/-- `NFT_JUMP_STACK_SIZE`. -/
def jumpStackSize : Nat := 16

/-- A base chain with policy accept: does the packet go on, and as it is then. -/
def baseChain (rules : C → List (Rule C π)) (chain : C) (p : π) : Option (Bool × π) :=
  (evalChain rules jumpStackSize chain p).map fun
    | .accept q | .next q => (true, q)
    | .drop q => (false, q)

/-- The base chains of one hook, in the order of their priorities. -/
def hook (rules : C → List (Rule C π)) : List C → π → Option (Bool × π)
  | [], p => some (true, p)
  | chain :: chains, p => (baseChain rules chain p).bind fun (passed, q) =>
    if passed then hook rules chains q else some (false, q)

section Lemmas

variable (enter : C → π → Option (Outcome π)) (p : π)

@[simp] theorem evalRule_test (holds : π → Bool) (rest : Rule C π) :
    evalRule enter (.test holds :: rest) p =
      if holds p then evalRule enter rest p else some (.next p) := rfl

@[simp] theorem evalRule_log (rest : Rule C π) :
    evalRule enter (.log :: rest) p = evalRule enter rest p := rfl

@[simp] theorem evalRule_accept (rest : Rule C π) :
    evalRule enter (.verdict .accept :: rest) p = some (.accept p) := rfl

@[simp] theorem evalRule_drop (rest : Rule C π) :
    evalRule enter (.verdict .drop :: rest) p = some (.drop p) := rfl

@[simp] theorem evalRule_jump (chain : C) (rest : Rule C π) :
    evalRule enter (.verdict (.jump chain) :: rest) p = enter chain p := rfl

theorem evalRule_update_some {value : π → Option π} {q : π} (h : value p = some q)
    (rest : Rule C π) : evalRule enter (.update value :: rest) p = evalRule enter rest q := by
  simp [evalRule, h]

/-- A rule that does not match leaves the packet to the next rule. -/
theorem evalRules_cons_next {rule : Rule C π} {q : π} (h : evalRule enter rule p = some (.next q))
    (rules : List (Rule C π)) : evalRules enter (rule :: rules) p = evalRules enter rules q := by
  simp [evalRules, h]

theorem evalRules_cons_accept {rule : Rule C π} {q : π}
    (h : evalRule enter rule p = some (.accept q)) (rules : List (Rule C π)) :
    evalRules enter (rule :: rules) p = some (.accept q) := by
  simp [evalRules, h]

/-- The rule that accepts what passes all of `tests`. -/
def acceptIf (tests : List (π → Bool)) : Rule C π :=
  tests.map .test ++ [.verdict .accept]

theorem evalRule_acceptIf (tests : List (π → Bool)) :
    evalRule enter (acceptIf tests) p =
      some (if ∀ t ∈ tests, t p then .accept p else .next p) := by
  induction tests with
  | nil => simp [acceptIf]
  | cons t tests ih =>
    have split : acceptIf (t :: tests) = Statement.test t :: acceptIf (C := C) tests := rfl
    rw [split, evalRule_test, ih]
    by_cases ht : t p <;> simp [ht]

/-- Some row of tests passes as a whole. -/
def Matches (rows : List (List (π → Bool))) (p : π) : Prop :=
  ∃ tests ∈ rows, ∀ t ∈ tests, t p

instance (rows : List (List (π → Bool))) : Decidable (Matches rows p) :=
  inferInstanceAs (Decidable (∃ tests ∈ rows, ∀ t ∈ tests, t p))

theorem not_matches_nil : ¬Matches [] p := by simp [Matches]

theorem matches_cons {tests : List (π → Bool)} {rows : List (List (π → Bool))} :
    Matches (tests :: rows) p ↔ (∀ t ∈ tests, t p) ∨ Matches rows p := by simp [Matches]

/-- Accepting rules followed by `rules`: the first that matches decides, and the packet
is not changed before. -/
theorem evalRules_acceptIf (rows : List (List (π → Bool))) (rules : List (Rule C π)) :
    evalRules enter (rows.map acceptIf ++ rules) p =
      if Matches rows p then some (.accept p) else evalRules enter rules p := by
  induction rows with
  | nil => simp [not_matches_nil]
  | cons tests rows ih =>
    have first := evalRule_acceptIf enter p tests
    by_cases ht : ∀ t ∈ tests, t p
    · rw [if_pos ht] at first
      rw [List.map_cons, List.cons_append, evalRules_cons_accept enter p first,
        if_pos ((matches_cons p).mpr (.inl ht))]
    · rw [if_neg ht] at first
      have same : Matches (tests :: rows) p ↔ Matches rows p := by
        rw [matches_cons, or_iff_right ht]
      rw [List.map_cons, List.cons_append, evalRules_cons_next enter p first, ih]
      simp only [same]

/-- A chain of accepting rules accepts what one of them matches, and returns otherwise. -/
theorem evalChain_acceptIf {rules : C → List (Rule C π)} {chain : C}
    {rows : List (List (π → Bool))} (h : rules chain = rows.map acceptIf) (depth : Nat) :
    evalChain rules (depth + 1) chain p =
      some (if Matches rows p then .accept p else .next p) := by
  have all := evalRules_acceptIf (evalChain rules depth) p rows []
  rw [List.append_nil, ← h] at all
  rw [evalChain, all]
  split <;> rfl

end Lemmas

/-! ## What every packet keeps -/

/-- The packet as it leaves. -/
def Outcome.packet : Outcome π → π
  | .accept p | .drop p | .next p => p

/-- What a rule does keeps `P`, and leads to no other chains than those of `within`. -/
structure Keeps (within : C → Prop) (P : π → Prop) (rule : Rule C π) : Prop where
  updates : ∀ value, .update value ∈ rule → ∀ p q, P p → value p = some q → P q
  jumps : ∀ chain, .verdict (.jump chain) ∈ rule → within chain
  maps : ∀ lookup, .vmap lookup ∈ rule → ∀ p chain, lookup p = some (.jump chain) → within chain

section Keeps

variable {within : C → Prop} {P : π → Prop} {enter : C → π → Option (Outcome π)}

theorem Keeps.tail {s : Statement C π} {rest : Rule C π} (h : Keeps within P (s :: rest)) :
    Keeps within P rest where
  updates value hv := h.updates value (List.mem_cons_of_mem _ hv)
  jumps chain hc := h.jumps chain (List.mem_cons_of_mem _ hc)
  maps lookup hl := h.maps lookup (List.mem_cons_of_mem _ hl)

theorem follow_keeps
    (enters : ∀ chain, within chain → ∀ p left, P p → enter chain p = some left → P left.packet)
    {p : π} {left : Outcome π} (hp : P p) {v : Verdict C}
    (leads : ∀ chain, v = .jump chain → within chain) (h : v.follow enter p = some left) :
    P left.packet := by
  cases v with
  | accept | drop =>
    obtain rfl := Option.some.inj h
    exact hp
  | jump chain => exact enters chain (leads chain rfl) p left hp h

theorem evalRule_keeps
    (enters : ∀ chain, within chain → ∀ p left, P p → enter chain p = some left → P left.packet)
    {rule : Rule C π} (keeps : Keeps within P rule) {p : π} {left : Outcome π} (hp : P p)
    (h : evalRule enter rule p = some left) : P left.packet := by
  induction rule generalizing p with
  | nil =>
    obtain rfl := Option.some.inj h
    exact hp
  | cons s rest ih =>
    cases s with
    | test holds =>
      rw [evalRule] at h
      split at h
      · exact ih keeps.tail hp h
      · obtain rfl := Option.some.inj h
        exact hp
    | update value =>
      rw [evalRule] at h
      cases hv : value p with
      | none =>
        rw [hv] at h
        obtain rfl := Option.some.inj h
        exact hp
      | some q =>
        rw [hv] at h
        exact ih keeps.tail (keeps.updates value List.mem_cons_self p q hp hv) h
    | log => exact ih keeps.tail hp h
    | verdict v =>
      exact follow_keeps enters hp (fun chain hc => keeps.jumps chain (by simp [hc])) h
    | vmap lookup =>
      rw [evalRule] at h
      cases hv : lookup p with
      | none =>
        rw [hv] at h
        obtain rfl := Option.some.inj h
        exact hp
      | some v =>
        rw [hv] at h
        exact follow_keeps enters hp
          (fun chain hc => keeps.maps lookup List.mem_cons_self p chain (hc ▸ hv)) h

theorem evalRules_keeps
    (enters : ∀ chain, within chain → ∀ p left, P p → enter chain p = some left → P left.packet)
    {rules : List (Rule C π)} (keeps : ∀ rule ∈ rules, Keeps within P rule) {p : π}
    {left : Outcome π} (hp : P p) (h : evalRules enter rules p = some left) : P left.packet := by
  induction rules generalizing p with
  | nil =>
    obtain rfl := Option.some.inj h
    exact hp
  | cons rule rules ih =>
    have first : ∀ left, evalRule enter rule p = some left → P left.packet := fun _ hl =>
      evalRule_keeps enters (keeps rule List.mem_cons_self) hp hl
    rw [evalRules] at h
    split at h
    · rename_i q hq
      exact ih (fun rule hr => keeps rule (List.mem_cons_of_mem _ hr)) (first _ hq) h
    · exact first left h

/-- What the rules of some chains keep, and lead to no others, these chains keep. -/
theorem evalChain_keeps {rules : C → List (Rule C π)}
    (keeps : ∀ chain, within chain → ∀ rule ∈ rules chain, Keeps within P rule) (depth : Nat)
    {chain : C} (hc : within chain) {p : π} {left : Outcome π} (hp : P p)
    (h : evalChain rules depth chain p = some left) : P left.packet := by
  induction depth generalizing chain p left with
  | zero => cases h
  | succ depth ih =>
    exact evalRules_keeps (fun chain hc p left hp h => ih hc hp h) (keeps chain hc) hp h

theorem baseChain_keeps {rules : C → List (Rule C π)}
    (keeps : ∀ chain, within chain → ∀ rule ∈ rules chain, Keeps within P rule) {chain : C}
    (hc : within chain) {p q : π} {passed : Bool} (hp : P p)
    (h : baseChain rules chain p = some (passed, q)) : P q := by
  obtain ⟨left, hleft, same⟩ := Option.map_eq_some_iff.mp h
  have kept := evalChain_keeps keeps jumpStackSize hc hp hleft
  cases left <;>
    · obtain ⟨-, rfl⟩ := Prod.mk.inj same
      exact kept

end Keeps

/-! ## What is logged -/

def Outcome.map {ρ : Type} (f : π → ρ) : Outcome π → Outcome ρ
  | .accept p => .accept (f p)
  | .drop p => .drop (f p)
  | .next p => .next (f p)

/-- A statement on a packet and on the packets that have been logged. -/
def Statement.traced : Statement C π → Statement C (π × List π)
  | .test holds => .test fun t => holds t.1
  | .update value => .update fun t => (value t.1).map fun q => (q, t.2)
  | .log => .update fun t => some (t.1, t.2 ++ [t.1])
  | .verdict v => .verdict v
  | .vmap lookup => .vmap fun t => lookup t.1

def traced (rules : C → List (Rule C π)) (chain : C) : List (Rule C (π × List π)) :=
  (rules chain).map fun rule => rule.map .traced

/-- A base chain, and the packets that it logs, each as it is when it is logged. -/
def baseChainLogged (rules : C → List (Rule C π)) (chain : C) (p : π) :
    Option (Bool × π × List π) :=
  baseChain (traced rules) chain (p, [])

/-- The rule leaves the packet to the next one, or accepts it as it is. -/
def Passive (enter : C → π → Option (Outcome π)) (rule : Rule C π) : Prop :=
  ∀ p, evalRule enter rule p = some (.accept p) ∨ evalRule enter rule p = some (.next p)

section Logs

variable {enter : C → π → Option (Outcome π)}
  {enterTraced : C → π × List π → Option (Outcome (π × List π))}

theorem follow_traced
    (enters : ∀ chain t, (enterTraced chain t).map (.map Prod.fst) = enter chain t.1)
    (v : Verdict C) (t : π × List π) :
    (v.follow enterTraced t).map (.map Prod.fst) = v.follow enter t.1 := by
  cases v with
  | accept | drop => rfl
  | jump chain => exact enters chain t

theorem evalRule_traced
    (enters : ∀ chain t, (enterTraced chain t).map (.map Prod.fst) = enter chain t.1)
    (rule : Rule C π) (t : π × List π) :
    (evalRule enterTraced (rule.map .traced) t).map (.map Prod.fst) = evalRule enter rule t.1 := by
  induction rule generalizing t with
  | nil => rfl
  | cons s rest ih =>
    cases s with
    | test holds =>
      simp only [List.map_cons, Statement.traced, evalRule]
      split
      · exact ih t
      · rfl
    | update value =>
      simp only [List.map_cons, Statement.traced, evalRule]
      cases hv : value t.1 with
      | none => rfl
      | some q => exact ih (q, t.2)
    | log => exact ih (t.1, t.2 ++ [t.1])
    | verdict v => exact follow_traced enters v t
    | vmap lookup =>
      simp only [List.map_cons, Statement.traced, evalRule]
      cases hv : lookup t.1 with
      | none => rfl
      | some v => exact follow_traced enters v t

theorem evalRules_traced
    (enters : ∀ chain t, (enterTraced chain t).map (.map Prod.fst) = enter chain t.1)
    (rules : List (Rule C π)) (t : π × List π) :
    (evalRules enterTraced (rules.map fun rule => rule.map .traced) t).map (.map Prod.fst) =
      evalRules enter rules t.1 := by
  induction rules generalizing t with
  | nil => rfl
  | cons rule rules ih =>
    have first := evalRule_traced enters rule t
    rw [List.map_cons, evalRules, evalRules, ← first]
    cases evalRule enterTraced (rule.map .traced) t with
    | none => rfl
    | some left =>
      cases left with
      | accept q | drop q => rfl
      | next q => exact ih q

/-- Logging does not change what becomes of a packet. -/
theorem evalChain_traced (rules : C → List (Rule C π)) (depth : Nat) (chain : C)
    (t : π × List π) : (evalChain (traced rules) depth chain t).map (.map Prod.fst) =
      evalChain rules depth chain t.1 := by
  induction depth generalizing chain t with
  | zero => rfl
  | succ depth ih => exact evalRules_traced ih (rules chain) t

theorem baseChainLogged_fst (rules : C → List (Rule C π)) (chain : C) (p : π) :
    (baseChainLogged rules chain p).map (fun r => (r.1, r.2.1)) = baseChain rules chain p := by
  have same := evalChain_traced rules jumpStackSize chain (p, [])
  simp only [baseChainLogged, baseChain, ← same, Option.map_map]
  cases evalChain (traced rules) jumpStackSize chain (p, []) with
  | none => rfl
  | some left => cases left <;> rfl

/-- What every packet keeps, those that are logged have. -/
theorem Keeps.traced {within : C → Prop} {P : π → Prop} {rule : Rule C π}
    (keeps : Keeps within P rule) :
    Keeps within (fun t : π × List π => P t.1 ∧ ∀ q ∈ t.2, P q) (rule.map .traced) where
  updates value hv t u ht hu := by
    obtain ⟨s, hs, same⟩ := List.mem_map.mp hv
    cases s with
    | update before =>
      obtain rfl := Statement.update.inj same
      obtain ⟨q, hq, rfl⟩ := Option.map_eq_some_iff.mp hu
      exact ⟨keeps.updates before hs t.1 q ht.1 hq, ht.2⟩
    | log =>
      obtain rfl := Statement.update.inj same
      obtain rfl := Option.some.inj hu
      refine ⟨ht.1, fun q hq => ?_⟩
      rcases List.mem_append.mp hq with hq | hq
      · exact ht.2 q hq
      · exact List.mem_singleton.mp hq ▸ ht.1
    | test | verdict | vmap => cases same
  jumps chain hc := by
    obtain ⟨s, hs, same⟩ := List.mem_map.mp hc
    cases s with
    | verdict v => exact keeps.jumps chain (Statement.verdict.inj same ▸ hs)
    | test | update | log | vmap => cases same
  maps lookup hl t chain hc := by
    obtain ⟨s, hs, same⟩ := List.mem_map.mp hl
    cases s with
    | vmap before =>
      obtain rfl := Statement.vmap.inj same
      exact keeps.maps before hs t.1 chain hc
    | test | update | log | verdict => cases same

theorem baseChainLogged_keeps {within : C → Prop} {P : π → Prop} {rules : C → List (Rule C π)}
    (keeps : ∀ chain, within chain → ∀ rule ∈ rules chain, Keeps within P rule) {chain : C}
    (hc : within chain) {p q : π} {passed : Bool} {logs : List π} (hp : P p)
    (h : baseChainLogged rules chain p = some (passed, q, logs)) : P q ∧ ∀ l ∈ logs, P l := by
  refine baseChain_keeps (P := fun t => P t.1 ∧ ∀ l ∈ t.2, P l) (q := (q, logs))
    (fun chain hc rule hr => ?_) hc ⟨hp, by simp⟩ h
  obtain ⟨plain, hplain, rfl⟩ := List.mem_map.mp hr
  exact (keeps chain hc plain hplain).traced

theorem passive_acceptIf (enter : C → π × List π → Option (Outcome (π × List π)))
    (tests : List (π → Bool)) : Passive enter ((acceptIf tests).map .traced) := by
  intro t
  induction tests with
  | nil => exact .inl rfl
  | cons holds tests ih =>
    show (if holds t.1 then evalRule enter ((acceptIf tests).map .traced) t
      else some (.next t)) = _ ∨ (if holds t.1 then _ else _) = _
    split
    · exact ih
    · exact .inr rfl

/-- Passive rules in a row are passive. -/
theorem evalRules_passive {rules : List (Rule C π)} (passive : ∀ rule ∈ rules, Passive enter rule)
    (p : π) : evalRules enter rules p = some (.accept p) ∨
      evalRules enter rules p = some (.next p) := by
  induction rules with
  | nil => exact .inr rfl
  | cons rule rules ih =>
    rcases passive rule List.mem_cons_self p with first | first
    · exact .inl (evalRules_cons_accept enter p first rules)
    · rw [evalRules_cons_next enter p first]
      exact ih fun rule hr => passive rule (List.mem_cons_of_mem _ hr)

theorem evalRules_append (enter : C → π → Option (Outcome π)) (l l' : List (Rule C π)) (p : π) :
    evalRules enter (l ++ l') p = (evalRules enter l p).bind fun left =>
      match left with
      | .next q => evalRules enter l' q
      | left => some left := by
  induction l generalizing p with
  | nil => rfl
  | cons rule l ih =>
    rw [List.cons_append, evalRules, evalRules]
    cases evalRule enter rule p with
    | none => rfl
    | some left =>
      cases left with
      | accept q | drop q => rfl
      | next q => exact ih q

end Logs

end ElanAgent.Nftables
