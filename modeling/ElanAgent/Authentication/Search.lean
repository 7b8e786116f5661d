import ElanAgent.Authentication.Policy

/-!
# The search of a provider

What a request for a group comes to. The text of a provider either leaves the group or goes on
to the next one; the induction is over the providers of the group, and what the text of one of
them does is all that it needs.
-/

namespace ElanAgent.Authentication

open Failover

namespace Modules

/-! ## The search -/

section Search

variable (env : Modules) (auths : Authentications)

/-- The answer of a provider, and whether it ends the search. -/
def answered (id : Value) : Code := env.code (auths.find id).type id

def decides (id : Value) : Bool := env.ends (auths.find id).type id

/-- Try providers one after the other. -/
def search : List Value → Request → Option Code × Request
  | [], r => (none, r)
  | id :: ids, r =>
    if env.decides auths id then (some (env.answered auths id), env.ended (auths.find id).type id r)
    else search ids (env.tried (auths.find id).type id r)

/-- Where a section stands after providers that do not end the search. -/
def standing (s : Standing) (codes : List Code) : Standing :=
  codes.foldl (fun s c => (s.weigh .noop 2).weigh (counted c).code (counted c).priority) s

variable {env auths}

theorem block_text {id : Value} (h : (auths.find id).type ≠ .group) :
    (auths.block id).flatMap Piece.text = blockText (auths.find id).type id := by
  unfold Authentications.block blockText
  cases htype : (auths.find id).type with
  | group => exact absurd htype h
  | ldap | activeDirectory | external => simp

variable (env) in
theorem runAll_search {ids : List Value} (single : ∀ id ∈ ids, (auths.find id).type ≠ .group)
    (f : Frame) (r : Request) (rest : Text) :
    (∀ c, (env.search auths ids r).1 = some c →
      runAll env.semantics ((ids.flatMap auths.block).flatMap Piece.text ++ rest) f r =
        (.left c, (env.search auths ids r).2)) ∧
    ((env.search auths ids r).1 = none → ∃ last taken,
      runAll env.semantics ((ids.flatMap auths.block).flatMap Piece.text ++ rest) f r =
        runAll env.semantics rest ⟨last, standing f.standing (ids.map (env.answered auths)), taken⟩
          (env.search auths ids r).2) := by
  induction ids generalizing f r with
  | nil => exact ⟨fun _ h => (by cases h), fun _ => ⟨f.last, f.taken, rfl⟩⟩
  | cons id ids ih =>
    rw [List.flatMap_cons, List.flatMap_append, block_text (single id List.mem_cons_self),
      List.append_assoc]
    unfold search
    by_cases ends : env.decides auths id
    · rw [if_pos ends]
      refine ⟨fun c hc => ?_, fun h => (by cases h)⟩
      obtain rfl := Option.some.inj hc
      exact runAll_block_left ends _
    · rw [if_neg ends]
      obtain ⟨last, taken, ran⟩ := runAll_block_next (f := f) (r := r) (Bool.eq_false_iff.mpr ends)
        ((ids.flatMap auths.block).flatMap Piece.text ++ rest)
      rw [ran]
      exact ih (fun id h => single id (List.mem_cons_of_mem _ h)) _ _

/-- What is done for a provider that does not end the search. -/
theorem tried_keeps {α : Type} (g : Request → α)
    (keeps : ∀ u r, u = .noMessages ∨ u = .nonFailed → g (Update.apply u r) = g r)
    (type : AuthType) (id : Value) (r : Request) :
    g (env.tried type id r) = g (env.ended type id r) := by
  unfold tried
  split
  · exact keeps _ _ (.inl rfl)
  · rfl
  · exact keeps _ _ (.inr rfl)

theorem requested_ended (type : AuthType) (id : Value) (r : Request) :
    (env.ended type id r).requested = r.requested := by
  unfold ended
  split <;> simp [tell, ask]

theorem provider_ended (type : AuthType) (id : Value) (r : Request) :
    (env.ended type id r).provider = some id.format := by
  unfold ended
  split
  · exact provider_ask env type id r
  · exact provider_ask env type id r

theorem nonFailed_ended (type : AuthType) (id : Value) (r : Request) :
    (env.ended type id r).nonFailed = r.nonFailed := by
  unfold ended ask providerUpdate
  split <;> split <;> rfl

section Cons

variable {id : Value} {ids : List Value} {r : Request}

theorem search_ends (ends : env.decides auths id = true) : env.search auths (id :: ids) r =
    (some (env.answered auths id), env.ended (auths.find id).type id r) := if_pos ends

theorem search_next (goesOn : env.decides auths id = false) : env.search auths (id :: ids) r =
    env.search auths ids (env.tried (auths.find id).type id r) := if_neg (by simp [goesOn])

end Cons

variable (env auths) in
theorem search_fst (ids : List Value) (r : Request) :
    (env.search auths ids r).1 = (ids.find? (env.decides auths)).map (env.answered auths) := by
  induction ids generalizing r with
  | nil => rfl
  | cons id ids ih =>
    cases ends : env.decides auths id with
    | true => rw [search_ends ends, List.find?_cons_of_pos ends, Option.map_some]
    | false => rw [search_next ends, ih, List.find?_cons_of_neg (by simp [ends])]

variable (env auths) in
theorem requested_search (ids : List Value) (r : Request) :
    (env.search auths ids r).2.requested = r.requested := by
  induction ids generalizing r with
  | nil => rfl
  | cons id ids ih =>
    cases ends : env.decides auths id with
    | true => rw [search_ends ends, requested_ended]
    | false =>
      rw [search_next ends, ih, tried_keeps (·.requested) (fun _ _ _ => requested_apply _ _),
        requested_ended]

theorem provider_search (ids : List Value) (r : Request) :
    (env.search auths ids r).2.provider =
      ((upTo (env.decides auths) ids).getLast?.map Value.format).or r.provider := by
  induction ids generalizing r with
  | nil => rfl
  | cons id ids ih =>
    cases ends : env.decides auths id with
    | true => simp [search_ends ends, provider_ended, upTo, ends]
    | false =>
      have named : (env.tried (auths.find id).type id r).provider = some id.format := by
        rw [tried_keeps (·.provider) (by rintro u r (rfl | rfl) <;> rfl), provider_ended]
      rw [search_next ends, ih, named]
      simp only [upTo, ends, Bool.false_eq_true, if_false, List.getLast?_cons]
      cases (upTo (env.decides auths) ids).getLast? <;> rfl

/-- A provider has given a valid answer. -/
def valid (env : Modules) (auths : Authentications) (id : Value) : Bool :=
  env.answered auths id ≠ .fail && env.answered auths id ≠ .invalid

theorem nonFailed_search {ids : List Value} (r : Request)
    (open_ : ∀ id ∈ ids, env.decides auths id = false) :
    (env.search auths ids r).2.nonFailed = (r.nonFailed || ids.any (env.valid auths)) := by
  induction ids generalizing r with
  | nil => simp [search]
  | cons id ids ih =>
    have one : (env.tried (auths.find id).type id r).nonFailed =
        (r.nonFailed || env.valid auths id) := by
      unfold tried valid answered
      cases env.code (auths.find id).type id <;> simp [Update.apply, nonFailed_ended]
    rw [search_next (open_ id List.mem_cons_self),
      ih _ fun id h => open_ id (List.mem_cons_of_mem _ h), one, List.any_cons, Bool.or_assoc]

/-- Where a section stands after providers that do not end the search: at an unknown login if
one of them told of that, else at the first of them that has rejected or failed, a failure
counting as `ok` once it is told. -/
def conclusion (codes : List Code) : Code :=
  if .notfound ∈ codes then .notfound
  else ((codes.find? fun c => c = .reject || c = .fail).map fun c =>
    if c = .reject then .reject else .ok).getD .noop

theorem standing_eq (codes : List Code) : standing ⟨.noop, 0⟩ codes =
    ⟨conclusion codes, if .notfound ∈ codes then 4
      else if ∃ c ∈ codes, c = .reject ∨ c = .fail then 3
      else if codes = [] then 0 else 2⟩ := by
  induction codes using List.reverseRecOn with
  | nil => rfl
  | append_singleton codes c ih =>
    have step : standing ⟨.noop, 0⟩ (codes ++ [c]) =
        ((standing ⟨.noop, 0⟩ codes).weigh .noop 2).weigh (counted c).code
          (counted c).priority := by
      simp [standing]
    rw [step, ih]
    unfold conclusion
    by_cases unknown : Code.notfound ∈ codes
    · cases c <;> simp [unknown, counted, Standing.weigh]
    cases found : codes.find? fun c => c = .reject || c = .fail with
    | some d =>
      have some : ∃ c ∈ codes, c = .reject ∨ c = .fail :=
        ⟨d, List.mem_of_find?_eq_some found, by simpa using List.find?_some found⟩
      cases c <;> simp [unknown, some, found, counted, Standing.weigh, List.find?_append]
    | none =>
      have none : ∀ c ∈ codes, ¬(c = .reject ∨ c = .fail) := by
        simpa using List.find?_eq_none.mp found
      have absent : ¬∃ c ∈ codes, c = .reject ∨ c = .fail := by
        rintro ⟨c, hc, h⟩
        exact none c hc h
      by_cases empty : codes = []
      · cases c <;> simp [empty, counted, Standing.weigh]
      · cases c <;> simp [unknown, absent, empty, found, counted, Standing.weigh, List.find?_append]

/-- After failures and invalid answers only, nothing of a higher priority is in the way. -/
theorem standing_failed {codes : List Code} (failed : ∀ c ∈ codes, c = .fail ∨ c = .invalid) :
    (standing ⟨.noop, 0⟩ codes).priority < 3 ∨ (standing ⟨.noop, 0⟩ codes).code = .ok := by
  have known : .notfound ∉ codes := fun h => by simpa using failed _ h
  rw [standing_eq, if_neg known]
  by_cases some : ∃ c ∈ codes, c = .reject ∨ c = .fail
  · refine .inr ?_
    unfold conclusion
    rw [if_neg known]
    cases found : codes.find? fun c => c = .reject || c = .fail with
    | none =>
      obtain ⟨c, hc, h⟩ := some
      simpa [h] using List.find?_eq_none.mp found c hc
    | some d =>
      have told : d ≠ .reject := by
        rintro rfl
        simpa using failed _ (List.mem_of_find?_eq_some found)
      simp [told]
  · refine .inl ?_
    rw [if_neg some]
    split <;> simp

end Search

/-! ## A group -/

section Group

variable (env : Modules) (auths : Authentications)

def allFailedModule : String := "auth_all_providers_failed_in_group"

/-- The proxy publishes that no member of the group has answered. -/
def toldAll (r : Request) : Bool := env.told allFailedModule r.toAttributes.asked

/-- Tell that no provider of a group has given a valid answer. -/
def tellAll (r : Request) : Code × Request :=
  (if env.toldAll r then .ok else .fail, (env.call allFailedModule r).2)

/-- Try the providers of a group, and tell if none of them has given a valid answer. -/
def tryGroup (ids : List Value) (r : Request) : Code × Request :=
  let found := env.search auths ids r
  found.1.elim
    (if found.2.nonFailed then (conclusion (ids.map (env.answered auths)), found.2)
      else env.tellAll found.2)
    fun c => (c, found.2)

variable {env auths}

/-- Somebody has given a valid answer. -/
theorem runAll_allFailed_skip {f : Frame} {r : Request} (answered : r.nonFailed = true) :
    runAll env.semantics Piece.allFailedInGroup.text f r = (.next { f with taken := false }, r) :=
  (runAll_ifThen_false (by simp [semantics, Condition.holds, answered]) []).trans (runAll_nil ..)

variable (env) in
/-- Nobody has, which is told; it counts as `ok`. -/
theorem runAll_allFailed {f : Frame} {r : Request} (failed : r.nonFailed = false) :
    ∃ o, runAll env.semantics Piece.allFailedInGroup.text f r = (o, (env.tellAll r).2) ∧
      (f.standing.priority < 3 ∨ f.standing.code = .ok → o.code = (env.tellAll r).1) := by
  have asks : env.semantics.holds .noneAnswered f.code r = true := by
    simp [semantics, Condition.holds, failed]
  unfold tellAll toldAll
  cases told : env.told allFailedModule r.toAttributes.asked with
  | true =>
    have called : env.call allFailedModule r = (.ok, (env.call allFailedModule r).2) :=
      Prod.ext (of_decide_eq_true told) rfl
    have inner : runAll env.semantics [.call allFailedModule authorizeActions] f.enter r =
        (.next ⟨some .ok, ⟨.ok, 3⟩, false⟩, (env.call allFailedModule r).2) := by
      rw [runAll_call_next called rfl, runAll_nil]
      rfl
    refine ⟨_, (runAll_cons_next (run_ifThen asks inner) []).trans (runAll_nil _ _ _), fun h => ?_⟩
    show (f.standing.weigh .ok 3).code = .ok
    unfold Standing.weigh
    split
    · rfl
    · exact h.resolve_left ‹_›
  | false =>
    have answered : (env.answer allFailedModule r.toAttributes.asked).code = .fail :=
      (env.tells _ (by decide) _).resolve_left (of_decide_eq_false told)
    have called : env.call allFailedModule r = (.fail, (env.call allFailedModule r).2) :=
      Prod.ext answered rfl
    have inner : runAll env.semantics [.call allFailedModule authorizeActions] f.enter r =
        (.left .fail, (env.call allFailedModule r).2) := runAll_call_left called rfl _
    exact ⟨_, runAll_cons_left (run_ifThen asks inner) [], fun _ => rfl⟩

variable (env) in
/-- The text of a group tries its providers. -/
theorem runAll_group {ids : List Value} (single : ∀ id ∈ ids, (auths.find id).type ≠ .group)
    {r : Request} (new : r.nonFailed = false) (last : Option Code) (taken : Bool) :
    ∃ o, runAll env.semantics
      ((ids.flatMap auths.block ++ [Piece.allFailedInGroup]).flatMap Piece.text)
      ⟨last, ⟨.noop, 0⟩, taken⟩ r = (o, (env.tryGroup auths ids r).2) ∧
      o.code = (env.tryGroup auths ids r).1 := by
  obtain ⟨ended, goesOn⟩ := runAll_search env single ⟨last, ⟨.noop, 0⟩, taken⟩ r
    Piece.allFailedInGroup.text
  rw [List.flatMap_append, List.flatMap_singleton]
  unfold tryGroup
  cases found : (env.search auths ids r).1 with
  | some c =>
    simp only [found, Option.elim_some]
    exact ⟨.left c, ended c found, rfl⟩
  | none =>
    obtain ⟨last', taken', ran⟩ := goesOn found
    have undecided : ∀ id ∈ ids, env.decides auths id = false := by
      simpa [search_fst] using found
    rw [ran]
    simp only [found, Option.elim_none]
    cases answered : (env.search auths ids r).2.nonFailed with
    | true =>
      refine ⟨_, runAll_allFailed_skip answered, ?_⟩
      simp [Outcome.code, standing_eq]
    | false =>
      obtain ⟨o, told, code⟩ := runAll_allFailed env (f := ⟨last', standing ⟨.noop, 0⟩
        (ids.map (env.answered auths)), taken'⟩) answered
      refine ⟨o, told, code ?_⟩
      have invalid : ∀ id ∈ ids, env.valid auths id = false := by
        simpa [nonFailed_search r undecided, new] using answered
      exact standing_failed fun c hc => by
        obtain ⟨id, hid, rfl⟩ := List.mem_map.mp hc
        simpa [valid, or_iff_not_imp_left] using invalid id hid

/-- No provider gives a valid answer, and none ends the search. -/
def allFail (env : Modules) (auths : Authentications) (ids : List Value) : Bool :=
  ids.all fun id => !env.decides auths id && !env.valid auths id

section Outcome

variable {ids : List Value} {r : Request} (new : r.nonFailed = false)
include new

/-- The group is told of when all its providers fail. -/
theorem tryGroup_eq : env.tryGroup auths ids r =
    if env.allFail auths ids then env.tellAll (env.search auths ids r).2
    else (((ids.find? (env.decides auths)).map (env.answered auths)).getD
      (conclusion (ids.map (env.answered auths))), (env.search auths ids r).2) := by
  have first := search_fst env auths ids r
  unfold tryGroup
  cases found : ids.find? (env.decides auths) with
  | some id =>
    have one : env.allFail auths ids = false := by
      rw [allFail, List.all_eq_false]
      exact ⟨id, List.mem_of_find?_eq_some found, by simp [List.find?_some found]⟩
    rw [found] at first
    simp [first, one]
  | none =>
    have undecided : ∀ id ∈ ids, env.decides auths id = false := by simpa using found
    have failed : (env.search auths ids r).2.nonFailed = !env.allFail auths ids := by
      rw [nonFailed_search r undecided, new, Bool.false_or, allFail, List.not_all_eq_any_not]
      rw [Bool.eq_iff_iff, List.any_eq_true, List.any_eq_true]
      exact exists_congr fun id => and_congr_right fun hid => by simp [undecided id hid]
    rw [found] at first
    simp only [first, Option.map_none, Option.elim_none, failed, Option.getD_none]
    cases env.allFail auths ids <;> simp

theorem tryGroup_keeps {α : Type} (g : Request → α)
    (keeps : ∀ r, g (env.call allFailedModule r).2 = g r) :
    g (env.tryGroup auths ids r).2 = g (env.search auths ids r).2 := by
  rw [tryGroup_eq new]
  split
  · exact keeps _
  · rfl

end Outcome

/-- What a request for a group ends with, when `told` is whether its failure can be told. -/
def groupCode (env : Modules) (auths : Authentications) (ids : List Value) (told : Bool) : Code :=
  if env.allFail auths ids then (if told then .ok else .fail)
  else ((ids.find? (env.decides auths)).map (env.answered auths)).getD
    (conclusion (ids.map (env.answered auths)))

/-- Whether the failure of the group can be told depends on the last provider that is asked. -/
theorem toldAll_search (env : Modules) (auths : Authentications) (ids : List Value)
    (requested : String) : env.toldAll (env.search auths ids (.fresh requested)).2 =
      env.told allFailedModule
        (((upTo (env.decides auths) ids).getLast?.map Value.format).getD requested) := by
  unfold toldAll Attributes.asked
  rw [provider_search, requested_search]
  exact congrArg (fun session => env.told allFailedModule (session.getD requested)) Option.or_none

theorem tryGroup_code (env : Modules) (auths : Authentications) (ids : List Value)
    (requested : String) : (env.tryGroup auths ids (.fresh requested)).1 =
      env.groupCode auths ids (env.told allFailedModule
        (((upTo (env.decides auths) ids).getLast?.map Value.format).getD requested)) := by
  rw [tryGroup_eq rfl, ← toldAll_search]
  unfold groupCode
  split <;> rfl

end Group

/-! ## The policy -/

section Policy

variable {env : Modules}

/-- What follows the switch. -/
def finish (r : Request) : Request :=
  Update.control.apply (if Condition.adProvider.holds .noop r then
    (Update.useNtlm true).apply r else r)

theorem counts_authorizeActions {c : Code} {n : ℕ} (h : authorizeActions c = .priority n) :
    0 < n := by
  cases c <;> simp [authorizeActions] at h <;> omega

/-- The end of the policy. -/
theorem runAll_finish {last : Option Code} {s : Standing} (low : 2 ≤ s.priority) (r : Request) :
    runAll env.semantics [.ifThen .adProvider [.update (.useNtlm true)], .update .control]
      ⟨last, s, false⟩ r = (.next ⟨some .noop, s, false⟩, finish r) := by
  have control (last : Option Code) (taken : Bool) (r : Request) :
      runAll env.semantics [.update .control] ⟨last, s, taken⟩ r =
        (.next ⟨some .noop, s, false⟩, Update.control.apply r) := by
    rw [runAll_update rfl, runAll_nil, Standing.weigh_of_le low]
    rfl
  unfold finish
  cases asks : Condition.adProvider.holds .noop r with
  | true =>
    have inner : runAll env.semantics [.update (.useNtlm true)]
        (Frame.enter ⟨last, s, false⟩) r =
        (.next ⟨some .noop, ⟨.noop, 2⟩, false⟩, (Update.useNtlm true).apply r) := by
      rw [runAll_update rfl, runAll_nil]
      rfl
    have taken : (Statement.ifThen Condition.adProvider [.update (.useNtlm true)]).run
        env.semantics ⟨last, s, false⟩ r =
        (.next ⟨some .noop, s, true⟩, (Update.useNtlm true).apply r) := by
      rw [run_ifThen asks inner]
      show (Outcome.next ⟨some .noop, s.weigh .noop 2, true⟩, _) = _
      rw [Standing.weigh_of_le low]
    rw [runAll_cons_next taken, control]
    rfl
  | false =>
    rw [runAll_ifThen_false asks, control]
    rfl

/-- A case that is left with some codes leaves the policy. -/
theorem runSection_policyText {selected : Text} {r r' : Request} {inner : Outcome}
    (ran : runAll env.semantics selected ⟨none, ⟨.noop, 0⟩, false⟩
      (Update.noMessages.apply ((Update.useNtlm false).apply r)) = (inner, r')) :
    runSection env.semantics (policyText selected) r =
      if authorizeActions inner.code = .leave then (inner.code, r')
      else (if inner.code = .notfound then .noop else inner.code, finish r') := by
  obtain ⟨o, case, code⟩ := runAll_group_alone (f := ⟨some .noop, ⟨.noop, 2⟩, false⟩)
    (fun c n => counts_authorizeActions) ran
  have start : runAll env.semantics (policyText selected) ⟨none, ⟨.noop, 0⟩, false⟩ r =
      runAll env.semantics (.group [.group selected] ::
        [.ifThen .adProvider [.update (.useNtlm true)], .update .control])
        ⟨some .noop, ⟨.noop, 2⟩, false⟩
        (Update.noMessages.apply ((Update.useNtlm false).apply r)) := by
    rw [policyText, runAll_update rfl, runAll_update rfl]
    rfl
  rw [← code]
  unfold runSection
  rw [start]
  cases action : authorizeActions o.code with
  | leave =>
    rw [runAll_group_left case action, if_pos rfl]
    rfl
  | priority n =>
    have low := (Standing.le_weigh ⟨.noop, 2⟩ o.code n).1
    rw [runAll_group_next case action, runAll_finish low, if_neg (by simp)]
    cases hc : o.code <;> rw [hc] at action <;> simp [authorizeActions] at action <;>
      simp [Outcome.code, Standing.weigh, ← action]

end Policy

end Modules

/-! ## The cases of a configuration -/

section Cases

open Raising

variable {env : Environment} {auths : Authentications} {auth : Auth} {items : List Auth}
variable {p p' : Provider} {out : Generated}

/-- The case of an entry. -/
inductive CaseOf (auths : Authentications) (auth : Auth) : Case → Prop
  | ldap (h : auth.type = .ldap) : CaseOf auths auth ⟨auth.id, [.provider .ldap auth.id, .failed]⟩
  | activeDirectory (h : auth.type = .activeDirectory) :
      CaseOf auths auth ⟨auth.id, [.provider .activeDirectory auth.id, .failed]⟩
  | group (h : auth.type = .group) {text : List Piece}
      (unfolded : groupInnerCase auths auth.id = .ok text) :
      CaseOf auths auth ⟨auth.id, text ++ [.allFailedInGroup]⟩

theorem CaseOf.id_eq {case : Case} (h : CaseOf auths auth case) : case.id = auth.id := by
  cases h <;> rfl

theorem cases_configure {one : Generated} (h : exec (configure env auths auth) p = (.ok one, p')) :
    (∀ case ∈ one.cases, CaseOf auths auth case) ∧
      (auth.type = .ldap ∨ auth.type = .group → one.cases ≠ []) := by
  unfold configure at h
  cases htype : auth.type with
  | ldap =>
    simp only [htype, exec_bind_eq_ok] at h
    obtain ⟨module, q, -, h⟩ := h
    obtain ⟨rfl, -⟩ := exec_pure_eq_ok.mp h
    exact ⟨by simpa using CaseOf.ldap htype, fun _ => by simp⟩
  | activeDirectory =>
    simp only [htype, exec_bind_eq_ok] at h
    obtain ⟨joined, q, -, h⟩ := h
    cases joined with
    | true =>
      simp only [if_true, exec_bind_eq_ok] at h
      obtain ⟨module, q', -, h⟩ := h
      obtain ⟨rfl, -⟩ := exec_pure_eq_ok.mp h
      exact ⟨by simpa using CaseOf.activeDirectory htype, fun _ => by simp⟩
    | false =>
      simp only [Bool.false_eq_true, if_false, exec_modify_bind] at h
      obtain ⟨rfl, -⟩ := exec_pure_eq_ok.mp h
      exact ⟨by simp [Generated.empty], by simp⟩
  | group =>
    simp only [htype, exec_bind_eq_ok] at h
    obtain ⟨text, q, unfolded, h⟩ := h
    obtain ⟨rfl, -⟩ := exec_pure_eq_ok.mp h
    have ok : groupInnerCase auths auth.id = .ok text := by
      unfold unfoldGroup at unfolded
      cases hcase : groupInnerCase auths auth.id <;> simp_all
    exact ⟨by simpa using CaseOf.group htype ok, fun _ => by simp⟩
  | external =>
    simp only [htype] at h
    obtain ⟨rfl, -⟩ := exec_pure_eq_ok.mp h
    exact ⟨by simp [Generated.empty], by simp⟩

theorem cases_configureAll (h : exec (configureAll env auths items) p = (.ok out, p')) :
    (∀ case ∈ out.cases, ∃ auth ∈ items, CaseOf auths auth case) ∧
      ∀ auth ∈ items, auth.type = .ldap ∨ auth.type = .group →
        ∃ case ∈ out.cases, case.id = auth.id := by
  induction items generalizing p p' out with
  | nil =>
    obtain ⟨rfl, -⟩ := exec_pure_eq_ok.mp h
    simp [Generated.empty]
  | cons auth items ih =>
    simp only [configureAll, exec_bind_eq_ok] at h
    obtain ⟨one, q, first, more, q', rest, h⟩ := h
    obtain ⟨rfl, -⟩ := exec_pure_eq_ok.mp h
    obtain ⟨mine, there⟩ := cases_configure first
    obtain ⟨others, elsewhere⟩ := ih rest
    constructor
    · intro case hcase
      rcases List.mem_append.mp hcase with hcase | hcase
      · exact ⟨auth, List.mem_cons_self, mine case hcase⟩
      · obtain ⟨other, hother, h⟩ := others case hcase
        exact ⟨other, List.mem_cons_of_mem _ hother, h⟩
    · intro other hother kind
      rcases List.mem_cons.mp hother with rfl | hother
      · obtain ⟨case, hcase⟩ := List.exists_mem_of_ne_nil _ (there kind)
        exact ⟨case, List.mem_append_left _ hcase, (mine case hcase).id_eq⟩
      · obtain ⟨case, hcase, same⟩ := elsewhere other hother kind
        exact ⟨case, List.mem_append_right _ hcase, same⟩

theorem cases_generate (h : exec (generate env auths) p = (.ok out, p')) :
    (∀ case ∈ out.cases, ∃ auth ∈ auths.values, CaseOf auths auth case) ∧
      ∀ auth ∈ auths.values, auth.type = .ldap ∨ auth.type = .group →
        ∃ case ∈ out.cases, case.id = auth.id := by
  simp only [generate, exec_bind_eq_ok] at h
  obtain ⟨all, q, configured, _, _, _, h⟩ := h
  obtain ⟨rfl, -⟩ := exec_pure_eq_ok.mp h
  exact cases_configureAll configured

/-- No other entry has an id that reads like this one. -/
def Authentications.Reads (auths : Authentications) (id : Value) : Prop :=
  ∀ auth ∈ auths.values, auth.id.format = id.format → auth.id = id

/-- The case that is selected for an id is that of the entry. -/
theorem select_generate (h : exec (generate env auths) p = (.ok out, p')) {id : Value}
    (reads : auths.Reads id) (kind : (auths.find id).type = .ldap ∨ (auths.find id).type = .group) :
    ∃ case, CaseOf auths (auths.find id) case ∧ select out.cases id.format = case.text := by
  obtain ⟨mine, there⟩ := cases_generate h
  have declared : auths.find id ∈ auths.values :=
    find_mem_values (by rcases kind with h | h <;> simp [h])
  obtain ⟨case, hcase, same⟩ := there _ declared kind
  cases found : out.cases.find? fun case => case.id.format = id.format with
  | none =>
    have := List.find?_eq_none.mp found case hcase
    simp [same] at this
  | some first =>
    obtain ⟨auth, hauth, caseOf⟩ := mine first (List.mem_of_find?_eq_some found)
    have read : auth.id.format = id.format := by
      have := List.find?_some found
      rwa [decide_eq_true_eq, caseOf.id_eq] at this
    have here : auth = auths.find id := by
      have := Authentications.mem_values.mp hauth
      rw [reads auth hauth read] at this
      simp [Authentications.find, this]
    exact ⟨first, here ▸ caseOf, by rw [select, found]; rfl⟩

/-- The case of a group tries the providers that its text names, all of which it contains. -/
theorem select_group (h : exec (generate env auths) p = (.ok out, p')) {id : Value}
    (reads : auths.Reads id) (group : (auths.find id).type = .group) (modules : Modules) :
    ∃ text, groupInnerCase auths id = .ok text ∧
      (∀ i ∈ text.filterMap Piece.tried,
        Relation.ReflTransGen (Traversal.Child auths.members) id i) ∧
      let tried := modules.tryGroup auths (text.filterMap Piece.tried) (.fresh id.format)
      ∃ inner, runAll modules.semantics (select out.cases id.format) ⟨none, ⟨.noop, 0⟩, false⟩
        (.fresh id.format) = (inner, tried.2) ∧ inner.code = tried.1 := by
  obtain ⟨case, caseOf, selected⟩ := select_generate h reads (.inr group)
  cases caseOf with
  | ldap other | activeDirectory other => simp [group] at other
  | @group _ text unfolded =>
  rw [Authentications.find_id] at unfolded selected
  -- the text is that of the providers, in order
  obtain ⟨new, visits, rfl⟩ : ∃ new, Traversal.Visits auths.members [] [id] new ∧
      text = new.flatMap auths.block := by
    rcases groupInnerCase_eq auths id with ⟨new, ok, visits⟩ | ⟨e, error, -⟩
    · exact ⟨new, visits, Except.ok.inj (unfolded.symm.trans ok)⟩
    · cases unfolded.symm.trans error
  have same := tried_block auths new
  have single : ∀ i ∈ auths.providers new, (auths.find i).type ≠ .group := fun i hi => by
    simpa using (List.mem_filter.mp hi).2
  obtain ⟨o, ran, left⟩ := Modules.runAll_group modules single
    (r := .fresh id.format) rfl none false
  rw [block_providers] at ran
  have text_eq : select out.cases id.format =
      [.group ((new.flatMap auths.block ++ [Piece.allFailedInGroup]).flatMap Piece.text)] := by
    rw [selected]
    exact if_pos (by simp)
  obtain ⟨inner, whole, code⟩ := runAll_group_alone (f := ⟨none, ⟨.noop, 0⟩, false⟩)
    (fun c n => Modules.counts_authorizeActions) ran
  rw [← text_eq] at whole
  refine ⟨_, unfolded, fun i hi => ?_, inner, same ▸ whole, same ▸ code.trans left⟩
  rw [same] at hi
  exact visits.mem_iff.mp (List.mem_filter.mp hi).1

/-- A group of an LDAP server and of a provider that is not declared. -/
def fallback : Authentications :=
  .ofConf [
    { Auth.bare (.int 3) .ldap with
      host := some (.str "ldap.corp.local"), baseDN := some (.str "dc=corp,dc=local"),
      userAttr := some (.str "uid") },
    { Auth.bare (.int 2) .group with members := some [.int 3, .int 9] }]

/-- The LDAP server is away. -/
def unreachable : Modules where
  answer module _ :=
    if module = "ldap-auth-3" then ⟨.fail, ["Bind failed"], none⟩ else ⟨.ok, [], none⟩
  tells m h _ := .inl (by
    have other : m ≠ "ldap-auth-3" := by
      rintro rfl
      exact absurd h (by decide)
    rw [if_neg other])

end Cases

end ElanAgent.Authentication
