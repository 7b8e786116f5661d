import ElanAgent.Library.Dict
import ElanAgent.Library.Traversal
import ElanAgent.Value

/-!
# Groups of authentications

`get_group_inner_case` of `elan/authentication.py`, which unfolds a group into the policy text
that tries its members one after the other. The set of those tried already is shared by the
whole unfolding, so that a group may contain itself.

A policy text is a list of pieces here. What tells one piece from another is the module that
it calls and the provider that it names.
-/

namespace ElanAgent.Authentication

/-- `auth.get('type', 'external')`: any other text counts as external. -/
inductive AuthType where
  | ldap
  | activeDirectory
  | group
  | external
  deriving DecidableEq

/-- A declared authentication. The templates leave out what is absent, unless they need it;
`members` are those of a group, and the domain is that of an Active Directory. -/
structure Auth where
  id : Value
  type : AuthType
  members : Option (List Value)
  host : Option Value
  port : Option Value
  bindDN : Option Value
  bindPwd : Option Value
  baseDN : Option Value
  userAttr : Option Value
  userFilter : Option Value
  encryption : Option Value
  serverCa : Option Value
  domain : Option String
  adminLogin : Option Value
  adminPwd : Option Value
  joinFailed : Bool
  deriving DecidableEq

/-- An entry of this type with nothing else. -/
def Auth.bare (id : Value) (type : AuthType) : Auth where
  id := id
  type := type
  members := none
  host := none
  port := none
  bindDN := none
  bindPwd := none
  baseDN := none
  userAttr := none
  userFilter := none
  encryption := none
  serverCa := none
  domain := none
  adminLogin := none
  adminPwd := none
  joinFailed := false

/-- What handling a configuration may raise. -/
inductive Error where
  | keyError (key : String)
  | nameError
  | adError
  | osError
  | recursionError
  deriving DecidableEq

/-- `self.authentications`: every entry is under its own id. -/
structure Authentications where
  entries : Dict Value Auth
  keyed : ∀ id auth, entries.get id = some auth → auth.id = id

namespace Authentications

/-- The dictionary of a configuration: the last entry of an id counts. -/
def ofConf (conf : List Auth) : Authentications where
  entries := .keyed (fun auth => some auth.id) conf
  keyed _ _ h := Option.some.inj (Dict.get_keyed_some h).2

def values (auths : Authentications) : List Auth := auths.entries.items.map Prod.snd

theorem mem_values {auths : Authentications} {auth : Auth} :
    auth ∈ auths.values ↔ auths.entries.get auth.id = some auth := by
  simp only [values, List.mem_map, Prod.exists, exists_eq_right, Dict.mem_items]
  constructor
  · rintro ⟨id, h⟩
    obtain rfl := auths.keyed id auth h
    exact h
  · exact fun h => ⟨_, h⟩

/-- `self.authentications.get(id, {'id': id, 'type': 'external'})`: an external one may not be
declared. -/
def find (auths : Authentications) (id : Value) : Auth :=
  (auths.entries.get id).getD (.bare id .external)

@[simp] theorem find_id (auths : Authentications) (id : Value) : (auths.find id).id = id := by
  unfold find
  cases h : auths.entries.get id with
  | none => rfl
  | some auth => exact auths.keyed id auth h

end Authentications

/-! ## Pieces of the policy -/

/-- A piece of policy text. -/
inductive Piece where
  /-- set the provider, and call its module -/
  | provider (type : AuthType) (id : Value)
  /-- the module of external authentications, for the provider of the request -/
  | externalAuth
  /-- `if(fail)`, tell that the provider failed -/
  | failed
  /-- the same in a group, where the next provider is to be tried -/
  | failedInGroup
  /-- tell that no member of the group has answered -/
  | allFailedInGroup
  deriving DecidableEq

/-- The name of an LDAP module. -/
def ldapModule (id : Value) : String := "ldap-auth-" ++ id.format

/-- The module that a piece calls. -/
def Piece.module : Piece → String
  | .provider .ldap id => ldapModule id
  | .provider .activeDirectory _ => "ADldap"
  | .provider .group _ | .provider .external _ | .externalAuth => "external-auth"
  | .failed => "auth_provider_failed"
  | .failedInGroup => "auth_provider_failed_in_group"
  | .allFailedInGroup => "auth_all_providers_failed_in_group"

/-! ## The unfolding -/

/-- The loop over the members, `unfold` being what is done with each. -/
def innerCases (unfold : Value → List Value → Except Error (List Piece × List Value)) :
    List Value → List Value → Except Error (List Piece × List Value)
  | [], ignore => pure ([], ignore)
  | member :: members, ignore => do
    let (text, ignore) ← unfold member ignore
    let (rest, ignore) ← innerCases unfold members ignore
    pure (text ++ rest, ignore)

/-- `get_group_inner_case`, and what it has added to `ignore_authentications`. The first
argument bounds the depth of the recursion. -/
def getGroupInnerCase (auths : Authentications) :
    Nat → Value → List Value → Except Error (List Piece × List Value)
  | 0, _, _ => throw .recursionError
  | depth + 1, authId, ignore =>
    if authId ∈ ignore then pure ([], ignore)
    else
      let ignore := ignore ++ [authId]
      let auth := auths.find authId
      match auth.type with
      | .group =>
        match auth.members with
        | none => throw (.keyError "members")
        | some members =>
          innerCases (fun member => getGroupInnerCase auths depth (auths.find member).id)
            members ignore
      | type => pure ([.provider type auth.id, .failedInGroup], ignore)

/-- The text for a group, with nothing to ignore. No branch is deeper than there are
declared authentications. -/
def groupInnerCase (auths : Authentications) (authId : Value) : Except Error (List Piece) :=
  Prod.fst <$> getGroupInnerCase auths (auths.entries.keys.length + 1) authId []

/-! ## What it unfolds to -/

variable {auths : Authentications}

/-- The members of a group, none for another authentication. -/
def Authentications.members (auths : Authentications) (id : Value) : List Value :=
  match (auths.find id).type with
  | .group => (auths.find id).members.getD []
  | _ => []

/-- The text for one provider, none for a group. -/
def Authentications.block (auths : Authentications) (id : Value) : List Piece :=
  match (auths.find id).type with
  | .group => []
  | type => [.provider type id, .failedInGroup]

open Traversal

/-- The text is that of the authentications met by a traversal, in order. -/
structure Unfolds (auths : Authentications) (todo ignore : List Value)
    (result : List Piece × List Value) : Prop where
  visits : ∃ new, Visits auths.members ignore todo new ∧ result.2 = ignore ++ new ∧
    result.1 = new.flatMap auths.block

theorem unfolds_innerCases {unfold : Value → List Value → Except Error (List Piece × List Value)}
    (one : ∀ member ignore result, unfold member ignore = .ok result →
      Unfolds auths [member] ignore result) {members ignore : List Value}
    {result : List Piece × List Value} (h : innerCases unfold members ignore = .ok result) :
    Unfolds auths members ignore result := by
  induction members generalizing ignore result with
  | nil =>
    obtain rfl := Except.ok.inj h
    exact ⟨[], .nil, by simp, rfl⟩
  | cons member members ih =>
    simp only [innerCases] at h
    cases first : unfold member ignore with
    | error e => simp [first, bind, Except.bind] at h
    | ok head =>
      simp only [first, bind, Except.bind] at h
      cases second : innerCases unfold members head.2 with
      | error e => simp [second] at h
      | ok rest =>
        simp only [second] at h
        obtain rfl := Except.ok.inj h
        obtain ⟨new, visits, met, text⟩ := one member ignore head first
        obtain ⟨new', visits', met', text'⟩ := ih second
        rw [met] at visits'
        exact ⟨new ++ new', visits.append visits', by simp [met', met], by simp [text, text']⟩

theorem unfolds_getGroupInnerCase {depth : Nat} {authId : Value} {ignore : List Value}
    {result : List Piece × List Value}
    (h : getGroupInnerCase auths depth authId ignore = .ok result) :
    Unfolds auths [authId] ignore result := by
  induction depth generalizing authId ignore result with
  | zero => cases h
  | succ depth ih =>
    simp only [getGroupInnerCase] at h
    by_cases met : authId ∈ ignore
    · rw [if_pos met] at h
      obtain rfl := Except.ok.inj h
      exact ⟨[], .skip met .nil, by simp, rfl⟩
    · rw [if_neg met] at h
      have leaf (type : AuthType) (htype : (auths.find authId).type = type)
          (notGroup : type ≠ .group)
          (h : .ok ([.provider type (auths.find authId).id, .failedInGroup], ignore ++ [authId]) =
            (Except.ok result : Except Error _)) : Unfolds auths [authId] ignore result := by
        obtain rfl := Except.ok.inj h
        have members : auths.members authId = [] := by
          cases type <;> simp_all [Authentications.members]
        have block : auths.block authId = [.provider type authId, .failedInGroup] := by
          cases type <;> simp_all [Authentications.block]
        have alone : Visits auths.members (ignore ++ [authId]) (auths.members authId) [] := by
          rw [members]
          exact .nil
        exact ⟨[authId], .visit met alone .nil, by simp, by simp [block]⟩
      cases htype : (auths.find authId).type with
      | group =>
        rw [htype] at h
        cases hmembers : (auths.find authId).members with
        | none => simp [hmembers] at h
        | some members =>
          simp only [hmembers, Authentications.find_id] at h
          obtain ⟨new, visits, met', text⟩ := unfolds_innerCases (fun _ _ _ => ih) h
          have inside : auths.members authId = members := by
            simp [Authentications.members, htype, hmembers]
          have block : auths.block authId = [] := by simp [Authentications.block, htype]
          refine ⟨authId :: new ++ [], ?_, by simp [met'], by simp [block, text]⟩
          exact .visit met (by rwa [inside]) .nil
      | ldap => exact leaf .ldap htype (by simp) (by rwa [htype] at h)
      | activeDirectory => exact leaf .activeDirectory htype (by simp) (by rwa [htype] at h)
      | external => exact leaf .external htype (by simp) (by rwa [htype] at h)

/-! ## The recursion ends -/

/-- The declared authentications that have not been tried. -/
def Authentications.untried (auths : Authentications) (ignore : List Value) : List Value :=
  auths.entries.keys.filter (· ∉ ignore)

theorem untried_append (auths : Authentications) (ignore new : List Value) :
    (auths.untried (ignore ++ new)).length ≤ (auths.untried ignore).length := by
  refine (List.monotone_filter_right _ fun id hid => ?_).length_le
  simp only [decide_eq_true_eq] at hid ⊢
  exact fun h => hid (List.mem_append_left _ h)

theorem untried_lt {auths : Authentications} {id : Value} {ignore : List Value}
    (declared : id ∈ auths.entries.keys) (new : id ∉ ignore) :
    (auths.untried (ignore ++ [id])).length < (auths.untried ignore).length := by
  have split : auths.untried (ignore ++ [id]) = (auths.untried ignore).filter (· ≠ id) := by
    simp only [Authentications.untried, List.filter_filter]
    refine List.filter_congr fun x _ => ?_
    simp [and_comm]
  have here : id ∈ auths.untried ignore := by simp [Authentications.untried, declared, new]
  rw [split]
  exact List.length_filter_lt_length_iff_exists.mpr ⟨id, here, by simp⟩

theorem innerCases_ne {unfold : Value → List Value → Except Error (List Piece × List Value)}
    {n : Nat} (one : ∀ member ignore, (auths.untried ignore).length < n →
      unfold member ignore ≠ .error .recursionError)
    (grows : ∀ member ignore result, unfold member ignore = .ok result →
      Unfolds auths [member] ignore result) {members ignore : List Value}
    (few : (auths.untried ignore).length < n) :
    innerCases unfold members ignore ≠ .error .recursionError := by
  induction members generalizing ignore with
  | nil => simp [innerCases, pure, Except.pure]
  | cons member members ih =>
    simp only [innerCases, bind, Except.bind]
    cases first : unfold member ignore with
    | error e =>
      rintro ⟨⟩
      exact one member ignore few first
    | ok head =>
      obtain ⟨new, -, met, -⟩ := grows member ignore head first
      have few' : (auths.untried head.2).length < n := by
        rw [met]
        exact (untried_append auths ignore new).trans_lt few
      have rest := ih few'
      cases second : innerCases unfold members head.2 with
      | error e => simpa [second] using rest
      | ok tail => simp [second, pure, Except.pure]

theorem getGroupInnerCase_ne {depth : Nat} {authId : Value} {ignore : List Value}
    (few : (auths.untried ignore).length < depth) :
    getGroupInnerCase auths depth authId ignore ≠ .error .recursionError := by
  induction depth generalizing authId ignore with
  | zero => omega
  | succ depth ih =>
    simp only [getGroupInnerCase]
    by_cases met : authId ∈ ignore
    · simp [if_pos met, pure, Except.pure]
    · rw [if_neg met]
      cases htype : (auths.find authId).type with
      | group =>
        dsimp only
        cases hmembers : (auths.find authId).members with
        | none => simp [throw, throwThe, MonadExceptOf.throw]
        | some members =>
          have declared : authId ∈ auths.entries.keys := by
            by_contra absent
            have none : auths.entries.get authId = none := by
              simpa [Dict.mem_keys, Option.eq_none_iff_forall_ne_some] using absent
            simp [Authentications.find, none, Auth.bare] at htype
          have fewer := untried_lt declared met
          exact innerCases_ne (n := depth) (fun _ _ few => ih few)
            (fun member _ _ h => by simpa using unfolds_getGroupInnerCase h) (by omega)
      | ldap | activeDirectory | external => simp [pure, Except.pure]

/-- The text for a group is that of all it contains, directly or not, each once and in the
order of a traversal; what raises is a group without members. -/
theorem groupInnerCase_eq (auths : Authentications) (authId : Value) :
    (∃ new, groupInnerCase auths authId = .ok (new.flatMap auths.block) ∧
      Visits auths.members [] [authId] new) ∨
    ∃ e, groupInnerCase auths authId = .error e ∧ e ≠ .recursionError := by
  have few : (auths.untried []).length < auths.entries.keys.length + 1 := by
    simp [Authentications.untried]
  have ends : getGroupInnerCase auths _ authId [] ≠ .error .recursionError :=
    getGroupInnerCase_ne few
  unfold groupInnerCase
  cases h : getGroupInnerCase auths (auths.entries.keys.length + 1) authId [] with
  | error e => exact .inr ⟨e, rfl, fun same => ends (same ▸ h)⟩
  | ok result =>
    obtain ⟨new, visits, -, text⟩ := unfolds_getGroupInnerCase h
    exact .inl ⟨new, congrArg _ text, visits⟩

/-- The modules that the text for a group calls. -/
theorem mem_groupInnerCase {authId : Value} {text : List Piece}
    (h : groupInnerCase auths authId = .ok text) (piece : Piece) :
    piece ∈ text ↔ ∃ id, Relation.ReflTransGen (Child auths.members) authId id ∧
      piece ∈ auths.block id := by
  rcases groupInnerCase_eq auths authId with ⟨new, h', visits⟩ | ⟨e, h', -⟩
  · rw [h] at h'
    obtain rfl := Except.ok.inj h'
    simp only [List.mem_flatMap, visits.mem_iff]
  · rw [h] at h'
    cases h'

/-! ## The providers of a group -/

/-- The provider that a piece tries. -/
def Piece.tried : Piece → Option Value
  | .provider _ id => some id
  | _ => none

/-- The authentications of a list that are no groups. -/
def Authentications.providers (auths : Authentications) (ids : List Value) : List Value :=
  ids.filter fun id => (auths.find id).type ≠ .group

/-- Every group has a list of members. -/
def Authentications.Grouped (auths : Authentications) : Prop :=
  ∀ id, (auths.find id).type = .group → (auths.find id).members.isSome

theorem grouped_of_values
    (h : ∀ auth ∈ auths.values, auth.type = .group → auth.members.isSome) : auths.Grouped := by
  intro id
  unfold Authentications.find
  cases found : auths.entries.get id with
  | none => simp [Auth.bare]
  | some auth =>
    obtain rfl := auths.keyed id auth found
    exact h auth (Authentications.mem_values.mpr found)

theorem innerCases_error {unfold : Value → List Value → Except Error (List Piece × List Value)}
    {members ignore : List Value} {e : Error} (h : innerCases unfold members ignore = .error e) :
    ∃ member ignore, unfold member ignore = .error e := by
  induction members generalizing ignore with
  | nil => cases h
  | cons member members ih =>
    simp only [innerCases, bind, Except.bind] at h
    cases first : unfold member ignore with
    | error e' =>
      rw [first] at h
      exact ⟨member, ignore, first.trans h⟩
    | ok head =>
      simp only [first] at h
      cases second : innerCases unfold members head.2 with
      | error e' =>
        rw [second] at h
        obtain rfl := Except.error.inj h
        exact ih second
      | ok rest => simp [second, pure, Except.pure] at h

/-- Where every group has members, only the depth of the recursion can stop the unfolding. -/
theorem getGroupInnerCase_error (grouped : auths.Grouped) {depth : Nat} {authId : Value}
    {ignore : List Value} {e : Error} (h : getGroupInnerCase auths depth authId ignore = .error e) :
    e = .recursionError := by
  induction depth generalizing authId ignore with
  | zero => exact (Except.error.inj h).symm
  | succ depth ih =>
    simp only [getGroupInnerCase] at h
    by_cases met : authId ∈ ignore
    · rw [if_pos met] at h
      cases h
    · rw [if_neg met] at h
      cases htype : (auths.find authId).type with
      | group =>
        obtain ⟨members, hmembers⟩ := Option.isSome_iff_exists.mp (grouped authId htype)
        simp only [htype, hmembers] at h
        obtain ⟨member, ignore', failed⟩ := innerCases_error h
        exact ih failed
      | ldap | activeDirectory | external =>
        rw [htype] at h
        cases h

theorem tried_block (auths : Authentications) (ids : List Value) :
    (ids.flatMap auths.block).filterMap Piece.tried = auths.providers ids := by
  induction ids with
  | nil => rfl
  | cons id ids ih =>
    rw [List.flatMap_cons, List.filterMap_append, ih]
    unfold Authentications.providers Authentications.block
    cases htype : (auths.find id).type <;> simp [htype, Piece.tried]

theorem block_providers (auths : Authentications) (ids : List Value) :
    (auths.providers ids).flatMap auths.block = ids.flatMap auths.block := by
  induction ids with
  | nil => rfl
  | cons id ids ih =>
    rw [List.flatMap_cons, ← ih]
    unfold Authentications.providers
    by_cases group : (auths.find id).type = .group
    · simp [Authentications.block, group]
    · simp [group]

theorem declared_of_members {id : Value} (h : auths.members id ≠ []) :
    id ∈ auths.entries.keys := by
  by_contra absent
  have none : auths.entries.get id = none := by
    simpa [Dict.mem_keys, Option.eq_none_iff_forall_ne_some] using absent
  exact h (by simp [Authentications.members, Authentications.find, none, Auth.bare])

/-- What is tried for a group, where the recursion may be deeper than there are declared
authentications: each provider that it contains, directly or not, once, in the order in which
a walk from left to right first meets them, and each by a block of its own. -/
theorem getGroupInnerCase_walk (grouped : auths.Grouped) (authId : Value) {depth : Nat}
    (deep : auths.entries.keys.length < depth) :
    ∃ text ignore walk, getGroupInnerCase auths depth authId [] = .ok (text, ignore) ∧
      Walks auths.members [] [authId] walk ∧
      text.filterMap Piece.tried = auths.providers (firsts [] walk) ∧
      text = (text.filterMap Piece.tried).flatMap auths.block ∧
      (text.filterMap Piece.tried).Nodup ∧
      ∀ id, id ∈ text.filterMap Piece.tried ↔
        Relation.ReflTransGen (Child auths.members) authId id ∧
          (auths.find id).type ≠ .group := by
  have few : (auths.untried []).length < depth := by simpa [Authentications.untried] using deep
  obtain ⟨walk, walks⟩ := exists_walks (fun id => declared_of_members) [] [authId]
  cases h : getGroupInnerCase auths depth authId [] with
  | error e => exact absurd (getGroupInnerCase_error grouped h ▸ h) (getGroupInnerCase_ne few)
  | ok result =>
    obtain ⟨new, visits, -, text⟩ := unfolds_getGroupInnerCase h
    have order : new = firsts [] walk := visits.eq_firsts walks (by simp) (by simp [Done])
    have tried : result.1.filterMap Piece.tried = auths.providers new := by
      rw [text, tried_block]
    refine ⟨result.1, result.2, walk, rfl, walks, order ▸ tried, ?_, ?_, fun id => ?_⟩
    · rw [tried, block_providers, text]
    · exact tried ▸ visits.nodup.1.filter _
    · rw [tried, Authentications.providers, List.mem_filter, visits.mem_iff]
      simp

/-- Two groups that contain each other, one of them itself too, and an undeclared member. -/
def cyclicGroups : Authentications :=
  .ofConf [
    { Auth.bare (.int 1) .group with members := some [.int 2, .int 1, .int 9] },
    { Auth.bare (.int 2) .group with members := some [.int 3, .int 1, .int 3] },
    Auth.bare (.int 3) .ldap]

theorem getGroupInnerCase_walk_cyclic : ∃ text ignore,
    getGroupInnerCase cyclicGroups 4 (.int 1) [] = .ok (text, ignore) ∧
      text.filterMap Piece.tried = [.int 3, .int 9] ∧
      ∀ id, id ∈ text.filterMap Piece.tried ↔
        Relation.ReflTransGen (Child cyclicGroups.members) (.int 1) id ∧
          (cyclicGroups.find id).type ≠ .group := by
  have ran : getGroupInnerCase cyclicGroups 4 (.int 1) [] = .ok
      ([.provider .ldap (.int 3), .failedInGroup, .provider .external (.int 9), .failedInGroup],
        [.int 1, .int 2, .int 3, .int 9]) := by decide +kernel
  obtain ⟨text, ignore, -, same, -, -, -, -, mem⟩ :=
    getGroupInnerCase_walk (grouped_of_values (by decide +kernel)) (.int 1)
      (show cyclicGroups.entries.keys.length < 4 by decide +kernel)
  refine ⟨text, ignore, same, ?_, mem⟩
  obtain ⟨rfl, -⟩ := Prod.mk.inj (Except.ok.inj (same.symm.trans ran))
  rfl

end ElanAgent.Authentication
