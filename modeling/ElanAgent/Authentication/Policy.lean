import ElanAgent.Authentication.Modules
import ElanAgent.Library.Failover

/-!
# What the policy means

`apply_conf` of `elan/authentication.py` writes a policy in the language of FreeRADIUS. This is
the text of each piece of it, and of the file around them, with what FreeRADIUS makes of it for
a request: which providers are asked, in which order and until when, which of them is the
provider of the session, and which failures `bin/rest_elan_proxy.py` is told of, who publishes
an event for each.

What a module answers is the environment of a request. A provider is asked once for a request,
so that the answer may be taken to depend on the module and the provider alone.
-/

namespace ElanAgent.Authentication

open Failover

/-! ## Requests -/

/-- The attributes that the policy reads and writes: `ELAN-Auth-Provider` of the request and of
the session, `ELAN-AD-Auth-Provider`, `ELAN-Auth-Failed`, `ELAN-Non-Failed-Auth`,
`Module-Failure-Message`, `MS-CHAP-Use-NTLM-Auth`, and `ELAN-Auth-Provider` of the reply and of
the control list. -/
structure Attributes where
  requested : String
  provider : Option String
  adProvider : Option String
  failed : Option String
  nonFailed : Bool
  messages : List String
  useNtlm : Bool
  replied : Option String
  control : Option String
  deriving DecidableEq

/-- A request, and the modules that have been called for it, each with the attributes then. -/
structure Request extends Attributes where
  calls : List (String × Attributes)

/-- A request for a provider that no policy has seen. -/
def Request.fresh (requested : String) : Request where
  requested := requested
  provider := none
  adProvider := none
  failed := none
  nonFailed := false
  messages := []
  useNtlm := false
  replied := none
  control := none
  calls := []

/-- `%{%{session-state:ELAN-Auth-Provider}:-%{ELAN-Auth-Provider}}`. -/
def Attributes.asked (a : Attributes) : String := a.provider.getD a.requested

/-- What a module ends with, the failures that it leaves in the request and the provider that
it puts in the reply. -/
structure Answer where
  code : Code
  messages : List String
  replied : Option String

/-- The modules that tell `rest_elan_proxy` of a failure. -/
def tellers : List String :=
  ["auth_provider_failed", "auth_provider_failed_in_group", "auth_all_providers_failed_in_group"]

/-- The answers of the modules for each provider. The proxy answers `{}`, or an error. -/
structure Modules where
  answer : String → String → Answer
  tells : ∀ m ∈ tellers, ∀ id, (answer m id).code = .ok ∨ (answer m id).code = .fail

/-! ## The texts -/

/-- The updates of the policy. -/
inductive Update where
  | provider (id : String)
  | adProvider (id : String)
  | failedProvider
  | failedRequested
  | noMessages
  | nonFailed
  | useNtlm (b : Bool)
  | control
  deriving DecidableEq

/-- The conditions of the policy. -/
inductive Condition where
  | fail
  | notInvalid
  | noneAnswered
  | adProvider
  deriving DecidableEq

abbrev Text := List (Statement String Update Condition)

/-- The actions of the statements of an `authorize` section. -/
def authorizeActions : Code → Action
  | .reject | .fail | .handled | .invalid | .userlock => .leave
  | .notfound => .priority 1
  | .noop => .priority 2
  | .ok => .priority 3
  | .updated => .priority 4

/-- The actions of a provider. -/
def providerActions : Code → Action
  | .invalid => .priority 1
  | .fail => .priority 2
  | .reject => .priority 3
  | .notfound => .priority 4
  | .ok | .updated => .leave
  | c => authorizeActions c

/-- The actions of `external-auth` where no case is for the provider. -/
def externalActions : Code → Action
  | .fail => .priority 1
  | c => authorizeActions c

/-- Tell of a failure. -/
def tellText (module : String) (names : Update) : Text :=
  [.ifThen .fail
    [.update names, .call module authorizeActions, .update .noMessages]]

/-- The update of a provider. -/
def providerUpdate (type : AuthType) (id : Value) : Update :=
  if type = .activeDirectory then .adProvider id.format else .provider id.format

/-- `ldap_auth_template`, `ad_auth_template` and `external_auth_template`. -/
def providerText (type : AuthType) (id : Value) : Text :=
  [.update (providerUpdate type id), .call (Piece.provider type id).module providerActions]

/-- The text of a piece. -/
def Piece.text : Piece → Text
  | .provider type id => providerText type id
  | .externalAuth => [.call "external-auth" externalActions]
  | .failed => tellText "auth_provider_failed" .failedProvider
  | .failedInGroup => tellText "auth_provider_failed_in_group" .failedProvider ++
      [.elsif .notInvalid [.update .nonFailed]]
  | .allFailedInGroup =>
      [.ifThen .noneAnswered [.call "auth_all_providers_failed_in_group" authorizeActions]]

/-- The text of a case, where that of a group is in a `group`. -/
def Case.text (case : Case) : Text :=
  if .allFailedInGroup ∈ case.pieces then [.group (case.pieces.flatMap Piece.text)]
  else case.pieces.flatMap Piece.text

/-- The text of the case for any other provider. -/
def defaultText : Text :=
  Piece.externalAuth.text ++ tellText "auth_provider_failed" .failedRequested

/-- The case that `switch &ELAN-Auth-Provider` selects. -/
def select (cases : List Case) (requested : String) : Text :=
  ((cases.find? fun case => case.id.format = requested).map Case.text).getD defaultText

/-- `authentications.authorize`, with the case that is selected. -/
def policyText (selected : Text) : Text :=
  [.update (.useNtlm false), .update .noMessages,
    -- the switch, and the case in it
    .group [.group selected],
    .ifThen .adProvider [.update (.useNtlm true)],
    .update .control]

/-! ## What they mean -/

def Update.apply : Update → Request → Request
  | .provider id, r => { r with provider := some id }
  | .adProvider id, r => { r with provider := some id, adProvider := some id }
  | .failedProvider, r => { r with failed := r.provider }
  | .failedRequested, r => { r with failed := some r.requested }
  | .noMessages, r => { r with messages := [] }
  | .nonFailed, r => { r with nonFailed := true }
  | .useNtlm b, r => { r with useNtlm := b }
  | .control, r => { r with control := r.replied.or r.provider }

def Condition.holds (q : Condition) (c : Code) (r : Request) : Bool :=
  match q with
  | .fail => c = .fail
  | .notInvalid => c ≠ .invalid
  | .noneAnswered => !r.nonFailed
  | .adProvider => r.provider.isSome && r.provider = r.adProvider

/-- Call a module. -/
def Modules.call (env : Modules) (module : String) (r : Request) : Code × Request :=
  let a := env.answer module r.asked
  (a.code, { r with
    messages := r.messages ++ a.messages
    replied := a.replied.or r.replied
    calls := r.calls ++ [(module, r.toAttributes)] })

def Modules.semantics (env : Modules) : Semantics String Update Condition Request where
  call := env.call
  update := Update.apply
  holds := Condition.holds
  actions := authorizeActions

/-- Authorize a request with the policy of these cases. -/
def Modules.authorize (env : Modules) (cases : List Case) (requested : String) :
    Code × Request :=
  runSection env.semantics (policyText (select cases requested)) (.fresh requested)

/-! ## The events -/

/-- An event of type `runtime-failure-authentication`. -/
structure FailureEvent where
  level : String
  key : String
  id : Option String
  details : Option String
  deriving DecidableEq

/-- `AuthenticationProviderFailed`, `AuthenticationProviderFailedInGroup` and
`AuthenticationGroupFailed`: what is published when a module is called. An attribute of several
values is read as the last one, and an empty detail is left out. -/
def event (module : String) (a : Attributes) : Option FailureEvent :=
  let details := a.messages.getLast?.filter (· ≠ "")
  if module = "auth_provider_failed" then
    some ⟨"danger", "authentication_provider", a.failed, details⟩
  else if module = "auth_provider_failed_in_group" then
    some ⟨"warning", "authentication_provider", a.failed, details⟩
  else if module = "auth_all_providers_failed_in_group" then
    some ⟨"danger", "authentication_group", some a.requested, none⟩
  else none

/-- What is published when the call of a module succeeds. -/
def Modules.publishes (env : Modules) (module : String) (a : Attributes) : Option FailureEvent :=
  if (env.answer module a.asked).code = .ok then event module a else none

/-- The events that are published for a request. -/
def Modules.events (env : Modules) (r : Request) : List FailureEvent :=
  r.calls.filterMap fun call => env.publishes call.1 call.2

/-- The providers that are asked for a request, each with its module. -/
def Request.providers (r : Request) : List (String × String) :=
  (r.calls.filter fun call => call.1 ∉ tellers).map fun call => (call.1, call.2.asked)

section Steps

variable (env : Modules) (u : Update) (module : String) (r : Request)

@[simp] theorem requested_apply : (u.apply r).requested = r.requested := by cases u <;> rfl

@[simp] theorem requested_call : (env.call module r).2.requested = r.requested := rfl

@[simp] theorem provider_call : (env.call module r).2.provider = r.provider := rfl

@[simp] theorem nonFailed_call : (env.call module r).2.nonFailed = r.nonFailed := rfl

end Steps

/-! ## A provider of a group -/

/-- The members of a list until the first that ends it, which is one of them. -/
def upTo {α : Type} (ends : α → Bool) : List α → List α
  | [] => []
  | a :: l => if ends a then [a] else a :: upTo ends l

/-- The text of a provider in a group. -/
def blockText (type : AuthType) (id : Value) : Text :=
  (Piece.provider type id).text ++ Piece.failedInGroup.text

namespace Modules

variable (env : Modules) (type : AuthType) (id : Value) (f : Frame) (r : Request)

/-- What the module of a provider answers. -/
def code : Code := (env.answer (Piece.provider type id).module id.format).code

/-- The proxy publishes the event that it is told of. -/
def told (module asked : String) : Bool := (env.answer module asked).code = .ok

/-- Ask a provider. -/
def ask : Request :=
  (env.call (Piece.provider type id).module ((providerUpdate type id).apply r)).2

/-- Tell of a failure. -/
def tell (module : String) (names : Update) (r : Request) : Request :=
  (env.call module (names.apply r)).2

/-- No other provider is asked after this one: it has decided, or it has failed and so has the
proxy. -/
def ends : Bool :=
  (env.code type id = .fail && !env.told "auth_provider_failed_in_group" id.format) ||
    providerActions (env.code type id) = .leave

/-- The request after a provider that ends the search. -/
def ended : Request :=
  if env.code type id = .fail then
    env.tell "auth_provider_failed_in_group" .failedProvider (env.ask type id r)
  else env.ask type id r

/-- The request after a provider that does not. -/
def tried : Request :=
  match env.code type id with
  | .fail => Update.noMessages.apply (env.ended type id r)
  | .invalid => env.ended type id r
  | _ => Update.nonFailed.apply (env.ended type id r)

/-- What a provider that has not ended the search counts for. -/
def counted : Code → Standing
  | .reject => ⟨.reject, 3⟩
  | .fail => ⟨.ok, 3⟩
  | .notfound => ⟨.notfound, 4⟩
  | _ => ⟨.noop, 2⟩

variable {env type id f r}

theorem asked_providerUpdate (type : AuthType) (id : Value) (r : Request) :
    ((providerUpdate type id).apply r).toAttributes.asked = id.format := by
  unfold providerUpdate
  split <;> rfl

theorem call_provider (env : Modules) (type : AuthType) (id : Value) (r : Request) :
    env.call (Piece.provider type id).module ((providerUpdate type id).apply r) =
      (env.code type id, env.ask type id r) := by
  refine Prod.ext ?_ rfl
  unfold call code
  rw [asked_providerUpdate]

theorem provider_ask (env : Modules) (type : AuthType) (id : Value) (r : Request) :
    (env.ask type id r).provider = some id.format := by
  unfold ask providerUpdate
  split <;> rfl

section Tell

variable {module asked : String} {names : Update}
  (same : (names.apply r).toAttributes.asked = asked) (failed : f.code = .fail)
include same failed

/-- The proxy fails in its turn, and the section is left. -/
theorem runAll_tellText_left (teller : module ∈ tellers)
    (quiet : env.told module asked = false) (rest : Text) :
    runAll env.semantics (tellText module names ++ rest) f r =
      (.left .fail, env.tell module names r) := by
  have answered : (env.answer module asked).code = .fail :=
    (env.tells _ teller _).resolve_left (of_decide_eq_false quiet)
  have called : env.call module (names.apply r) = (.fail, env.tell module names r) := by
    refine Prod.ext ?_ rfl
    show (env.answer module (Attributes.asked _)).code = .fail
    rw [same, answered]
  have inner : runAll env.semantics [.update names, .call module authorizeActions,
      .update .noMessages] f.enter r = (.left .fail, env.tell module names r) := by
    rw [runAll_update rfl]
    exact runAll_call_left called rfl _
  exact runAll_cons_left (run_ifThen (decide_eq_true failed) inner) rest

/-- The failure is told, which counts as `ok`. -/
theorem runAll_tellText_next (told : env.told module asked = true) (rest : Text) :
    runAll env.semantics (tellText module names ++ rest) f r =
      runAll env.semantics rest ⟨some .ok, f.standing.weigh .ok 3, true⟩
        (Update.noMessages.apply (env.tell module names r)) := by
  have called : env.call module (names.apply r) = (.ok, env.tell module names r) := by
    refine Prod.ext ?_ rfl
    show (env.answer module (Attributes.asked _)).code = .ok
    rw [same, of_decide_eq_true told]
  have inner : runAll env.semantics [.update names, .call module authorizeActions,
      .update .noMessages] f.enter r = (.next ⟨some .noop, ⟨.ok, 3⟩, false⟩,
        Update.noMessages.apply (env.tell module names r)) := by
    rw [runAll_update rfl, runAll_call_next called rfl, runAll_update rfl, runAll_nil]
    rfl
  exact runAll_cons_next (run_ifThen (decide_eq_true failed) inner) rest

end Tell

/-- Nothing has failed. -/
theorem runAll_tellText_of_ne (module : String) (names : Update) (h : f.code ≠ .fail)
    (rest : Text) : runAll env.semantics (tellText module names ++ rest) f r =
      runAll env.semantics rest { f with taken := false } r :=
  runAll_ifThen_false (decide_eq_false h) rest

theorem asked_failedProvider (env : Modules) (type : AuthType) (id : Value) (r : Request) :
    (Update.failedProvider.apply (env.ask type id r)).toAttributes.asked = id.format := by
  show (env.ask type id r).provider.getD _ = _
  rw [provider_ask]
  rfl

/-- The text of a provider that ends the search. -/
theorem runAll_block_left (h : env.ends type id = true) (rest : Text) :
    runAll env.semantics (blockText type id ++ rest) f r =
      (.left (env.code type id), env.ended type id r) := by
  unfold blockText Piece.text providerText ended
  simp only [List.append_assoc, List.cons_append, List.nil_append]
  rw [runAll_update rfl]
  have called : env.semantics.call _ (env.semantics.update _ r) = _ := call_provider env type id r
  by_cases failed : env.code type id = .fail
  · have quiet : env.told "auth_provider_failed_in_group" id.format = false := by
      simpa [ends, failed, providerActions] using h
    rw [failed] at called ⊢
    rw [if_pos rfl, runAll_call_next (n := 2) called rfl]
    exact runAll_tellText_left (asked_failedProvider ..) rfl (by decide) quiet _
  · have decided : providerActions (env.code type id) = .leave := by
      simpa [ends, failed] using h
    rw [if_neg failed]
    exact runAll_call_left called decided _

theorem runAll_nonFailed (untaken : f.taken = false) (h : f.code ≠ .invalid) (rest : Text) :
    runAll env.semantics (.elsif .notInvalid [.update .nonFailed] :: rest) f r =
      runAll env.semantics rest ⟨some .noop, f.standing.weigh .noop 2, true⟩
        (Update.nonFailed.apply r) := by
  have inner : runAll env.semantics [.update .nonFailed] f.enter r =
      (.next ⟨some .noop, ⟨.noop, 2⟩, false⟩, Update.nonFailed.apply r) := by
    rw [runAll_update rfl, runAll_nil]
    rfl
  exact runAll_cons_next (run_elsif untaken (decide_eq_true h) inner) rest

/-- A provider that has neither decided nor failed, and whose answer is valid. -/
theorem runAll_provider_next {c : Code} {n : ℕ} (hc : env.code type id = c)
    (action : providerActions c = .priority n) (high : 2 ≤ n) (failed : c ≠ .fail)
    (valid : c ≠ .invalid) (rest : Text) :
    runAll env.semantics (blockText type id ++ rest) f r =
      runAll env.semantics rest ⟨some .noop, (f.standing.weigh .noop 2).weigh c n, true⟩
        (Update.nonFailed.apply (env.ask type id r)) := by
  have called : env.call (Piece.provider type id).module ((providerUpdate type id).apply r) =
      (c, env.ask type id r) := hc ▸ call_provider env type id r
  unfold blockText Piece.text providerText
  simp only [List.append_assoc, List.cons_append, List.nil_append]
  rw [runAll_update rfl, runAll_call_next called action,
    runAll_tellText_of_ne (f := ⟨some c, _, false⟩) _ _ failed,
    runAll_nonFailed (f := ⟨some c, _, false⟩) rfl valid,
    Standing.weigh_of_le (high.trans (Standing.le_weigh _ _ _).2)]

/-- The text of a provider that does not end the search. -/
theorem runAll_block_next (h : env.ends type id = false) (rest : Text) :
    ∃ last taken, runAll env.semantics (blockText type id ++ rest) f r =
      runAll env.semantics rest ⟨last, (f.standing.weigh .noop 2).weigh
        (counted (env.code type id)).code (counted (env.code type id)).priority, taken⟩
        (env.tried type id r) := by
  have called := call_provider env type id r
  have low := (f.standing.le_weigh .noop 2).2
  unfold tried ended
  cases hc : env.code type id with
  | ok | handled | userlock | updated => simp [ends, hc, providerActions, authorizeActions] at h
  | reject => exact ⟨_, _, runAll_provider_next hc rfl (by decide) (by decide) (by decide) rest⟩
  | notfound => exact ⟨_, _, runAll_provider_next hc rfl (by decide) (by decide) (by decide) rest⟩
  | noop => exact ⟨_, _, runAll_provider_next hc rfl (by decide) (by decide) (by decide) rest⟩
  | fail =>
    have told : env.told "auth_provider_failed_in_group" id.format = true := by
      simpa [ends, hc, providerActions] using h
    rw [hc] at called
    unfold blockText Piece.text providerText
    simp only [List.append_assoc, List.cons_append, List.nil_append]
    rw [runAll_update rfl, runAll_call_next (n := 2) called rfl, Standing.weigh_of_le low,
      runAll_tellText_next (asked_failedProvider ..) rfl told, runAll_elsif_taken rfl]
    exact ⟨_, _, rfl⟩
  | invalid =>
    rw [hc] at called
    unfold blockText Piece.text providerText
    simp only [List.append_assoc, List.cons_append, List.nil_append]
    rw [runAll_update rfl, runAll_call_next (n := 1) called rfl,
      runAll_tellText_of_ne _ _ (by simp [Frame.code]), runAll_elsif_false rfl,
      Standing.weigh_of_le (Nat.le_of_lt low)]
    exact ⟨_, _, congrArg (fun s => runAll _ rest ⟨_, s, _⟩ _) (Standing.weigh_of_le low _).symm⟩

end Modules

end ElanAgent.Authentication
