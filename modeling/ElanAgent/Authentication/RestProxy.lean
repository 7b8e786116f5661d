import Mathlib.Data.List.Infix
import ElanAgent.Neuron.Calls

/-!
# The external authentication of the REST proxy

`authenticate` of `bin/rest_elan_proxy.py` hands the credentials of a RADIUS request over to a
service, and tells FreeRADIUS by the status of its response what has become of them. It looks
into the errors of the service without asking what they are, and gives the status of an error
by position. `web.json_response` is a parameter: it takes its status by keyword only.
-/

namespace ElanAgent.Authentication

open Neuron

/-- What a handler of the proxy may raise. -/
inductive Raised where
  | keyError (key : String)
  | typeError
  | attributeError (name : String)
  /-- What `call` has raised. -/
  | failure (failure : Failure)

/-- `value == text`. -/
def isText (text : String) : Json → Bool
  | .str other => other = text
  | _ => false

/-- `value[key]`, where the key is a text. -/
def item (key : String) (value : Json) : Except Raised Json :=
  match value with
  | .dict _ => match value.get key with
    | some found => .ok found
    | none => .error (.keyError key)
  | _ => .error .typeError

/-- `key in value`, where the key is a text. -/
def contains (key : String) : Json → Except Raised Bool
  | .str text => .ok (decide (key.toList <:+: text.toList))
  | .list items => .ok (items.any (isText key))
  | .dict items => .ok ((Json.dict items).get key).isSome
  | _ => .error .typeError

/-! ## The handler -/

/-- What the handler reads of an HTTP request. -/
structure HttpRequest where
  body : Json
  query : List (String × String)

/-- `request.query[key]` -/
def HttpRequest.argument (request : HttpRequest) (key : String) : Except Raised String :=
  match request.query.lookup key with
  | some value => .ok value
  | none => .error (.keyError key)

/-- The values of the attributes of a RADIUS request. -/
def values : List (String × Json) → Except Raised (List (String × Json))
  | [] => .ok []
  | (key, properties) :: rest => do
    let value ← item "value" properties
    let ret ← values rest
    pure ((key, value) :: ret)

/-- `request_as_hash_of_values` -/
def requestAsHashOfValues : Json → Except Raised Json
  | .dict attributes => do
    let ret ← values attributes
    pure (.dict ret)
  | _ => .error (.attributeError "items")

/-- A response, whose body is the JSON of the data. -/
structure HttpResponse where
  status : ℕ
  data : Json

/-- `web.json_response`, of its data and a second argument by position, if any. -/
abbrev JsonResponse := Json → Option ℕ → Except Raised HttpResponse

/-- `'status' in errors and errors['status'] == 'wrong_credentials'` -/
def wrongCredentials (errors : Json) : Except Raised Bool := do
  if ← contains "status" errors then
    let status ← item "status" errors
    pure (isText "wrong_credentials" status)
  else pure false

section Handler

variable (jsonResponse : JsonResponse) (call : String → Json → Except Failure Json)

/-- What comes after the call. Only a `RequestError` is caught. -/
def respond : Except Failure Json → Except Raised HttpResponse
  | .ok response => jsonResponse response none
  | .error (.requestError e) => do
    if ← wrongCredentials e.errors then jsonResponse e.errors (some 401)
    else jsonResponse e.errors (some 404)
  | .error failure => .error (.failure failure)

/-- `authenticate` -/
def authenticate (request : HttpRequest) : Except Raised HttpResponse := do
  let radiusRequest ← requestAsHashOfValues request.body
  let source ← request.argument "source"
  let provider ← request.argument "provider"
  let login ← item "User-Name" radiusRequest
  let password ← item "User-Password" radiusRequest
  respond jsonResponse (call "authentication/external/authenticate" (.dict
    [("provider", .str provider), ("source", .str source),
      ("login", login), ("password", password)]))

end Handler

/-! ## Requests with a user name and a password -/

/-- Every attribute has a value, the credentials are among them, and the proxy is told where
they come from. -/
structure WellFormed (request : HttpRequest) : Prop where
  attributes : ∃ items, request.body = .dict items ∧
    (∀ attr ∈ items, ∃ value, item "value" attr.2 = .ok value) ∧
    "User-Name" ∈ items.map Prod.fst ∧ "User-Password" ∈ items.map Prod.fst
  source : "source" ∈ request.query.map Prod.fst
  provider : "provider" ∈ request.query.map Prod.fst

/-- The attributes keep their keys. -/
theorem exists_values {items : List (String × Json)}
    (valued : ∀ attr ∈ items, ∃ value, item "value" attr.2 = .ok value) :
    ∃ ret, values items = .ok ret ∧ ret.map Prod.fst = items.map Prod.fst := by
  induction items with
  | nil => exact ⟨[], rfl, rfl⟩
  | cons attr rest ih =>
    obtain ⟨value, here⟩ := valued attr List.mem_cons_self
    obtain ⟨ret, there, keys⟩ := ih fun other mem => valued other (List.mem_cons_of_mem _ mem)
    refine ⟨(attr.1, value) :: ret, ?_, by simp [keys]⟩
    simp only [values, here, there]
    rfl

theorem exists_item {items : List (String × Json)} {key : String}
    (mem : key ∈ items.map Prod.fst) : ∃ value, item key (.dict items) = .ok value := by
  obtain ⟨pair, inItems, same⟩ := List.mem_map.mp mem
  have found : (items.find? fun other => other.1 = key).isSome :=
    List.find?_isSome.mpr ⟨pair, inItems, by simpa using same⟩
  obtain ⟨first, here⟩ := Option.isSome_iff_exists.mp found
  exact ⟨first.2, by simp [item, Json.get, here]⟩

theorem exists_argument {request : HttpRequest} {key : String}
    (mem : key ∈ request.query.map Prod.fst) : ∃ value, request.argument key = .ok value := by
  obtain ⟨pair, inQuery, same⟩ := List.mem_map.mp mem
  have found : (request.query.lookup key).isSome := by
    rw [List.lookup_isSome_iff]
    exact ⟨pair, inQuery, by simpa using same.symm⟩
  obtain ⟨value, here⟩ := Option.isSome_iff_exists.mp found
  exact ⟨value, by simp [HttpRequest.argument, here]⟩

/-- With such a request, all depends on the call. -/
theorem authenticate_of_wellFormed {jsonResponse : JsonResponse} {request : HttpRequest}
    (wellFormed : WellFormed request) (result : Except Failure Json) :
    authenticate jsonResponse (fun _ _ => result) request = respond jsonResponse result := by
  obtain ⟨items, body, valued, name, password⟩ := wellFormed.attributes
  obtain ⟨ret, hash, keys⟩ := exists_values valued
  rw [← keys] at name password
  obtain ⟨source, hsource⟩ := exists_argument wellFormed.source
  obtain ⟨provider, hprovider⟩ := exists_argument wellFormed.provider
  obtain ⟨login, hlogin⟩ := exists_item name
  obtain ⟨secret, hsecret⟩ := exists_item password
  have radius : requestAsHashOfValues (.dict items) = .ok (.dict ret) := by
    simp only [requestAsHashOfValues, hash]
    rfl
  simp only [authenticate, body, radius, hsource, hprovider]
  simp only [bind, Except.bind, hlogin, hsecret]

/-! ## What the service has done -/

section Outcomes

variable (str : Json → String)

/-- What `call` makes of what the service does, which may be nothing in time. -/
def resultOf : Option Outcome → Except Failure Json
  | some outcome => match outcome.answer str with
    | some answer => callResult answer
    | none => .error .requestTimeout
  | none => .error .requestTimeout

/-- Any call that has finished has the result of what a provider has done with its request, or
of nothing. -/
theorem exists_resultOf {ι κ : Type} [DecidableEq ι] {calls : ι → Call} {providers : κ → Provider}
    (unique : Function.Injective fun i => (calls i).id) {s : System ι κ}
    (reached : Reached str calls providers s) {i : ι} {result : Except Failure Json}
    (finished : s.status i = .finished result) : ∃ o, result = resultOf str o ∧
      ∀ outcome ∈ o, (∃ h ∈ s.handled, h.message = (calls i).request ∧ h.outcome = outcome) := by
  have inv := invariant_reached unique reached
  have sound := inv.status i
  rw [finished] at sound
  rcases sound with rfl | ⟨answer, answered, rfl⟩
  · exact ⟨none, rfl, by rintro outcome ⟨⟩⟩
  · obtain ⟨h, mem, request, -, -, encoded⟩ := answered.outcome inv
    refine ⟨some h.outcome, by simp [resultOf, encoded], ?_⟩
    rintro outcome ⟨⟩
    exact ⟨h, mem, request, rfl⟩

/-- The errors say that the credentials are wrong. -/
def SaysWrongCredentials (errors : Json) : Prop :=
  errors.get "status" = some (.str "wrong_credentials")

/-- The response to what the service has done. -/
def Answers : Option Outcome → HttpResponse → Prop
  | some (.returned value), response => response = ⟨200, value⟩
  | some (.requestError e), response =>
      (SaysWrongCredentials e.errors → response.status = 401) ∧
      (¬SaysWrongCredentials e.errors → response.status = 404)
  | _, response => response.status = 404

/-- There is a response, and it is the one to what the service has done. -/
def Right (o : Option Outcome) (result : Except Raised HttpResponse) : Prop :=
  ∃ response, result = .ok response ∧ Answers o response

end Outcomes

/-- `json_response(data, *, status=200, ..)` -/
structure KeywordOnly (jsonResponse : JsonResponse) : Prop where
  data : ∀ data, jsonResponse data none = .ok ⟨200, data⟩
  positional : ∀ data status, jsonResponse data (some status) = .error .typeError

/-- A `json_response` that would take the status by position too. -/
structure Lenient (jsonResponse : JsonResponse) : Prop where
  data : ∀ data, jsonResponse data none = .ok ⟨200, data⟩
  positional : ∀ data status, jsonResponse data (some status) = .ok ⟨status, data⟩

section Responses

variable {jsonResponse : JsonResponse} {str : Json → String}

variable (str) in
/-- The caller gets the errors as they are. -/
theorem resultOf_requestError (e : RequestError) : ∃ e',
    resultOf str (some (.requestError e)) = .error (.requestError e') ∧ e'.errors = e.errors :=
  ⟨_, callResult_errors e.errors (e.errorStr str) (e.given_errorStr str), rfl⟩

variable (str) in
/-- Any other exception comes as an error without errors, or as a `ValueError`. -/
theorem resultOf_exception (repr : String) :
    (∃ e, resultOf str (some (.exception repr)) = .error (.requestError e) ∧ e.errors = .null) ∨
    ∃ text, resultOf str (some (.exception repr)) = .error (.valueError text) := by
  by_cases named : repr = ""
  · subst named
    exact .inr ⟨_, callResult_empty⟩
  · exact .inl ⟨_, callResult_errorStr named, rfl⟩

theorem not_right_error {o : Option Outcome} {raised : Raised} : ¬Right o (.error raised) := by
  rintro ⟨response, ⟨⟩, -⟩

/-- With a status by position there is no response to an error. -/
theorem not_right_respond (documented : KeywordOnly jsonResponse) (o : Option Outcome)
    (e : RequestError) : ¬Right o (respond jsonResponse (.error (.requestError e))) := by
  simp only [respond]
  cases wrongCredentials e.errors with
  | error raised => exact not_right_error
  | ok wrong =>
    cases wrong
    · show ¬Right o (jsonResponse e.errors (some 404))
      rw [documented.positional]
      exact not_right_error
    · show ¬Right o (jsonResponse e.errors (some 401))
      rw [documented.positional]
      exact not_right_error

/-- The response is right exactly if the service has returned. -/
theorem right_authenticate_iff (documented : KeywordOnly jsonResponse) {request : HttpRequest}
    (wellFormed : WellFormed request) (o : Option Outcome) :
    Right o (authenticate jsonResponse (fun _ _ => resultOf str o) request) ↔
      ∃ value, o = some (.returned value) := by
  rw [authenticate_of_wellFormed wellFormed]
  constructor
  · intro right
    rcases o with _ | outcome
    · exact absurd right not_right_error
    · cases outcome with
      | returned value => exact ⟨value, rfl⟩
      | requestError e =>
        obtain ⟨e', result, -⟩ := resultOf_requestError str e
        rw [result] at right
        exact absurd right (not_right_respond documented _ e')
      | exception repr =>
        rcases resultOf_exception str repr with ⟨e, result, -⟩ | ⟨text, result⟩
        · rw [result] at right
          exact absurd right (not_right_respond documented _ e)
        · rw [result] at right
          exact absurd right not_right_error
      | exits => exact absurd right not_right_error
  · rintro ⟨value, rfl⟩
    exact ⟨⟨200, value⟩, documented.data value, rfl⟩

/-! ## Wrong credentials -/

/-- `json_response`, of which the status is given by keyword only. -/
def keywordResponse : JsonResponse
  | data, none => .ok ⟨200, data⟩
  | _, some _ => .error .typeError

theorem keywordOnly_keywordResponse : KeywordOnly keywordResponse :=
  ⟨fun _ => rfl, fun _ _ => rfl⟩

/-- FreeRADIUS asks about `bob`. -/
def bobRequest : HttpRequest where
  body := .dict [
    ("User-Name", .dict [("type", .str "string"), ("value", .list [.str "bob"])]),
    ("User-Password", .dict [("type", .str "string"), ("value", .list [.str "guess"])])]
  query := [("provider", "1"), ("source", "radius")]

theorem wellFormed_bobRequest : WellFormed bobRequest where
  attributes := by
    refine ⟨_, rfl, fun attr mem => ?_, by simp, by simp⟩
    rcases List.mem_pair.mp mem with rfl | rfl
    · exact ⟨_, rfl⟩
    · exact ⟨_, rfl⟩
  source := by simp [bobRequest]
  provider := by simp [bobRequest]

/-- The service knows better. -/
def badGuess : Outcome :=
  .requestError ⟨.dict [("status", .str "wrong_credentials")], "", .inl rfl⟩

theorem right_authenticate_iff_bob :
    Right (some (.returned (.dict []))) (authenticate keywordResponse
      (fun _ _ => resultOf (fun _ => "") (some (.returned (.dict [])))) bobRequest) ↔
      ∃ value, some (Outcome.returned (.dict [])) = some (.returned value) :=
  right_authenticate_iff keywordOnly_keywordResponse wellFormed_bobRequest _

/-- FreeRADIUS is not told of the wrong credentials. -/
theorem not_right_badGuess : WellFormed bobRequest ∧
    ¬Right (some badGuess) (authenticate keywordResponse
      (fun _ _ => resultOf (fun _ => "\x7b'status': 'wrong_credentials'\x7d") (some badGuess))
      bobRequest) := by
  refine ⟨wellFormed_bobRequest, ?_⟩
  rw [authenticate_of_wellFormed wellFormed_bobRequest]
  exact not_right_error

/-! ## A status by position -/

/-- Errors that `'status' in errors and errors['status'] == ..` can be asked of. -/
def Inspectable : Json → Prop
  | .dict _ => True
  | .list items => ∀ value ∈ items, isText "status" value = false
  | .str text => ¬"status".toList <:+: text.toList
  | _ => False

theorem isText_iff {text : String} {value : Json} : isText text value ↔ value = .str text := by
  cases value <;> simp [isText]

theorem wrongCredentials_dict (items : List (String × Json)) :
    ∃ wrong, wrongCredentials (.dict items) = .ok wrong ∧
      (wrong ↔ SaysWrongCredentials (.dict items)) := by
  cases status : (Json.dict items).get "status" with
  | none =>
    refine ⟨false, ?_, by simp [SaysWrongCredentials, status]⟩
    simp only [wrongCredentials, contains, status]
    rfl
  | some value =>
    refine ⟨isText "wrong_credentials" value, ?_, by
      rw [isText_iff, SaysWrongCredentials, status, Option.some_inj]⟩
    simp only [wrongCredentials, contains, item, status]
    rfl

/-- In a list or in a text the key of the status is not looked for any further. -/
theorem wrongCredentials_of_contains {errors : Json} {within : Bool}
    (found : contains "status" errors = .ok within) (noDict : ∀ items, errors ≠ .dict items) :
    wrongCredentials errors = if within then .error .typeError else .ok false := by
  have noItem : item "status" errors = .error .typeError := by
    cases errors with
    | dict items => exact absurd rfl (noDict items)
    | _ => rfl
  cases within
  · simp only [wrongCredentials, found]
    rfl
  · simp only [wrongCredentials, found, noItem]
    rfl

/-- The test can be made of the errors, and it finds the wrong credentials. -/
theorem exists_wrongCredentials {errors : Json} (inspectable : Inspectable errors) :
    ∃ wrong, wrongCredentials errors = .ok wrong ∧ (wrong ↔ SaysWrongCredentials errors) := by
  cases errors with
  | dict items => exact wrongCredentials_dict items
  | list items =>
    have absent : items.any (isText "status") = false := by
      simpa [Inspectable] using inspectable
    have found : contains "status" (.list items) = .ok false := by rw [contains, absent]
    refine ⟨false, wrongCredentials_of_contains found (by rintro items ⟨⟩), ?_⟩
    simp [SaysWrongCredentials, Json.get]
  | str text =>
    have found : contains "status" (.str text) = .ok false := by
      rw [contains, decide_eq_false inspectable]
    refine ⟨false, wrongCredentials_of_contains found (by rintro items ⟨⟩), ?_⟩
    simp [SaysWrongCredentials, Json.get]
  | _ => cases inspectable

theorem inspectable_of_wrongCredentials {errors : Json} {wrong : Bool}
    (tested : wrongCredentials errors = .ok wrong) : Inspectable errors := by
  cases errors with
  | dict items => trivial
  | list items =>
    rw [wrongCredentials_of_contains rfl (by rintro items ⟨⟩)] at tested
    split at tested
    · cases tested
    · rename_i absent
      simpa [Inspectable] using absent
  | str text =>
    rw [wrongCredentials_of_contains rfl (by rintro items ⟨⟩)] at tested
    split at tested
    · cases tested
    · rename_i absent
      exact fun within => absent (decide_eq_true within)
  | _ => cases tested

theorem right_respond_lenient (lenient : Lenient jsonResponse) {e e' : RequestError}
    (same : e'.errors = e.errors) :
    Right (some (.requestError e)) (respond jsonResponse (.error (.requestError e'))) ↔
      Inspectable e.errors := by
  simp only [respond, same]
  constructor
  · intro right
    cases found : wrongCredentials e.errors with
    | error raised =>
      rw [found] at right
      exact absurd right not_right_error
    | ok wrong => exact inspectable_of_wrongCredentials found
  · intro inspectable
    obtain ⟨wrong, found, told⟩ := exists_wrongCredentials inspectable
    rw [found]
    cases wrong
    · refine ⟨⟨404, e.errors⟩, lenient.positional e.errors 404, fun said => ?_, fun _ => rfl⟩
      cases told.mpr said
    · refine ⟨⟨401, e.errors⟩, lenient.positional e.errors 401, fun _ => rfl, fun unsaid => ?_⟩
      exact absurd (told.mp rfl) unsaid

/-- Even so, the errors have to be ones that can be looked into. -/
theorem right_authenticate_lenient (lenient : Lenient jsonResponse) {request : HttpRequest}
    (wellFormed : WellFormed request) (o : Option Outcome) :
    Right o (authenticate jsonResponse (fun _ _ => resultOf str o) request) ↔
      (∃ value, o = some (.returned value)) ∨
      ∃ e, o = some (.requestError e) ∧ Inspectable e.errors := by
  rw [authenticate_of_wellFormed wellFormed]
  rcases o with _ | outcome
  · simp [resultOf, respond, not_right_error]
  · cases outcome with
    | returned value =>
      have right : Right (some (.returned value))
          (respond jsonResponse (resultOf str (some (.returned value)))) :=
        ⟨⟨200, value⟩, lenient.data value, rfl⟩
      simpa using right
    | requestError e =>
      obtain ⟨e', result, same⟩ := resultOf_requestError str e
      rw [result, right_respond_lenient lenient same]
      simp
    | exception repr =>
      have silent : ¬Right (some (.exception repr))
          (respond jsonResponse (resultOf str (some (.exception repr)))) := by
        rcases resultOf_exception str repr with ⟨e, result, absent⟩ | ⟨text, result⟩
        · simp only [result, respond, absent]
          exact not_right_error
        · rw [result]
          exact not_right_error
      simp [silent]
    | exits => simp [resultOf, Outcome.answer, respond, not_right_error]

end Responses

end ElanAgent.Authentication
