import Mathlib.Data.List.TakeWhile
import ElanAgent.Neuron.Dendrite

/-!
# Requests to services

What the wrapper of `provide` makes of the outcome of a callback, and what `call` makes of the
answer. The outcome is in the keys of the answer: a result, an error, or the text of one.
`str` stands for the `str` of a value that is not a text.
-/

namespace ElanAgent.Neuron

/-- `SERVICE_REQUESTS_TOPIC_PATTERN`. -/
def requestsTopic (service : String) : String := "service/requests/" ++ service

/-- `SERVICE_ANSWERS_TOPIC_PATTERN`. -/
def answersTopic (service requestId : String) : String :=
  "service/answers/" ++ service ++ "/" ++ requestId

/-- The group of `service/requests/(?P<service>.+)$`. No character of it is a newline, and
one newline may come after it. -/
def matchService (topic : String) : Option String :=
  if "service/requests/".toList <+: topic.toList then
    let rest := topic.toList.drop "service/requests/".length
    let service := rest.takeWhile (· ≠ '\n')
    if service ≠ [] ∧ rest.drop service.length ∈ [[], ['\n']] then some (String.ofList service)
    else none
  else none

/-- `RequestError`, with its arguments. -/
structure RequestError where
  errors : Json
  text : String
  given : errors.truthy ∨ text ≠ ""

/-- What `call` may raise. -/
inductive Failure where
  | requestError (e : RequestError)
  | valueError (text : String)
  | keyError (key : String)
  | requestTimeout

def RequestError.unset : String := "\"errors\" or \"error_str\" should be set"

/-- `RequestError(errors, error_str)`. -/
def RequestError.new (errors errorStr : Json) : Except Failure RequestError :=
  if unset : ¬ errors.truthy ∧ ¬ errorStr.truthy then
    .error (.valueError RequestError.unset)
  else
    match same : errorStr with
    | .str text => .ok
      { errors, text
        given := by
          subst same
          by_contra absent
          simp only [not_or, not_not] at absent
          exact unset ⟨absent.1, by simp [Json.truthy, absent.2]⟩ }
    | _ => .error (.valueError "\"error_str\" should be a string")

/-- What the callback of a provider does with a request. -/
inductive Outcome where
  | returned (value : Json)
  | requestError (e : RequestError)
  /-- Any other `Exception`, by its `repr`. -/
  | exception (repr : String)
  /-- What is raised is no `Exception`. -/
  | exits

section Codec

variable (str : Json → String)

/-- `error_str`. -/
def RequestError.errorStr (e : RequestError) : String :=
  if e.text ≠ "" then e.text else str e.errors

/-- `'{}'.format(value)`. -/
def Json.format : Json → String
  | .str text => text
  | value => str value

/-- The answer to a request. -/
def Outcome.answer : Outcome → Option Json
  | returned value => some (.dict [("result", value)])
  | requestError e => some (.dict [("errors", e.errors), ("error_str", .str (e.errorStr str))])
  | exception repr => some (.dict [("error_str", .str repr)])
  | exits => none

/-- What `call` returns or raises once it has its answer. -/
def callResult (answer : Json) : Except Failure Json :=
  if (answer.get "errors").isSome ∨ (answer.get "error_str").isSome then
    match RequestError.new ((answer.get "errors").getD .null)
        ((answer.get "error_str").getD (.str "")) with
    | .ok e => .error (.requestError e)
    | .error failure => .error failure
  else
    match answer.get "result" with
    | some value => .ok value
    | none => .error (.keyError "result")

/-- The body of the `try` of the wrapper, where a callback `fn` may do as it likes with a
request to a service. -/
def Tries (fn : Json → String → Outcome → Prop) (message : Message) (o : Outcome) : Prop :=
  match message.data.get "request", matchService message.topic with
  | none, _ => o = .exception "KeyError('request')"
  | some _, none => o = .exception "AttributeError(\"'NoneType' object has no attribute 'group'\")"
  | some request, some service => fn request service o

/-- What the wrapper publishes then. It raises where there is no id, or no service. -/
def answerMessage (message : Message) (o : Outcome) : Option Message := do
  let answer ← o.answer str
  let id ← message.data.get "id"
  let service ← matchService message.topic
  pure (publish (answersTopic service (id.format str)) answer)

end Codec

/-- The exceptions with a `repr` that a `RequestError` can carry. -/
def Outcome.Named : Outcome → Prop
  | exception repr => repr ≠ ""
  | _ => True

theorem new_str (errors : Json) {text : String} (given : errors.truthy ∨ text ≠ "") :
    RequestError.new errors (.str text) = .ok ⟨errors, text, given⟩ := by
  have set : ¬ (¬ errors.truthy ∧ ¬ (Json.str text).truthy) := by
    simpa [Json.truthy, imp_iff_not_or] using given
  rw [RequestError.new, dif_neg set]

theorem callResult_errors (errors : Json) (text : String) (given : errors.truthy ∨ text ≠ "") :
    callResult (.dict [("errors", errors), ("error_str", .str text)]) =
      .error (.requestError ⟨errors, text, given⟩) := by
  have got : (Json.dict [("errors", errors), ("error_str", .str text)]).get "errors" =
      some errors := rfl
  have got' : (Json.dict [("errors", errors), ("error_str", .str text)]).get "error_str" =
      some (.str text) := rfl
  simp [callResult, got, got', new_str errors given]

theorem callResult_errorStr {text : String} (given : text ≠ "") :
    callResult (.dict [("error_str", .str text)]) =
      .error (.requestError ⟨.null, text, .inr given⟩) := by
  have got : (Json.dict [("error_str", .str text)]).get "errors" = none := rfl
  have got' : (Json.dict [("error_str", .str text)]).get "error_str" = some (.str text) := rfl
  simp [callResult, got, got', new_str .null (.inr given)]

theorem callResult_empty : callResult (.dict [("error_str", .str "")]) =
    .error (.valueError RequestError.unset) := rfl

namespace RequestError

variable (str : Json → String)

theorem errorStr_of_text {e : RequestError} (given : e.text ≠ "") : e.errorStr str = e.text :=
  if_pos given

/-- The text that is sent is a proper argument of the exception of the caller. -/
theorem given_errorStr (e : RequestError) : e.errors.truthy ∨ e.errorStr str ≠ "" := by
  refine e.given.imp_right fun given => ?_
  rwa [errorStr_of_text str given]

end RequestError

/-- A name on one line is found in the topic of its requests. -/
theorem matchService_requestsTopic {service : String} (nonempty : service ≠ "")
    (oneLine : '\n' ∉ service.toList) : matchService (requestsTopic service) = some service := by
  have text : (requestsTopic service).toList =
      "service/requests/".toList ++ service.toList := String.toList_append
  have rest : ("service/requests/".toList ++ service.toList).drop "service/requests/".length =
      service.toList := List.drop_left' String.length_toList
  have whole : service.toList.takeWhile (· ≠ '\n') = service.toList := by
    rw [List.takeWhile_eq_self_iff]
    intro c hc
    exact decide_eq_true fun newline => oneLine (newline ▸ hc)
  rw [matchService, text, if_pos (List.prefix_append _ _)]
  simp only [rest, whole]
  simp [nonempty]

end ElanAgent.Neuron
