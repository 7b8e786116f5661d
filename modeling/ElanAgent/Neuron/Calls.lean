import Mathlib.Logic.Relation
import ElanAgent.Library.Text
import ElanAgent.Neuron.Rpc

/-!
# Concurrent calls

Callers and providers share a broker. Everything that has been published may be delivered to
whoever subscribes to its topic, in any order and more than once, and each delivery starts a
thread that runs its callback whenever it is scheduled. A call waits for its future, on a
topic that its request id makes its own.
-/

namespace ElanAgent.Neuron

open Mqtt

/-- `str(uuid.uuid4())`. -/
structure RequestId where
  text : String
  plain : ∀ c ∈ text.toList, c.isAlphanum ∨ c = '-'

/-- The arguments of `call`, with its request id. No message can be published on a topic that
has a wildcard. -/
structure Call where
  id : RequestId
  service : String
  data : Json
  concrete : Concrete service

/-- The arguments of `provide`. The service may have wildcards. -/
structure Provider where
  service : String
  fn : Json → String → Outcome → Prop

namespace Call

/-- The request that `call` publishes. -/
def request (call : Call) : Message :=
  publish (requestsTopic call.service)
    (.dict [("request", call.data), ("id", .str call.id.text)])

/-- The topic to which `call` subscribes. -/
def answers (call : Call) : String := answersTopic call.service call.id.text

end Call

/-! ## Topics -/

theorem slash_not_mem (id : RequestId) : '/' ∉ id.text.toList := by
  intro slash
  rcases id.plain '/' slash with alphanumeric | hyphen
  · exact absurd alphanumeric (by decide)
  · exact absurd hyphen (by decide)

theorem RequestId.ext {id id' : RequestId} (same : id.text = id'.text) : id = id' := by
  cases id
  cases id'
  cases same
  rfl

theorem fields_inj {start service service' : String} {id id' : RequestId}
    (same : start ++ service ++ "/" ++ id.text = start ++ service' ++ "/" ++ id'.text) :
    service = service' ∧ id = id' := by
  have text := congrArg (fun topic => topic.toList.reverse) same
  have notSlash (id : RequestId) : '/' ∉ id.text.toList.reverse := by
    rw [List.mem_reverse]
    exact slash_not_mem id
  have fields (service : String) (id : RequestId) :
      (start ++ service ++ "/" ++ id.text).toList.reverse =
        id.text.toList.reverse ++ '/' :: (start ++ service).toList.reverse := by
    simp
  rw [fields, fields, split_at (notSlash id) (notSlash id')] at text
  obtain ⟨ids, services⟩ := text
  refine ⟨?_, RequestId.ext (String.toList_inj.mp (List.reverse_injective ids))⟩
  exact (String.append_right_inj _).mp (String.toList_inj.mp (List.reverse_injective services))

/-- The topic of an answer determines the service and the request. -/
theorem answersTopic_inj {service service' : String} {id id' : RequestId}
    (same : answersTopic service id.text = answersTopic service' id'.text) :
    service = service' ∧ id = id' := fields_inj same

theorem requestsTopic_ne_answersTopic (service service' id : String) :
    requestsTopic service ≠ answersTopic service' id := by
  have requests : "service/requests/".toList = "service/".toList ++ 'r' :: "equests/".toList := by
    decide +kernel
  have answers : "service/answers/".toList = "service/".toList ++ 'a' :: "nswers/".toList := by
    decide +kernel
  have different := append_ne requests answers (by decide) service (service' ++ ("/" ++ id))
  rwa [← String.append_assoc, ← String.append_assoc] at different

theorem concrete_answers (call : Call) : Concrete call.answers := by
  have start : Concrete "service/answers/" := by decide +kernel
  have slash : Concrete "/" := by decide +kernel
  have id : Concrete call.id.text := by
    constructor
    · exact fun plus => absurd (call.id.plain '+' plus) (by decide)
    · exact fun hash => absurd (call.id.plain '#' hash) (by decide)
  unfold Call.answers answersTopic
  rw [concrete_append, concrete_append, concrete_append]
  exact ⟨⟨⟨start, call.concrete⟩, slash⟩, id⟩

/-- What is published for a request is an answer on the topic of its id. -/
theorem answerMessage_request {str : Json → String} {call : Call} {o : Outcome} {m : Message} :
    answerMessage str call.request o = some m ↔ ∃ answer service, o.answer str = some answer ∧
      matchService (requestsTopic call.service) = some service ∧
      m = publish (answersTopic service call.id.text) answer := by
  have id : call.request.data.get "id" = some (.str call.id.text) := by
    rw [Call.request, publish_data]
    rfl
  have topic : call.request.topic = requestsTopic call.service := publish_topic _ _
  simp only [answerMessage, id, topic]
  cases o.answer str <;> cases matchService (requestsTopic call.service) <;>
    simp [Json.format, eq_comm]

theorem tries_request {fn : Json → String → Outcome → Prop} {call : Call} {service : String}
    (found : matchService (requestsTopic call.service) = some service) {o : Outcome} :
    Tries fn call.request o ↔ fn call.data service o := by
  have request : call.request.data.get "request" = some call.data := by
    rw [Call.request, publish_data]
    rfl
  have topic : call.request.topic = requestsTopic call.service := publish_topic _ _
  rw [Tries, request, topic, found]

/-! ## Callers, providers and the broker -/

/-- A call, by the state of its future while it waits. -/
inductive Status where
  | idle
  | waiting (future : Option Json)
  | finished (result : Except Failure Json)

/-- `future.set_result(answer)`. It raises where there is a result, and nobody is waiting once
the call has finished. -/
def Status.setResult (answer : Json) : Status → Status
  | waiting none => waiting (some answer)
  | status => status

/-- Whose callback a message is for. -/
inductive Subscriber (ι κ : Type) where
  | provider (k : κ)
  | future (i : ι)

/-- A request that a provider has handled, with the outcome. -/
structure Handled (κ : Type) where
  provider : κ
  message : Message
  outcome : Outcome

/-- Calls and providers around a broker. What has been delivered and handled is recorded. -/
structure System (ι κ : Type) where
  status : ι → Status
  published : List Message
  delivered : List (Subscriber ι κ × Message)
  threads : List (Subscriber ι κ × Message)
  handled : List (Handled κ)

namespace System

def start (ι κ : Type) : System ι κ where
  status _ := .idle
  published := []
  delivered := []
  threads := []
  handled := []

variable {ι κ : Type}

/-- A provider stays subscribed. A call is, while it waits. -/
def Subscribed (s : System ι κ) : Subscriber ι κ → Prop
  | .provider _ => True
  | .future i => ∃ future, s.status i = .waiting future

section Become

variable [DecidableEq ι]

def become (s : System ι κ) (i : ι) (status : Status) : System ι κ :=
  { s with status := Function.update s.status i status }

@[simp] theorem become_self (s : System ι κ) (i : ι) (status : Status) :
    (s.become i status).status i = status := by
  simp [become]

theorem become_of_ne {i j : ι} (ne : j ≠ i) (s : System ι κ) (status : Status) :
    (s.become i status).status j = s.status j := by
  simp [become, ne]

theorem forall_become {P : ι → Status → Prop} {s : System ι κ} {i : ι} {status : Status}
    (here : P i status) (others : ∀ j, P j (s.status j)) (j : ι) :
    P j ((s.become i status).status j) := by
  by_cases same : j = i
  · subst same
    rwa [become_self]
  · rw [become_of_ne same]
    exact others j

end Become

end System

variable {ι κ : Type}

section Steps

variable [DecidableEq ι] (str : Json → String) (calls : ι → Call) (providers : κ → Provider)

/-- The topic, or the filter, of a subscription. -/
def filter : Subscriber ι κ → String
  | .provider k => requestsTopic (providers k).service
  | .future i => (calls i).answers

/-- One step of a caller, of the broker or of a thread. -/
inductive Step : System ι κ → System ι κ → Prop
  | call {s : System ι κ} {i : ι} (idle : s.status i = .idle) :
      Step s { s.become i (.waiting none) with
        published := s.published ++ [(calls i).request] }
  | deliver {s : System ι κ} {b : Subscriber ι κ} {m : Message} (published : m ∈ s.published)
      (subscribed : s.Subscribed b) (fits : matchTopic (filter calls providers b) m.topic) :
      Step s { s with
        delivered := s.delivered ++ [(b, m)]
        threads := s.threads ++ [(b, m)] }
  | provide {s : System ι κ} {before after : List (Subscriber ι κ × Message)} {k : κ} {m : Message}
      {o : Outcome} (started : s.threads = before ++ (.provider k, m) :: after)
      (tries : Tries (providers k).fn m o) :
      Step s { s with
        published := s.published ++ (answerMessage str m o).toList
        threads := before ++ after
        handled := s.handled ++ [⟨k, m, o⟩] }
  | set {s : System ι κ} {before after : List (Subscriber ι κ × Message)} {i : ι} {m : Message}
      (started : s.threads = before ++ (.future i, m) :: after) :
      Step s { s.become i ((s.status i).setResult m.data) with threads := before ++ after }
  | resume {s : System ι κ} {i : ι} {answer : Json} (got : s.status i = .waiting (some answer)) :
      Step s (s.become i (.finished (callResult answer)))
  | timeout {s : System ι κ} {i : ι} (waiting : s.status i = .waiting none) :
      Step s (s.become i (.finished (.error .requestTimeout)))

/-- What any number of steps may lead to. -/
def Reached (s : System ι κ) : Prop :=
  Relation.ReflTransGen (Step str calls providers) (.start ι κ) s

end Steps

/-! ## Whose answer it is -/

section Answers

variable (str : Json → String) (calls : ι → Call) (providers : κ → Provider)

/-- A provider has handled the request of a call, and this is what it has answered. -/
def Answered (s : System ι κ) (i : ι) (answer : Json) : Prop :=
  ∃ h ∈ s.handled, h.message = (calls i).request ∧
    answerMessage str (calls i).request h.outcome = some (publish (calls i).answers answer)

/-- A call has no answer but its own. -/
def Sound (s : System ι κ) (i : ι) : Status → Prop
  | .waiting (some answer) => Answered str calls s i answer
  | .finished result => result = .error .requestTimeout ∨
      ∃ answer, Answered str calls s i answer ∧ result = callResult answer
  | _ => True

structure Invariant (s : System ι κ) : Prop where
  published : ∀ m ∈ s.published, (∃ i, m = (calls i).request) ∨
    ∃ i, ∃ h ∈ s.handled, h.message = (calls i).request ∧
      answerMessage str (calls i).request h.outcome = some m
  threads : ∀ t ∈ s.threads, t.2 ∈ s.published ∧
    matchTopic (filter calls providers t.1) t.2.topic
  handled : ∀ h ∈ s.handled, Tries (providers h.provider).fn h.message h.outcome ∧
    matchTopic (requestsTopic (providers h.provider).service) h.message.topic
  status : ∀ i, Sound str calls s i (s.status i)

variable {str calls providers}

theorem Answered.mono {s t : System ι κ} {i : ι} {answer : Json}
    (h : Answered str calls s i answer) (more : s.handled ⊆ t.handled) :
    Answered str calls t i answer := by
  obtain ⟨handled, mem, rest⟩ := h
  exact ⟨handled, more mem, rest⟩

theorem Sound.mono {s t : System ι κ} {i : ι} {status : Status}
    (h : Sound str calls s i status) (more : s.handled ⊆ t.handled) :
    Sound str calls t i status := by
  cases status with
  | idle => trivial
  | waiting future =>
    cases future with
    | none => trivial
    | some answer => exact Answered.mono h more
  | finished result => exact h.imp_right fun ⟨answer, own, same⟩ => ⟨answer, own.mono more, same⟩

theorem filter_future {i : ι} {topic : String} :
    matchTopic (filter calls providers (.future i)) topic ↔ (calls i).answers = topic :=
  matchTopic_concrete (concrete_answers (calls i))

/-- An answer is no request. -/
theorem answerMessage_answer {o o' : Outcome} {answer : Json} (h : o.answer str = some answer)
    (topic : String) : answerMessage str (publish topic answer) o' = none := by
  have noId : answer.get "id" = none := by
    cases o with
    | exits => cases h
    | _ =>
      obtain rfl := Option.some.inj h
      rfl
  unfold answerMessage
  rw [publish_data, noId]
  cases o'.answer str <;> rfl

/-- What is delivered to a call is an answer to its own request. -/
theorem Invariant.answered {s : System ι κ} (inv : Invariant str calls providers s)
    (unique : Function.Injective fun i => (calls i).id) {i : ι} {m : Message}
    (published : m ∈ s.published) (topic : (calls i).answers = m.topic) :
    Answered str calls s i m.data := by
  rcases inv.published m published with ⟨j, rfl⟩ | ⟨j, h, mem, request, answered⟩
  · exact absurd ((publish_topic _ _).symm.trans topic.symm) (requestsTopic_ne_answersTopic _ _ _)
  · obtain ⟨answer, service, -, -, rfl⟩ := answerMessage_request.mp answered
    rw [publish_topic] at topic
    obtain ⟨rfl, ids⟩ := answersTopic_inj topic
    obtain rfl := unique ids
    rw [publish_data]
    exact ⟨h, mem, request, answered⟩

/-- What has been answered to a call is the outcome of its provider on its own data. -/
theorem Answered.outcome {s : System ι κ} (inv : Invariant str calls providers s) {i : ι}
    {answer : Json} (answered : Answered str calls s i answer) :
    ∃ h ∈ s.handled, h.message = (calls i).request ∧
      matchTopic (requestsTopic (providers h.provider).service)
        (requestsTopic (calls i).service) ∧
      (providers h.provider).fn (calls i).data (calls i).service h.outcome ∧
      h.outcome.answer str = some answer := by
  obtain ⟨h, mem, request, answered⟩ := answered
  obtain ⟨tries, fits⟩ := inv.handled h mem
  obtain ⟨answer', service, encoded, found, same⟩ := answerMessage_request.mp answered
  have topic := congrArg Message.topic same
  have data := congrArg Message.data same
  rw [publish_topic, publish_topic] at topic
  rw [publish_data, publish_data] at data
  obtain ⟨rfl, -⟩ := answersTopic_inj topic
  rw [request] at tries fits
  rw [Call.request, publish_topic] at fits
  exact ⟨h, mem, request, fits, (tries_request found).mp tries,
    encoded.trans (congrArg some data.symm)⟩

theorem invariant_start : Invariant str calls providers (.start ι κ) where
  published m hm := by cases hm
  threads t ht := by cases ht
  handled h hh := by cases hh
  status _ := trivial

end Answers

theorem mem_of_rest {α : Type} {l before after : List α} {x y : α} (h : l = before ++ x :: after)
    (hy : y ∈ before ++ after) : y ∈ l := by
  rw [h]
  exact ((List.sublist_cons_self x after).append_left before).subset hy

section Runs

variable [DecidableEq ι] {str : Json → String} {calls : ι → Call} {providers : κ → Provider}

theorem Invariant.step {s t : System ι κ} (unique : Function.Injective fun i => (calls i).id)
    (inv : Invariant str calls providers s) (step : Step str calls providers s t) :
    Invariant str calls providers t := by
  cases step with
  | @call i idle =>
    refine ⟨fun m hm => ?_, fun t ht => ?_, inv.handled, ?_⟩
    · rcases List.mem_append.mp hm with hm | hm
      · exact inv.published m hm
      · exact .inl ⟨i, List.mem_singleton.mp hm⟩
    · exact (inv.threads t ht).imp_left fun mem => List.mem_append_left _ mem
    · exact System.forall_become trivial inv.status
  | deliver published subscribed fits =>
    refine ⟨inv.published, fun t ht => ?_, inv.handled, inv.status⟩
    rcases List.mem_append.mp ht with ht | ht
    · exact inv.threads t ht
    · obtain rfl := List.mem_singleton.mp ht
      exact ⟨published, fits⟩
  | @provide before after k m o started tries =>
    have more : s.handled ⊆ s.handled ++ [⟨k, m, o⟩] := List.subset_append_left _ _
    obtain ⟨mem, fits⟩ := inv.threads (.provider k, m) (by simp [started])
    refine ⟨fun m' hm => ?_, fun t ht => ?_, fun h hh => ?_, fun i => (inv.status i).mono more⟩
    · rcases List.mem_append.mp hm with hm | hm
      · refine (inv.published m' hm).imp_right ?_
        rintro ⟨i, h, mem, request⟩
        exact ⟨i, h, more mem, request⟩
      · have answered : answerMessage str m o = some m' := by simpa using hm
        rcases inv.published m mem with ⟨i, rfl⟩ | ⟨i, h, -, -, before⟩
        · exact .inr ⟨i, ⟨k, _, o⟩, List.mem_append_right _ List.mem_cons_self, rfl, answered⟩
        · obtain ⟨answer, service, encoded, -, rfl⟩ := answerMessage_request.mp before
          rw [answerMessage_answer encoded] at answered
          cases answered
    · have pending := inv.threads t (mem_of_rest started ht)
      exact pending.imp_left fun mem => List.mem_append_left _ mem
    · rcases List.mem_append.mp hh with hh | hh
      · exact inv.handled h hh
      · obtain rfl := List.mem_singleton.mp hh
        exact ⟨tries, fits⟩
  | @set before after i m started =>
    obtain ⟨mem, fits⟩ := inv.threads (.future i, m) (by simp [started])
    have own := inv.answered unique mem (filter_future.mp fits)
    refine ⟨inv.published, fun t ht => inv.threads t (mem_of_rest started ht), inv.handled, ?_⟩
    refine System.forall_become ?_ inv.status
    have sound := inv.status i
    revert sound
    unfold Status.setResult
    split
    · exact fun _ => own
    · exact id
  | @resume i answer got =>
    have sound := inv.status i
    rw [got] at sound
    exact ⟨inv.published, inv.threads, inv.handled,
      System.forall_become (.inr ⟨answer, sound, rfl⟩) inv.status⟩
  | timeout waiting =>
    exact ⟨inv.published, inv.threads, inv.handled,
      System.forall_become (.inl rfl) inv.status⟩

theorem invariant_reached (unique : Function.Injective fun i => (calls i).id) {s : System ι κ}
    (reached : Reached str calls providers s) : Invariant str calls providers s := by
  induction reached with
  | refl => exact invariant_start
  | tail _ step inv => exact inv.step unique step

end Runs

/-! ## Every message delivered -/

section Deliveries

variable (str : Json → String) (calls : ι → Call)

/-- What has been delivered waits for its thread, or its thread has finished. -/
structure Progress (s : System ι κ) : Prop where
  requested : ∀ i future, s.status i = .waiting future → (calls i).request ∈ s.published
  provided : ∀ k m, (.provider k, m) ∈ s.delivered → (.provider k, m) ∈ s.threads ∨
    ∃ h ∈ s.handled, h.provider = k ∧ h.message = m
  answered : ∀ h ∈ s.handled, ∀ m, answerMessage str h.message h.outcome = some m →
    m ∈ s.published
  called : ∀ i m, (.future i, m) ∈ s.delivered → s.status i ≠ .idle ∧
    ((.future i, m) ∈ s.threads ∨ s.status i ≠ .waiting none)

theorem progress_start : Progress str calls (.start ι κ) where
  requested i future waiting := by cases waiting
  provided k m delivered := by cases delivered
  answered h mem := by cases mem
  called i m delivered := by cases delivered

end Deliveries

theorem setResult_waiting {status : Status} {answer : Json} {future : Option Json}
    (h : status.setResult answer = .waiting future) : ∃ before, status = .waiting before := by
  cases status with
  | waiting before => exact ⟨before, rfl⟩
  | idle => cases h
  | finished result => cases h

theorem setResult_settled (status : Status) (answer : Json) (busy : status ≠ .idle) :
    status.setResult answer ≠ .idle ∧ status.setResult answer ≠ .waiting none := by
  cases status with
  | idle => exact absurd rfl busy
  | finished result => exact ⟨nofun, nofun⟩
  | waiting future => cases future <;> exact ⟨nofun, nofun⟩

theorem mem_rest_or {α : Type} {l before after : List α} {x y : α} (h : l = before ++ x :: after)
    (hy : y ∈ l) : y = x ∨ y ∈ before ++ after := by
  rw [h, List.mem_append, List.mem_cons] at hy
  rw [List.mem_append]
  tauto

section Runs

variable [DecidableEq ι] {str : Json → String} {calls : ι → Call} {providers : κ → Provider}

/-- The status of a call changes while it waits, but it does not begin to wait. -/
theorem Progress.become {s : System ι κ} (prog : Progress str calls s) {i : ι} {status : Status}
    (waits : ∀ future, status = .waiting future → ∃ before, s.status i = .waiting before)
    (settled : s.status i ≠ .idle → status ≠ .idle ∧ status ≠ .waiting none) :
    Progress str calls (s.become i status) where
  requested j future waiting := by
    by_cases same : j = i
    · subst same
      rw [System.become_self] at waiting
      obtain ⟨before, waiting⟩ := waits future waiting
      exact prog.requested j before waiting
    · rw [System.become_of_ne same] at waiting
      exact prog.requested j future waiting
  provided := prog.provided
  answered := prog.answered
  called j m delivered := by
    obtain ⟨busy, called⟩ := prog.called j m delivered
    by_cases same : j = i
    · subst same
      rw [System.become_self]
      exact (settled busy).imp_right .inr
    · rw [System.become_of_ne same]
      exact ⟨busy, called⟩

theorem Progress.step {s t : System ι κ} (prog : Progress str calls s)
    (step : Step str calls providers s t) : Progress str calls t := by
  cases step with
  | @call i idle =>
    refine ⟨fun j future waiting => ?_, prog.provided, fun h mem m answered => ?_,
      fun j m delivered => ?_⟩
    · change (s.become i _).status j = _ at waiting
      by_cases same : j = i
      · subst same
        exact List.mem_append_right _ List.mem_cons_self
      · rw [System.become_of_ne same] at waiting
        exact List.mem_append_left _ (prog.requested j future waiting)
    · exact List.mem_append_left _ (prog.answered h mem m answered)
    · obtain ⟨busy, called⟩ := prog.called j m delivered
      have other : j ≠ i := by
        rintro rfl
        exact busy idle
      change (s.become i _).status j ≠ _ ∧ (_ ∨ (s.become i _).status j ≠ _)
      rw [System.become_of_ne other]
      exact ⟨busy, called⟩
  | @deliver b m published subscribed fits =>
    refine ⟨prog.requested, fun k m' delivered => ?_, prog.answered, fun i m' delivered => ?_⟩
    · rcases List.mem_append.mp delivered with before | now
      · exact (prog.provided k m' before).imp_left fun mem => List.mem_append_left _ mem
      · exact .inl (List.mem_append_right _ now)
    · rcases List.mem_append.mp delivered with before | now
      · obtain ⟨busy, called⟩ := prog.called i m' before
        exact ⟨busy, called.imp_left fun mem => List.mem_append_left _ mem⟩
      · obtain ⟨rfl, rfl⟩ := Prod.mk.inj (List.mem_singleton.mp now)
        obtain ⟨future, waiting⟩ := subscribed
        exact ⟨by simp [waiting], .inl (List.mem_append_right _ now)⟩
  | @provide before after k m o started tries =>
    refine ⟨fun i future waiting => ?_, fun k' m' delivered => ?_, fun h mem m' answered => ?_,
      fun i m' delivered => ?_⟩
    · exact List.mem_append_left _ (prog.requested i future waiting)
    · rcases prog.provided k' m' delivered with pending | ⟨h, mem, same⟩
      · rcases mem_rest_or started pending with same | rest
        · obtain ⟨hk, rfl⟩ := Prod.mk.inj same
          obtain rfl := Subscriber.provider.inj hk
          exact .inr ⟨_, List.mem_append_right _ List.mem_cons_self, rfl, rfl⟩
        · exact .inl rest
      · exact .inr ⟨h, List.mem_append_left _ mem, same⟩
    · rcases List.mem_append.mp mem with mem | mem
      · exact List.mem_append_left _ (prog.answered h mem m' answered)
      · obtain rfl := List.mem_singleton.mp mem
        exact List.mem_append_right _ (by simp [answered])
    · obtain ⟨busy, called⟩ := prog.called i m' delivered
      refine ⟨busy, called.imp_left fun pending => ?_⟩
      exact (mem_rest_or started pending).resolve_left (by simp)
  | @set before after i m started =>
    have settled := setResult_settled (s.status i) m.data
    have became := prog.become (i := i) (fun _ => setResult_waiting) settled
    refine ⟨became.requested, fun k m' delivered => ?_, became.answered, fun j m' delivered => ?_⟩
    · refine (prog.provided k m' delivered).imp_left fun pending => ?_
      exact (mem_rest_or started pending).resolve_left (by simp)
    · obtain ⟨busy, called⟩ := became.called j m' delivered
      refine ⟨busy, ?_⟩
      by_cases same : j = i
      · subst same
        refine .inr ?_
        change (s.become j _).status j ≠ _
        rw [System.become_self]
        exact (settled (prog.called j m' delivered).1).2
      · refine called.imp_left fun pending => ?_
        exact (mem_rest_or started pending).resolve_left (by simp [same])
  | resume => exact prog.become nofun fun _ => ⟨nofun, nofun⟩
  | timeout => exact prog.become nofun fun _ => ⟨nofun, nofun⟩

theorem progress_reached {s : System ι κ} (reached : Reached str calls providers s) :
    Progress str calls s := by
  induction reached with
  | refl => exact progress_start str calls
  | tail _ step prog => exact prog.step step

/-- Every message has been delivered to everyone who subscribes to it, and every thread has
finished. -/
def Settled (calls : ι → Call) (providers : κ → Provider) (s : System ι κ) : Prop :=
  s.threads = [] ∧ ∀ b, s.Subscribed b → ∀ m ∈ s.published,
    matchTopic (filter calls providers b) m.topic → (b, m) ∈ s.delivered

/-- When every message has been delivered, a call to a service that is provided has got its
answer, unless the callback has left the thread of the provider without one. -/
theorem answered_of_settled {s : System ι κ} (reached : Reached str calls providers s)
    (settled : Settled calls providers s) {i : ι} {k : κ} (nonempty : (calls i).service ≠ "")
    (oneLine : '\n' ∉ (calls i).service.toList)
    (provided : matchTopic (requestsTopic (providers k).service)
      (requestsTopic (calls i).service)) (waiting : s.status i = .waiting none) :
    ∃ h ∈ s.handled, h.provider = k ∧ h.message = (calls i).request ∧
      h.outcome.answer str = none := by
  have prog := progress_reached reached
  obtain ⟨finished, delivered⟩ := settled
  have request := prog.requested i none waiting
  have fits : matchTopic (filter calls providers (.provider k)) (calls i).request.topic := by
    rwa [Call.request, publish_topic]
  obtain ⟨h, mem, rfl, message⟩ := (prog.provided k _
    (delivered (.provider k) trivial _ request fits)).resolve_left (by simp [finished])
  refine ⟨h, mem, rfl, message, ?_⟩
  by_contra encoded
  obtain ⟨answer, encoded⟩ := Option.ne_none_iff_exists'.mp encoded
  have found := matchService_requestsTopic nonempty oneLine
  have answered : answerMessage str h.message h.outcome =
      some (publish (calls i).answers answer) := by
    rw [message]
    exact answerMessage_request.mpr ⟨answer, _, encoded, found, rfl⟩
  have published := prog.answered h mem _ answered
  have got := delivered (.future i) ⟨none, waiting⟩ _ published
    (filter_future.mpr (publish_topic _ _).symm)
  rcases (prog.called i _ got).2 with pending | set
  · rw [finished] at pending
    cases pending
  · exact set waiting

end Runs

/-- Its callback raises an exception whose `repr` is empty. -/
def silent : Provider := ⟨"test/fct", fun _ _ o => o = .exception ""⟩

end ElanAgent.Neuron
