import Mathlib.Data.Finset.Basic
import Mathlib.Data.Finset.Lattice.Lemmas
import Mathlib.Logic.Function.Basic
import ElanAgent.Neuron.Rpc

/-!
# Subscriptions

A dendrite keeps the set of its topics, and its MQTT client one callback for each of them.
Every subscription wraps its callback anew, and the wrapper is known here by the number of
wrappers made before it. `get` subscribes for the sake of one message. It would unsubscribe
from a topic that is not in the set, which the topic is by then.
-/

namespace ElanAgent.Neuron

open Mqtt

/-- The topics of a dendrite, with their callbacks. -/
structure Dendrite where
  topics : Finset String
  callbacks : String → Option ℕ
  made : ℕ
  fresh : ∀ {topic cb}, callbacks topic = some cb → cb < made
  registered : ∀ topic, topic ∈ topics ↔ (callbacks topic).isSome
  own : ∀ {topic topic' cb}, callbacks topic = some cb → callbacks topic' = some cb →
    topic = topic'

namespace Dendrite

/-- `Dendrite()`. -/
def new : Dendrite where
  topics := ∅
  callbacks := fun _ => none
  made := 0
  fresh := nofun
  registered := by simp
  own := nofun

theorem callbacks_ne_made (d : Dendrite) (topic : String) : d.callbacks topic ≠ some d.made :=
  fun found => absurd (d.fresh found) (lt_irrefl _)

/-- `subscribe(topic, cb)`. The wrapper of `cb` replaces the callback of the topic, if any. -/
def subscribe (d : Dendrite) (topic : String) : Dendrite where
  topics := insert topic d.topics
  callbacks := Function.update d.callbacks topic (some d.made)
  made := d.made + 1
  fresh := by
    intro topic' cb found
    by_cases same : topic' = topic
    · subst same
      rw [Function.update_self, Option.some.injEq] at found
      exact found ▸ Nat.lt_succ_self d.made
    · rw [Function.update_of_ne same] at found
      exact Nat.lt_succ_of_lt (d.fresh found)
  registered := by
    intro topic'
    by_cases same : topic' = topic
    · simp [same]
    · simp [same, d.registered topic']
  own := by
    intro topic₁ topic₂ cb found₁ found₂
    have made {topic'} (other : topic' ≠ topic) :
        Function.update d.callbacks topic (some d.made) topic' ≠ some d.made := by
      rw [Function.update_of_ne other]
      exact d.callbacks_ne_made topic'
    by_cases same₁ : topic₁ = topic <;> by_cases same₂ : topic₂ = topic
    · rw [same₁, same₂]
    · subst same₁
      rw [Function.update_self] at found₁
      exact absurd (found₁ ▸ found₂) (made same₂)
    · subst same₂
      rw [Function.update_self] at found₂
      exact absurd (found₂ ▸ found₁) (made same₁)
    · rw [Function.update_of_ne same₁] at found₁
      rw [Function.update_of_ne same₂] at found₂
      exact d.own found₁ found₂

/-- `unsubscribe(topic)`. -/
def unsubscribe (d : Dendrite) (topic : String) : Dendrite where
  topics := d.topics.erase topic
  callbacks := Function.update d.callbacks topic none
  made := d.made
  fresh := by
    intro topic' cb found
    by_cases same : topic' = topic
    · simp [same] at found
    · rw [Function.update_of_ne same] at found
      exact d.fresh found
  registered := by
    intro topic'
    by_cases same : topic' = topic
    · simp [same]
    · simp [same, d.registered topic']
  own := by
    intro topic₁ topic₂ cb found₁ found₂
    have other {topic'} (found : Function.update d.callbacks topic none topic' = some cb) :
        d.callbacks topic' = some cb := by
      by_cases same : topic' = topic
      · simp [same] at found
      · rwa [Function.update_of_ne same] at found
    exact d.own (other found₁) (other found₂)

/-- `get(topic)`, where `first` is the value of the first message that its callback gets in
time. -/
def get (d : Dendrite) (topic : String) (first : Option Json) : Except Failure Json × Dendrite :=
  let d := d.subscribe topic
  let result := match first with
    | some value => .ok value
    | none => .error .requestTimeout
  (result, if topic ∉ d.topics then d.unsubscribe topic else d)

/-- The same topics are subscribed, with the same callbacks. -/
def Same (d d' : Dendrite) : Prop := d.topics = d'.topics ∧ d.callbacks = d'.callbacks

/-- The callbacks that the MQTT client runs for a message. -/
def Reached (d : Dendrite) (message : Message) (cb : ℕ) : Prop :=
  ∃ topic, d.callbacks topic = some cb ∧ matchTopic topic message.topic

/-! ## A subscription -/

@[simp] theorem topics_subscribe (d : Dendrite) (topic : String) :
    (d.subscribe topic).topics = insert topic d.topics := rfl

@[simp] theorem callbacks_subscribe (d : Dendrite) (topic : String) :
    (d.subscribe topic).callbacks = Function.update d.callbacks topic (some d.made) := rfl

theorem not_same_subscribe (d : Dendrite) (topic : String) : ¬ (d.subscribe topic).Same d := by
  rintro ⟨-, callbacks⟩
  have found := congrFun callbacks topic
  rw [callbacks_subscribe, Function.update_self] at found
  exact d.callbacks_ne_made topic found.symm

/-- What `call` does with a topic of its own: nothing is left of the subscription. -/
theorem same_unsubscribe_subscribe {d : Dendrite} {topic : String} (new : topic ∉ d.topics) :
    ((d.subscribe topic).unsubscribe topic).Same d := by
  have absent : d.callbacks topic = none := by
    rwa [d.registered, Option.not_isSome_iff_eq_none] at new
  constructor
  · exact Finset.erase_insert new
  · change Function.update (Function.update d.callbacks topic _) topic none = d.callbacks
    rw [Function.update_idem, ← absent, Function.update_eq_self]

/-! ## Getting the first message -/

/-- The condition of the `finally` never holds. -/
theorem get_snd (d : Dendrite) (topic : String) (first : Option Json) :
    (d.get topic first).2 = d.subscribe topic := by
  have subscribed : ¬ topic ∉ (d.subscribe topic).topics :=
    not_not_intro (Finset.mem_insert_self topic d.topics)
  exact if_neg subscribed

/-- Whether `get` returns a value or raises `RequestTimeout`, it does not leave the
subscriptions as they were. -/
theorem not_same_get (d : Dendrite) (topic : String) (first : Option Json) :
    ¬ (d.get topic first).2.Same d := by
  rw [get_snd]
  exact d.not_same_subscribe topic

/-- A new topic stays subscribed when its message does not come. A topic that had a callback
has lost it when the message came. -/
theorem get_keeps_topic : ¬ (new.get "test/get" none).2.Same new ∧
    ¬ ((new.subscribe "test/get").get "test/get" (some (.str "value"))).2.Same
      (new.subscribe "test/get") := by
  constructor
  · rintro ⟨topics, -⟩
    have mem : "test/get" ∈ new.topics := topics ▸ Finset.mem_insert_self _ _
    exact absurd mem (Finset.notMem_empty _)
  · rintro ⟨-, callbacks⟩
    have numbers : (new.subscribe "test/get").made = new.made := by
      simpa [get_snd, subscribe] using congrFun callbacks "test/get"
    exact absurd numbers (Nat.succ_ne_self _)

/-- Afterwards the messages of the topic reach the wrapper that `get` made, and the callback
that the topic had before is reached by no message. -/
theorem reached_get (d : Dendrite) (topic : String) (first : Option Json) (message : Message)
    (cb : ℕ) : (d.get topic first).2.Reached message cb ↔
      (cb = d.made ∧ matchTopic topic message.topic) ∨
        (d.Reached message cb ∧ d.callbacks topic ≠ some cb) := by
  rw [get_snd]
  constructor
  · rintro ⟨topic', found, matched⟩
    by_cases same : topic' = topic
    · subst same
      rw [callbacks_subscribe, Function.update_self, Option.some.injEq] at found
      exact .inl ⟨found.symm, matched⟩
    · rw [callbacks_subscribe, Function.update_of_ne same] at found
      exact .inr ⟨⟨topic', found, matched⟩, fun replaced => same (d.own found replaced)⟩
  · rintro (⟨rfl, matched⟩ | ⟨⟨topic', found, matched⟩, kept⟩)
    · exact ⟨topic, Function.update_self _ _ _, matched⟩
    · have other : topic' ≠ topic := by
        rintro rfl
        exact kept found
      refine ⟨topic', ?_, matched⟩
      rwa [callbacks_subscribe, Function.update_of_ne other]

/-- However often `get` is called, every topic of a call is subscribed in the end. -/
theorem topics_foldl_get (calls : List (String × Option Json)) (d : Dendrite) :
    (calls.foldl (fun d call => (d.get call.1 call.2).2) d).topics =
      d.topics ∪ (calls.map Prod.fst).toFinset := by
  induction calls generalizing d with
  | nil => simp
  | cons call calls ih =>
    rw [List.foldl_cons, ih, get_snd, topics_subscribe, List.map_cons, List.toFinset_cons,
      Finset.insert_union, Finset.union_insert]

end Dendrite

end ElanAgent.Neuron
