import ElanAgent.Library.Retained
import ElanAgent.Neuron.ConfCacher

/-!
# Configuration over connections that are lost

A dendrite connects to the broker anew whenever it has lost its connection, and `on_connect`
subscribes to all of its topics again. Everything is published with `publish_conf` here, so
that it is retained. Whatever happens in between, a callback of `subscribe_conf` has been
called last with what was published last, and so has the configuration cacher.
-/

namespace ElanAgent.Neuron

open Mqtt Retained

/-- What concerns a dendrite: `publish_conf` in any process, `subscribe_conf` and `unsubscribe`
in its own, and its connection to the broker. -/
inductive ConfEvent where
  | publishConf (path : String) (message : Json)
  | subscribeConf (topic : String)
  | unsubscribe (topic : String)
  | onConnect (order : List String)
  | disconnect
  | serve
  | deliver

/-- What it is for the broker. -/
def ConfEvent.action : ConfEvent → Retained.Action String String Json
  | publishConf path message => .publish (confTopic path) (publish (confTopic path) message).payload
  | subscribeConf topic => .subscribe (confTopic topic)
  | unsubscribe topic => .unsubscribe topic
  | onConnect order => .connect order
  | disconnect => .disconnect
  | serve => .serve
  | deliver => .deliver

/-- The dendrite and the broker. -/
def link (events : List ConfEvent) : Link String String Json :=
  .run matchTopic (events.map ConfEvent.action)

/-- What `publish_conf` has been called with for a path. -/
def publishedConf (events : List ConfEvent) (path : String) : List Json :=
  events.filterMap fun
    | .publishConf path' message => if path' = path then some message else none
    | _ => none

/-- The messages that the callback of a topic has been called for. -/
def heardOn (l : Link String String Json) (filter : String) : List Message :=
  (l.heard.filter fun e => e.1 = filter).map fun e => ⟨e.2.1, e.2.2⟩

theorem confTopic_inj {path path' : String} : confTopic path = confTopic path' ↔ path = path' :=
  String.append_right_inj "conf/"

theorem published_conf (events : List ConfEvent) (path : String) :
    published (events.map ConfEvent.action) (confTopic path) =
      (publishedConf events path).map fun message => (publish (confTopic path) message).payload := by
  induction events with
  | nil => rfl
  | cons e events ih =>
    cases e with
    | publishConf path' message =>
      by_cases same : path' = path
      · subst path'
        simpa [published, publishedConf, ConfEvent.action] using ih
      · simpa [published, publishedConf, ConfEvent.action, confTopic_inj, same] using ih
    | _ => simpa [published, publishedConf, ConfEvent.action] using ih

theorem told_eq (l : Link String String Json) (filter topic : String) :
    l.told filter topic = ((heardOn l filter).filter fun m => m.topic = topic).map Message.payload := by
  simp [Link.told, heardOn, List.filter_map, Function.comp_def, List.filter_filter, Bool.and_comm]

theorem publish_payload {message : Json} (given : message ≠ .null) (topic : String) :
    (publish topic message).payload = some message := by
  cases message <;> first | rfl | exact absurd rfl given

section Settled

variable {events : List ConfEvent} {filter path : String} {message : Json}

/-- The last message that a filter has heard on a path is the one that was published last. -/
theorem heard_last (settled : (link events).Settled) (subscribed : filter ∈ (link events).filters)
    (covers : matchTopic filter (confTopic path))
    (last : (publishedConf events path).getLast? = some message) (given : message ≠ .null) :
    ∃ m, ((heardOn (link events) filter).filter fun m => m.topic = confTopic path).getLast? =
      some m ∧ m.data = message := by
  have published : (published (events.map ConfEvent.action) (confTopic path)).getLast? =
      some (some message) := by
    rw [published_conf, List.getLast?_map, last, Option.map_some, publish_payload given]
  have told : ((link events).told filter (confTopic path)).getLast? = some (some message) :=
    told_of_settled _ settled subscribed covers published
  rw [told_eq, List.getLast?_map, Option.map_eq_some_iff] at told
  obtain ⟨m, hm, payload⟩ := told
  exact ⟨m, hm, by rw [Message.data, payload, Option.getD_some]⟩

/-- A configuration is published while the connection is down, and the one before it is lost. -/
def lostEvents (topic : String) : List ConfEvent :=
  [.subscribeConf topic, .onConnect [confTopic topic], .serve,
    .publishConf "vlans" (.list [.int 10]), .disconnect, .publishConf "vlans" (.list [.int 20]),
    .onConnect [confTopic topic], .serve, .deliver]

/-- The last of a list that satisfies `p`. -/
theorem getLast_filter_of_getElem {α : Type} {l : List α} {p : α → Bool} {n : ℕ} {a : α}
    (here : l[n]? = some a) (holds : p a) (latest : ∀ k b, l[k]? = some b → p b → k ≤ n) :
    (l.filter p).getLast? = some a := by
  obtain ⟨bound, same⟩ := List.getElem?_eq_some_iff.mp here
  have split : l = l.take n ++ a :: l.drop (n + 1) := by
    rw [← same, ← List.drop_eq_getElem_cons bound, List.take_append_drop]
  have none : (l.drop (n + 1)).filter p = [] := by
    rw [List.filter_eq_nil_iff]
    intro b hb hp
    obtain ⟨i, hi⟩ := List.getElem?_of_mem hb
    rw [List.getElem?_drop] at hi
    have := latest _ b hi hp
    omega
  have filtered : l.filter p = (l.take n).filter p ++ [a] := by
    have parts := congrArg (List.filter p) split
    rwa [List.filter_append, List.filter_cons_of_pos holds, none] at parts
  rw [filtered]
  simp

/-- The configuration cacher gets its messages over such a connection. If the thread of the last
message on a topic writes after those of the earlier ones, `get_conf` returns what was published
last. -/
theorem getConf_reconnected (events : List ConfEvent) (settled : (link events).Settled)
    (subscribed : confTopic "#" ∈ (link events).filters) (topic : String) (message : Json)
    (last : (publishedConf events topic).getLast? = some message) (given : message ≠ .null)
    {cache : String → Option Json} {schedule : List Action} {c : Cacher}
    (ran : (Cacher.start cache (heardOn (link events) (confTopic "#"))).run schedule = some c)
    {before after : List ℕ} {n : ℕ} {m : Message} (order : writes schedule = before ++ n :: after)
    (written : (heardOn (link events) (confTopic "#"))[n]? = some m)
    (here : m.topic = confTopic topic)
    (latest : ∀ k m', (heardOn (link events) (confTopic "#"))[k]? = some m' →
      m'.topic = confTopic topic → k ≤ n ∧ k ∉ after) :
    c.getConf topic = message := by
  have below : matchTopic (confTopic "#") (confTopic topic) := by
    have conf : Message.Conf ⟨confTopic topic, none⟩ := conf_of_topic rfl
    exact conf
  obtain ⟨m', hm', data⟩ := heard_last settled subscribed below last given
  have same := getLast_filter_of_getElem written (decide_eq_true here) fun k m' found same =>
    (latest k m' found (of_decide_eq_true same)).1
  obtain rfl := Option.some.inj (same.symm.trans hm')
  rw [getConf_of_lastWrite ran order written here fun k hk m' found same =>
    (latest k m' found same).2 hk, data]

theorem getConf_reconnected_lost : ∃ c,
    (Cacher.start (fun _ => none) (heardOn (link (lostEvents "#")) (confTopic "#"))).run
      [.deliver, .write 0] = some c ∧ c.getConf "vlans" = .list [.int 20] := by
  have heard : heardOn (link (lostEvents "#")) (confTopic "#") = [vlansTwenty] := rfl
  have last : (publishedConf (lostEvents "#") "vlans").getLast? = some (.list [.int 20]) := rfl
  have order : writes [.deliver, .write 0] = [] ++ 0 :: [] := rfl
  refine ⟨_, rfl, ?_⟩
  refine getConf_reconnected (lostEvents "#") ⟨by decide, rfl, rfl⟩ (by decide) "vlans" _ last
    (by simp) rfl order (m := vlansTwenty) rfl rfl fun k m found _ => ?_
  rw [heard] at found
  obtain ⟨bound, -⟩ := List.getElem?_eq_some_iff.mp found
  simp only [List.length_singleton] at bound
  exact ⟨by omega, by simp⟩

end Settled

end ElanAgent.Neuron
