import Mathlib.Data.List.Nodup
import Mathlib.Data.List.Range
import Mathlib.Data.List.Perm.Basic
import Mathlib.Logic.Function.Basic
import ElanAgent.Neuron.Dendrite

/-!
# The configuration cacher

`run_conf_cacher` gets the messages of `conf/#` in the order in which they are published, and
starts a thread for each of them. A thread writes its message in Redis whenever it is
scheduled, so that a schedule is a list of deliveries and of writes.
-/

namespace ElanAgent.Neuron

open Mqtt

/-- A thread of the cacher, by the number of its message. -/
structure Thread where
  number : ℕ
  message : Message

structure Cacher where
  incoming : List Message
  delivered : ℕ
  threads : List Thread
  cache : String → Option Json

inductive Action where
  | deliver
  | write (number : ℕ)

/-- The message is one that the cacher has subscribed to. -/
def Message.Conf (message : Message) : Prop := matchTopic (confTopic "#") message.topic

instance (message : Message) : Decidable message.Conf := inferInstanceAs (Decidable (_ = true))

/-- `cache_conf(data, path)`. -/
def cacheConf (cache : String → Option Json) (message : Message) : String → Option Json :=
  Function.update cache (cachePath message.topic) (some message.data)

namespace Cacher

/-- The next message arrives. Its callback is run in a thread of its own. -/
def deliver (c : Cacher) : Option Cacher :=
  match c.incoming with
  | [] => none
  | message :: incoming => some
    { c with
      incoming := incoming
      delivered := c.delivered + 1
      threads := if message.Conf then c.threads ++ [⟨c.delivered, message⟩] else c.threads }

/-- A thread runs. -/
def write (c : Cacher) (number : ℕ) : Option Cacher :=
  (c.threads.find? fun thread => thread.number = number).map fun thread =>
    { c with
      threads := c.threads.filter fun thread => thread.number ≠ number
      cache := cacheConf c.cache thread.message }

def step (c : Cacher) : Action → Option Cacher
  | .deliver => c.deliver
  | .write number => c.write number

/-- Follow a schedule, if it is one of this cacher. -/
def run (c : Cacher) (schedule : List Action) : Option Cacher := schedule.foldlM step c

/-- The cacher is connected, and these messages are going to be published. -/
def start (cache : String → Option Json) (messages : List Message) : Cacher where
  incoming := messages
  delivered := 0
  threads := []
  cache := cache

/-- Every message has been delivered, and every thread has finished. -/
def Done (c : Cacher) : Prop := c.incoming = [] ∧ c.threads = []

/-- `get_conf(topic)`. -/
def getConf (c : Cacher) (topic : String) : Json :=
  (c.cache (cachePath (confTopic topic))).getD .null

end Cacher

/-- The messages whose threads write, in the order in which they do. -/
def writes (schedule : List Action) : List ℕ :=
  schedule.filterMap fun
    | .deliver => none
    | .write number => some number

@[simp] theorem writes_append_deliver (schedule : List Action) :
    writes (schedule ++ [.deliver]) = writes schedule := by
  simp [writes]

@[simp] theorem writes_append_write (schedule : List Action) (number : ℕ) :
    writes (schedule ++ [.write number]) = writes schedule ++ [number] := by
  simp [writes]

/-! ## What a schedule does -/

/-- The cacher after a schedule: every message that has been delivered is in its thread or
has been written, and the cache holds what has been written, in this order. -/
structure Follows (cache : String → Option Json) (messages : List Message)
    (schedule : List Action) (c : Cacher) : Prop where
  delivered : c.delivered ≤ messages.length
  incoming : c.incoming = messages.drop c.delivered
  threads : ∀ thread, thread ∈ c.threads ↔ thread.number < c.delivered ∧
    thread.number ∉ writes schedule ∧ messages[thread.number]? = some thread.message ∧
    thread.message.Conf
  written : ∀ n ∈ writes schedule, n < c.delivered
  nodup : (writes schedule).Nodup
  cache : c.cache = ((writes schedule).filterMap (messages[·]?)).foldl cacheConf cache

section Steps

variable {cache : String → Option Json} {messages : List Message} {schedule : List Action}
variable {c d : Cacher}

theorem follows_start (cache : String → Option Json) (messages : List Message) :
    Follows cache messages [] (.start cache messages) where
  delivered := Nat.zero_le _
  incoming := rfl
  threads thread := by simp [Cacher.start]
  written n hn := by cases hn
  nodup := List.nodup_nil
  cache := rfl

theorem Follows.deliver (h : Follows cache messages schedule c) (stepped : c.deliver = some d) :
    Follows cache messages (schedule ++ [.deliver]) d := by
  unfold Cacher.deliver at stepped
  split at stepped
  · cases stepped
  · rename_i message incoming next
    obtain rfl := Option.some.inj stepped
    have rest := h.incoming.symm.trans next
    have here : messages[c.delivered]? = some message := by
      rw [← List.head?_drop, rest, List.head?_cons]
    obtain ⟨bound, -⟩ := List.getElem?_eq_some_iff.mp here
    refine ⟨bound, ?_, fun thread => ?_, fun n hn => ?_, ?_, ?_⟩
    · rw [← List.tail_drop, rest, List.tail_cons]
    · have before := h.threads thread
      simp only [writes_append_deliver]
      have bounds : thread.number < c.delivered + 1 ↔
          thread.number < c.delivered ∨ thread.number = c.delivered := Nat.lt_succ_iff_lt_or_eq
      have fresh : c.delivered ∉ writes schedule := fun hn => (h.written _ hn).false
      obtain ⟨number, other⟩ := thread
      by_cases new : number = c.delivered
      · subst new
        split_ifs with conf <;> grind
      · split_ifs with conf <;> grind
    · rw [writes_append_deliver] at hn
      exact Nat.lt_succ_of_lt (h.written n hn)
    · rw [writes_append_deliver]
      exact h.nodup
    · rw [writes_append_deliver]
      exact h.cache

theorem Follows.write (h : Follows cache messages schedule c) {number : ℕ}
    (stepped : c.write number = some d) :
    Follows cache messages (schedule ++ [.write number]) d := by
  obtain ⟨thread, found, rfl⟩ := Option.map_eq_some_iff.mp stepped
  have here := (h.threads thread).mp (List.mem_of_find?_eq_some found)
  obtain rfl : thread.number = number := by simpa using List.find?_some found
  obtain ⟨delivered, pending, message, conf⟩ := here
  refine ⟨h.delivered, h.incoming, fun other => ?_, fun n hn => ?_, ?_, ?_⟩
  · simp only [List.mem_filter, h.threads other, writes_append_write, List.mem_append,
      List.mem_singleton, decide_eq_true_eq]
    tauto
  · rcases List.mem_append.mp (writes_append_write schedule _ ▸ hn) with hn | hn
    · exact h.written n hn
    · exact List.mem_singleton.mp hn ▸ delivered
  · rw [writes_append_write]
    exact h.nodup.append (List.nodup_singleton _) (by simpa using pending)
  · simp [h.cache, message]

/-- Whatever the schedule, the cacher follows it. -/
theorem follows_run (ran : (Cacher.start cache messages).run schedule = some c) :
    Follows cache messages schedule c := by
  induction schedule using List.reverseRecOn generalizing c with
  | nil =>
    obtain rfl := Option.some.inj ran
    exact follows_start cache messages
  | append_singleton schedule action ih =>
    rw [Cacher.run, List.foldlM_append] at ran
    obtain ⟨b, before, stepped⟩ := Option.bind_eq_some_iff.mp ran
    have stepped : b.step action = some c := by simpa using stepped
    cases action with
    | deliver => exact (ih before).deliver stepped
    | write number => exact (ih before).write stepped

end Steps

/-! ## What is read afterwards -/

theorem foldl_cacheConf_of_ne {topic : String} {messages : List Message}
    (other : ∀ message ∈ messages, message.topic ≠ topic) (cache : String → Option Json) :
    messages.foldl cacheConf cache (cachePath topic) = cache (cachePath topic) := by
  induction messages generalizing cache with
  | nil => rfl
  | cons message messages ih =>
    have ne : cachePath topic ≠ cachePath message.topic :=
      fun same => other message List.mem_cons_self (cachePath_inj.mp same).symm
    rw [List.foldl_cons, ih fun m hm => other m (List.mem_cons_of_mem message hm), cacheConf,
      Function.update_of_ne ne]

section Runs

variable {cache : String → Option Json} {messages : List Message} {schedule : List Action}
variable {c : Cacher} {topic : String}

/-- The value of a topic is that of the message on it whose thread has been the last to write. -/
theorem getConf_of_lastWrite (ran : (Cacher.start cache messages).run schedule = some c)
    {before after : List ℕ} {n : ℕ} (order : writes schedule = before ++ n :: after)
    {message : Message} (written : messages[n]? = some message)
    (here : message.topic = confTopic topic)
    (last : ∀ k ∈ after, ∀ m, messages[k]? = some m → m.topic ≠ confTopic topic) :
    c.getConf topic = message.data := by
  have others : ∀ m ∈ after.filterMap (messages[·]?), m.topic ≠ confTopic topic := by
    intro m hm
    obtain ⟨k, hk, found⟩ := List.mem_filterMap.mp hm
    exact last k hk m found
  rw [Cacher.getConf, (follows_run ran).cache, order, List.filterMap_append,
    List.filterMap_cons_some written, List.foldl_append, List.foldl_cons,
    foldl_cacheConf_of_ne others, cacheConf, here, Function.update_self]
  rfl

theorem conf_of_topic {message : Message} (here : message.topic = confTopic topic) :
    message.Conf := by
  have concrete : Concrete "conf" := by decide +kernel
  have below := matchTopic_below concrete topic
  rw [Message.Conf, here]
  simpa [confTopic] using below

/-- Once every thread has finished, each message on `conf/#` has been written once. -/
theorem writes_perm (ran : (Cacher.start cache messages).run schedule = some c) (done : c.Done)
    (conf : ∀ message ∈ messages, message.Conf) :
    (writes schedule).Perm (List.range messages.length) := by
  have follows := follows_run ran
  have all : c.delivered = messages.length := by
    have rest := follows.incoming.symm.trans done.1
    exact follows.delivered.antisymm (List.drop_eq_nil_iff.mp rest)
  refine (List.perm_ext_iff_of_nodup follows.nodup List.nodup_range).mpr fun n => ?_
  rw [List.mem_range]
  refine ⟨fun hn => all ▸ follows.written n hn, fun hn => ?_⟩
  by_contra pending
  have waiting := (follows.threads ⟨n, messages[n]⟩).mpr
    ⟨all ▸ hn, pending, List.getElem?_eq_getElem hn, conf _ (List.getElem_mem hn)⟩
  rw [done.2] at waiting
  cases waiting

/-- Messages have been published on one topic. `get_conf` returns what the thread that has
written last has got: the last message, if this thread is that of the last message. -/
theorem getConf_lastWritten (ran : (Cacher.start cache messages).run schedule = some c)
    (done : c.Done) (onTopic : ∀ message ∈ messages, message.topic = confTopic topic)
    (nonempty : messages ≠ []) :
    (∃ n message, (writes schedule).getLast? = some n ∧ messages[n]? = some message ∧
      c.getConf topic = message.data) ∧
    ((writes schedule).getLast? = some (messages.length - 1) →
      c.getConf topic = (messages.getLast nonempty).data) := by
  have perm := writes_perm ran done fun message hm => conf_of_topic (onTopic message hm)
  have last (n : ℕ) (hn : (writes schedule).getLast? = some n) : ∃ message,
      messages[n]? = some message ∧ c.getConf topic = message.data := by
    obtain ⟨before, order⟩ := List.getLast?_eq_some_iff.mp hn
    have bound : n < messages.length := by
      rw [← List.mem_range, ← perm.mem_iff, order]
      simp
    refine ⟨messages[n], List.getElem?_eq_getElem bound, ?_⟩
    exact getConf_of_lastWrite ran order (List.getElem?_eq_getElem bound)
      (onTopic _ (List.getElem_mem bound)) fun k hk => by cases hk
  have some_write : writes schedule ≠ [] := by
    intro none
    rw [none, List.nil_perm, List.range_eq_nil] at perm
    exact nonempty (List.length_eq_zero_iff.mp perm)
  refine ⟨?_, fun inOrder => ?_⟩
  · have hn := List.getLast?_eq_some_getLast some_write
    obtain ⟨message, found, read⟩ := last _ hn
    exact ⟨_, message, hn, found, read⟩
  · obtain ⟨message, found, read⟩ := last _ inOrder
    obtain ⟨bound, here⟩ := List.getElem?_eq_some_iff.mp found
    rw [read, ← here, List.getLast_eq_getElem]

end Runs

def vlansTen : Message := publish (confTopic "vlans") (.list [.int 10])

def vlansTwenty : Message := publish (confTopic "vlans") (.list [.int 20])

theorem topic_vlans : ∀ message ∈ [vlansTen, vlansTwenty], message.topic = confTopic "vlans" := by
  simp [vlansTen, vlansTwenty]

/-- Both threads have started before either runs. -/
theorem getConf_lastWritten_inOrder : ∃ c,
    (Cacher.start (fun _ => none) [vlansTen, vlansTwenty]).run
      [.deliver, .deliver, .write 0, .write 1] = some c ∧
    c.getConf "vlans" = .list [.int 20] := by
  have ran : (Cacher.start (fun _ => none) [vlansTen, vlansTwenty]).run
      [.deliver, .deliver, .write 0, .write 1] =
        some ⟨[], 2, [], cacheConf (cacheConf (fun _ => none) vlansTen) vlansTwenty⟩ := rfl
  exact ⟨_, ran, (getConf_lastWritten ran ⟨rfl, rfl⟩ topic_vlans (by simp)).2 rfl⟩

/-- The thread of the first message is scheduled last. -/
theorem getConf_stale : ∃ c,
    (Cacher.start (fun _ => none) [vlansTen, vlansTwenty]).run
      [.deliver, .deliver, .write 1, .write 0] = some c ∧
    c.Done ∧ c.getConf "vlans" ≠ vlansTwenty.data := by
  have ran : (Cacher.start (fun _ => none) [vlansTen, vlansTwenty]).run
      [.deliver, .deliver, .write 1, .write 0] =
        some ⟨[], 2, [], cacheConf (cacheConf (fun _ => none) vlansTwenty) vlansTen⟩ := rfl
  refine ⟨_, ran, ⟨rfl, rfl⟩, ?_⟩
  have read : Cacher.getConf ⟨[], 2, [],
      cacheConf (cacheConf (fun _ => none) vlansTwenty) vlansTen⟩ "vlans" = .list [.int 10] := rfl
  rw [read, vlansTwenty, publish_data]
  simp

end ElanAgent.Neuron
