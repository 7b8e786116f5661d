import ElanAgent.Library.Dict

/-!
# Retained messages

A broker keeps the last message of every topic. A client asks for its filters by requests,
which the broker serves in order, and is sent, in order too, what is retained on the topics of
a filter when it asks for it and what is published on them later. When the connection is lost,
so is all that is on its way, and the broker forgets what it has been asked for; the client
asks for all its filters again when it is connected.

The main result is that a client to which nothing is on its way has heard last what is
retained, however often the connection was lost. A message without payload clears its topic,
and a client that is not connected then never hears of that.
-/

namespace ElanAgent.Retained

variable {φ τ α : Type} [DecidableEq φ] [DecidableEq τ]

inductive Request (φ : Type) where
  | subscribe (filter : φ)
  | unsubscribe (filter : φ)

def Request.filter : Request φ → φ
  | .subscribe f | .unsubscribe f => f

/-- A broker and a client. `session` is what the broker has been asked for, `inflight` what is on
its way to the client, and `heard` what its callbacks have been called with, each for its filter. -/
structure Link (φ τ α : Type) [DecidableEq φ] [DecidableEq τ] where
  retained : Dict τ α
  connected : Bool
  filters : List φ
  distinct : filters.Nodup
  requests : List (Request φ)
  session : List φ
  inflight : List (τ × Option α)
  heard : List (φ × τ × Option α)

inductive Action (φ τ α : Type) where
  | publish (topic : τ) (payload : Option α)
  | subscribe (filter : φ)
  | unsubscribe (filter : φ)
  /-- The filters are gone through in some order. -/
  | connect (order : List φ)
  | disconnect
  | serve
  | deliver

namespace Link

def start : Link φ τ α where
  retained := .empty
  connected := false
  filters := []
  distinct := List.nodup_nil
  requests := []
  session := []
  inflight := []
  heard := []

/-- What is retained on the topics of a filter. -/
def retainedFor (covers : φ → τ → Bool) (l : Link φ τ α) (f : φ) : List (τ × Option α) :=
  (l.retained.items.filter fun e => covers f e.1).map fun e => (e.1, some e.2)

def ask (l : Link φ τ α) (request : Request φ) : Link φ τ α :=
  if l.connected then { l with requests := l.requests ++ [request] } else l

def step (covers : φ → τ → Bool) (l : Link φ τ α) : Action φ τ α → Link φ τ α
  | .publish topic payload => { l with
      retained := match payload with
        | some a => l.retained.set topic a
        | none => l.retained.erase topic
      inflight := l.inflight ++
        if l.session.any fun f => covers f topic then [(topic, payload)] else [] }
  | .subscribe f =>
    { l.ask (.subscribe f) with
      filters := l.filters.insert f
      distinct := l.distinct.insert }
  | .unsubscribe f =>
    { l.ask (.unsubscribe f) with
      filters := l.filters.erase f
      distinct := l.distinct.erase f }
  | .connect order =>
    if l.connected = false ∧ order.Perm l.filters then { l with
      connected := true, requests := order.map .subscribe, session := [], inflight := [] }
    else l
  | .disconnect => { l with connected := false, requests := [], session := [], inflight := [] }
  | .serve =>
    match l.requests with
    | [] => l
    | .subscribe f :: requests =>
      { l with requests, session := f :: l.session, inflight := l.inflight ++ l.retainedFor covers f }
    | .unsubscribe f :: requests => { l with requests, session := l.session.filter (· ≠ f) }
  | .deliver =>
    match l.inflight with
    | [] => l
    | (topic, payload) :: inflight => { l with
        inflight
        heard := l.heard ++
          (l.filters.filter fun f => covers f topic).map fun f => (f, topic, payload) }

def run (covers : φ → τ → Bool) (actions : List (Action φ τ α)) : Link φ τ α :=
  actions.foldl (step covers) start

/-- What the callback of a filter has been called with for a topic. -/
def told (l : Link φ τ α) (f : φ) (t : τ) : List (Option α) :=
  (l.heard.filter fun e => e.1 = f ∧ e.2.1 = t).map fun e => e.2.2

/-- What is on its way for a topic. -/
def coming (l : Link φ τ α) (t : τ) : List (Option α) :=
  (l.inflight.filter fun e => e.1 = t).map Prod.snd

/-- The last request about a filter that has not been served. -/
def pending (l : Link φ τ α) (f : φ) : Option (Request φ) :=
  (l.requests.filter fun r => r.filter = f).getLast?

/-- Nothing is on its way, in neither direction. -/
structure Settled (l : Link φ τ α) : Prop where
  connected : l.connected
  served : l.requests = []
  delivered : l.inflight = []

end Link

/-! ## What one step keeps -/

section Steps

open Link

variable {covers : φ → τ → Bool} {l : Link φ τ α} {f g : φ} {t : τ}

/-- The client has asked for its filters; and for those that the broker has nothing more to
serve about, what is retained is the last that has been heard or is coming. -/
structure Upright (covers : φ → τ → Bool) (l : Link φ τ α) : Prop where
  asked : ∀ f ∈ l.filters, l.pending f = some (.subscribe f) ∨ l.pending f = none ∧ f ∈ l.session
  last : ∀ f ∈ l.filters, l.pending f = none → ∀ t a, covers f t → l.retained.get t = some a →
    (l.told f t ++ l.coming t).getLast? = some (some a)

theorem mem_retainedFor {a : Option α} : (t, a) ∈ l.retainedFor covers f ↔
    covers f t ∧ ∃ b, l.retained.get t = some b ∧ a = some b := by
  simp only [retainedFor, List.mem_map, List.mem_filter, Prod.exists, Prod.mk.injEq,
    Dict.mem_items]
  constructor
  · rintro ⟨t, b, ⟨found, covers⟩, rfl, rfl⟩
    exact ⟨covers, b, found, rfl⟩
  · rintro ⟨covers, b, found, rfl⟩
    exact ⟨t, b, ⟨found, covers⟩, rfl, rfl⟩

theorem pending_append (l : Link φ τ α) (r : Request φ) (f : φ) :
    { l with requests := l.requests ++ [r] }.pending f =
      if r.filter = f then some r else l.pending f := by
  by_cases same : r.filter = f <;> simp [pending, same]

theorem pending_cons {r : Request φ} {requests : List (Request φ)} (h : l.requests = r :: requests)
    (f : φ) : l.pending f = ({ l with requests }.pending f).or (if r.filter = f then some r else none) := by
  by_cases same : r.filter = f
  · simp only [pending, h, same, decide_true, List.filter_cons_of_pos, if_true, List.getLast?_cons]
    cases (requests.filter fun r => r.filter = f).getLast? <;> rfl
  · simp [pending, h, same]

theorem Upright.publish (upright : Upright covers l) (topic : τ) (payload : Option α) :
    Upright covers (l.step covers (.publish topic payload)) := by
  refine ⟨upright.asked, fun f hf none t a hc ha => ?_⟩
  have session : f ∈ l.session := by
    rcases upright.asked f hf with asked | ⟨-, session⟩
    · exact absurd (asked.symm.trans none) (by simp)
    · exact session
  have comes : (l.step covers (.publish topic payload)).coming t =
      l.coming t ++ if topic = t then [payload] else [] := by
    by_cases same : topic = t
    · subst t
      have any : (l.session.any fun f => covers f topic) = true :=
        List.any_eq_true.mpr ⟨f, session, hc⟩
      simp [Link.step, coming, any]
    · simp only [Link.step, coming, List.filter_append, List.map_append, if_neg same]
      split <;> simp [same]
  show (l.told f t ++ (l.step covers (.publish topic payload)).coming t).getLast? = _
  rw [comes]
  by_cases same : topic = t
  · subst t
    cases payload with
    | none => simp [Link.step, Dict.get_erase] at ha
    | some b =>
      obtain rfl : b = a := by simpa [Link.step, Dict.get_set] using ha
      simp
  · have before : l.retained.get t = some a := by
      cases payload with
      | none => simpa [Link.step, Dict.get_erase, Ne.symm same] using ha
      | some b => simpa [Link.step, Dict.get_set, Ne.symm same] using ha
    simpa [same] using upright.last f hf none t a hc before

theorem Upright.subscribe (upright : Upright covers l) (connected : l.connected) (g : φ) :
    Upright covers (l.step covers (.subscribe g)) := by
  have pend : ∀ f, (l.step covers (.subscribe g)).pending f =
      if g = f then some (.subscribe g) else l.pending f := by
    intro f
    have := pending_append l (.subscribe g) f
    simpa [Link.step, ask, connected, Request.filter, pending] using this
  have old : ∀ f ∈ (l.step covers (.subscribe g)).filters, g ≠ f → f ∈ l.filters := by
    intro f hf other
    exact (List.mem_insert_iff.mp hf).resolve_left other.symm
  refine ⟨fun f hf => ?_, fun f hf none t a hc ha => ?_⟩
  · by_cases same : g = f
    · subst f
      exact .inl (by rw [pend, if_pos rfl])
    · have := upright.asked f (old f hf same)
      rw [pend, if_neg same]
      simpa [Link.step, ask, connected] using this
  · by_cases same : g = f
    · rw [pend, if_pos same] at none
      cases none
    · rw [pend, if_neg same] at none
      have := upright.last f (old f hf same) none t a hc (by simpa [Link.step, ask, connected] using ha)
      simpa [Link.step, ask, connected, told, coming] using this

theorem Upright.unsubscribe (upright : Upright covers l) (connected : l.connected) (g : φ) :
    Upright covers (l.step covers (.unsubscribe g)) := by
  have old : ∀ f ∈ (l.step covers (.unsubscribe g)).filters, f ∈ l.filters ∧ g ≠ f := by
    intro f hf
    have := (l.distinct.mem_erase_iff).mp hf
    exact ⟨this.2, this.1.symm⟩
  have pend : ∀ f, g ≠ f → (l.step covers (.unsubscribe g)).pending f = l.pending f := by
    intro f other
    simp [Link.step, ask, connected, pending, Request.filter, other]
  refine ⟨fun f hf => ?_, fun f hf none t a hc ha => ?_⟩
  · obtain ⟨hf, other⟩ := old f hf
    rw [pend f other]
    simpa [Link.step, ask, connected] using upright.asked f hf
  · obtain ⟨hf, other⟩ := old f hf
    rw [pend f other] at none
    have := upright.last f hf none t a hc (by simpa [Link.step, ask, connected] using ha)
    simpa [Link.step, ask, connected, told, coming] using this

/-- A connection starts with nothing served and everything asked for. -/
theorem upright_connect {order : List φ} (off : l.connected = false) (perm : order.Perm l.filters) :
    Upright covers (l.step covers (.connect order)) := by
  have pend : ∀ f ∈ l.filters,
      (l.step covers (.connect order)).pending f = some (.subscribe f) := by
    intro f hf
    have own : (order.map Request.subscribe).filter (fun r => r.filter = f) =
        (order.filter (· = f)).map .subscribe := by
      simp [List.filter_map, Function.comp_def, Request.filter]
      rfl
    have here : f ∈ order.filter (· = f) := by simpa using perm.mem_iff.mpr hf
    have last := List.getLast?_eq_some_getLast (List.ne_nil_of_mem here)
    have same : (order.filter (· = f)).getLast (List.ne_nil_of_mem here) = f := by
      have mem := List.mem_filter.mp (List.getLast_mem (List.ne_nil_of_mem here))
      simpa using mem.2
    simp [Link.step, off, perm, pending, own, last, same]
  have filters : (l.step covers (.connect order)).filters = l.filters := by
    simp [Link.step, off, perm]
  refine ⟨fun f hf => .inl (pend f (filters ▸ hf)), fun f hf none => ?_⟩
  rw [pend f (filters ▸ hf)] at none
  cases none

/-- A request has been served: the broker has sent what is retained, and nothing else. -/
theorem Upright.served (upright : Upright covers l) {r : Request φ} {requests : List (Request φ)}
    (hr : l.requests = r :: requests) {session : List φ} {extra : List (τ × Option α)}
    (kept : ∀ f, r = .subscribe f ∨ r.filter ≠ f ∧ f ∈ l.session → f ∈ session)
    (only : ∀ t a b, l.retained.get t = some a → (t, b) ∈ extra → b = some a)
    (brings : ∀ f t a, r = .subscribe f → covers f t → l.retained.get t = some a →
      (t, some a) ∈ extra) :
    Upright covers { l with requests, session, inflight := l.inflight ++ extra } := by
  have pend := pending_cons hr
  refine ⟨fun f hf => ?_, fun f hf none t a hc ha => ?_⟩
  · have asked := upright.asked f hf
    rw [pend] at asked
    change ({ l with requests }.pending f = _) ∨ ({ l with requests }.pending f = _ ∧ _)
    cases later : { l with requests }.pending f with
    | some r' =>
      rw [later] at asked
      simpa using asked
    | none =>
      rw [later] at asked
      refine .inr ⟨rfl, kept f ?_⟩
      by_cases same : r.filter = f
      · exact .inl (by simpa [same] using asked)
      · exact .inr ⟨same, by simpa [same] using asked⟩
  · change { l with requests }.pending f = Option.none at none
    have before := pend f
    rw [none, Option.none_or] at before
    have comes : { l with requests, session, inflight := l.inflight ++ extra }.coming t =
        l.coming t ++ (extra.filter fun e => e.1 = t).map Prod.snd := by
      simp [coming]
    change (l.told f t ++ { l with requests, session, inflight := l.inflight ++ extra }.coming t).getLast? = _
    rw [comes]
    have all : ∀ b ∈ (extra.filter fun e => e.1 = t).map Prod.snd, b = some a := by
      intro b hb
      obtain ⟨e, he, rfl⟩ := List.mem_map.mp hb
      obtain ⟨here, same⟩ := List.mem_filter.mp he
      exact only t a e.2 ha (of_decide_eq_true same ▸ here)
    cases hx : ((extra.filter fun e => e.1 = t).map Prod.snd).getLast? with
    | some b =>
      have := all b (List.mem_of_getLast? hx)
      simp [List.getLast?_append, hx, this]
    | none =>
      have empty := List.getLast?_eq_none_iff.mp hx
      by_cases same : r.filter = f
      · rw [if_pos same] at before
        have r_eq : r = .subscribe f := by simpa [before] using upright.asked f hf
        have here : some a ∈ (extra.filter fun e => e.1 = t).map Prod.snd :=
          List.mem_map.mpr ⟨_, List.mem_filter.mpr ⟨brings f t a r_eq hc ha, by simp⟩, rfl⟩
        rw [empty] at here
        cases here
      · rw [if_neg same] at before
        simpa [empty] using upright.last f hf before t a hc ha

theorem Upright.serve (upright : Upright covers l) : Upright covers (l.step covers .serve) := by
  cases hr : l.requests with
  | nil => simpa [Link.step, hr] using upright
  | cons r requests =>
    cases r with
    | subscribe g =>
      have step : l.step covers .serve = { l with
          requests, session := g :: l.session
          inflight := l.inflight ++ l.retainedFor covers g } := by
        simp [Link.step, hr]
      rw [step]
      refine upright.served hr (fun f hf => ?_) (fun t a b ha hb => ?_) fun f t a same hc ha => ?_
      · simpa [Request.filter, eq_comm] using hf.imp_right And.right
      · obtain ⟨-, c, hc, rfl⟩ := mem_retainedFor.mp hb
        rw [← hc, ha]
      · obtain rfl := Request.subscribe.inj same
        exact mem_retainedFor.mpr ⟨hc, a, ha, rfl⟩
    | unsubscribe g =>
      have step : l.step covers .serve = { l with
          requests, session := l.session.filter (· ≠ g), inflight := l.inflight ++ [] } := by
        simp [Link.step, hr]
      rw [step]
      refine upright.served hr (fun f hf => ?_) (by simp) (by simp)
      rcases hf with same | ⟨other, hf⟩
      · cases same
      · simp only [Request.filter] at other
        simp [hf, Ne.symm other]

theorem Upright.deliver (upright : Upright covers l) : Upright covers (l.step covers .deliver) := by
  cases hi : l.inflight with
  | nil => simpa [Link.step, hi] using upright
  | cons e inflight =>
    obtain ⟨topic, payload⟩ := e
    have deliver : l.step covers .deliver = { l with
        inflight
        heard := l.heard ++
          (l.filters.filter fun f => covers f topic).map fun f => (f, topic, payload) } := by
      simp [Link.step, hi]
    rw [deliver]
    refine ⟨upright.asked, fun f hf none t a hc ha => ?_⟩
    have before := upright.last f hf none t a hc ha
    by_cases same : topic = t
    · subst t
      have own : l.filters.filter (fun g => decide (g = f) && covers g topic) = [f] := by
        have only : l.filters.filter (· = f) = [f] := by
          rw [List.filter_eq, List.count_eq_one_of_mem l.distinct hf, List.replicate_one]
        rw [← List.filter_filter, List.filter_comm, only]
        simp [hc]
      simpa [told, coming, hi, List.filter_map, Function.comp_def, List.filter_filter, own]
        using before
    · simpa [told, coming, hi, List.filter_map, Function.comp_def, same] using before

/-- A client is upright whenever it is connected. -/
theorem upright_step (upright : l.connected → Upright covers l) (action : Action φ τ α)
    (connected : (l.step covers action).connected) : Upright covers (l.step covers action) := by
  cases action with
  | publish topic payload => exact (upright connected).publish topic payload
  | subscribe g =>
    have before : l.connected := by
      simp only [Link.step, ask] at connected
      split at connected <;> exact connected
    exact (upright before).subscribe before g
  | unsubscribe g =>
    have before : l.connected := by
      simp only [Link.step, ask] at connected
      split at connected <;> exact connected
    exact (upright before).unsubscribe before g
  | connect order =>
    by_cases possible : l.connected = false ∧ order.Perm l.filters
    · exact upright_connect possible.1 possible.2
    · have same : l.step covers (.connect order) = l := if_neg possible
      rw [same] at connected ⊢
      exact upright connected
  | disconnect => cases connected
  | serve =>
    refine (upright ?_).serve
    simp only [Link.step] at connected
    split at connected <;> exact connected
  | deliver =>
    refine (upright ?_).deliver
    simp only [Link.step] at connected
    split at connected <;> exact connected

end Steps

/-! ## Runs -/

section Runs

open Link

variable {covers : φ → τ → Bool}

theorem Link.run_append (actions : List (Action φ τ α)) (action : Action φ τ α) :
    Link.run covers (actions ++ [action]) = (Link.run covers actions).step covers action := by
  simp [Link.run]

theorem upright_run (actions : List (Action φ τ α))
    (connected : (Link.run covers actions).connected) : Upright covers (Link.run covers actions) := by
  induction actions using List.reverseRecOn with
  | nil => cases connected
  | append_singleton actions action ih =>
    rw [Link.run_append] at connected ⊢
    exact upright_step ih action connected

/-- The messages that have been published on a topic. -/
def published (actions : List (Action φ τ α)) (t : τ) : List (Option α) :=
  actions.filterMap fun
    | .publish topic payload => if topic = t then some payload else none
    | _ => none

/-- What is retained is the last message, unless that has no payload. -/
theorem retained_run (actions : List (Action φ τ α)) (t : τ) :
    (Link.run covers actions).retained.get t = (published actions t).getLast?.join := by
  induction actions using List.reverseRecOn with
  | nil => rfl
  | append_singleton actions action ih =>
    rw [Link.run_append]
    cases action with
    | publish topic payload =>
      by_cases same : topic = t
      · subst t
        cases payload <;> simp [Link.step, published, Dict.get_set, Dict.get_erase]
      · have other : t ≠ topic := Ne.symm same
        cases payload <;> simpa [Link.step, published, Dict.get_set, Dict.get_erase, same, other] using ih
    | subscribe | unsubscribe =>
      simp only [Link.step, ask]
      split <;> simpa [published] using ih
    | connect | serve | deliver =>
      simp only [Link.step]
      split <;> simpa [published] using ih
    | disconnect => simpa [Link.step, published] using ih

/-- When nothing is on its way, every filter has heard last what was last published on each topic
that it covers, if that has a payload. -/
theorem told_of_settled (actions : List (Action φ τ α)) (settled : (Link.run covers actions).Settled)
    {f : φ} (hf : f ∈ (Link.run covers actions).filters) {t : τ} (hc : covers f t) {a : α}
    (last : (published actions t).getLast? = some (some a)) :
    ((Link.run covers actions).told f t).getLast? = some (some a) := by
  have upright := upright_run actions settled.connected
  have none : (Link.run covers actions).pending f = none := by simp [pending, settled.served]
  have coming : (Link.run covers actions).coming t = [] := by simp [coming, settled.delivered]
  have retained : (Link.run covers actions).retained.get t = some a := by
    rw [retained_run, last]
    rfl
  simpa [coming] using upright.last f hf none t a hc retained

end Runs

end ElanAgent.Retained
