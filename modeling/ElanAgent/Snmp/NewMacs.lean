import ElanAgent.Library.Dict
import ElanAgent.Session.Store
import Mathlib.Tactic.Linarith

/-!
# Ports with new MACs

The ports on which `elan/snmp.py` still has to look for MACs are a set in Redis, while the
time of each port is kept by every process on its own: it notes a port when it adds it, and
the ports that it finds in the set when its first manager is created. A process takes out
of the set what is too old by its own times, whenever it adds a port or asks for them.

A run is the calls of any number of processes, each made at one instant.
-/

namespace ElanAgent.Snmp

open Session (Port)

/-- `DEVICE_PORTS_WITH_NEW_MAC_TIMEOUT`. -/
def devicePortsWithNewMacTimeout : ℚ := 600

/-- The set in Redis, and `DEVICE_PORTS_WITH_NEW_MAC_TIMESTAMPS` of a process, which is
`None` until a manager is created. -/
structure NewMacs where
  ports : List Port
  timestamps : Option (Dict Port ℚ)

namespace NewMacs

def portHasNoNewMacs (port : Port) (s : NewMacs) : NewMacs where
  ports := s.ports.filter (· ≠ port)
  timestamps := s.timestamps.map fun d => d.erase port

/-- The ports that are too old by the times of the process. -/
def toDelete (now : ℚ) (timestamps : Dict Port ℚ) : List Port :=
  (timestamps.items.filter fun e => devicePortsWithNewMacTimeout < now - e.2).map Prod.fst

def expirePortsWithNewMacs (now : ℚ) (s : NewMacs) : NewMacs :=
  match s.timestamps with
  | none => s
  | some timestamps => (toDelete now timestamps).foldl (fun s port => portHasNoNewMacs port s) s

def portHasNewMacs (now : ℚ) (port : Port) (s : NewMacs) : NewMacs :=
  expirePortsWithNewMacs now
    { ports := s.ports.insert port
      timestamps := s.timestamps.map fun d => d.set port now }

def getPortsWithNewMacs (now : ℚ) (s : NewMacs) : List Port × NewMacs :=
  let s := expirePortsWithNewMacs now s
  (s.ports, s)

/-- `__init__`: only the first manager of a process notes the ports that it finds. -/
def init (now : ℚ) (s : NewMacs) : NewMacs :=
  if s.timestamps.isSome then s
  else
    let (ports, s) := getPortsWithNewMacs now s
    { s with timestamps := some (ports.foldl (fun d port => d.set port now) .empty) }

/-- The time that the process keeps for a port. -/
def time (s : NewMacs) (port : Port) : Option ℚ := s.timestamps.bind fun d => d.get port

end NewMacs

/-- The methods of a manager. -/
inductive Method where
  | init
  | portHasNewMacs (port : Port)
  | portHasNoNewMacs (port : Port)
  | getPortsWithNewMacs
  deriving DecidableEq

/-- A call in a process. -/
structure Called (ι : Type) where
  process : ι
  now : ℚ
  method : Method

def Method.apply (now : ℚ) (s : NewMacs) : Method → NewMacs
  | .init => s.init now
  | .portHasNewMacs port => s.portHasNewMacs now port
  | .portHasNoNewMacs port => s.portHasNoNewMacs port
  | .getPortsWithNewMacs => (s.getPortsWithNewMacs now).2

/-- The call goes through the ports that are too old. -/
def Method.Expires : Method → Prop
  | .portHasNewMacs _ | .getPortsWithNewMacs => True
  | _ => False

/-- The set, and what each process keeps. -/
structure Shared (ι : Type) where
  ports : List Port
  timestamps : ι → Option (Dict Port ℚ)

namespace Shared

variable {ι : Type} [DecidableEq ι]

/-- What a process sees. -/
def view (s : Shared ι) (i : ι) : NewMacs := ⟨s.ports, s.timestamps i⟩

def step (s : Shared ι) (c : Called ι) : Shared ι :=
  let v := c.method.apply c.now (s.view c.process)
  ⟨v.ports, Function.update s.timestamps c.process v.timestamps⟩

/-- No port, and no manager in any process. -/
def start : Shared ι := ⟨[], fun _ => none⟩

def run (calls : List (Called ι)) : Shared ι := calls.foldl step start

/-- What `get_ports_with_new_macs` returns in a process. -/
def returned (s : Shared ι) (i : ι) (now : ℚ) : List Port := ((s.view i).getPortsWithNewMacs now).1

end Shared

/-! ## One call -/

namespace NewMacs

/-- The time is too old. -/
def Stale (now : ℚ) (time : Option ℚ) : Prop :=
  ∃ t, time = some t ∧ devicePortsWithNewMacTimeout < now - t

variable {s : NewMacs} {now : ℚ} {port p : Port}

theorem time_portHasNoNewMacs (s : NewMacs) (port p : Port) :
    (s.portHasNoNewMacs port).time p = if p = port then none else s.time p := by
  unfold time portHasNoNewMacs
  cases s.timestamps with
  | none => simp
  | some d => simp [Dict.get_erase]

theorem foldl_portHasNoNewMacs (ports : List Port) (s : NewMacs) :
    let s' := ports.foldl (fun s port => portHasNoNewMacs port s) s
    (∀ p, p ∈ s'.ports ↔ p ∈ s.ports ∧ p ∉ ports) ∧
    (∀ p, s'.time p = if p ∈ ports then none else s.time p) ∧
    s'.timestamps.isSome = s.timestamps.isSome := by
  induction ports generalizing s with
  | nil => simp
  | cons port ports ih =>
    obtain ⟨mem, time, created⟩ := ih (portHasNoNewMacs port s)
    simp only [List.foldl_cons]
    refine ⟨fun p => ?_, fun p => ?_, ?_⟩
    · rw [mem]
      simp only [portHasNoNewMacs, List.mem_filter, decide_eq_true_eq, List.mem_cons]
      tauto
    · rw [time, time_portHasNoNewMacs]
      simp only [List.mem_cons]
      split_ifs <;> tauto
    · rw [created]
      simp [portHasNoNewMacs]

/-- Exactly the ports go whose time is too old. -/
theorem expire_effect (now : ℚ) (s : NewMacs) :
    let s' := s.expirePortsWithNewMacs now
    (∀ p, p ∈ s'.ports ↔ p ∈ s.ports ∧ ¬ Stale now (s.time p)) ∧
    (∀ p, ¬ Stale now (s.time p) → s'.time p = s.time p) ∧
    s'.timestamps.isSome = s.timestamps.isSome := by
  unfold expirePortsWithNewMacs
  cases hs : s.timestamps with
  | none => simp [Stale, time, hs]
  | some d =>
    obtain ⟨mem, time_eq, created⟩ := foldl_portHasNoNewMacs (toDelete now d) s
    have stale (p : Port) : p ∈ toDelete now d ↔ Stale now (s.time p) := by
      simp only [toDelete, List.mem_map, List.mem_filter, decide_eq_true_eq, Prod.exists,
        exists_and_right, exists_eq_right, Dict.mem_items, Stale, time, hs, Option.bind_some]
    refine ⟨fun p => ?_, fun p hp => ?_, by rw [created, hs]⟩
    · rw [mem, stale]
    · rw [time_eq, if_neg (mt (stale p).mp hp)]

theorem time_noted (now : ℚ) (ports : List Port) (d : Dict Port ℚ) (p : Port) :
    (ports.foldl (fun d port => d.set port now) d).get p =
      if p ∈ ports then some now else d.get p := by
  induction ports generalizing d with
  | nil => simp
  | cons port ports ih =>
    rw [List.foldl_cons, ih, Dict.get_set]
    simp only [List.mem_cons]
    split_ifs <;> tauto

/-- The first manager of a process notes the ports that are there, a later one nothing. -/
theorem init_effect (now : ℚ) (s : NewMacs) :
    (s.init now).ports = s.ports ∧ (s.init now).timestamps.isSome ∧
    ∀ p, (s.init now).time p =
      if s.timestamps.isSome then s.time p else if p ∈ s.ports then some now else none := by
  unfold init
  cases hs : s.timestamps with
  | some d => simp [hs]
  | none =>
    refine ⟨?_, ?_, fun p => ?_⟩
    all_goals simp [getPortsWithNewMacs, expirePortsWithNewMacs, hs, time, time_noted]

/-- A call takes a port out of the set: it removes the port, or finds it too old. -/
def TakesOut (s : NewMacs) (now : ℚ) (port : Port) : Method → Prop
  | .init => False
  | .portHasNoNewMacs other => other = port
  | .portHasNewMacs _ | .getPortsWithNewMacs => Stale now (s.time port)

/-- What a call that does not add a port does to it. -/
theorem apply_effect (s : NewMacs) (now : ℚ) {method : Method}
    (other : method ≠ .portHasNewMacs p) :
    let s' := method.apply now s
    (p ∈ s'.ports ↔ p ∈ s.ports ∧ ¬ s.TakesOut now p method) ∧
    (¬ s.TakesOut now p method → s'.time p =
      if method = .init ∧ ¬ s.timestamps.isSome then if p ∈ s.ports then some now else none
      else s.time p) ∧
    (s'.timestamps.isSome ↔ s.timestamps.isSome ∨ method = .init) := by
  cases method with
  | init =>
    obtain ⟨ports, created, time_eq⟩ := init_effect now s
    simp only [Method.apply, TakesOut, ports, created, time_eq]
    cases s.timestamps.isSome <;> simp
  | portHasNoNewMacs port =>
    simp only [Method.apply, TakesOut, time_portHasNoNewMacs]
    refine ⟨?_, ?_, ?_⟩
    · simp only [portHasNoNewMacs, List.mem_filter, decide_eq_true_eq]
      tauto
    · intro hne
      simp [Ne.symm hne]
    · simp [portHasNoNewMacs]
  | getPortsWithNewMacs =>
    obtain ⟨mem, time_eq, created⟩ := expire_effect now s
    simp only [Method.apply, TakesOut, getPortsWithNewMacs]
    refine ⟨mem p, fun fresh => ?_, ?_⟩
    · simp [time_eq p fresh]
    · simp [created]
  | portHasNewMacs port =>
    have hne : p ≠ port := fun same => other (by rw [same])
    set added : NewMacs := ⟨s.ports.insert port, s.timestamps.map fun d => d.set port now⟩
      with hadded
    obtain ⟨mem, time_eq, created⟩ := expire_effect now added
    have time_added : added.time p = s.time p := by
      unfold time
      rw [hadded]
      cases s.timestamps <;> simp [Dict.get_set, hne]
    have mem_added : p ∈ added.ports ↔ p ∈ s.ports := by simp [hadded, hne]
    simp only [Method.apply, TakesOut, portHasNewMacs, ← hadded]
    refine ⟨?_, fun fresh => ?_, ?_⟩
    · rw [mem, mem_added, time_added]
    · rw [time_eq p (by rwa [time_added]), time_added]
      simp
    · rw [created]
      simp [hadded]

theorem not_stale_now (now : ℚ) : ¬ Stale now (some now) := by
  rintro ⟨t, same, late⟩
  rw [← Option.some.inj same, sub_self] at late
  exact absurd late (by decide +kernel)

/-- What a call that adds a port does to it, in a process with a manager. -/
theorem portHasNewMacs_effect (now : ℚ) (port : Port) {s : NewMacs}
    (created : s.timestamps.isSome) :
    port ∈ (s.portHasNewMacs now port).ports ∧
    (s.portHasNewMacs now port).time port = some now ∧
    (s.portHasNewMacs now port).timestamps.isSome := by
  obtain ⟨d, hd⟩ := Option.isSome_iff_exists.mp created
  set added : NewMacs := ⟨s.ports.insert port, s.timestamps.map fun d => d.set port now⟩
    with hadded
  obtain ⟨mem, time_eq, kept⟩ := expire_effect now added
  have time_added : added.time port = some now := by simp [time, hadded, hd, Dict.get_set]
  have fresh : ¬ Stale now (added.time port) := by
    rw [time_added]
    exact not_stale_now now
  simp only [portHasNewMacs, ← hadded]
  refine ⟨(mem port).mpr ⟨by simp [hadded], fresh⟩, (time_eq port fresh).trans time_added, ?_⟩
  rw [kept]
  simp [hadded, hd]

end NewMacs

/-! ## What the processes keep -/

namespace Shared

variable {ι : Type} [DecidableEq ι] {p : Port}

/-- The time that a process keeps for a port. -/
def time (s : Shared ι) (i : ι) (port : Port) : Option ℚ := (s.view i).time port

/-- The process has a manager. -/
def Created (s : Shared ι) (i : ι) : Prop := (s.timestamps i).isSome

instance (s : Shared ι) (i : ι) : Decidable (s.Created i) := inferInstanceAs (Decidable (_ = true))

/-- The call takes the port out of the set. -/
def TakesOut (s : Shared ι) (port : Port) (c : Called ι) : Prop :=
  (s.view c.process).TakesOut c.now port c.method

theorem view_step_self (s : Shared ι) (c : Called ι) :
    (s.step c).view c.process = c.method.apply c.now (s.view c.process) := by
  simp [view, step]

theorem step_of_ne (s : Shared ι) {c : Called ι} {i : ι} (hi : i ≠ c.process) (port : Port) :
    (s.step c).time i port = s.time i port ∧ ((s.step c).Created i ↔ s.Created i) := by
  simp [time, view, step, Created, NewMacs.time, hi]

/-- What a call that does not add the port does to it. -/
theorem step_effect (s : Shared ι) {c : Called ι} (other : c.method ≠ .portHasNewMacs p) :
    (p ∈ (s.step c).ports ↔ p ∈ s.ports ∧ ¬ s.TakesOut p c) ∧
    (¬ s.TakesOut p c → (s.step c).time c.process p =
      if c.method = .init ∧ ¬ s.Created c.process then
        if p ∈ s.ports then some c.now else none
      else s.time c.process p) ∧
    ((s.step c).Created c.process ↔ s.Created c.process ∨ c.method = .init) := by
  have effect := NewMacs.apply_effect (s.view c.process) c.now other
  rw [← view_step_self] at effect
  exact effect

omit [DecidableEq ι] in
theorem time_of_not_created {s : Shared ι} {i : ι} (h : ¬ s.Created i) (port : Port) :
    s.time i port = none := by
  have none : s.timestamps i = none := by simpa [Created] using h
  simp [time, NewMacs.time, view, none]

/-- The first time in the calls that a process creates a manager. -/
def firstInit (calls : List (Called ι)) (i : ι) : Option ℚ :=
  (calls.find? fun c => c.process = i ∧ c.method = .init).map Called.now

/-- The time that a process keeps for a port, once the port was added for the last time by
`add` in the store `s`, and the calls `after` were made. -/
def kept (s : Shared ι) (port : Port) (add : Called ι) (after : List (Called ι)) (i : ι) :
    Option ℚ :=
  if i = add.process then some add.now
  else if s.Created i then s.time i port
  else firstInit after i

theorem firstInit_snoc (calls : List (Called ι)) (c : Called ι) (i : ι) :
    firstInit (calls ++ [c]) i =
      (firstInit calls i).or (if c.process = i ∧ c.method = .init then some c.now else none) := by
  unfold firstInit
  rw [List.find?_append]
  cases calls.find? fun c => c.process = i ∧ c.method = .init with
  | some d => simp
  | none => by_cases h : c.process = i ∧ c.method = .init <;> simp [h]

/-- After the last call that adds a port, while the port is in the set. -/
theorem kept_of_present {s : Shared ι} {add : Called ι} (hadd : add.method = .portHasNewMacs p)
    (created : s.Created add.process) (after : List (Called ι))
    (last : ∀ c ∈ after, c.method ≠ .portHasNewMacs p) :
    let s' := after.foldl step (s.step add)
    (∀ k, s'.Created k ↔ s.Created k ∨ firstInit after k ≠ none) ∧
      (p ∈ s'.ports → ∀ k, s'.time k p = kept s p add after k) := by
  induction after using List.reverseRecOn with
  | nil =>
    have effect := NewMacs.portHasNewMacs_effect (s := s.view add.process) add.now p created
    have self : (s.step add).view add.process = (s.view add.process).portHasNewMacs add.now p := by
      rw [view_step_self, hadd]
      rfl
    rw [← self] at effect
    refine ⟨fun k => ?_, fun _ k => ?_⟩
    · by_cases hk : k = add.process
      · subst hk
        exact ⟨fun _ => .inl created, fun _ => effect.2.2⟩
      · simpa [firstInit] using (step_of_ne s hk p).2
    · unfold kept
      split
      · subst k
        exact effect.2.1
      · rename_i hk
        rw [List.foldl_nil, (step_of_ne s hk p).1]
        split
        · rfl
        · exact time_of_not_created ‹_› p
  | append_singleton after c ih =>
    obtain ⟨ihCreated, ihTime⟩ := ih fun d hd => last d (List.mem_append_left _ hd)
    have other := last c (by simp)
    rw [List.foldl_append]
    set s' := after.foldl step (s.step add) with hs'
    obtain ⟨mem, time_eq, created_iff⟩ := step_effect s' other
    refine ⟨fun k => ?_, fun present k => ?_⟩
    · rw [firstInit_snoc]
      by_cases hk : k = c.process
      · subst hk
        rw [List.foldl_cons, List.foldl_nil, created_iff, ihCreated]
        by_cases hinit : c.method = .init <;> simp [hinit]
      · simpa [Ne.symm hk, ihCreated] using (step_of_ne s' hk p).2
    · obtain ⟨before, stays⟩ := mem.mp present
      have earlier := ihTime before k
      unfold kept at earlier ⊢
      rw [firstInit_snoc]
      by_cases hk : k = c.process
      · subst hk
        rw [List.foldl_cons, List.foldl_nil, time_eq stays, if_pos before, earlier]
        have known := ihCreated c.process
        by_cases new : c.method = .init ∧ ¬ s'.Created c.process
        · obtain ⟨hinit, fresh⟩ := new
          rw [known, not_or, not_not] at fresh
          have hne : c.process ≠ add.process := fun same => fresh.1 (same ▸ created)
          simp [hinit, known, fresh, hne]
        · rw [if_neg new]
          rw [known] at new
          cases hfirst : firstInit after c.process with
          | some first => simp
          | none =>
            by_cases hs : s.Created c.process
            · simp [hs]
            · have hinit : c.method ≠ .init := fun same => new ⟨same, by simp [hs, hfirst]⟩
              simp [hinit]
      · simpa [Ne.symm hk, (step_of_ne s' hk p).1] using earlier

/-- The call takes the port out of the set, by the times that the processes keep for it. -/
def Takes (c : Called ι) (port : Port) (kept : ι → Option ℚ) : Prop :=
  match c.method with
  | .init => False
  | .portHasNoNewMacs other => other = port
  | .portHasNewMacs _ | .getPortsWithNewMacs => NewMacs.Stale c.now (kept c.process)

omit [DecidableEq ι] in
theorem takesOut_iff {s : Shared ι} {c : Called ι} {kept : ι → Option ℚ}
    (h : s.time c.process p = kept c.process) : s.TakesOut p c ↔ Takes c p kept := by
  unfold TakesOut Takes NewMacs.TakesOut
  rw [← h]
  cases c.method <;> rfl

/-- Once added for the last time, a port stays in the set as long as no call takes it out. -/
theorem present_iff {s : Shared ι} {add : Called ι} (hadd : add.method = .portHasNewMacs p)
    (created : s.Created add.process) (after : List (Called ι))
    (last : ∀ c ∈ after, c.method ≠ .portHasNewMacs p) :
    p ∈ (after.foldl step (s.step add)).ports ↔
      ∀ pre c post, after = pre ++ c :: post → ¬ Takes c p (kept s p add pre) := by
  induction after using List.reverseRecOn with
  | nil =>
    have self : (s.step add).ports =
        ((s.view add.process).portHasNewMacs add.now p).ports := by
      rw [step, hadd]
      rfl
    have present := (NewMacs.portHasNewMacs_effect (s := s.view add.process) add.now p created).1
    rw [List.foldl_nil, self]
    simp [present]
  | append_singleton after c ih =>
    have lastBefore : ∀ d ∈ after, d.method ≠ .portHasNewMacs p :=
      fun d hd => last d (List.mem_append_left _ hd)
    rw [List.foldl_append, List.foldl_cons, List.foldl_nil,
      (step_effect _ (last c (by simp))).1]
    constructor
    · rintro ⟨present, stays⟩ pre d post split
      rcases List.eq_nil_or_concat post with rfl | ⟨post, e, rfl⟩
      · obtain ⟨rfl, same⟩ := List.append_inj' split rfl
        cases same
        rwa [← takesOut_iff ((kept_of_present hadd created after lastBefore).2 present _)]
      · have longer : after ++ [c] = (pre ++ d :: post) ++ [e] := by simpa using split
        exact (ih lastBefore).mp present pre d post (List.append_inj' longer rfl).1
    · intro none
      have present : p ∈ (after.foldl step (s.step add)).ports :=
        (ih lastBefore).mpr fun pre d post split => none pre d (post ++ [c]) (by simp [split])
      refine ⟨present, ?_⟩
      rw [takesOut_iff ((kept_of_present hadd created after lastBefore).2 present _)]
      exact none after c [] rfl

/-! ## Runs -/

/-- The calls are in the order of the clock, and a process has a manager before it makes
any other call. -/
def Proper (s : Shared ι) : List (Called ι) → Prop
  | [] => True
  | c :: calls =>
    (c.method = .init ∨ s.Created c.process) ∧ (∀ d ∈ calls, c.now ≤ d.now) ∧
      Proper (s.step c) calls

instance decidableProper (s : Shared ι) : (calls : List (Called ι)) → Decidable (s.Proper calls)
  | [] => isTrue trivial
  | c :: calls =>
    have := decidableProper (s.step c) calls
    inferInstanceAs (Decidable (_ ∧ _ ∧ _))

theorem Proper.at {s : Shared ι} {before after : List (Called ι)} {c : Called ι}
    (h : s.Proper (before ++ c :: after)) :
    (c.method = .init ∨ (before.foldl step s).Created c.process) ∧
      ∀ d ∈ after, c.now ≤ d.now := by
  induction before generalizing s with
  | nil => exact ⟨h.1, h.2.1⟩
  | cons b before ih => exact ih h.2.2

theorem proper_of_append {s : Shared ι} {calls calls' : List (Called ι)}
    (h : s.Proper (calls ++ calls')) : s.Proper calls := by
  induction calls generalizing s with
  | nil => trivial
  | cons c calls ih =>
    exact ⟨h.1, fun d hd => h.2.1 d (List.mem_append_left _ hd), ih h.2.2⟩

/-- A port in the set was added, and has a last call that did. -/
theorem added_of_mem (calls : List (Called ι)) (h : p ∈ (run calls).ports) :
    ∃ before add after, calls = before ++ add :: after ∧ add.method = .portHasNewMacs p ∧
      ∀ c ∈ after, c.method ≠ .portHasNewMacs p := by
  induction calls using List.reverseRecOn with
  | nil => simp [run, start] at h
  | append_singleton calls c ih =>
    by_cases hc : c.method = .portHasNewMacs p
    · exact ⟨calls, c, [], rfl, hc, by simp⟩
    · rw [run, List.foldl_append, List.foldl_cons, List.foldl_nil] at h
      obtain ⟨before, add, after, rfl, hadd, last⟩ := ih ((step_effect _ hc).1.mp h).1
      refine ⟨before, add, after ++ [c], by simp, hadd, fun d hd => ?_⟩
      rcases List.mem_append.mp hd with hd | hd
      · exact last d hd
      · obtain rfl := List.mem_singleton.mp hd
        exact hc

variable {calls : List (Called ι)} {i : ι} {now : ℚ}

/-- What is returned was added and not removed since, and is not too old by the time that
the process keeps. -/
theorem fresh_of_returned (proper : start.Proper calls) (h : p ∈ (run calls).returned i now) :
    ∃ before add after, calls = before ++ add :: after ∧ add.method = .portHasNewMacs p ∧
      (∀ c ∈ after, c.method ≠ .portHasNewMacs p ∧ c.method ≠ .portHasNoNewMacs p) ∧
      ∀ t, kept (run before) p add after i = some t →
        now - t ≤ devicePortsWithNewMacTimeout := by
  obtain ⟨present, fresh⟩ := ((NewMacs.expire_effect now ((run calls).view i)).1 p).mp h
  obtain ⟨before, add, after, rfl, hadd, last⟩ := added_of_mem calls present
  have created : (run before).Created add.process := by
    refine proper.at.1.resolve_left fun hinit => ?_
    rw [hadd] at hinit
    cases hinit
  have whole : run (before ++ add :: after) = after.foldl step ((run before).step add) := by
    rw [run, List.foldl_append]
    rfl
  rw [whole] at present fresh
  refine ⟨before, add, after, rfl, hadd, fun c hc => ⟨last c hc, fun removes => ?_⟩, ?_⟩
  · obtain ⟨pre, post, split⟩ := List.append_of_mem hc
    refine (present_iff hadd created after last).mp present pre c post split ?_
    simp [Takes, removes]
  · intro t ht
    have time := (kept_of_present hadd created after last).2 present i
    exact not_lt.mp fun late => fresh ⟨t, time.trans ht, late⟩

/-- A port that was added within the timeout and not removed is returned, unless a process
that kept an earlier time expires it. -/
theorem returned_of_added {before after : List (Called ι)} {add : Called ι}
    (proper : start.Proper (before ++ add :: (after ++ [⟨i, now, .getPortsWithNewMacs⟩])))
    (hadd : add.method = .portHasNewMacs p)
    (last : ∀ c ∈ after, c.method ≠ .portHasNewMacs p ∧ c.method ≠ .portHasNoNewMacs p)
    (recent : now - add.now ≤ devicePortsWithNewMacTimeout)
    (earlier : ∀ c ∈ after ++ [⟨i, now, .getPortsWithNewMacs⟩], c.method.Expires →
      c.process ≠ add.process → ∀ t, (run before).time c.process p = some t →
        c.now - t ≤ devicePortsWithNewMacTimeout) :
    p ∈ (run (before ++ add :: after)).returned i now := by
  have created : (run before).Created add.process := by
    refine proper.at.1.resolve_left fun hinit => ?_
    rw [hadd] at hinit
    cases hinit
  set get : Called ι := ⟨i, now, .getPortsWithNewMacs⟩ with hget
  have whole : (run (before ++ add :: after)).returned i now =
      ((after ++ [get]).foldl step ((run before).step add)).ports := by
    rw [run, List.foldl_append, List.foldl_append]
    rfl
  have lastGet : ∀ c ∈ after ++ [get],
      c.method ≠ .portHasNewMacs p ∧ c.method ≠ .portHasNoNewMacs p := by
    intro c hc
    rcases List.mem_append.mp hc with hc | hc
    · exact last c hc
    · obtain rfl := List.mem_singleton.mp hc
      simp [hget]
  have order : ∀ c ∈ after ++ [get], add.now ≤ c.now := proper.at.2
  rw [whole, present_iff hadd created _ fun c hc => (lastGet c hc).1]
  intro pre c post split takes
  have hc : c ∈ after ++ [get] := by simp [split]
  have untilNow : c.now ≤ now := by
    rcases List.mem_append.mp hc with hc | hc
    · obtain ⟨pre', post', rfl⟩ := List.append_of_mem hc
      have at_c : start.Proper ((before ++ add :: pre') ++ c :: (post' ++ [get])) := by
        simpa using proper
      exact at_c.at.2 get (by simp)
    · rw [List.mem_singleton.mp hc]
  have fresh : c.method.Expires →
      ¬ NewMacs.Stale c.now (kept (run before) p add pre c.process) := by
    rintro expires ⟨t, ht, late⟩
    unfold kept at ht
    split at ht
    · rw [← Option.some.inj ht] at late
      linarith
    · rename_i hne
      split at ht
      · linarith [earlier c hc expires hne t ht]
      · obtain ⟨d, hd, rfl⟩ := Option.map_eq_some_iff.mp ht
        have hd : d ∈ after ++ [get] := by
          rw [split]
          exact List.mem_append_left _ (List.mem_of_find?_eq_some hd)
        linarith [order d hd]
  unfold Takes at takes
  split at takes
  · exact takes
  · subst takes
    exact (lastGet c hc).2 ‹_›
  · exact fresh (by simp [Method.Expires, *]) takes
  · exact fresh (by simp [Method.Expires, *]) takes

/-- What `get_ports_with_new_macs` returns. A port was added and not removed since, and is
not too old by the time that the process keeps: that of its own call if it made the last
one, that of its first manager if this was created since, and otherwise what it kept before.
And a port that was last added within the timeout, and not removed since, is returned,
unless a process that kept an earlier time for it went through the ports once this was too
old. -/
theorem returned_by_kept_times
    (proper : start.Proper (calls ++ [⟨i, now, .getPortsWithNewMacs⟩])) (p : Port) :
    (p ∈ (run calls).returned i now →
      ∃ before add after, calls = before ++ add :: after ∧ add.method = .portHasNewMacs p ∧
        (∀ c ∈ after, c.method ≠ .portHasNewMacs p ∧ c.method ≠ .portHasNoNewMacs p) ∧
        ∀ t, kept (run before) p add after i = some t →
          now - t ≤ devicePortsWithNewMacTimeout) ∧
    ∀ before add after, calls = before ++ add :: after → add.method = .portHasNewMacs p →
      (∀ c ∈ after, c.method ≠ .portHasNewMacs p ∧ c.method ≠ .portHasNoNewMacs p) →
      now - add.now ≤ devicePortsWithNewMacTimeout →
      (∀ c ∈ after ++ [⟨i, now, .getPortsWithNewMacs⟩], c.method.Expires →
        c.process ≠ add.process → ∀ t, (run before).time c.process p = some t →
          c.now - t ≤ devicePortsWithNewMacTimeout) →
      p ∈ (run calls).returned i now := by
  refine ⟨fresh_of_returned (proper_of_append proper), ?_⟩
  rintro before add after rfl hadd last recent earlier
  exact returned_of_added (by simpa using proper) hadd last recent earlier

end Shared

/-- The first port of a switch. -/
def firstPort : Port := ⟨.int 1, "g1", none, {("device_ip", .str "10.0.0.1")}⟩

/-- The trap receiver, process 1, adds a port that the device tracker, process 0, asks for. -/
def trapThenPacket : List (Called ℕ) :=
  [⟨0, 0, .init⟩, ⟨1, 0, .init⟩, ⟨1, 10, .portHasNewMacs firstPort⟩]

/-- Process 0 adds a port, and process 1 adds it again before process 0 takes it out. -/
def addedTwice : List (Called ℕ) :=
  [⟨0, 0, .init⟩, ⟨1, 0, .init⟩, ⟨0, 0, .portHasNewMacs firstPort⟩,
    ⟨1, 500, .portHasNewMacs firstPort⟩]

theorem returned_trapThenPacket : firstPort ∈ (Shared.run trapThenPacket).returned 0 500 := by
  have proper : Shared.start.Proper (trapThenPacket ++ [⟨0, 500, .getPortsWithNewMacs⟩]) := by
    decide +kernel
  refine (Shared.returned_by_kept_times proper firstPort).2
    [⟨0, 0, .init⟩, ⟨1, 0, .init⟩] ⟨1, 10, .portHasNewMacs firstPort⟩ [] rfl rfl (by simp)
    (by decide +kernel) fun c hc _ _ t ht => ?_
  have unknown : (Shared.run ([⟨0, 0, .init⟩, ⟨1, 0, .init⟩] : List (Called ℕ))).time 0 firstPort =
      none := by decide +kernel
  obtain rfl := List.mem_singleton.mp hc
  simp [unknown] at ht

/-- A port that was added before the timeout only is returned by a process that has no time
for it, and one that was added again within the timeout is taken out by a process that has
an earlier time. -/
theorem times_not_shared :
    (Shared.start.Proper (trapThenPacket ++ [⟨0, 700, .getPortsWithNewMacs⟩]) ∧
      firstPort ∈ (Shared.run trapThenPacket).returned 0 700 ∧
      ∀ c ∈ trapThenPacket, c.method = .portHasNewMacs firstPort →
        devicePortsWithNewMacTimeout < 700 - c.now) ∧
    (Shared.start.Proper (addedTwice ++ [⟨0, 610, .getPortsWithNewMacs⟩]) ∧
      addedTwice.getLast? = some ⟨1, 500, .portHasNewMacs firstPort⟩ ∧
      610 - 500 ≤ devicePortsWithNewMacTimeout ∧
      firstPort ∉ (Shared.run addedTwice).returned 0 610) := by
  refine ⟨⟨by decide +kernel, by decide +kernel, by decide +kernel⟩, by decide +kernel, rfl,
    by decide +kernel, by decide +kernel⟩

end ElanAgent.Snmp
