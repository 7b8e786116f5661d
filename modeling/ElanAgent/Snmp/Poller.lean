import ElanAgent.Snmp.Configurator
import Mathlib.Data.List.Induction
import Mathlib.Logic.Function.Basic

/-!
# The read parameters of polled devices

`snmp_poll` of `bin/snmp_poller.pl` polls a device with the parameters that are cached for its
IP, and if these get no answer, with each version and each of the default credentials in turn,
and caches those that get one. The default credentials are those that `SnmpConfigurator` has
stored.

What a device answers is open, and may be another thing at every poll. A process that dies
gives no answer; the attempts of the search have processes of their own. Polls are taken one
after the other.
-/

namespace ElanAgent.Snmp.Poller

open Configurator Raising

/-- The truth of `$creds->{key}` in Perl. -/
def truthy : Option Value → Bool
  | none | some .none => false
  | some (.int n) => n ≠ 0
  | some (.str s) => s ≠ "" && s ≠ "0"

structure Secret where
  pass : Option Value
  proto : Option Value
  deriving DecidableEq

inductive Access where
  | user (name : Option Value) (auth priv : Option Secret)
  | community (name : Option Value)
  deriving DecidableEq

/-- `$connection_params` -/
structure Params where
  version : ℕ
  module : String
  credentials : Access
  deriving DecidableEq

/-- `{ community => "public" }` -/
def always : Credentials := ⟨some "public", none, none, none, none⟩

/-- `$credentials`, of a version, unless the default ones are for another one. -/
def access (version : ℕ) (creds : Credentials) : Option Access :=
  if version = 3 then
    some (.user creds.community
      (if truthy creds.authKey then some ⟨creds.authKey, creds.authProto⟩ else none)
      (if truthy creds.authKey && truthy creds.privKey then some ⟨creds.privKey, creds.privProto⟩
        else none))
  else if truthy creds.authKey then none
  else some (.community creds.community)

/-- What is tried, in this order. -/
def candidates (creds : List Credentials) : List Params :=
  [3, 2, 1].flatMap fun version =>
    creds.filterMap fun c => (access version c).map (Params.mk version "SNMP::Info")

/-- `_snmp_poll`: what a device tells, and the class that has been found to read it. -/
inductive Attempt (α : Type) where
  | answered (module : String) (data : α)
  | silent
  | died

abbrev Devices (α : Type) := String → Params → Attempt α

/-- What is answered to a poll. What is found by a search has no class in it. -/
inductive Answer (α : Type) where
  | device (data : α) (snmpInfoClass : Option String)
  | undef
  | died

/-- The cached parameters, and the credentials. -/
structure World where
  readParams : String → Option Params
  configurator : SnmpConfigurator

variable {α : Type}

/-- `$default_creds_list`. What is not a list cannot be read as one. -/
def defaultCredentials (files : Files) : Option (List Credentials) :=
  match files.defaultCredentials with
  | none => some [always]
  | some (.list items) => some (always :: items)
  | some .empty => none

/-- Try parameters until some of them get an answer, which go into the cache with its class. -/
def tryAll (devices : Devices α) (ip : String) : List Params → Option (Params × α)
  | [] => none
  | params :: rest =>
    match devices ip params with
    | .answered module data => some ({ params with module }, data)
    | .silent | .died => tryAll devices ip rest

/-- What follows the use of the cache. -/
def search (devices : Devices α) (ip : String) (w : World) : Answer α × World :=
  match defaultCredentials w.configurator.files with
  | none => (.died, w)
  | some creds =>
    match tryAll devices ip (candidates creds) with
    | some (params, data) =>
      (.device data none, { w with readParams := Function.update w.readParams ip (some params) })
    | none => (.undef, w)

/-- `snmp_poll` -/
def snmpPoll (devices : Devices α) (ip : String) (w : World) : Answer α × World :=
  match w.readParams ip with
  | none => search devices ip w
  | some params =>
    match devices ip params with
    | .answered module data => (.device data (some module), w)
    | .silent =>
      search devices ip { w with readParams := Function.update w.readParams ip none }
    | .died => (.died, w)

inductive Event (α : Type) where
  | poll (devices : Devices α) (ip : String)
  | configure (env : Environment) (conf : Conf)

def World.step (w : World) : Event α → World
  | .poll devices ip => (snmpPoll devices ip w).2
  | .configure env conf =>
    { w with configurator := (exec (agentConfUpdated env conf) w.configurator).2 }

def World.start (files : Files) : World := ⟨fun _ => none, Configurator.start files⟩

def World.run (files : Files) (events : List (Event α)) : World :=
  events.foldl World.step (.start files)

/-! ## The search -/

/-- The device answers when these parameters are used. -/
def Answers (devices : Devices α) (ip : String) (params : Params) : Prop :=
  ∃ module data, devices ip params = .answered module data

/-- The first parameters that are answered, with the class of the answer. -/
def First (devices : Devices α) (ip : String) (l : List Params) (found : Params × α) : Prop :=
  ∃ before params after module, l = before ++ params :: after ∧
    devices ip params = .answered module found.2 ∧ found.1 = { params with module } ∧
    ∀ other ∈ before, ¬Answers devices ip other

variable {devices : Devices α} {ip : String} {w : World} {files : Files} {params : Params}

theorem first_cons_answered {module : String} {data : α}
    (h : devices ip params = .answered module data) (l : List Params) (found : Params × α) :
    First devices ip (params :: l) found ↔ found = ({ params with module }, data) := by
  constructor
  · rintro ⟨before, first, after, module', split, answered, same, unanswered⟩
    cases before with
    | nil =>
      obtain ⟨rfl, rfl⟩ := List.cons.inj split
      rw [h] at answered
      obtain ⟨rfl, rfl⟩ := Attempt.answered.inj answered
      exact Prod.ext same rfl
    | cons other before =>
      obtain ⟨rfl, -⟩ := List.cons.inj split
      exact absurd ⟨module, data, h⟩ (unanswered params List.mem_cons_self)
  · rintro rfl
    exact ⟨[], params, l, module, rfl, h, rfl, by simp⟩

theorem first_cons_unanswered (h : ¬Answers devices ip params) (l : List Params)
    (found : Params × α) :
    First devices ip (params :: l) found ↔ First devices ip l found := by
  constructor
  · rintro ⟨before, first, after, module, split, answered, same, unanswered⟩
    cases before with
    | nil =>
      obtain ⟨rfl, rfl⟩ := List.cons.inj split
      exact absurd ⟨module, found.2, answered⟩ h
    | cons other before =>
      obtain ⟨rfl, rfl⟩ := List.cons.inj split
      exact ⟨before, first, after, module, rfl, answered, same,
        fun o ho => unanswered o (List.mem_cons_of_mem _ ho)⟩
  · rintro ⟨before, first, after, module, rfl, answered, same, unanswered⟩
    refine ⟨params :: before, first, after, module, rfl, answered, same, fun o ho => ?_⟩
    rcases List.mem_cons.mp ho with rfl | ho
    · exact h
    · exact unanswered o ho

theorem tryAll_eq_none {l : List Params} :
    tryAll devices ip l = none ↔ ∀ params ∈ l, ¬Answers devices ip params := by
  induction l with
  | nil => simp [tryAll]
  | cons params l ih =>
    rw [List.forall_mem_cons, ← ih]
    cases h : devices ip params <;> simp [tryAll, Answers, h]

theorem tryAll_eq_some {l : List Params} {found : Params × α} :
    tryAll devices ip l = some found ↔ First devices ip l found := by
  induction l with
  | nil =>
    refine ⟨nofun, ?_⟩
    rintro ⟨before, first, after, module, split, -⟩
    simp at split
  | cons params l ih =>
    unfold tryAll
    cases h : devices ip params with
    | answered module data =>
      rw [first_cons_answered h]
      exact ⟨fun same => (Option.some.inj same).symm, fun same => same ▸ rfl⟩
    | silent | died =>
      have unanswered : ¬Answers devices ip params := by simp [Answers, h]
      rw [first_cons_unanswered unanswered]
      exact ih

/-- What a search puts into the cache. -/
theorem readParams_search (empty : w.readParams ip = none) :
    (search devices ip w).2.readParams ip = some params ↔
      ∃ creds data, defaultCredentials w.configurator.files = some creds ∧
        First devices ip (candidates creds) (params, data) := by
  cases defaults : defaultCredentials w.configurator.files with
  | none => simp [search, defaults, empty]
  | some creds =>
    cases found : tryAll devices ip (candidates creds) with
    | none =>
      simp only [search, defaults, found, empty, reduceCtorEq, Option.some.injEq, false_iff]
      rintro ⟨creds', data, rfl, first⟩
      rw [tryAll_eq_some.mpr first] at found
      cases found
    | some found' =>
      obtain ⟨params', data⟩ := found'
      simp only [search, defaults, found, Function.update_self, Option.some.injEq]
      constructor
      · rintro rfl
        exact ⟨creds, data, rfl, tryAll_eq_some.mp found⟩
      · rintro ⟨creds', data', rfl, first⟩
        have same := (tryAll_eq_some.mpr first).symm.trans found
        exact (congrArg Prod.fst (Option.some.inj same)).symm

/-- A search gets an answer if some candidate does. -/
theorem search_device : (∃ data c, (search devices ip w).1 = .device data c) ↔
    ∃ creds, defaultCredentials w.configurator.files = some creds ∧
      ∃ params ∈ candidates creds, Answers devices ip params := by
  cases defaults : defaultCredentials w.configurator.files with
  | none => simp [search, defaults]
  | some creds =>
    cases found : tryAll devices ip (candidates creds) with
    | none =>
      have unanswered := tryAll_eq_none.mp found
      simpa [search, defaults, found] using unanswered
    | some found' =>
      obtain ⟨before, params, after, module, split, answered, -⟩ := tryAll_eq_some.mp found
      have some' : ∃ params ∈ candidates creds, Answers devices ip params :=
        ⟨params, by simp [split], module, found'.2, answered⟩
      simpa [search, defaults, found] using some'

theorem readParams_search_of_ne {ip' : String} (other : ip' ≠ ip) :
    (search devices ip' w).2.readParams ip = w.readParams ip := by
  cases defaults : defaultCredentials w.configurator.files with
  | none => simp [search, defaults]
  | some creds =>
    cases found : tryAll devices ip' (candidates creds) with
    | none => simp [search, defaults, found]
    | some found' => simp [search, defaults, found, Function.update_of_ne other.symm]

/-! ## A poll -/

section Cases

variable {cached : Params} (entry : w.readParams ip = some cached)
include entry

theorem snmpPoll_silent (attempt : devices ip cached = .silent) : snmpPoll devices ip w =
    search devices ip { w with readParams := Function.update w.readParams ip none } := by
  simp [snmpPoll, entry, attempt]

/-- Parameters that still get an answer, or kill the process, stay in the cache. -/
theorem snmpPoll_keeps (attempt : devices ip cached ≠ .silent) :
    (snmpPoll devices ip w).2 = w := by
  cases h : devices ip cached with
  | silent => exact absurd h attempt
  | answered | died => simp [snmpPoll, entry, h]

/-- The answer of a poll that uses the cache. -/
theorem snmpPoll_cached (attempt : devices ip cached ≠ .silent) :
    (∃ data c, (snmpPoll devices ip w).1 = .device data c) ↔ Answers devices ip cached := by
  cases h : devices ip cached with
  | silent => exact absurd h attempt
  | answered | died => simp [snmpPoll, Answers, entry, h]

end Cases

theorem snmpPoll_none (entry : w.readParams ip = none) :
    snmpPoll devices ip w = search devices ip w := by
  simp [snmpPoll, entry]

theorem readParams_poll_of_ne {ip' : String} (other : ip' ≠ ip) :
    (snmpPoll devices ip' w).2.readParams ip = w.readParams ip := by
  cases entry : w.readParams ip' with
  | none => rw [snmpPoll_none entry, readParams_search_of_ne other]
  | some cached =>
    by_cases attempt : devices ip' cached = .silent
    · rw [snmpPoll_silent entry attempt, readParams_search_of_ne other]
      exact Function.update_of_ne other.symm _ _
    · rw [snmpPoll_keeps entry attempt]

/-- Nothing that the cache holds is in use any more. -/
def Unused (devices : Devices α) (ip : String) (w : World) : Prop :=
  ∀ cached, w.readParams ip = some cached → devices ip cached = .silent

theorem unused_iff {cached : Params} (entry : w.readParams ip = some cached) :
    Unused devices ip w ↔ devices ip cached = .silent := by
  unfold Unused
  rw [entry]
  simp

/-- A poll keeps the cached parameters, or puts those that it finds in their place. -/
theorem readParams_poll : (snmpPoll devices ip w).2.readParams ip = some params ↔
    (w.readParams ip = some params ∧ devices ip params ≠ .silent) ∨
    Unused devices ip w ∧ ∃ creds data, defaultCredentials w.configurator.files = some creds ∧
      First devices ip (candidates creds) (params, data) := by
  cases entry : w.readParams ip with
  | none => simp [snmpPoll_none entry, readParams_search entry, Unused, entry]
  | some cached =>
    rw [unused_iff entry]
    by_cases attempt : devices ip cached = .silent
    · have gone : ¬(some cached = some params ∧ devices ip params ≠ .silent) := by
        rintro ⟨same, answers⟩
        exact answers (Option.some.inj same ▸ attempt)
      rw [snmpPoll_silent entry attempt, or_iff_right gone, and_iff_right attempt]
      exact readParams_search (Function.update_self ..)
    · rw [snmpPoll_keeps entry attempt, entry, or_iff_left fun h => attempt h.1]
      exact ⟨fun same => ⟨same, Option.some.inj same ▸ attempt⟩, And.left⟩

/-- A poll gets an answer with the cached parameters, or with some candidate if these are not
in use any more. -/
theorem snmpPoll_device : (∃ data c, (snmpPoll devices ip w).1 = .device data c) ↔
    (∃ cached, w.readParams ip = some cached ∧ Answers devices ip cached) ∨
    Unused devices ip w ∧ ∃ creds, defaultCredentials w.configurator.files = some creds ∧
      ∃ params ∈ candidates creds, Answers devices ip params := by
  cases entry : w.readParams ip with
  | none => simp [snmpPoll_none entry, search_device, Unused, entry]
  | some cached =>
    rw [unused_iff entry]
    by_cases attempt : devices ip cached = .silent
    · have silent : ¬∃ cached', some cached = some cached' ∧ Answers devices ip cached' := by
        rintro ⟨cached', same, module, data, answered⟩
        obtain rfl := Option.some.inj same
        cases attempt.symm.trans answered
      rw [snmpPoll_silent entry attempt, search_device, or_iff_right silent, and_iff_right attempt]
    · rw [snmpPoll_cached entry attempt, or_iff_left fun h => attempt h.1]
      simp

/-! ## Runs -/

theorem run_snoc (events : List (Event α)) (e : Event α) :
    World.run files (events ++ [e]) = (World.run files events).step e := by
  simp [World.run]

/-- A poll of the IP has searched for parameters and found these, and all polls of the IP since
then have used them. -/
def Found (files : Files) (events : List (Event α)) (ip : String) (params : Params) : Prop :=
  ∃ past devices later creds data, events = past ++ .poll devices ip :: later ∧
    Unused devices ip (World.run files past) ∧
    defaultCredentials (World.run files past).configurator.files = some creds ∧
    First devices ip (candidates creds) (params, data) ∧
    ∀ devices', .poll devices' ip ∈ later → devices' ip params ≠ .silent

theorem found_snoc {events : List (Event α)} {e : Event α} :
    Found files (events ++ [e]) ip params ↔
      (Found files events ip params ∧
        ∀ devices, e = .poll devices ip → devices ip params ≠ .silent) ∨
      ∃ devices creds data, e = .poll devices ip ∧ Unused devices ip (World.run files events) ∧
        defaultCredentials (World.run files events).configurator.files = some creds ∧
        First devices ip (candidates creds) (params, data) := by
  constructor
  · rintro ⟨past, devices, later, creds, data, split, unused, defaults, first, used⟩
    rcases List.eq_nil_or_concat later with rfl | ⟨later, last, rfl⟩
    · obtain ⟨rfl, same⟩ := List.append_inj' split rfl
      obtain rfl := List.head_eq_of_cons_eq same
      exact .inr ⟨devices, creds, data, rfl, unused, defaults, first⟩
    · rw [List.concat_eq_append, ← List.cons_append, ← List.append_assoc] at split
      obtain ⟨rfl, same⟩ := List.append_inj' split rfl
      obtain rfl := List.head_eq_of_cons_eq same
      refine .inl ⟨⟨past, devices, later, creds, data, rfl, unused, defaults, first,
        fun d hd => used d (by simp [hd])⟩, ?_⟩
      rintro d rfl
      exact used d (by simp)
  · rintro (⟨⟨past, devices, later, creds, data, rfl, unused, defaults, first, used⟩, now⟩ |
      ⟨devices, creds, data, rfl, unused, defaults, first⟩)
    · refine ⟨past, devices, later ++ [e], creds, data, by simp, unused, defaults, first, ?_⟩
      intro d hd
      rcases List.mem_append.mp hd with hd | hd
      · exact used d hd
      · exact now d (List.mem_singleton.mp hd).symm
    · exact ⟨events, devices, [], creds, data, rfl, unused, defaults, first, by simp⟩

theorem readParams_run (events : List (Event α)) :
    (World.run files events).readParams ip = some params ↔ Found files events ip params := by
  induction events using List.reverseRecOn with
  | nil =>
    refine ⟨nofun, ?_⟩
    rintro ⟨past, devices, later, creds, data, split, -⟩
    simp at split
  | append_singleton events e ih =>
    rw [run_snoc, found_snoc, ← ih]
    cases e with
    | configure env conf => simp [World.step]
    | poll devices ip' =>
      by_cases same : ip' = ip
      · subst same
        simp only [World.step, readParams_poll, Event.poll.injEq, and_true]
        simp
      · simp [World.step, readParams_poll_of_ne same, same]

/-- What is cached for an IP is what a poll of it has found, from the credentials of that time,
and every poll of it has used since, whatever has become of the credentials. A poll gets an
answer if the device answers to these, or is silent and answers to some of the credentials. -/
theorem snmpPoll_run (events : List (Event α)) (devices : Devices α) (ip : String) :
    (∀ params, (World.run files events).readParams ip = some params ↔
      Found files events ip params) ∧
    ((∃ data c, (snmpPoll devices ip (World.run files events)).1 = .device data c) ↔
      (∃ params, Found files events ip params ∧ Answers devices ip params) ∨
      (∀ params, Found files events ip params → devices ip params = .silent) ∧
        ∃ creds, defaultCredentials (World.run files events).configurator.files = some creds ∧
          ∃ params ∈ candidates creds, Answers devices ip params) := by
  refine ⟨fun params => readParams_run events, ?_⟩
  rw [snmpPoll_device]
  simp only [Unused, readParams_run]

end ElanAgent.Snmp.Poller
