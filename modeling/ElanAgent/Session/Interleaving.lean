import ElanAgent.Session.SeenEffect

/-!
# Calls that run concurrently

Every process runs the program of its call, and any of them may issue the next
operation. Nothing in the source excludes an interleaving, so what goes wrong between
two operations of one call is named here, on the programs that are left to run: an id
that a call `Stores` is still missing, and an index set that a call `Forgets` has
been read for the last time. `Undisturbed` is the condition that no pipeline steps
into either gap.

`Stage` lists the programs that a call can have left. In an `Idle` one neither gap is
open.
-/

namespace ElanAgent.Session

open Atomic Redis Hierarchy

variable {N : Set Obj} {P : Set Port} {α : Type}

/-- One process for each call, on the store `w`. -/
def pool (w : World) (calls : List Call) : Config synapse World Unit (Fin calls.length) :=
  ⟨w, fun i => (calls.get i).prog⟩

/-- Calls run one at a time are one of their interleavings. -/
theorem run_calls (w : World) (calls : List Call) :
    ∃ c, Run handler (fun _ _ => True) (pool w calls) c ∧ c.Done ∧ c.state = w.calls calls := by
  obtain ⟨t, run, returned, -⟩ := run_each (h := handler) (List.nodup_finRange calls.length) w
    fun i => (calls.get i).prog
  refine ⟨_, run, fun i => returned i (List.mem_finRange i), ?_⟩
  have hcalls : (List.finRange calls.length).map calls.get = calls := List.map_get_finRange calls
  rw [← congrArg w.calls hcalls, World.calls, List.foldl_map]
  rfl

/-! ## What a program is about to do -/

/-- The program is about to store an id under `f`, or to take the id that it stores there. -/
def Stores (f : String) : Prog synapse α → Prop
  | .op (.execute pipe) _ => ∃ id, .hset f id ∈ pipe
  | .op .getUniqueId next => ∃ id : Nat, Stores f (next id)
  | _ => False

/-- The program is about to delete the index set `key` and does not read it before. -/
def Forgets (key : String) : Prog synapse α → Prop
  | .op (.execute pipe) _ => .delete key ∈ pipe
  | .op (.smembers k) next => k ≠ key ∧ ∀ members : List Value, Forgets key (next members)
  | _ => False

/-- The next pipeline of the program removes `x`, whatever is read before. -/
def Removes (x : Obj) : Prog synapse α → Prop
  | .op (.execute pipe) _ => .zrem x ∈ pipe
  | .op (.smembers _) next => ∀ members : List Value, Removes x (next members)
  | _ => False

/-- A pipeline deletes no id that another call is about to store, and adds no new member to
an index set that another call has read and is about to delete. -/
def Undisturbed {n : Nat} (c : Config synapse World Unit (Fin n)) (i : Fin n) : Prop :=
  ∀ pipe next, c.threads i = .op (.execute pipe) next → ∀ j, j ≠ i →
    (∀ f, .hdel f ∈ pipe → ¬ Stores f (c.threads j)) ∧
    ∀ key v, .sadd key v ∈ pipe → v ∉ c.state.sets key → ¬ Forgets key (c.threads j)

/-! ## Operations on ports, authentications and messages -/

/-- The set of the port's MACs has its own key. -/
def Port.Named (N : Set Obj) (P : Set Port) (port : Port) : Prop :=
  Key.portMacs port.localId port.interface ∈ keysOf N P

/-- Every recorded port is named. -/
def PortsNamed (N : Set Obj) (P : Set Port) (w : World) : Prop :=
  ∀ f p, w.macPort.lookup f = some p → p.Named N P

/-- The command only works on ports. -/
def Cmd.Quiet (N : Set Obj) (P : Set Port) : Cmd → Prop
  | .hsetPort _ port => port.Named N P
  | .sadd key _ | .srem key _ => ∃ port : Port, port.Named N P ∧ key = portMacsPath port
  | .hsetLastPort _ _ | .hdelPort _ => True
  | _ => False

/-- The operation leaves `LAST_SEEN`, `SESSION_IDS` and the index sets alone. -/
def Op.Quiet (N : Set Obj) (P : Set Port) : Op → Prop
  | .execute pipe => ∀ c ∈ pipe, c.Quiet N P
  | .macPort _ | .smembersAuth _ | .saddAuth _ _ | .sremAuth _ _ | .publish _ => True
  | _ => False

theorem path_ne_portMacs (names : Names N P) {k : Key} (hk : k ∈ keysOf N ∅) {p : Port}
    (hp : p.Named N P) : k.path ≠ portMacsPath p := by
  intro h
  obtain rfl : k = .portMacs p.localId p.interface := names.key k hk _ hp h
  obtain ⟨q, hq, -⟩ := hk
  exact hq

/-- What a quiet operation keeps. -/
structure Kept (N : Set Obj) (P : Set Port) (w w' : World) : Prop where
  lastSeen : w'.lastSeen = w.lastSeen
  sessionIds : w'.sessionIds = w.sessionIds
  sets : ∀ k ∈ keysOf N ∅, w'.sets k.path = w.sets k.path
  ports : PortsNamed N P w → PortsNamed N P w'

theorem Kept.refl (w : World) : Kept N P w w := ⟨rfl, rfl, fun _ _ => rfl, id⟩

theorem Kept.trans {u v w : World} (h : Kept N P u v) (h' : Kept N P v w) : Kept N P u w where
  lastSeen := h'.lastSeen.trans h.lastSeen
  sessionIds := h'.sessionIds.trans h.sessionIds
  sets k hk := (h'.sets k hk).trans (h.sets k hk)
  ports hp := h'.ports (h.ports hp)

theorem Cmd.Quiet.kept (names : Names N P) {c : Cmd} (h : c.Quiet N P) (w : World) :
    Kept N P w (c.exec w).2 := by
  have elsewhere : ∀ key l, (∃ port : Port, port.Named N P ∧ key = portMacsPath port) →
      Kept N P w (w.setMembers key l) := by
    rintro _ l ⟨port, hport, rfl⟩
    exact ⟨rfl, rfl, fun k hk => setMembers_of_ne (path_ne_portMacs names hk hport) l, id⟩
  cases c with
  | sadd key v | srem key v => exact elsewhere key _ h
  | hsetPort mac port =>
    refine ⟨rfl, rfl, fun _ _ => rfl, fun hports f p hp => ?_⟩
    simp only [Cmd.exec, lookup_insert_ite] at hp
    split at hp
    · rwa [← Option.some.inj hp]
    · exact hports f p hp
  | hsetLastPort mac port => exact ⟨rfl, rfl, fun _ _ => rfl, id⟩
  | hdelPort mac =>
    refine ⟨rfl, rfl, fun _ _ => rfl, fun hports f p hp => ?_⟩
    simp only [Cmd.exec, lookup_erase_ite] at hp
    split at hp
    · cases hp
    · exact hports f p hp
  | _ => exact h.elim

theorem execute_kept (names : Names N P) {pipe : List Cmd} (h : ∀ c ∈ pipe, c.Quiet N P)
    (w : World) : Kept N P w (execute pipe w).2 := by
  induction pipe generalizing w with
  | nil => exact .refl w
  | cons c pipe ih =>
    exact ((h c List.mem_cons_self).kept names w).trans
      (ih (fun c hc => h c (List.mem_cons_of_mem _ hc)) _)

theorem Op.Quiet.kept (names : Names N P) {o : Op} (h : o.Quiet N P) (w : World) :
    Kept N P w (handler o w).2 := by
  cases o with
  | execute pipe => exact execute_kept names h w
  | macPort | smembersAuth | saddAuth | sremAuth | publish =>
    exact ⟨rfl, rfl, fun _ _ => rfl, id⟩
  | _ => exact h.elim

/-! ## The programs that are left -/

/-- The commands that end a VLAN session and the IP sessions `ips` that its index has. -/
def vlanPipe (mac vlan : Value) (ips : List Value) : List Cmd :=
  [.hdel (Obj.vlan mac vlan).field, .zrem (.vlan mac vlan), .srem (macVlansPath mac) vlan,
    .delete (macVlanIpsPath mac vlan)] ++ endIps mac vlan ips

/-- Read the IPs of each VLAN, then execute the pipeline and go on with `k`. -/
def collect (mac : Value) (pipe : List Cmd) (vlans : List Value)
    (k : List Reply → Prog synapse Unit) : Prog synapse Unit :=
  endVlans mac .none pipe vlans >>= fun pipe => .op (.execute pipe) k

@[simp] theorem collect_nil (mac : Value) (pipe : List Cmd) (k : List Reply → Prog synapse Unit) :
    collect mac pipe [] k = .op (.execute pipe) k := rfl

@[simp] theorem collect_cons (mac : Value) (pipe : List Cmd) (v : Value) (vlans : List Value)
    (k : List Reply → Prog synapse Unit) :
    collect mac pipe (v :: vlans) k = .op (.smembers (macVlanIpsPath mac v)) fun ips =>
      collect mac (pipe ++ vlanPipe mac v ips) vlans k := by
  simp [collect, endVlans, vlanPipe, smembers]

/-- The program of an `end` that does not raise. -/
def ending (mac vlan ip : Value) (k : List Reply → Prog synapse Unit) : Prog synapse Unit :=
  endMac mac vlan >>= fun r => endVlans mac ip r.1 r.2 >>= fun pipe => .op (.execute pipe) k

/-- Drop the result of `seen`. -/
def finish (p : Prog synapse Seen) : Prog synapse Unit := p >>= fun _ => .done ()

/-- A program that neither stores an id nor has read an index set: it is done, between two
calls of its own, or working on ports and messages. -/
inductive Idle (N : Set Obj) (P : Set Port) : Prog synapse Unit → Prop where
  | done : Idle N P (.done ())
  | quiet {o next} : o.Quiet N P → (∀ w, PortsNamed N P w → Idle N P (next (handler o w).1)) →
      Idle N P (.op o next)
  | touch {now mac vlan port oldPort ip time next} : objOf mac vlan ip ∈ N →
      (∀ p ∈ port, p.Named N P) →
      (∀ results : List Reply, next results = finish (seenAllocate now mac vlan port oldPort ip
        time (results.getD 0 default).truthy (resultFlag results 1) (resultFlag results 3))) →
      Idle N P (.op (.execute (touchPipe mac vlan ip time)) next)
  | ends {mac vlan ip k p} : objOf mac vlan ip ∈ N → (ip = .none ∨ vlan ≠ .none) →
      (∀ results, Idle N P (k results)) → p = ending mac vlan ip k → Idle N P p

/-- The object whose index set it is. -/
def Key.above : Key → Obj
  | .vlans m => .mac m
  | .ips m v => .vlan m v
  | .portMacs _ _ => .mac .none

/-- The object that a member of the index set leads to. -/
def Key.below : Key → Value → Obj
  | .vlans m, v => .vlan m v
  | .ips m v, i => .ip m v i
  | .portMacs _ _, m => .mac m

/-- A pipeline that ends sessions: it keeps `LAST_SEEN` and `SESSION_IDS` together, and does
not end a session without deleting the index set that leads below it. -/
structure Ending (N : Set Obj) (pipe : List Cmd) : Prop where
  removes : ∀ c ∈ pipe, c.Removes
  named : ∀ x, .zrem x ∈ pipe → x ∈ N
  hdel : ∀ f, .hdel f ∈ pipe ↔ ∃ x, .zrem x ∈ pipe ∧ x.field = f
  closed : ∀ k ∈ keysOf N ∅, .zrem k.above ∈ pipe → .delete k.path ∈ pipe
  delete : ∀ key, .delete key ∈ pipe → ∃ k ∈ keysOf N ∅, k.path = key
  srem : ∀ key v, .srem key v ∈ pipe →
    ∃ k ∈ keysOf N ∅, k.path = key ∧ .zrem (k.below v) ∈ pipe

/-- What a call can have left to run. -/
inductive Stage (N : Set Obj) (P : Set Port) : Prog synapse Unit → Prop where
  | idle {p} : Idle N P p → Stage N P p
  | allocate {mac vlan ip macAdded vlanAdded ipAdded next} : objOf mac vlan ip ∈ N →
      (∀ localId : Nat, ∃ next', next localId =
        .op (.execute (idsPipe mac vlan ip macAdded vlanAdded ipAdded localId)) next' ∧
        ∀ results, Idle N P (next' results)) →
      Stage N P (.op .getUniqueId next)
  | store {mac vlan ip macAdded vlanAdded ipAdded localId next} : objOf mac vlan ip ∈ N →
      (∀ results, Idle N P (next results)) →
      Stage N P (.op (.execute (idsPipe mac vlan ip macAdded vlanAdded ipAdded localId)) next)
  | collect {mac pipe vlans k p} : Ending N pipe → (∀ v ∈ vlans, Obj.vlan mac v ∈ N) →
      (∀ results, Idle N P (k results)) → p = collect mac pipe vlans k → Stage N P p

/-! ## The programs of the calls -/

theorem idle_each {f : α → Prog synapse Unit} {l : List α} {p : Prog synapse Unit}
    (hf : ∀ a, f a = .done () ∨ ∃ o next, f a = .op o next ∧ o.Quiet N P ∧ ∀ r, next r = .done ())
    (hp : Idle N P p) : Idle N P (each f l >>= fun _ => p) := by
  induction l with
  | nil => exact hp
  | cons a l ih =>
    simp only [each, Prog.bind_assoc]
    rcases hf a with ha | ⟨o, next, ha, ho, hnext⟩
    · rw [ha]
      exact ih
    · rw [ha]
      refine .quiet ho fun w _ => ?_
      rw [hnext]
      exact ih

theorem idle_publish (msg : Message) {p : Prog synapse Unit} (hp : Idle N P p) :
    Idle N P (publish msg >>= fun _ => p) :=
  .quiet trivial fun _ _ => hp

theorem idle_removeTillDisconnect (mac : Value) {p : Prog synapse Unit} (hp : Idle N P p) :
    Idle N P (removeTillDisconnectAuthenticationSession mac >>= fun _ => p) := by
  refine .quiet trivial fun w _ => idle_each (fun session => ?_) hp
  split_ifs
  · exact .inr ⟨_, _, rfl, trivial, fun _ => rfl⟩
  · exact .inl rfl

theorem idle_endNotify (now : ℚ) (mac vlan ip : Value) (time : ℚ) (results : List Reply)
    {p : Prog synapse Unit} (hp : Idle N P p) :
    Idle N P (endNotify now mac vlan ip time results >>= fun _ => p) := by
  simp only [endNotify]
  split_ifs
  · exact idle_publish _ hp
  · exact hp
  · exact idle_publish _ hp
  · exact hp
  · simp only [Prog.bind_assoc]
    refine .quiet trivial fun w hports => ?_
    refine .quiet (fun c hc => ?_) fun _ _ => ?_
    · cases hport : w.macPort.lookup mac.format with
      | none => simp_all [handler, Cmd.Quiet]
      | some port =>
        have hnamed := hports _ port hport
        simp only [handler, hport, Option.map_some, Option.toList_some, List.mem_pair] at hc
        rcases hc with rfl | rfl
        · trivial
        · exact ⟨port, hnamed, rfl⟩
    · exact idle_removeTillDisconnect mac (idle_publish _ hp)
  · exact hp

theorem idle_endSession (now : ℚ) {mac vlan ip : Value} (hN : objOf mac vlan ip ∈ N)
    (time : Option ℚ) {p : Prog synapse Unit} (hp : Idle N P p) :
    Idle N P (endSession now mac vlan ip time >>= fun _ => p) := by
  unfold endSession
  split_ifs with h
  · exact hp
  · refine .ends hN (by tauto)
      (fun results => idle_endNotify now mac vlan ip (time.getD now) results hp) ?_
    simp [ending, pipeExecute]

/-- After the ids, `seen` only works on its port and its messages. -/
theorem idle_record {mac : Value} {port : Option Port} (hport : ∀ p ∈ port, p.Named N P)
    (oldPort : Option Port) (macAdded : Bool) (macLocalId : Option Nat) {p : Prog synapse Unit}
    (hp : Idle N P p) :
    Idle N P (seenRecord mac port oldPort macAdded macLocalId >>= fun _ => p) := by
  cases port with
  | none => exact hp
  | some new =>
    have hnew : new.Named N P := hport new rfl
    have record : ∀ {q}, Idle N P q → Idle N P (pipeExecute [.hsetPort mac new,
        .hsetLastPort mac new, .sadd (portMacsPath new) mac] >>= fun _ => q) := by
      refine fun hq => .quiet (fun c hc => ?_) fun _ _ => hq
      simp only [List.mem_cons, List.not_mem_nil, or_false] at hc
      rcases hc with rfl | rfl | rfl
      · exact hnew
      · trivial
      · exact ⟨new, hnew, rfl⟩
    simp only [seenRecord]
    split_ifs
    · simp only [Prog.bind_assoc]
      exact record (idle_publish _ hp)
    · simp only [Prog.bind_assoc]
      exact record hp
    · exact hp

theorem idle_notify (now : ℚ) (mac vlan : Value) (port : Option Port) (ip : Value) (time : ℚ)
    (macAdded vlanAdded ipAdded : Bool) (localId : Nat) (macLocalId vlanLocalId : Option Nat)
    {p : Prog synapse Unit} (hp : Idle N P p) :
    Idle N P (seenNotify now mac vlan port ip time macAdded vlanAdded ipAdded localId macLocalId
      vlanLocalId >>= fun _ => p) := by
  unfold seenNotify
  split_ifs
  · exact idle_publish _ hp
  · exact idle_publish _ hp
  · exact idle_publish _ hp
  · exact hp

/-- What `seen` does once its ids are stored. -/
def afterStore (now : ℚ) (mac vlan : Value) (port oldPort : Option Port) (ip : Value) (time : ℚ)
    (macAdded vlanAdded ipAdded : Bool) (localId : Nat) (results : List Reply) :
    Prog synapse Unit :=
  let macLocalId := if macAdded then some localId else (results.getD 0 default).sessionId
  let vlanLocalId := if vlanAdded then some localId else (results.getD 1 default).sessionId
  seenRecord mac port oldPort macAdded macLocalId >>= fun _ =>
    seenNotify now mac vlan port ip time macAdded vlanAdded ipAdded localId macLocalId
      vlanLocalId >>= fun _ => .done ()

theorem finish_seenStore (now : ℚ) (mac vlan : Value) (port oldPort : Option Port) (ip : Value)
    (time : ℚ) (macAdded vlanAdded ipAdded : Bool) (localId : Nat) :
    finish (seenStore now mac vlan port oldPort ip time macAdded vlanAdded ipAdded localId) =
      .op (.execute (idsPipe mac vlan ip macAdded vlanAdded ipAdded localId))
        (afterStore now mac vlan port oldPort ip time macAdded vlanAdded ipAdded localId) := by
  have hnext : ∀ results : List Reply, finish (do
      seenRecord mac port oldPort macAdded
        (if macAdded then some localId else (results.getD 0 default).sessionId)
      seenNotify now mac vlan port ip time macAdded vlanAdded ipAdded localId
        (if macAdded then some localId else (results.getD 0 default).sessionId)
        (if vlanAdded then some localId else (results.getD 1 default).sessionId)
      pure ⟨macAdded, vlanAdded, ipAdded, port⟩) =
      afterStore now mac vlan port oldPort ip time macAdded vlanAdded ipAdded localId results := by
    intro results
    simp only [finish, afterStore, Prog.bind_assoc, pure_bind]
  exact congrArg (Prog.op _) (funext hnext)

theorem idle_afterStore (now : ℚ) (mac vlan : Value) {port : Option Port}
    (hport : ∀ p ∈ port, p.Named N P) (oldPort : Option Port) (ip : Value) (time : ℚ)
    (macAdded vlanAdded ipAdded : Bool) (localId : Nat) (results : List Reply) :
    Idle N P (afterStore now mac vlan port oldPort ip time macAdded vlanAdded ipAdded localId
      results) :=
  idle_record hport oldPort macAdded _ (idle_notify now mac vlan port ip time macAdded vlanAdded
    ipAdded localId _ _ .done)

theorem idle_seenTouch (now : ℚ) {mac vlan ip : Value} (hN : objOf mac vlan ip ∈ N)
    {port : Option Port} (hport : ∀ p ∈ port, p.Named N P) (oldPort : Option Port) (time : ℚ) :
    Idle N P (finish (seenTouch now mac vlan port oldPort ip time)) :=
  .touch hN hport fun _ => rfl

theorem idle_seen (names : Names N P) (now : ℚ) {mac vlan ip : Value} (hN : objOf mac vlan ip ∈ N)
    {port : Option Port} (hP : ∀ p ∈ port, p ∈ P) (time : Option ℚ) :
    Idle N P (finish (seen now mac vlan port ip time)) := by
  cases port with
  | none => exact idle_seenTouch now hN (by simp) none (time.getD now)
  | some port =>
    have hport : port.Named N P := ⟨port, hP port rfl, rfl, rfl⟩
    refine .quiet trivial fun w hports => ?_
    have merged : ∀ p ∈ w.merge mac (some port), p.Named N P := fun p hp =>
      merge_named hports hP hp
    have hstep : ∀ old, w.portOf mac = old → Idle N P (finish (seenCompare now mac port old >>=
        fun r => seenTouch now mac vlan r.1 r.2 ip (time.getD now))) := by
      intro old hold
      cases old with
      | none => exact idle_seenTouch now hN (fun p hp => by rwa [← Option.some.inj hp]) none _
      | some old =>
        by_cases hc : port.changed old
        · have hmac : objOf mac .none .none ∈ N := names.lower (mac_le_objOf mac vlan ip) hN
          have given : ∀ p ∈ some port, p.Named N P := fun p hp => by rwa [← Option.some.inj hp]
          have touch := idle_seenTouch now hN given (some old) (time.getD now)
          simpa [seenCompare, hc, finish] using idle_endSession now hmac none touch
        · have completed : ∀ p ∈ some (port.completed old), p.Named N P := fun p hp =>
            merged p (by simpa [World.merge, hold, hc] using hp)
          have touch := idle_seenTouch now hN completed (some old) (time.getD now)
          simpa [seenCompare, hc, finish] using touch
    exact hstep _ rfl

theorem idle_prog (names : Names N P) {c : Call} (h : c.Uses N P) : Idle N P c.prog := by
  obtain ⟨hN, hP⟩ := h
  cases c with
  | seen now mac vlan port ip time => exact idle_seen names now hN hP time
  | ends now mac vlan ip time => exact idle_endSession now hN time .done

/-! ## Where the gaps are open -/

theorem hset_mem_idsPipe {mac vlan ip : Value} {macAdded vlanAdded ipAdded : Bool}
    {localId id : Nat} {f : String} :
    .hset f id ∈ idsPipe mac vlan ip macAdded vlanAdded ipAdded localId ↔
      id = localId ∧ Flags mac vlan ip macAdded vlanAdded ipAdded f := by
  unfold idsPipe Flags Obj.field
  cases macAdded <;> cases vlanAdded <;> cases ipAdded <;> simp <;> grind

theorem hget_mem_idsPipe {mac vlan ip : Value} {macAdded vlanAdded ipAdded : Bool} {localId : Nat}
    {f : String} : .hget f ∈ idsPipe mac vlan ip macAdded vlanAdded ipAdded localId ↔
      (¬ macAdded ∧ f = (Obj.mac mac).field) ∨ (¬ vlanAdded ∧ f = (Obj.vlan mac vlan).field) := by
  unfold idsPipe Obj.field
  cases macAdded <;> cases vlanAdded <;> cases ipAdded <;> simp

theorem mem_idsPipe {mac vlan ip : Value} {macAdded vlanAdded ipAdded : Bool} {localId : Nat}
    {c : Cmd} (h : c ∈ idsPipe mac vlan ip macAdded vlanAdded ipAdded localId) :
    (∃ f id, c = .hset f id) ∨ ∃ f, c = .hget f := by
  unfold idsPipe at h
  cases macAdded <;> cases vlanAdded <;> cases ipAdded <;> simp at h <;> grind

/-- The id that `seen` takes, if any, is stored under the flagged fields. -/
theorem seenAllocate_gaps (now : ℚ) (mac vlan ip : Value) (port oldPort : Option Port) (time : ℚ)
    (macAdded vlanAdded ipAdded : Bool) :
    (∀ f, Stores f (finish (seenAllocate now mac vlan port oldPort ip time macAdded vlanAdded
      ipAdded)) ↔ Flags mac vlan ip macAdded vlanAdded ipAdded f) ∧
    ∀ key, ¬ Forgets key (finish (seenAllocate now mac vlan port oldPort ip time macAdded
      vlanAdded ipAdded)) := by
  have hstore := fun localId => finish_seenStore now mac vlan port oldPort ip time macAdded
    vlanAdded ipAdded localId
  by_cases hadd : macAdded || vlanAdded || ipAdded
  · have hp : finish (seenAllocate now mac vlan port oldPort ip time macAdded vlanAdded ipAdded) =
        .op .getUniqueId fun localId => finish (seenStore now mac vlan port oldPort ip time
          macAdded vlanAdded ipAdded localId) := by
      rw [seenAllocate, if_pos hadd]
      rfl
    rw [hp]
    refine ⟨fun f => ?_, by simp [Forgets]⟩
    simp only [Stores, hstore, hset_mem_idsPipe]
    constructor
    · rintro ⟨_, _, _, h⟩
      exact h
    · exact fun h => ⟨0, 0, rfl, h⟩
  · rw [seenAllocate, if_neg hadd, hstore]
    refine ⟨fun f => by simp [Stores, hset_mem_idsPipe], fun key h => ?_⟩
    rcases mem_idsPipe h with ⟨_, _, h⟩ | ⟨_, h⟩ <;> cases h

theorem seenAllocate_stage (now : ℚ) {mac vlan ip : Value} (hN : objOf mac vlan ip ∈ N)
    {port : Option Port} (hport : ∀ p ∈ port, p.Named N P) (oldPort : Option Port) (time : ℚ)
    (macAdded vlanAdded ipAdded : Bool) :
    Stage N P (finish (seenAllocate now mac vlan port oldPort ip time macAdded vlanAdded
      ipAdded)) := by
  have hstore := fun localId => finish_seenStore now mac vlan port oldPort ip time macAdded
    vlanAdded ipAdded localId
  have hidle := fun localId => idle_afterStore now mac vlan hport oldPort ip time macAdded
    vlanAdded ipAdded localId
  unfold seenAllocate
  split_ifs
  · exact .allocate hN fun localId => ⟨_, hstore localId, hidle localId⟩
  · exact hstore 0 ▸ .store hN (hidle 0)

theorem not_stores_collect {mac : Value} {pipe : List Cmd} {vlans : List Value}
    {k : List Reply → Prog synapse Unit} (h : ∀ c ∈ pipe, c.Removes) (f : String) :
    ¬ Stores f (collect mac pipe vlans k) := by
  cases vlans with
  | nil => exact fun ⟨id, hid⟩ => h _ hid
  | cons v vlans => simp [Stores]

/-- What a collecting program has read for the last time is deleted by the commands that it
has gathered. -/
theorem forgets_collect {mac : Value} {pipe : List Cmd} {vlans : List Value}
    {k : List Reply → Prog synapse Unit} {key : String} :
    Forgets key (collect mac pipe vlans k) ↔
      .delete key ∈ pipe ∧ ∀ v ∈ vlans, macVlanIpsPath mac v ≠ key := by
  induction vlans generalizing pipe with
  | nil => simp [Forgets]
  | cons v vlans ih =>
    simp only [collect_cons, Forgets, ih, List.mem_cons, forall_eq_or_imp]
    constructor
    · rintro ⟨hne, hrest⟩
      obtain ⟨hmem, hvlans⟩ := hrest []
      exact ⟨by simpa [vlanPipe, endIps, hne.symm] using hmem, hne, hvlans⟩
    · rintro ⟨hmem, hne, hvlans⟩
      exact ⟨hne, fun _ => ⟨List.mem_append_left _ hmem, hvlans⟩⟩

theorem removes_collect {mac : Value} {pipe : List Cmd} {vlans : List Value}
    {k : List Reply → Prog synapse Unit} {x : Obj}
    (h : .zrem x ∈ pipe ∨ ∃ v ∈ vlans, x = .vlan mac v) :
    Removes x (collect mac pipe vlans k) := by
  induction vlans generalizing pipe with
  | nil => simpa [Removes] using h
  | cons v vlans ih =>
    rw [collect_cons]
    intro ips
    refine ih ?_
    rcases h with h | ⟨u, hu, rfl⟩
    · exact .inl (List.mem_append_left _ h)
    · rcases List.mem_cons.mp hu with rfl | hu
      · exact .inl (List.mem_append_right _ (by simp [vlanPipe]))
      · exact .inr ⟨u, hu, rfl⟩

theorem ending_mac (mac : Value) (k : List Reply → Prog synapse Unit) :
    ending mac .none .none k = .op (.smembers (macVlansPath mac)) fun vlans =>
      collect mac [.hget (Obj.mac mac).field, .hdel (Obj.mac mac).field, .zrem (.mac mac),
        .delete (macVlansPath mac)] vlans k := rfl

theorem ending_vlan (mac : Value) {vlan : Value} (hv : vlan ≠ .none)
    (k : List Reply → Prog synapse Unit) : ending mac vlan .none k =
      collect mac [.hget (Obj.mac mac).field, .hget (Obj.vlan mac vlan).field] [vlan] k := by
  simp [ending, endMac, hv, collect]

theorem ending_ip (mac : Value) {vlan ip : Value} (hv : vlan ≠ .none) (hi : ip ≠ .none)
    (k : List Reply → Prog synapse Unit) : ending mac vlan ip k =
      .op (.execute ([.hget (Obj.mac mac).field, .hget (Obj.vlan mac vlan).field,
        .hget (Obj.ip mac vlan ip).field] ++ endIps mac vlan [ip])) k := by
  simp [ending, endMac, hv, hi, endVlans]

theorem Idle.not_stores {p : Prog synapse Unit} (h : Idle N P p) (f : String) : ¬ Stores f p := by
  cases h with
  | done => exact id
  | @quiet o next ho _ =>
    cases o with
    | execute pipe => exact fun ⟨id, hid⟩ => ho _ hid
    | getUniqueId => exact ho.elim
    | _ => exact id
  | touch =>
    rintro ⟨id, hid⟩
    unfold touchPipe at hid
    split_ifs at hid <;> simp at hid
  | @ends mac vlan ip k _ _ h _ hp =>
    subst hp
    by_cases hv : vlan = .none
    · obtain rfl : ip = .none := by tauto
      subst hv
      exact id
    · by_cases hi : ip = .none
      · subst hi
        rw [ending_vlan mac hv]
        exact not_stores_collect (by simp [Cmd.Removes]) f
      · rw [ending_ip mac hv hi]
        simp [Stores, endIps]

theorem Idle.not_forgets {p : Prog synapse Unit} (h : Idle N P p) (key : String) :
    ¬ Forgets key p := by
  cases h with
  | done => exact id
  | @quiet o next ho _ =>
    cases o with
    | execute pipe => exact fun hd => ho _ hd
    | smembers => exact ho.elim
    | _ => exact id
  | touch =>
    intro hd
    unfold Forgets touchPipe at hd
    split_ifs at hd <;> simp at hd
  | @ends mac vlan ip k _ _ h _ hp =>
    subst hp
    by_cases hv : vlan = .none
    · obtain rfl : ip = .none := by tauto
      subst hv
      rw [ending_mac]
      rintro ⟨hne, hrest⟩
      simpa [Forgets, hne.symm] using hrest []
    · by_cases hi : ip = .none
      · subst hi
        rw [ending_vlan mac hv]
        exact fun hd => by simpa using (forgets_collect.mp hd).1
      · rw [ending_ip mac hv hi]
        simp [Forgets, endIps]

/-! ## The pipelines of `end` -/

theorem Ending.append {pipe rest : List Cmd} (h : Ending N pipe) (h' : Ending N rest) :
    Ending N (pipe ++ rest) where
  removes c hc := (List.mem_append.mp hc).elim (h.removes c) (h'.removes c)
  named x hx := (List.mem_append.mp hx).elim (h.named x) (h'.named x)
  hdel f := by
    rw [List.mem_append, h.hdel, h'.hdel]
    simp only [List.mem_append, or_and_right, exists_or]
  closed k hk hx := by
    rw [List.mem_append] at hx ⊢
    exact hx.imp (h.closed k hk) (h'.closed k hk)
  delete key hd := (List.mem_append.mp hd).elim (h.delete key) (h'.delete key)
  srem key v hs := by
    simp only [List.mem_append] at hs ⊢
    rcases hs with hs | hs
    · obtain ⟨k, hk, he, hz⟩ := h.srem key v hs
      exact ⟨k, hk, he, .inl hz⟩
    · obtain ⟨k, hk, he, hz⟩ := h'.srem key v hs
      exact ⟨k, hk, he, .inr hz⟩

theorem ending_hgets (fields : List String) : Ending N (fields.map .hget) := by
  constructor <;> simp [Cmd.Removes]

theorem ending_endIps {mac vlan : Value} {ips : List Value}
    (h : ∀ i ∈ ips, Obj.ip mac vlan i ∈ N) : Ending N (endIps mac vlan ips) where
  removes := removes_endIps mac vlan ips
  named x hx := by
    simp only [endIps, List.mem_flatMap, List.mem_cons, reduceCtorEq, Cmd.zrem.injEq, false_or,
      List.not_mem_nil, or_false] at hx
    obtain ⟨i, hi, rfl⟩ := hx
    exact h i hi
  hdel f := by simp [endIps, eq_comm]
  closed k _ hx := by cases k <;> simp [endIps, Key.above] at hx
  delete key hd := by simp [endIps] at hd
  srem key v hs := by simp [endIps] at hs

theorem ending_vlanPipe {mac vlan : Value} {ips : List Value} (hN : Obj.vlan mac vlan ∈ N)
    (hmac : Obj.mac mac ∈ N) (h : ∀ i ∈ ips, Obj.ip mac vlan i ∈ N) :
    Ending N (vlanPipe mac vlan ips) := by
  refine Ending.append ?_ (ending_endIps h)
  refine ⟨by simp [Cmd.Removes], by simpa using hN, by simp [eq_comm], fun k _ hx => ?_,
    fun key hd => ?_, fun key v hs => ?_⟩
  · cases k <;> simp_all [Key.above, Key.path]
  · exact ⟨.ips mac vlan, hN, by simp_all [Key.path]⟩
  · exact ⟨.vlans mac, hmac, by simp_all [Key.path, Key.below]⟩

theorem ending_macPipe {mac : Value} (hmac : Obj.mac mac ∈ N) :
    Ending N [.hget (Obj.mac mac).field, .hdel (Obj.mac mac).field, .zrem (.mac mac),
      .delete (macVlansPath mac)] := by
  refine ⟨by simp [Cmd.Removes], by simpa using hmac, by simp [eq_comm], fun k hk hx => ?_,
    fun key hd => ⟨.vlans mac, hmac, by simp_all [Key.path]⟩, by simp⟩
  cases k with
  | vlans m => simp_all [Key.above, Key.path]
  | ips m v => simp [Key.above] at hx
  | portMacs l i =>
    obtain ⟨p, hp, -⟩ := hk
    exact hp.elim

/-! ## Steps that are undisturbed -/

section

variable {n : Nat} {c : Config synapse World Unit (Fin n)} {i : Fin n}

theorem undisturbed_of_op {o : Op} {next : synapse.Reply o → Prog synapse Unit}
    (hi : c.threads i = .op o next) (ho : ∀ pipe, o ≠ .execute pipe) : Undisturbed c i := by
  intro pipe next' h
  rw [hi] at h
  cases h
  exact (ho pipe rfl).elim

theorem undisturbed_of_idle (h : ∀ j, j ≠ i → Idle N P (c.threads j)) : Undisturbed c i :=
  fun _ _ _ j hj =>
    ⟨fun f _ => (h j hj).not_stores f, fun key _ _ _ => (h j hj).not_forgets key⟩

theorem undisturbed_of_idsPipe {mac vlan ip : Value} {macAdded vlanAdded ipAdded : Bool}
    {localId : Nat} {next : List Reply → Prog synapse Unit} (hi : c.threads i =
      .op (.execute (idsPipe mac vlan ip macAdded vlanAdded ipAdded localId)) next) :
    Undisturbed c i := by
  intro pipe' next' h j _
  rw [hi] at h
  cases h
  refine ⟨fun f hf => ?_, fun key v hv => ?_⟩
  · rcases mem_idsPipe hf with ⟨_, _, h⟩ | ⟨_, h⟩ <;> cases h
  · rcases mem_idsPipe hv with ⟨_, _, h⟩ | ⟨_, h⟩ <;> cases h

end

end ElanAgent.Session
