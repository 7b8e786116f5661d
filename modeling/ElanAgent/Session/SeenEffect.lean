import ElanAgent.Session.EndEffect

/-!
# What `seen` does

`Touches` is the effect of `seen` once it knows the port: both maps on objects are
covered at the object that it names, with a fresh id where there was none. An object
is new when it is covered and had no score. Since no object exists without its
parents, anything is new exactly when the named object is.

`seen` itself first ends the MAC if the port has changed.
-/

namespace ElanAgent.Session

open Atomic Redis Hierarchy

variable {N : Set Obj} {P : Set Port} {w : World}

/-- The message that opens the session of an object, given the ids of sessions. -/
def startMessage (now : ℚ) (ids : Obj → Option Nat) (time : ℚ) (port : Option Port) :
    Obj → Message
  | .mac m =>
    { topic := macSessionTopic, mac := m, vlan := none, ip := none, localId := ids (.mac m),
      macLocalId := none, vlanLocalId := none, start := some (formatDate now (some time)),
      ended := none, port := port }
  | .vlan m v =>
    { topic := vlanSessionTopic, mac := m, vlan := some v, ip := none,
      localId := ids (.vlan m v), macLocalId := ids (.mac m), vlanLocalId := none,
      start := some (formatDate now (some time)), ended := none, port := port }
  | .ip m v i =>
    { topic := ipSessionTopic, mac := m, vlan := some v, ip := some i,
      localId := ids (.ip m v i), macLocalId := ids (.mac m), vlanLocalId := ids (.vlan m v),
      start := some (formatDate now (some time)), ended := none, port := port }

/-- The message that tells the port of a MAC session. -/
def portMessage (ids : Obj → Option Nat) (mac : Value) (port : Port) : Message :=
  { topic := macSessionTopic, mac := mac, vlan := none, ip := none, localId := ids (.mac mac),
    macLocalId := none, vlanLocalId := none, start := none, ended := none, port := some port }

/-- The port that `seen` records: the one it is given, unless it is the recorded one. -/
def newPort (port oldPort : Option Port) : Option Port := if port = oldPort then none else port

theorem newPort_eq_some {port oldPort : Option Port} {new : Port}
    (h : newPort port oldPort = some new) : port = some new := by
  unfold newPort at h
  split at h
  · cases h
  · exact h

/-- `seen` covers `x` and finds no score for it. -/
def World.isNew (w : World) (mac vlan ip : Value) (x : Obj) : Bool :=
  decide (x ≤ objOf mac vlan ip ∧ w.seenAt x = none)

/-- The fields under which `seen` stores the id that it takes. -/
def Flags (mac vlan ip : Value) (macAdded vlanAdded ipAdded : Bool) (f : String) : Prop :=
  (macAdded ∧ f = (Obj.mac mac).field) ∨ (vlanAdded ∧ f = (Obj.vlan mac vlan).field) ∨
    (ipAdded ∧ f = (Obj.ip mac vlan ip).field)

instance {mac vlan ip : Value} {macAdded vlanAdded ipAdded : Bool} {f : String} :
    Decidable (Flags mac vlan ip macAdded vlanAdded ipAdded f) :=
  inferInstanceAs (Decidable (_ ∨ _ ∨ _))

/-- These are the fields of the objects that `seen` finds new. -/
theorem flags_new (w : World) (mac vlan ip : Value) (f : String) :
    Flags mac vlan ip (w.isNew mac vlan ip (.mac mac)) (w.isNew mac vlan ip (.vlan mac vlan))
      (w.isNew mac vlan ip (.ip mac vlan ip)) f ↔
      ∃ x ≤ objOf mac vlan ip, w.seenAt x = none ∧ x.field = f := by
  constructor
  · rintro (⟨hn, rfl⟩ | ⟨hn, rfl⟩ | ⟨hn, rfl⟩) <;>
    · obtain ⟨hle, hnone⟩ := of_decide_eq_true hn
      exact ⟨_, hle, hnone, rfl⟩
  · rintro ⟨x, hle, hnone, rfl⟩
    have hnew : w.isNew mac vlan ip x := decide_eq_true ⟨hle, hnone⟩
    rcases eq_of_le_objOf hle with rfl | rfl | rfl
    · exact .inl ⟨hnew, rfl⟩
    · exact .inr (.inl ⟨hnew, rfl⟩)
    · exact .inr (.inr ⟨hnew, rfl⟩)

theorem flags_isNew (fields : Fields N) {mac vlan ip : Value} (hN : objOf mac vlan ip ∈ N)
    (w : World) {x : Obj} (hx : x ∈ N) :
    Flags mac vlan ip (w.isNew mac vlan ip (.mac mac)) (w.isNew mac vlan ip (.vlan mac vlan))
      (w.isNew mac vlan ip (.ip mac vlan ip)) x.field ↔
      x ≤ objOf mac vlan ip ∧ w.seenAt x = none := by
  rw [flags_new]
  refine ⟨fun ⟨y, hle, hnone, he⟩ => ?_, fun ⟨hle, hnone⟩ => ⟨x, hle, hnone, rfl⟩⟩
  rw [← fields.field (fields.lower hle hN) hx he]
  exact ⟨hle, hnone⟩

/-- The effect of `seen` from `w` to `w'`, once the port is known. -/
structure Touches (N : Set Obj) (P : Set Port) (now : ℚ) (mac vlan : Value)
    (port oldPort : Option Port) (ip : Value) (time : ℚ) (w w' : World) : Prop where
  seenAt : w'.seenAt = cover (objOf mac vlan ip) (fun _ => time) w.seenAt
  idOf : ∀ x ∈ N, w'.idOf x =
    cover (objOf mac vlan ip) (fun x => (w.idOf x).getD (w.sequence + 1)) w.idOf x
  idsFrom : ∀ f id, w'.sessionIds.lookup f = some id → w.sessionIds.lookup f = some id ∨
    id = w.sequence + 1 ∧ w'.sequence = w.sequence + 1 ∧ ∃ x ≤ objOf mac vlan ip, x.field = f
  sequence : w'.sequence =
    if w.seenAt (objOf mac vlan ip) = none then w.sequence + 1 else w.sequence
  macPort : ∀ f, w'.macPort.lookup f =
    if f = mac.format then (newPort port oldPort).or (w.macPort.lookup f) else w.macPort.lookup f
  vlans : ∀ m v, Obj.mac m ∈ N → (v ∈ w'.sets (macVlansPath m) ↔
    v ∈ w.sets (macVlansPath m) ∨ .vlan m v ≤ objOf mac vlan ip)
  ips : ∀ m v i, Obj.vlan m v ∈ N → (i ∈ w'.sets (macVlanIpsPath m v) ↔
    i ∈ w.sets (macVlanIpsPath m v) ∨ .ip m v i ≤ objOf mac vlan ip)
  portMacs : ∀ p : Port, Key.portMacs p.localId p.interface ∈ keysOf N P → ∀ m,
    (m ∈ w'.sets (portMacsPath p) ↔ m ∈ w.sets (portMacsPath p) ∨
      m = mac ∧ ∃ new, newPort port oldPort = some new ∧ portMacsPath p = portMacsPath new)
  published : w'.published = w.published ++
    (if w.seenAt (.mac mac) = none then []
      else ((newPort port oldPort).map (portMessage w'.idOf mac)).toList) ++
    if w.seenAt (objOf mac vlan ip) = none then
      [startMessage now w'.idOf time port (objOf mac vlan ip)]
    else []

/-! ## The three pipelines -/

section Pipelines

variable (mac vlan ip : Value)

theorem touchPipe_lastSeen (time : ℚ) (w : World) (x : Obj) :
    (execute (touchPipe mac vlan ip time) w).2.lastSeen.lookup x =
      if x ≤ objOf mac vlan ip then some time else w.lastSeen.lookup x := by
  by_cases hv : vlan = .none
  · subst hv
    cases x <;> simp [touchPipe, Cmd.exec, lookup_insert_ite]
  · by_cases hi : ip = .none
    · subst hi
      cases x <;> simp [touchPipe, Cmd.exec, lookup_insert_ite, hv, objOf_vlan hv, World.setMembers]
    · cases x <;>
        simp [touchPipe, Cmd.exec, lookup_insert_ite, hv, hi, objOf_ip hv hi, World.setMembers]

theorem touchPipe_sets (time : ℚ) (w : World) (k : String) (v : Value) :
    v ∈ (execute (touchPipe mac vlan ip time) w).2.sets k ↔ v ∈ w.sets k ∨
      (vlan ≠ .none ∧ k = macVlansPath mac ∧ v = vlan) ∨
      (vlan ≠ .none ∧ ip ≠ .none ∧ k = macVlanIpsPath mac vlan ∧ v = ip) := by
  by_cases hv : vlan = .none
  · simp [touchPipe, Cmd.exec, hv]
  · by_cases hi : ip = .none
    · by_cases hk : k = macVlansPath mac <;> simp [touchPipe, Cmd.exec, hv, hi, hk, or_comm]
    · simp only [touchPipe, Cmd.exec, hv, hi, ne_eq, not_false_eq_true, if_true, List.cons_append,
        List.nil_append, execute_cons, execute_nil, setMembers_sets, true_and]
      split_ifs <;> simp_all [or_comm, or_left_comm, or_assoc]

theorem touchPipe_rest (time : ℚ) (w : World) :
    w.SameRest (execute (touchPipe mac vlan ip time) w).2 ∧
    (execute (touchPipe mac vlan ip time) w).2.sessionIds = w.sessionIds := by
  unfold touchPipe
  split_ifs <;> exact ⟨⟨rfl, rfl, rfl, rfl, rfl⟩, rfl⟩

theorem zadd_truthy {o : Obj} {u : World} (time : ℚ)
    (h : u.lastSeen.lookup o = w.lastSeen.lookup o) :
    ((Cmd.zadd time o).exec u).1.truthy = decide (w.seenAt o = none) := by
  have hkeys : o ∉ u.lastSeen.keys ↔ w.seenAt o = none := by
    rw [World.seenAt, ← h, AList.lookup_eq_none]
    rfl
  by_cases ho : w.seenAt o = none <;> simp [Cmd.exec, counted, Reply.truthy, hkeys, ho]

/-- The flags that `seenTouch` reads off the positions of the replies. -/
theorem touchPipe_replies (time : ℚ) (w : World) :
    let results := (execute (touchPipe mac vlan ip time) w).1
    (results.getD 0 default).truthy = w.isNew mac vlan ip (.mac mac) ∧
    resultFlag results 1 = w.isNew mac vlan ip (.vlan mac vlan) ∧
    resultFlag results 3 = w.isNew mac vlan ip (.ip mac vlan ip) := by
  have hmac : ((Cmd.zadd time (.mac mac)).exec w).1.truthy = _ := zadd_truthy time rfl
  have hvlan : ((Cmd.zadd time (.vlan mac vlan)).exec
      ((Cmd.zadd time (.mac mac)).exec w).2).1.truthy = decide (w.seenAt (.vlan mac vlan) = none) :=
    zadd_truthy time (by simp [Cmd.exec])
  have hip : ((Cmd.zadd time (.ip mac vlan ip)).exec (execute [.zadd time (.mac mac),
      .zadd time (.vlan mac vlan), .sadd (macVlansPath mac) vlan] w).2).1.truthy =
      decide (w.seenAt (.ip mac vlan ip) = none) :=
    zadd_truthy time (by simp [Cmd.exec, World.setMembers])
  unfold resultFlag
  by_cases hv : vlan = .none
  · simp [touchPipe, World.isNew, hv, hmac]
  · by_cases hi : ip = .none
    · simp [touchPipe, World.isNew, hv, hi, objOf_vlan, hmac, hvlan]
    · simpa [touchPipe, World.isNew, hv, hi, objOf_ip, hmac, hvlan] using hip

theorem idsPipe_sessionIds (macAdded vlanAdded ipAdded : Bool) (localId : Nat) (w : World)
    (f : String) :
    (execute (idsPipe mac vlan ip macAdded vlanAdded ipAdded localId) w).2.sessionIds.lookup f =
      if Flags mac vlan ip macAdded vlanAdded ipAdded f then some localId
      else w.sessionIds.lookup f := by
  unfold idsPipe Flags Obj.field
  cases macAdded <;> cases vlanAdded <;> cases ipAdded <;>
    simp [Cmd.exec, lookup_insert_ite] <;> grind

theorem idsPipe_rest (macAdded vlanAdded ipAdded : Bool) (localId : Nat) (w : World) :
    w.SameRest (execute (idsPipe mac vlan ip macAdded vlanAdded ipAdded localId) w).2 ∧
    (execute (idsPipe mac vlan ip macAdded vlanAdded ipAdded localId) w).2.lastSeen =
      w.lastSeen ∧
    (execute (idsPipe mac vlan ip macAdded vlanAdded ipAdded localId) w).2.sets = w.sets := by
  unfold idsPipe
  cases macAdded <;> cases vlanAdded <;> cases ipAdded <;>
    exact ⟨⟨rfl, rfl, rfl, rfl, rfl⟩, rfl, rfl⟩

/-- The ids that `seenStore` passes on, read back by position where they exist. -/
theorem idsPipe_replies (macAdded vlanAdded ipAdded : Bool) (localId : Nat) (w : World) :
    let results := (execute (idsPipe mac vlan ip macAdded vlanAdded ipAdded localId) w).1
    (if macAdded then some localId else (results.getD 0 default).sessionId) =
      (if macAdded then some localId else w.idOf (.mac mac)) ∧
    ((Obj.vlan mac vlan).field ≠ (Obj.mac mac).field →
      (if vlanAdded then some localId else (results.getD 1 default).sessionId) =
        if vlanAdded then some localId else w.idOf (.vlan mac vlan)) := by
  unfold idsPipe World.idOf Obj.field
  cases macAdded <;> cases vlanAdded <;>
    simp +contextual [Cmd.exec, Reply.sessionId]

/-- Record a new port of `mac` and put `mac` in its set. -/
def World.recordPort (w : World) (mac : Value) (port : Option Port) : World :=
  (execute ((port.map fun new => [Cmd.hsetPort mac new, .hsetLastPort mac new,
    .sadd (portMacsPath new) mac]).getD []) w).2

theorem recordPort_frame (w : World) (mac : Value) (port : Option Port) :
    (w.recordPort mac port).lastSeen = w.lastSeen ∧
    (w.recordPort mac port).sessionIds = w.sessionIds ∧
    (w.recordPort mac port).sequence = w.sequence ∧
    (w.recordPort mac port).published = w.published := by
  cases port <;> exact ⟨rfl, rfl, rfl, rfl⟩

theorem recordPort_macPort (w : World) (mac : Value) (port : Option Port) (f : String) :
    (w.recordPort mac port).macPort.lookup f =
      if f = mac.format then port.or (w.macPort.lookup f) else w.macPort.lookup f := by
  cases port with
  | none => simp [World.recordPort]
  | some p => simp [World.recordPort, Cmd.exec, lookup_insert_ite, World.setMembers]

theorem recordPort_sets (w : World) (mac : Value) (port : Option Port) (k : String) (m : Value) :
    m ∈ (w.recordPort mac port).sets k ↔ m ∈ w.sets k ∨
      m = mac ∧ ∃ new, port = some new ∧ k = portMacsPath new := by
  cases port with
  | none => simp [World.recordPort]
  | some p =>
    by_cases hk : k = portMacsPath p <;> simp [World.recordPort, Cmd.exec, hk, or_comm]

theorem seenRecord_run (port oldPort : Option Port) (macAdded : Bool) (ids : Obj → Option Nat)
    (w : World) :
    (seenRecord mac port oldPort macAdded (ids (.mac mac))).run handler w = ((),
      (w.recordPort mac (newPort port oldPort)).say
        (if macAdded then [] else
          ((newPort port oldPort).map (portMessage ids mac)).toList)) := by
  cases port with
  | none => simp [seenRecord, newPort, World.recordPort]
  | some p =>
    by_cases hp : some p = oldPort
    · simp [seenRecord, newPort, World.recordPort, hp]
    · cases macAdded <;>
        simp [seenRecord, newPort, World.recordPort, hp, portMessage, notifyMacPort]

theorem seenNotify_run (now : ℚ) (port : Option Port) (time : ℚ)
    {macAdded vlanAdded ipAdded : Bool} {localId : Nat} {vlanLocalId : Option Nat}
    {ids : Obj → Option Nat} (w : World)
    (hvlan : ipAdded → vlanLocalId = ids (.vlan mac vlan))
    (newMac : macAdded → ids (.mac mac) = some localId)
    (newVlan : vlanAdded → ids (.vlan mac vlan) = some localId)
    (newIp : ipAdded → ids (.ip mac vlan ip) = some localId) :
    (seenNotify now mac vlan port ip time macAdded vlanAdded ipAdded localId (ids (.mac mac))
      vlanLocalId).run handler w = ((), w.say
        (if ipAdded then [startMessage now ids time port (.ip mac vlan ip)]
          else if vlanAdded then [startMessage now ids time port (.vlan mac vlan)]
          else if macAdded then [startMessage now ids time port (.mac mac)]
          else [])) := by
  unfold seenNotify
  split_ifs with hi hv hm
  · simp [notifyNewIpSession, startMessage, hvlan hi, newIp hi]
  · simp [notifyNewVlanSession, startMessage, newVlan hv]
  · simp [notifyNewMacSession, startMessage, newMac hm]
  · simp

theorem seenStore_run (now : ℚ) (port oldPort : Option Port) (time : ℚ)
    {macAdded vlanAdded ipAdded : Bool} (localId : Nat) (w : World)
    (hvlan : vlanAdded ∨ ipAdded → (Obj.vlan mac vlan).field ≠ (Obj.mac mac).field)
    (hip : ipAdded → (Obj.ip mac vlan ip).field ≠ (Obj.mac mac).field ∧
      (Obj.ip mac vlan ip).field ≠ (Obj.vlan mac vlan).field) :
    let u := (execute (idsPipe mac vlan ip macAdded vlanAdded ipAdded localId) w).2
    (seenStore now mac vlan port oldPort ip time macAdded vlanAdded ipAdded localId).run handler w =
      (⟨macAdded, vlanAdded, ipAdded, port⟩, (u.recordPort mac (newPort port oldPort)).say
        ((if macAdded then [] else ((newPort port oldPort).map (portMessage u.idOf mac)).toList) ++
          if ipAdded then [startMessage now u.idOf time port (.ip mac vlan ip)]
          else if vlanAdded then [startMessage now u.idOf time port (.vlan mac vlan)]
          else if macAdded then [startMessage now u.idOf time port (.mac mac)]
          else [])) := by
  intro u
  have hu : ∀ x : Obj, u.idOf x =
      if Flags mac vlan ip macAdded vlanAdded ipAdded x.field then some localId else w.idOf x :=
    fun x => idsPipe_sessionIds mac vlan ip macAdded vlanAdded ipAdded localId w x.field
  obtain ⟨hmacId, hvlanId⟩ := idsPipe_replies mac vlan ip macAdded vlanAdded ipAdded localId w
  have hmac : (if macAdded then some localId else w.idOf (.mac mac)) = u.idOf (.mac mac) := by
    rw [hu]
    cases macAdded <;> cases vlanAdded <;> cases ipAdded <;> simp_all [Flags, eq_comm]
  have hnotify : ipAdded → (if vlanAdded then some localId else
      ((execute (idsPipe mac vlan ip macAdded vlanAdded ipAdded localId) w).1.getD 1
        default).sessionId) = u.idOf (.vlan mac vlan) := by
    intro hi
    rw [hvlanId (hvlan (.inr hi)), hu]
    cases macAdded <;> cases vlanAdded <;> simp_all [Flags, eq_comm]
  have newMac : macAdded → u.idOf (.mac mac) = some localId := fun h =>
    (hu _).trans (if_pos (.inl ⟨h, rfl⟩))
  have newVlan : vlanAdded → u.idOf (.vlan mac vlan) = some localId := fun h =>
    (hu _).trans (if_pos (.inr (.inl ⟨h, rfl⟩)))
  have newIp : ipAdded → u.idOf (.ip mac vlan ip) = some localId := fun h =>
    (hu _).trans (if_pos (.inr (.inr ⟨h, rfl⟩)))
  rw [hmac] at hmacId
  simp only [seenStore, Prog.run_bind, run_pipeExecute, hmacId, seenRecord_run,
    seenNotify_run mac vlan ip now port time _ hnotify newMac newVlan newIp, Prog.run_pure,
    say_say]
  rfl

end Pipelines

/-! ## The whole call -/

/-- No object exists without its parents, so what is new is the object itself. -/
theorem new_iff (lower : IsLowerSet (support w.seenAt)) (mac vlan ip : Value) :
    (w.isNew mac vlan ip (.mac mac) || w.isNew mac vlan ip (.vlan mac vlan) ||
      w.isNew mac vlan ip (.ip mac vlan ip)) = decide (w.seenAt (objOf mac vlan ip) = none) := by
  have up : ∀ x ≤ objOf mac vlan ip, w.seenAt x = none → w.seenAt (objOf mac vlan ip) = none := by
    intro x hx hnone
    by_contra hne
    exact lower hx hne hnone
  rw [Bool.eq_iff_iff]
  simp only [World.isNew, Bool.or_eq_true, decide_eq_true_eq]
  constructor
  · rintro ((⟨hx, hn⟩ | ⟨hx, hn⟩) | ⟨hx, hn⟩) <;> exact up _ hx hn
  · intro hn
    unfold objOf at hn ⊢
    split_ifs at hn ⊢ <;> simp_all

theorem new_select {β : Type} (lower : IsLowerSet (support w.seenAt)) (mac vlan ip : Value)
    (f : Obj → β) (d : β) :
    (if w.isNew mac vlan ip (.ip mac vlan ip) then f (.ip mac vlan ip)
      else if w.isNew mac vlan ip (.vlan mac vlan) then f (.vlan mac vlan)
      else if w.isNew mac vlan ip (.mac mac) then f (.mac mac) else d) =
    if w.seenAt (objOf mac vlan ip) = none then f (objOf mac vlan ip) else d := by
  have hmac := lower (show Obj.mac mac ≤ .vlan mac vlan by simp)
  have hvlan := lower (show Obj.vlan mac vlan ≤ .ip mac vlan ip by simp)
  unfold World.isNew objOf
  split_ifs <;> simp_all

/-- The store when the ids are about to be written. -/
def World.touched (w : World) (mac vlan ip : Value) (time : ℚ) : World :=
  { (execute (touchPipe mac vlan ip time) w).2 with
    sequence :=
      if w.seenAt (objOf mac vlan ip) = none then w.sequence + 1 else w.sequence }

/-- The id that `seen` allocates, if it does. -/
def World.nextId (w : World) (o : Obj) : Nat := if w.seenAt o = none then w.sequence + 1 else 0

theorem seenTouch_run (lower : IsLowerSet (support w.seenAt)) (now : ℚ) (mac vlan : Value)
    (port oldPort : Option Port) (ip : Value) (time : ℚ) :
    (seenTouch now mac vlan port oldPort ip time).run handler w =
      (seenStore now mac vlan port oldPort ip time (w.isNew mac vlan ip (.mac mac))
        (w.isNew mac vlan ip (.vlan mac vlan)) (w.isNew mac vlan ip (.ip mac vlan ip))
        (w.nextId (objOf mac vlan ip))).run handler (w.touched mac vlan ip time) := by
  obtain ⟨h0, h1, h3⟩ := touchPipe_replies mac vlan ip time w
  have hseq := (touchPipe_rest mac vlan ip time w).1.sequence
  simp only [seenTouch, Prog.run_bind, run_pipeExecute, h0, h1, h3, seenAllocate]
  rw [new_iff lower]
  by_cases hnew : w.seenAt (objOf mac vlan ip) = none
  · simp [hnew, World.touched, World.nextId, hseq]
  · simp [hnew, World.touched, World.nextId, ← hseq]

/-- The store when the ids are written. -/
def World.identified (w : World) (mac vlan ip : Value) (time : ℚ) : World :=
  (execute (idsPipe mac vlan ip (w.isNew mac vlan ip (.mac mac))
    (w.isNew mac vlan ip (.vlan mac vlan)) (w.isNew mac vlan ip (.ip mac vlan ip))
    (w.nextId (objOf mac vlan ip))) (w.touched mac vlan ip time)).2

section Identified

variable (time : ℚ) {mac vlan ip : Value}

theorem identified_rest (w : World) : (w.identified mac vlan ip time).SameRest
      { w with sequence :=
          if w.seenAt (objOf mac vlan ip) = none then w.sequence + 1 else w.sequence } ∧
    (w.identified mac vlan ip time).lastSeen =
      (execute (touchPipe mac vlan ip time) w).2.lastSeen ∧
    (w.identified mac vlan ip time).sets = (execute (touchPipe mac vlan ip time) w).2.sets := by
  obtain ⟨same, hlast, hsets⟩ := idsPipe_rest mac vlan ip (w.isNew mac vlan ip (.mac mac))
    (w.isNew mac vlan ip (.vlan mac vlan)) (w.isNew mac vlan ip (.ip mac vlan ip))
    (w.nextId (objOf mac vlan ip)) (w.touched mac vlan ip time)
  obtain ⟨same', -⟩ := touchPipe_rest mac vlan ip time w
  exact ⟨⟨same.sequence.symm, (same.macPort.trans same'.macPort).symm,
    (same.macLastPort.trans same'.macLastPort).symm,
    (same.authentication.trans same'.authentication).symm,
    (same.published.trans same'.published).symm⟩, hlast, hsets⟩

theorem identified_lookup (w : World) (f : String) :
    (w.identified mac vlan ip time).sessionIds.lookup f =
      if Flags mac vlan ip (w.isNew mac vlan ip (.mac mac)) (w.isNew mac vlan ip (.vlan mac vlan))
        (w.isNew mac vlan ip (.ip mac vlan ip)) f
      then some (w.nextId (objOf mac vlan ip)) else w.sessionIds.lookup f := by
  have htouched : (w.touched mac vlan ip time).sessionIds = w.sessionIds :=
    (touchPipe_rest mac vlan ip time w).2
  rw [World.identified, idsPipe_sessionIds, htouched]

/-- What is above a new object is new. -/
theorem nextId_of_new (lower : IsLowerSet (support w.seenAt)) {o x : Obj} (hx : x ≤ o)
    (hnone : w.seenAt x = none) : w.seenAt o = none ∧ w.nextId o = w.sequence + 1 := by
  have fresh : w.seenAt o = none := not_not.mp fun hne => lower hx hne hnone
  exact ⟨fresh, if_pos fresh⟩

/-- The ids of new objects are stored under their fields. -/
theorem identified_idOf (inv : Invariant N P w) (fields : Fields N) (hN : objOf mac vlan ip ∈ N)
    {x : Obj} (hx : x ∈ N) : (w.identified mac vlan ip time).idOf x =
      cover (objOf mac vlan ip) (fun x => (w.idOf x).getD (w.sequence + 1)) w.idOf x := by
  have hids := inv.ids x hx
  have hflags := flags_isNew fields hN w hx
  rw [mem_support, mem_support] at hids
  rw [World.idOf, identified_lookup]
  split
  · obtain ⟨hle, hnone⟩ := hflags.mp ‹_›
    have hid : w.idOf x = none := by tauto
    rw [cover_of_le hle, hid, (nextId_of_new inv.lower hle hnone).2, Option.getD_none]
  · by_cases hle : x ≤ objOf mac vlan ip
    · have hsome : w.seenAt x ≠ none := by tauto
      obtain ⟨id, hid⟩ := Option.ne_none_iff_exists'.mp (hids.mp hsome)
      rw [cover_of_le hle, hid, Option.getD_some]
      exact hid
    · rw [cover_of_not_le hle]
      rfl

/-- No id is stored under any other field. -/
theorem identified_idsFrom (lower : IsLowerSet (support w.seenAt)) (f : String) (id : Nat)
    (hid : (w.identified mac vlan ip time).sessionIds.lookup f = some id) :
    w.sessionIds.lookup f = some id ∨ id = w.sequence + 1 ∧
      (w.identified mac vlan ip time).sequence = w.sequence + 1 ∧
      ∃ x ≤ objOf mac vlan ip, x.field = f := by
  rw [identified_lookup] at hid
  split at hid
  · obtain ⟨x, hle, hnone, hf⟩ := (flags_new w mac vlan ip f).mp ‹_›
    obtain ⟨fresh, hnext⟩ := nextId_of_new lower hle hnone
    refine .inr ⟨?_, ?_, x, hle, hf⟩
    · rw [← Option.some.inj hid, hnext]
    · rw [← (identified_rest time w).1.sequence]
      exact if_pos fresh
  · exact .inl hid

theorem seenTouch_world (inv : Invariant N P w) (fields : Fields N) (now : ℚ)
    (hN : objOf mac vlan ip ∈ N) (port oldPort : Option Port) :
    ((seenTouch now mac vlan port oldPort ip time).run handler w).2 =
      ((w.identified mac vlan ip time).recordPort mac (newPort port oldPort)).say
        ((if w.seenAt (.mac mac) = none then []
          else ((newPort port oldPort).map
            (portMessage (w.identified mac vlan ip time).idOf mac)).toList) ++
          if w.seenAt (objOf mac vlan ip) = none then
            [startMessage now (w.identified mac vlan ip time).idOf time port (objOf mac vlan ip)]
          else []) := by
  have hmacle := mac_le_objOf mac vlan ip
  have hfield : ∀ x ≤ objOf mac vlan ip, ∀ y ≤ objOf mac vlan ip, x ≠ y → x.field ≠ y.field :=
    fun x hx y hy hne he => hne (fields.field (fields.lower hx hN) (fields.lower hy hN) he)
  have hle : ∀ x, w.isNew mac vlan ip x → x ≤ objOf mac vlan ip :=
    fun x hx => (of_decide_eq_true hx).1
  have hvlanle : w.isNew mac vlan ip (.vlan mac vlan) ∨ w.isNew mac vlan ip (.ip mac vlan ip) →
      Obj.vlan mac vlan ≤ objOf mac vlan ip := by
    rintro (hv | hi)
    · exact hle _ hv
    · exact le_trans (by simp) (hle _ hi)
  have hmac : w.seenAt (.mac mac) = none ↔ w.isNew mac vlan ip (.mac mac) := by
    simp [World.isNew, hmacle]
  rw [seenTouch_run inv.lower, seenStore_run]
  · have hselect := new_select inv.lower mac vlan ip (fun x =>
      [startMessage now (w.identified mac vlan ip time).idOf time port x]) []
    rw [← hselect]
    simp only [hmac, World.identified]
  · exact fun h => hfield _ (hvlanle h) _ hmacle (by simp)
  · exact fun hi => ⟨hfield _ (hle _ hi) _ hmacle (by simp),
      hfield _ (hle _ hi) _ (hvlanle (.inr hi)) (by simp)⟩

end Identified

/-! ## The index sets -/

/-- What `seen` adds to the set under `key`. -/
def Adds (mac vlan ip : Value) (new : Option Port) (key : String) (v : Value) : Prop :=
  (vlan ≠ .none ∧ key = macVlansPath mac ∧ v = vlan) ∨
    (vlan ≠ .none ∧ ip ≠ .none ∧ key = macVlanIpsPath mac vlan ∧ v = ip) ∨
    v = mac ∧ ∃ p, new = some p ∧ key = portMacsPath p

section Adds

variable (names : Names N P) {mac vlan ip : Value} (hN : objOf mac vlan ip ∈ N) {new : Option Port}
  (hnew : ∀ p, new = some p → Key.portMacs p.localId p.interface ∈ keysOf N P)

include names hN hnew

theorem adds_vlans {m v : Value} (hm : Obj.mac m ∈ N) :
    Adds mac vlan ip new (macVlansPath m) v ↔ .vlan m v ≤ objOf mac vlan ip := by
  have hmac := names.lower (mac_le_objOf mac vlan ip) hN
  rw [Adds, vlan_le_objOf, macVlansPath_inj names hm hmac]
  refine ⟨?_, .inl⟩
  rintro (h | ⟨hv, -, he, -⟩ | ⟨-, p, hp, he⟩)
  · exact h
  · have hvlan := names.lower (vlan_le_objOf.mpr ⟨hv, rfl, rfl⟩) hN
    exact absurd he (vlans_ne_ips names hm hvlan)
  · exact absurd he (vlans_ne_portMacs names (hnew p hp) hm)

theorem adds_ips {m v i : Value} (hv : Obj.vlan m v ∈ N) :
    Adds mac vlan ip new (macVlanIpsPath m v) i ↔ .ip m v i ≤ objOf mac vlan ip := by
  have hmac := names.lower (mac_le_objOf mac vlan ip) hN
  rw [Adds, ip_le_objOf]
  constructor
  · rintro (⟨-, he, -⟩ | ⟨hvn, hin, he, hi⟩ | ⟨-, p, hp, he⟩)
    · exact absurd he.symm (vlans_ne_ips names hmac hv)
    · have hvlan := names.lower (vlan_le_objOf.mpr ⟨hvn, rfl, rfl⟩) hN
      obtain ⟨hm, hv'⟩ := (macVlanIpsPath_inj names hv hvlan).mp he
      exact ⟨hvn, hin, hm, hv', hi⟩
    · exact absurd he (ips_ne_portMacs names (hnew p hp) hv)
  · rintro ⟨hvn, hin, rfl, rfl, hi⟩
    exact .inr (.inl ⟨hvn, hin, rfl, hi⟩)

omit hnew in
theorem adds_portMacs {p : Port} (hp : Key.portMacs p.localId p.interface ∈ keysOf N P)
    {m : Value} : Adds mac vlan ip new (portMacsPath p) m ↔
      m = mac ∧ ∃ q, new = some q ∧ portMacsPath p = portMacsPath q := by
  have hmac := names.lower (mac_le_objOf mac vlan ip) hN
  refine ⟨?_, fun h => .inr (.inr h)⟩
  rintro (⟨-, he, -⟩ | ⟨hv, -, he, -⟩ | h)
  · exact absurd he.symm (vlans_ne_portMacs names hp hmac)
  · have hvlan := names.lower (vlan_le_objOf.mpr ⟨hv, rfl, rfl⟩) hN
    exact absurd he.symm (ips_ne_portMacs names hp hvlan)
  · exact h

end Adds

theorem seenTouch_effect (inv : Invariant N P w) (names : Names N P) (now : ℚ)
    {mac vlan ip : Value} (hN : objOf mac vlan ip ∈ N) {port : Option Port}
    (hport : ∀ p, port = some p → Key.portMacs p.localId p.interface ∈ keysOf N P)
    (oldPort : Option Port) (time : ℚ) :
    Touches N P now mac vlan port oldPort ip time w
      ((seenTouch now mac vlan port oldPort ip time).run handler w).2 := by
  rw [seenTouch_world time inv names.toFields now hN]
  obtain ⟨same, hlast, hsets⟩ := @identified_rest time mac vlan ip w
  have hids := fun x hx => @identified_idOf N P w time mac vlan ip inv names.toFields hN x hx
  have hfrom := @identified_idsFrom w time mac vlan ip inv.lower
  generalize w.identified mac vlan ip time = u at *
  obtain ⟨rlast, rids, rseq, rpub⟩ := recordPort_frame u mac (newPort port oldPort)
  have hnew : ∀ p, newPort port oldPort = some p →
      Key.portMacs p.localId p.interface ∈ keysOf N P := fun p hp => hport p (newPort_eq_some hp)
  have hset : ∀ k v, v ∈ (u.recordPort mac (newPort port oldPort)).sets k ↔
      v ∈ w.sets k ∨ Adds mac vlan ip (newPort port oldPort) k v := by
    intro k v
    rw [recordPort_sets, hsets, touchPipe_sets, Adds]
    simp only [or_assoc]
  have hidOf : (u.recordPort mac (newPort port oldPort)).idOf = u.idOf :=
    funext fun x => congrArg (·.lookup x.field) rids
  refine ⟨?_, fun x hx => ?_, fun f id hid => ?_, rseq.trans same.sequence.symm, fun f => ?_,
    fun m v hm => ?_, fun m v i hv => ?_, fun p hp m => ?_, ?_⟩
  · funext x
    refine Eq.trans ?_ (touchPipe_lastSeen mac vlan ip time w x)
    exact congrArg (·.lookup x) (rlast.trans hlast)
  · rw [say_idOf, hidOf, hids x hx]
  · have := hfrom f id (rids ▸ hid)
    rwa [← rseq] at this
  · refine (recordPort_macPort u mac _ f).trans ?_
    rw [← same.macPort]
  · exact (hset _ v).trans (or_congr_right (adds_vlans names hN hnew hm))
  · exact (hset _ i).trans (or_congr_right (adds_ips names hN hnew hv))
  · exact (hset _ m).trans (or_congr_right (adds_portMacs names hN hp))
  · have hpublished : (u.recordPort mac (newPort port oldPort)).published = w.published :=
      rpub.trans same.published.symm
    simp only [say_idOf, say_published, hidOf, hpublished, List.append_assoc]

theorem Touches.portOf {now time : ℚ} {mac vlan ip : Value} {port oldPort : Option Port}
    {w' : World} (effect : Touches N P now mac vlan port oldPort ip time w w')
    (names : Names N P) (hN : objOf mac vlan ip ∈ N) {m : Value} (hm : Obj.mac m ∈ N) :
    w'.portOf m =
      if m = mac then (newPort port oldPort).or (w.portOf m) else w.portOf m := by
  have hf : m.format = mac.format ↔ m = mac :=
    mac_format_iff names.toFields hm (names.lower (mac_le_objOf mac vlan ip) hN)
  simp only [World.portOf, effect.macPort, hf]

theorem Touches.invariant {now time : ℚ} {mac vlan ip : Value} {port oldPort : Option Port}
    {w' : World} (effect : Touches N P now mac vlan port oldPort ip time w w')
    (inv : Invariant N P w) (names : Names N P) (hN : objOf mac vlan ip ∈ N)
    (hport : ∀ p, port = some p → Key.portMacs p.localId p.interface ∈ keysOf N P) :
    Invariant N P w' where
  ids x hx := by
    have := inv.ids x hx
    rw [mem_support, mem_support] at this ⊢
    rw [effect.seenAt, effect.idOf x hx]
    unfold cover
    split <;> simp_all
  lower := by
    rw [effect.seenAt]
    exact lower_cover inv.lower _ _
  vlans m v hm := by
    rw [effect.vlans m v hm, effect.seenAt, support_cover, inv.vlans m v hm, or_comm]
    rfl
  ips m v i hi := by
    rw [effect.seenAt, support_cover] at hi
    rcases hi with hle | hi
    · have hv : Obj.vlan m v ∈ N := names.lower (le_trans (by simp) hle) hN
      exact (effect.ips m v i hv).mpr (.inr hle)
    · exact (effect.ips m v i (names.vlan (inv.named hi))).mpr (.inl (inv.ips m v i hi))
  port m hm hp := by
    rw [effect.seenAt, support_cover]
    rw [World.portOf, effect.macPort] at hp
    split at hp
    · rename_i hf
      have hmac := names.lower (mac_le_objOf mac vlan ip) hN
      rw [(mac_format_iff names.toFields hm hmac).mp hf]
      exact .inl (mac_le_objOf mac vlan ip)
    · exact .inr (inv.port m hm hp)
  named := by
    rw [effect.seenAt, support_cover]
    exact Set.union_subset (fun x hx => names.lower hx hN) inv.named
  proper x hx := by
    rw [effect.seenAt, support_cover] at hx
    rcases hx with hle | hx
    · exact proper_of_le_objOf hle
    · exact inv.proper x hx
  ipsUnder m v i hv hi := by
    rw [effect.seenAt, support_cover]
    rcases (effect.ips m v i hv).mp hi with hi | hle
    · obtain ⟨hvlan, hip⟩ := inv.ipsUnder m v i hv hi
      exact ⟨.inr hvlan, hip⟩
    · exact ⟨.inl (le_trans (by simp) hle), names.lower hle hN⟩
  portNamed f p hp := by
    rw [effect.macPort] at hp
    split at hp
    · rcases Option.or_eq_some_iff.mp hp with hnew | ⟨-, hold⟩
      · exact hport p (newPort_eq_some hnew)
      · exact inv.portNamed f p hold
    · exact inv.portNamed f p hp
  portMac f p hp := by
    rw [effect.macPort] at hp
    split at hp
    · rename_i hf
      exact ⟨mac, names.lower (mac_le_objOf mac vlan ip) hN, hf.symm⟩
    · exact inv.portMac f p hp
  fieldNamed f id hid := by
    rcases effect.idsFrom f id hid with hold | ⟨-, -, x, hx, he⟩
    · exact inv.fieldNamed f id hold
    · exact ⟨x, names.lower hx hN, he⟩
  idPos f id hid := by
    rcases effect.idsFrom f id hid with hold | ⟨rfl, -⟩
    · exact inv.idPos f id hold
    · exact Nat.succ_pos _
  idLe f id hid := by
    rcases effect.idsFrom f id hid with hold | ⟨rfl, hseq, -⟩
    · have := inv.idLe f id hold
      rw [effect.sequence]
      split <;> omega
    · exact hseq.ge

/-! ## Ending the session on another port -/

/-- The port has changed, so `seen` ends the session of `mac` first. -/
def Moves (w : World) (mac : Value) (port : Option Port) : Bool :=
  match port, w.portOf mac with
  | some port, some old => port.changed old
  | _, _ => false

/-- The port that `seen` goes on with. -/
def World.merge (w : World) (mac : Value) (port : Option Port) : Option Port :=
  port.map fun port =>
    match w.portOf mac with
    | none => port
    | some old => if port.changed old then port else port.completed old

theorem seenPort_run (now : ℚ) (mac : Value) (port : Option Port) (w : World) :
    (seenPort now mac port).run handler w =
      ((w.merge mac port, if port = none then none else w.portOf mac),
        if Moves w mac port then ((endSession now mac .none .none none).run handler w).2
        else w) := by
  cases port with
  | none => rfl
  | some p =>
    change (seenCompare now mac p (w.portOf mac)).run handler w = _
    cases h : w.portOf mac with
    | none => simp [seenCompare, World.merge, Moves, h]
    | some old => cases hc : p.changed old <;> simp [seenCompare, World.merge, Moves, h, hc]

/-- A port that is completed keeps the key of its set, or takes the recorded one. -/
theorem merge_named (ports : ∀ f p, w.macPort.lookup f = some p →
    Key.portMacs p.localId p.interface ∈ keysOf N P) {mac : Value} {port : Option Port}
    (hP : ∀ p ∈ port, p ∈ P) {p : Port} (h : w.merge mac port = some p) :
    Key.portMacs p.localId p.interface ∈ keysOf N P := by
  obtain ⟨q, rfl, hq⟩ := Option.map_eq_some_iff.mp h
  have named : Key.portMacs q.localId q.interface ∈ keysOf N P := ⟨q, hP q rfl, rfl, rfl⟩
  cases hold : w.portOf mac with
  | none =>
    simp only [hold] at hq
    rwa [← hq]
  | some old =>
    simp only [hold] at hq
    split at hq
    · rwa [← hq]
    · rename_i hc
      have hid : q.localId = old.localId := by
        by_contra hne
        exact hc (by simp [Port.changed, hne])
      rw [← hq]
      by_cases hi : old.interface = .none
      · simpa [Port.completed, hi] using named
      · simpa [Port.completed, hi, hid] using ports _ old hold

/-- The effect of `seen`: end the session on another port, then cover the object. -/
theorem seen_effect (inv : Invariant N P w) (names : Names N P) (now : ℚ) {mac vlan ip : Value}
    (hN : objOf mac vlan ip ∈ N) {port : Option Port} (hP : ∀ p ∈ port, p ∈ P)
    (time : Option ℚ) :
    ∃ u, (if Moves w mac port then Ends N P now mac .none .none now w u else u = w) ∧
      Invariant N P u ∧
      Touches N P now mac vlan (w.merge mac port) (if port = none then none else w.portOf mac) ip
        (time.getD now) u ((seen now mac vlan port ip time).run handler w).2 := by
  have hmac : objOf mac .none .none ∈ N := names.lower (mac_le_objOf mac vlan ip) hN
  refine ⟨((seenPort now mac port).run handler w).2, ?_⟩
  have hinv : (if Moves w mac port then
        Ends N P now mac .none .none now w ((seenPort now mac port).run handler w).2
      else ((seenPort now mac port).run handler w).2 = w) ∧
      Invariant N P ((seenPort now mac port).run handler w).2 := by
    rw [seenPort_run]
    by_cases hm : Moves w mac port
    · have ends := ends_effect inv names now (.inl rfl) hmac none
      simp only [hm, if_true]
      exact ⟨ends, ends.invariant inv names hmac⟩
    · simp only [hm]
      exact ⟨rfl, inv⟩
  refine ⟨hinv.1, hinv.2, ?_⟩
  have named : ∀ p, w.merge mac port = some p → Key.portMacs p.localId p.interface ∈ keysOf N P :=
    fun p hp => merge_named inv.portNamed hP hp
  have touch := seenTouch_effect hinv.2 names now hN named
    (if port = none then none else w.portOf mac) (time.getD now)
  simp only [seen, Prog.run_bind]
  rw [seenPort_run] at touch ⊢
  exact touch

end ElanAgent.Session
