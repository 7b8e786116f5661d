import ElanAgent.Session.Consumer
import ElanAgent.Session.Pending

/-!
# The parents' ids in messages of concurrent calls

When calls only mark devices as seen, and none finds its device on another port,
nothing that is stored under `SESSION_IDS` ever changes. So an id that a message
carries for a parent session is final, or it is null because the call that created
the parent had not stored it yet. `Telling` keeps this along every interleaving, next
to what `Pending` says of the store.
-/

namespace ElanAgent.Session

open Atomic Redis Hierarchy

variable {N : Set Obj} {n : Nat}

/-! ## Calls that stay on their port -/

/-- The call marks `mac` as seen on `port`. -/
def Call.SeesOn (c : Call) (mac : Value) (port : Port) : Prop :=
  ∃ now vlan ip time, c = .seen now mac vlan (some port) ip time

/-- None of the calls would find that `mac` has moved from `port`. -/
def Stays (calls : List Call) (mac : Value) (port : Port) : Prop :=
  ∀ c ∈ calls, ∀ new, c.SeesOn mac new → new.changed port = false

/-- The calls mark devices as seen, on ports that differ neither from each other's nor from
the recorded ones. -/
structure NoPortChange (w : World) (calls : List Call) : Prop where
  seen : ∀ c ∈ calls, ∃ now mac vlan port ip time, c = .seen now mac vlan port ip time
  recorded : ∀ mac old, w.portOf mac = some old → Stays calls mac old
  given : ∀ c ∈ calls, ∀ mac port, c.SeesOn mac port → Stays calls mac port

theorem changed_completed {port new old : Port} (h : new.changed port = false)
    (hold : new.changed old = false) : new.changed (port.completed old) = false := by
  simp only [Port.changed, Port.completed, Port.getSsid, Bool.or_eq_false_iff, bne_eq_false_iff_eq,
    Bool.and_eq_false_iff] at h hold ⊢
  obtain ⟨⟨hid, hif⟩, hssid⟩ := h
  obtain ⟨⟨-, hif'⟩, hssid'⟩ := hold
  refine ⟨⟨hid, ?_⟩, ?_⟩
  · split <;> assumption
  · by_cases ho : old.ssid.getD .none = .none <;> simp_all

/-! ## Messages -/

/-- Each id that the message carries for a parent session is null or the stored one. -/
def Message.Final (w : World) (msg : Message) : Prop :=
  ∀ x ∈ msg.obj.parents, msg.carried x = none ∨ msg.carried x = w.idOf x

/-- The message carries the stored id of every parent session. -/
def Message.Complete (w : World) (msg : Message) : Prop :=
  ∀ x ∈ msg.obj.parents, msg.carried x ≠ none ∧ msg.carried x = w.idOf x

/-- Every message published since `start` is as described. -/
def Since (start w : World) (ok : Message → Prop) : Prop :=
  ∃ msgs, w.published = start.published ++ msgs ∧ ∀ msg ∈ msgs, ok msg

/-- The message is final, and its parents' ids are not null if `strict`. -/
def Told (strict : Prop) (w : World) (msg : Message) : Prop :=
  ∀ x ∈ msg.obj.parents,
    (msg.carried x = none ∨ msg.carried x = w.idOf x) ∧ (strict → msg.carried x ≠ none)

/-- No object is forgotten and no id changes. -/
structure Grows (w w' : World) : Prop where
  seenAt : ∀ x, w.seenAt x ≠ none → w'.seenAt x ≠ none
  idOf : ∀ f id, w.sessionIds.lookup f = some id → w'.sessionIds.lookup f = some id

theorem Told.grow {strict : Prop} {w w' : World} {msg : Message} (h : Told strict w msg)
    (grows : Grows w w') : Told strict w' msg := by
  refine fun x hx => ⟨?_, (h x hx).2⟩
  rcases (h x hx).1 with hnone | hid
  · exact .inl hnone
  · cases hc : msg.carried x with
    | none => exact .inl rfl
    | some id => exact .inr (grows.idOf _ _ (hid.symm.trans hc)).symm

theorem Grows.of_eq {w w' : World} (hseen : w'.lastSeen = w.lastSeen)
    (hids : w'.sessionIds = w.sessionIds) : Grows w w' where
  seenAt x h := by rwa [World.seenAt, hseen]
  idOf f id h := by rwa [hids]

/-! ## What a call that marks a device as seen has left to run -/

/-- The commands that record a port. -/
def recordPipe (mac : Value) (port : Port) : List Cmd :=
  [.hsetPort mac port, .hsetLastPort mac port, .sadd (portMacsPath port) mac]

/-- The operations that follow the ids: record the port, and publish. -/
def Tells (N : Set Obj) (calls : List Call) (strict : Prop) (w : World) : Op → Prop
  | .publish msg => Told strict w msg
  | .execute pipe => ∃ mac port, Obj.mac mac ∈ N ∧ Stays calls mac port ∧ pipe = recordPipe mac port
  | _ => False

/-- The flags are of objects that the call covers, all of which are present. -/
structure Flagged (w : World) (mac vlan ip : Value) (vlanAdded ipAdded : Bool) : Prop where
  vlanLe : vlanAdded → Obj.vlan mac vlan ≤ objOf mac vlan ip
  ipLe : ipAdded → Obj.ip mac vlan ip ≤ objOf mac vlan ip
  present : ∀ x ≤ objOf mac vlan ip, w.seenAt x ≠ none

theorem Flagged.grow {w w' : World} {mac vlan ip : Value} {vlanAdded ipAdded : Bool}
    (h : Flagged w mac vlan ip vlanAdded ipAdded) (grows : Grows w w') :
    Flagged w' mac vlan ip vlanAdded ipAdded where
  vlanLe := h.vlanLe
  ipLe := h.ipLe
  present x hx := grows.seenAt x (h.present x hx)

/-- What a call that marks a device as seen can have left to run. -/
inductive SeenStage (N : Set Obj) (calls : List Call) (strict : Prop) (w : World) :
    Prog synapse Unit → Prop where
  | start {now mac vlan port ip time next} : objOf mac vlan ip ∈ N →
      (∃ c ∈ calls, c.SeesOn mac port) →
      (∀ old : Option Port, next old = finish (seenCompare now mac port old >>= fun r =>
        seenTouch now mac vlan r.1 r.2 ip time)) →
      SeenStage N calls strict w (.op (.macPort mac) next)
  | touch {now mac vlan port oldPort ip time next} : objOf mac vlan ip ∈ N →
      (∀ p ∈ port, Stays calls mac p) →
      (∀ results : List Reply, next results = finish (seenAllocate now mac vlan port oldPort ip
        time (results.getD 0 default).truthy (resultFlag results 1) (resultFlag results 3))) →
      SeenStage N calls strict w (.op (.execute (touchPipe mac vlan ip time)) next)
  | allocate {now mac vlan port oldPort ip time macAdded vlanAdded ipAdded next} :
      objOf mac vlan ip ∈ N → (∀ p ∈ port, Stays calls mac p) →
      Flagged w mac vlan ip vlanAdded ipAdded →
      (∀ localId : Nat, next localId = finish (seenStore now mac vlan port oldPort ip time
        macAdded vlanAdded ipAdded localId)) →
      SeenStage N calls strict w (.op .getUniqueId next)
  | store {now mac vlan port oldPort ip time macAdded vlanAdded ipAdded localId next} :
      objOf mac vlan ip ∈ N → (∀ p ∈ port, Stays calls mac p) →
      Flagged w mac vlan ip vlanAdded ipAdded →
      (∀ results : List Reply, next results = afterStore now mac vlan port oldPort ip time
        macAdded vlanAdded ipAdded localId results) →
      SeenStage N calls strict w
        (.op (.execute (idsPipe mac vlan ip macAdded vlanAdded ipAdded localId)) next)
  | tail {p} : p.Only (Tells N calls strict w) → SeenStage N calls strict w p

theorem SeenStage.grow {calls : List Call} {strict : Prop} {w w' : World} {p : Prog synapse Unit}
    (h : SeenStage N calls strict w p) (grows : Grows w w') : SeenStage N calls strict w' p := by
  cases h with
  | start hN hsees rest => exact .start hN hsees rest
  | touch hN hport rest => exact .touch hN hport rest
  | allocate hN hport h rest => exact .allocate hN hport (h.grow grows) rest
  | store hN hport h rest => exact .store hN hport (h.grow grows) rest
  | tail h =>
    refine .tail (h.imp fun o ho => ?_)
    cases o with
    | publish msg => exact ho.grow grows
    | _ => exact ho

variable {calls : List Call} {strict : Prop} {w : World}

theorem not_stores_touchPipe {mac vlan ip : Value} {time : ℚ}
    {next : List Reply → Prog synapse Unit} (f : String) :
    ¬ Stores f (.op (.execute (touchPipe mac vlan ip time)) next) := by
  rintro ⟨id, hid⟩
  unfold touchPipe at hid
  split_ifs at hid <;> simp at hid

theorem not_stores_recordPipe {mac : Value} {port : Port} {next : List Reply → Prog synapse Unit}
    (f : String) : ¬ Stores f (.op (.execute (recordPipe mac port)) next) := by
  simp [Stores, recordPipe]

theorem not_stores_of_only {p : Prog synapse Unit}
    (h : p.Only (Tells N calls strict w)) (f : String) : ¬ Stores f p := by
  cases h with
  | done => exact id
  | @op o next ho _ =>
    cases o with
    | execute pipe =>
      obtain ⟨mac, port, -, -, rfl⟩ := ho
      exact not_stores_recordPipe f
    | publish => exact id
    | _ => exact ho.elim

/-! ## After the ids -/

theorem only_publish {msg : Message} {p : Prog synapse Unit} (h : Told strict w msg)
    (hp : p.Only (Tells N calls strict w)) :
    (publish msg >>= fun _ => p).Only (Tells N calls strict w) :=
  .op h fun _ => hp

theorem only_seenRecord {mac : Value} (hN : Obj.mac mac ∈ N) {port : Option Port}
    (hport : ∀ p ∈ port, Stays calls mac p) (oldPort : Option Port) (macAdded : Bool)
    (macLocalId : Option Nat) {p : Prog synapse Unit} (hp : p.Only (Tells N calls strict w)) :
    (seenRecord mac port oldPort macAdded macLocalId >>= fun _ => p).Only
      (Tells N calls strict w) := by
  cases port with
  | none => exact hp
  | some new =>
    have record : ∀ {q : Prog synapse Unit}, q.Only (Tells N calls strict w) →
        (pipeExecute (recordPipe mac new) >>= fun _ => q).Only (Tells N calls strict w) :=
      fun hq => .op ⟨mac, new, hN, hport new rfl, rfl⟩ fun _ => hq
    simp only [seenRecord]
    split_ifs
    · simp only [Prog.bind_assoc]
      refine record (only_publish ?_ hp)
      simp [Told, Message.obj, Obj.parents]
    · simp only [Prog.bind_assoc]
      exact record hp
    · exact hp

/-- An id that may be carried for the session of `x`. -/
def Carries (strict : Prop) (w : World) (x : Obj) (id : Option Nat) : Prop :=
  (id = none ∨ id = w.idOf x) ∧ (strict → id ≠ none)

theorem only_seenNotify (now : ℚ) {mac vlan : Value} (port : Option Port) (ip : Value) (time : ℚ)
    (macAdded : Bool) {vlanAdded ipAdded : Bool} (localId : Nat)
    {macLocalId vlanLocalId : Option Nat}
    (hmac : vlanAdded ∨ ipAdded → Carries strict w (.mac mac) macLocalId)
    (hvlan : ipAdded → Carries strict w (.vlan mac vlan) vlanLocalId) :
    (seenNotify now mac vlan port ip time macAdded vlanAdded ipAdded localId macLocalId
      vlanLocalId >>= fun _ => .done ()).Only (Tells N calls strict w) := by
  unfold seenNotify
  split_ifs with hi hv
  · refine only_publish ?_ (.done ())
    have both := And.intro (hmac (.inr hi)) (hvlan hi)
    simpa [Told, Message.obj, Obj.parents, Message.carried, Carries] using both
  · refine only_publish ?_ (.done ())
    simpa [Told, Message.obj, Obj.parents, Message.carried, Carries] using hmac (.inl hv)
  · refine only_publish ?_ (.done ())
    simp [Told, Message.obj, Obj.parents]
  · exact .done ()

/-! ## The pipeline of the ids -/

section Ids

variable {mac vlan ip : Value} {macAdded vlanAdded ipAdded : Bool}

/-- The fields of distinct objects differ, so an id is stored for exactly the new ones. -/
theorem Flagged.iff (fields : Fields N) (hN : objOf mac vlan ip ∈ N)
    (flagged : Flagged w mac vlan ip vlanAdded ipAdded) {x : Obj} (hx : x ≤ objOf mac vlan ip) :
    Flags mac vlan ip macAdded vlanAdded ipAdded x.field ↔
      (macAdded ∧ x = .mac mac) ∨ (vlanAdded ∧ x = .vlan mac vlan) ∨
        (ipAdded ∧ x = .ip mac vlan ip) := by
  have field : ∀ {y}, y ≤ objOf mac vlan ip → (x.field = y.field ↔ x = y) := fun hy =>
    (fields.field.eq_iff (fields.lower hx hN) (fields.lower hy hN))
  have hmac := field (mac_le_objOf mac vlan ip)
  have hvlan : vlanAdded → (x.field = (Obj.vlan mac vlan).field ↔ x = .vlan mac vlan) :=
    fun h => field (flagged.vlanLe h)
  have hip : ipAdded → (x.field = (Obj.ip mac vlan ip).field ↔ x = .ip mac vlan ip) :=
    fun h => field (flagged.ipLe h)
  rw [Flags, hmac, and_congr_right hvlan, and_congr_right hip]

theorem idsPipe_idOf (fields : Fields N) (hN : objOf mac vlan ip ∈ N)
    (flagged : Flagged w mac vlan ip vlanAdded ipAdded) (localId : Nat) {x : Obj}
    (hx : x ≤ objOf mac vlan ip) :
    (execute (idsPipe mac vlan ip macAdded vlanAdded ipAdded localId) w).2.idOf x =
      if (macAdded ∧ x = .mac mac) ∨ (vlanAdded ∧ x = .vlan mac vlan) ∨
        (ipAdded ∧ x = .ip mac vlan ip) then some localId else w.idOf x := by
  rw [World.idOf, idsPipe_sessionIds]
  exact if_congr (flagged.iff fields hN hx) rfl rfl

/-- The ids that the pipeline reads are there if they need to be. -/
structure Stored (strict : Prop) (w : World) (mac vlan : Value)
    (macAdded vlanAdded ipAdded : Bool) : Prop where
  macId : strict → ¬ macAdded → w.idOf (.mac mac) ≠ none
  vlanId : strict → ipAdded → ¬ vlanAdded → w.idOf (.vlan mac vlan) ≠ none

theorem only_afterStore (fields : Fields N) (now : ℚ) (hN : objOf mac vlan ip ∈ N)
    {port : Option Port} (hport : ∀ p ∈ port, Stays calls mac p) (oldPort : Option Port)
    (time : ℚ) (localId : Nat) (flagged : Flagged w mac vlan ip vlanAdded ipAdded)
    (stored : Stored strict w mac vlan macAdded vlanAdded ipAdded) :
    (afterStore now mac vlan port oldPort ip time macAdded vlanAdded ipAdded localId
      (execute (idsPipe mac vlan ip macAdded vlanAdded ipAdded localId) w).1).Only (Tells N calls
        strict (execute (idsPipe mac vlan ip macAdded vlanAdded ipAdded localId) w).2) := by
  obtain ⟨hmac, hvlan⟩ := @idsPipe_replies mac vlan ip macAdded vlanAdded ipAdded localId w
  have macN : Obj.mac mac ∈ N := fields.lower (mac_le_objOf mac vlan ip) hN
  refine only_seenRecord macN hport oldPort macAdded _
    (only_seenNotify now port ip time macAdded localId (fun _ => ?_) fun hi => ?_)
  · rw [hmac]
    refine ⟨.inr ?_, fun hs => ?_⟩
    · rw [idsPipe_idOf fields hN flagged localId (mac_le_objOf mac vlan ip)]
      simp
    · split
      · exact Option.some_ne_none _
      · exact stored.macId hs ‹_›
  · have hle : Obj.vlan mac vlan ≤ objOf mac vlan ip :=
      le_trans (by simp) (flagged.ipLe hi)
    have hne : (Obj.vlan mac vlan).field ≠ (Obj.mac mac).field := fun he => by
      cases fields.field (fields.lower hle hN) macN he
    rw [hvlan hne]
    refine ⟨.inr ?_, fun hs => ?_⟩
    · rw [idsPipe_idOf fields hN flagged localId hle]
      simp
    · split
      · exact Option.some_ne_none _
      · exact stored.vlanId hs hi ‹_›

end Ids

/-! ## Every interleaving -/

/-- No pipeline of thread `i` reads an id that another thread has still to store. -/
def ReadsStored (c : Config synapse World Unit (Fin n)) (i : Fin n) : Prop :=
  ∀ pipe next, c.threads i = .op (.execute pipe) next → ∀ f, .hget f ∈ pipe →
    ∀ j, j ≠ i → ¬ Stores f (c.threads j)

/-- What interleavings of calls that stay on their ports keep. -/
structure Telling (N : Set Obj) (calls : List Call) (strict : Prop)
    (start : World) (c : Config synapse World Unit (Fin n)) : Prop where
  pending : Pending N c
  stage : ∀ i, SeenStage N calls strict c.state (c.threads i)
  recorded : ∀ mac old, Obj.mac mac ∈ N → c.state.portOf mac = some old → Stays calls mac old
  told : Since start c.state (Told strict c.state)

section Steps

variable {start : World} {c : Config synapse World Unit (Fin n)} {i : Fin n}

theorem Telling.move (ht : Telling N calls strict start c) {w : World} {p : Prog synapse Unit}
    (pending : Pending N ⟨w, Function.update c.threads i p⟩) (grows : Grows c.state w)
    (stage : SeenStage N calls strict w p)
    (recorded : ∀ mac old, Obj.mac mac ∈ N → w.portOf mac = some old → Stays calls mac old)
    (told : Since c.state w (Told strict w)) :
    Telling N calls strict start ⟨w, Function.update c.threads i p⟩ where
  pending := pending
  stage := by
    intro j
    rcases eq_or_ne j i with rfl | hj
    · simpa using stage
    · simpa [hj] using (ht.stage j).grow grows
  recorded := recorded
  told := by
    obtain ⟨before, hbefore, toldBefore⟩ := ht.told
    obtain ⟨msgs, hmsgs, told⟩ := told
    refine ⟨before ++ msgs, by rw [hmsgs, hbefore, List.append_assoc], fun msg hmsg => ?_⟩
    rcases List.mem_append.mp hmsg with h | h
    · exact (toldBefore msg h).grow grows
    · exact told msg h

/-- The same, when no port is recorded and no message published. -/
theorem Telling.move_same (ht : Telling N calls strict start c) {w : World}
    {p : Prog synapse Unit} (pending : Pending N ⟨w, Function.update c.threads i p⟩)
    (grows : Grows c.state w) (stage : SeenStage N calls strict w p)
    (ports : w.macPort = c.state.macPort) (published : w.published = c.state.published) :
    Telling N calls strict start ⟨w, Function.update c.threads i p⟩ :=
  ht.move pending grows stage
    (fun mac old hN hold => ht.recorded mac old hN (by rwa [World.portOf, ← ports]))
    ⟨[], by simp [published], by simp⟩

theorem stays_completed {calls : List Call} {mac : Value} {port old : Port}
    (hport : Stays calls mac port) (hold : Stays calls mac old) :
    Stays calls mac (port.completed old) := fun c hc new hsees =>
  changed_completed (hport c hc new hsees) (hold c hc new hsees)

/-- The recorded port is compared, and nothing ends. -/
theorem finish_seenCompare (now : ℚ) (mac vlan ip : Value) {port : Port}
    (hsees : ∃ c ∈ calls, c.SeesOn mac port) (hport : Stays calls mac port)
    {old : Option Port} (hold : ∀ p ∈ old, Stays calls mac p) (time : ℚ) :
    ∃ merged : Option Port, (∀ p ∈ merged, Stays calls mac p) ∧
      finish (seenCompare now mac port old >>= fun r => seenTouch now mac vlan r.1 r.2 ip time) =
        finish (seenTouch now mac vlan merged old ip time) := by
  cases old with
  | none => exact ⟨some port, fun p hp => by rwa [← Option.some.inj hp], rfl⟩
  | some old =>
    obtain ⟨c, hc, hsees⟩ := hsees
    have hstays := hold old rfl
    have hchanged : port.changed old = false := hstays c hc port hsees
    refine ⟨some (port.completed old), fun p hp => ?_, by simp [seenCompare, hchanged]⟩
    rw [← Option.some.inj hp]
    exact stays_completed hport hstays

/-- What follows the pipeline that marks the objects as seen. -/
theorem seenStage_allocate (now : ℚ) {mac vlan ip : Value} (hN : objOf mac vlan ip ∈ N)
    {port : Option Port} (hport : ∀ p ∈ port, Stays calls mac p) (oldPort : Option Port) (time : ℚ)
    {macAdded vlanAdded ipAdded : Bool} (flagged : Flagged w mac vlan ip vlanAdded ipAdded) :
    SeenStage N calls strict w
      (finish (seenAllocate now mac vlan port oldPort ip time macAdded vlanAdded ipAdded)) := by
  unfold seenAllocate
  split_ifs
  · exact .allocate hN hport flagged fun _ => rfl
  · rw [finish_seenStore]
    exact .store hN hport flagged fun _ => rfl

section Store

variable {mac vlan ip : Value} {macAdded vlanAdded ipAdded : Bool} {localId : Nat}
  {next : List Reply → Prog synapse Unit}

/-- An id that is stored was missing before. -/
theorem grows_idsPipe (hc : Pending N c) (fields : Fields N)
    (hi : c.threads i =
      .op (.execute (idsPipe mac vlan ip macAdded vlanAdded ipAdded localId)) next)
    (hN : objOf mac vlan ip ∈ N) (flagged : Flagged c.state mac vlan ip vlanAdded ipAdded) :
    Grows c.state
      (execute (idsPipe mac vlan ip macAdded vlanAdded ipAdded localId) c.state).2 := by
  obtain ⟨-, hlast, -⟩ := idsPipe_rest mac vlan ip macAdded vlanAdded ipAdded localId c.state
  have covered : ∀ f, Flags mac vlan ip macAdded vlanAdded ipAdded f →
      ∃ x ≤ objOf mac vlan ip, x.field = f := by
    rintro f (⟨-, rfl⟩ | ⟨h, rfl⟩ | ⟨h, rfl⟩)
    · exact ⟨_, mac_le_objOf mac vlan ip, rfl⟩
    · exact ⟨_, flagged.vlanLe h, rfl⟩
    · exact ⟨_, flagged.ipLe h, rfl⟩
  refine ⟨fun x hx => by rwa [World.seenAt, hlast], fun f id hid => ?_⟩
  rw [idsPipe_sessionIds, if_neg fun flags => ?_]
  · exact hid
  · obtain ⟨x, hx, rfl⟩ := covered f flags
    refine hc.missing i x (fields.lower hx hN) ((stores_idsPipe hi _).mpr flags) ?_
    rw [mem_support, World.idOf, hid]
    exact Option.some_ne_none id

/-- An object that is present has its id, unless a call is still to store it. -/
theorem stored_of_readsStored (hc : Pending N c) (fields : Fields N)
    (guard : strict → ReadsStored c i)
    (hi : c.threads i =
      .op (.execute (idsPipe mac vlan ip macAdded vlanAdded ipAdded localId)) next)
    (hN : objOf mac vlan ip ∈ N) (flagged : Flagged c.state mac vlan ip vlanAdded ipAdded) :
    Stored strict c.state mac vlan macAdded vlanAdded ipAdded := by
  have stored : ∀ x ≤ objOf mac vlan ip, strict →
      .hget x.field ∈ idsPipe mac vlan ip macAdded vlanAdded ipAdded localId →
      ¬ Flags mac vlan ip macAdded vlanAdded ipAdded x.field → c.state.idOf x ≠ none := by
    intro x hx hs hget hflags
    rcases (hc.ids x (fields.lower hx hN)).mp (flagged.present x hx) with hid | ⟨j, hj⟩
    · exact hid
    · rcases eq_or_ne j i with rfl | hne
      · exact (hflags ((stores_idsPipe hi _).mp hj)).elim
      · exact (guard hs _ _ hi _ hget j hne hj).elim
  refine ⟨fun hs hm => ?_, fun hs hip hv => ?_⟩
  · have hle := mac_le_objOf mac vlan ip
    refine stored _ hle hs (hget_mem_idsPipe.mpr (.inl ⟨hm, rfl⟩)) fun h => ?_
    simpa [hm] using (flagged.iff fields hN hle).mp h
  · have hle : Obj.vlan mac vlan ≤ objOf mac vlan ip := le_trans (by simp) (flagged.ipLe hip)
    refine stored _ hle hs (hget_mem_idsPipe.mpr (.inr ⟨hv, rfl⟩)) fun h => ?_
    simpa [hv] using (flagged.iff fields hN hle).mp h

end Store

/-- Marking objects as seen makes all of them present. -/
theorem grows_touchPipe (mac vlan ip : Value) (time : ℚ) (w : World) :
    Grows w (execute (touchPipe mac vlan ip time) w).2 ∧
    Flagged (execute (touchPipe mac vlan ip time) w).2 mac vlan ip
      (w.isNew mac vlan ip (.vlan mac vlan)) (w.isNew mac vlan ip (.ip mac vlan ip)) := by
  have seenAt : ∀ x, (execute (touchPipe mac vlan ip time) w).2.seenAt x =
      if x ≤ objOf mac vlan ip then some time else w.seenAt x :=
    touchPipe_lastSeen mac vlan ip time w
  refine ⟨⟨fun x hx => ?_, fun f id hid => ?_⟩, fun h => (of_decide_eq_true h).1,
    fun h => (of_decide_eq_true h).1, fun x hx => ?_⟩
  · rw [seenAt]
    split
    · exact Option.some_ne_none time
    · exact hx
  · rwa [(touchPipe_rest mac vlan ip time w).2]
  · rw [seenAt, if_pos hx]
    exact Option.some_ne_none time

/-- A message is published, or a port recorded. -/
theorem Telling.tail (fields : Fields N) {s : World} {t : Fin n → Prog synapse Unit} {o : Op}
    {next : o.Reply → Prog synapse Unit} (ht : Telling N calls strict start ⟨s, t⟩)
    (hi : t i = .op o next) (only : (t i).Only (Tells N calls strict s)) :
    Telling N calls strict start
      ⟨(handler o s).2, Function.update t i (next (handler o s).1)⟩ := by
  have idle : ∀ f, ¬ Stores f (t i) := not_stores_of_only only
  have quiet : ∀ {u : World} {p : Prog synapse Unit}, u.seenAt = s.seenAt → u.idOf = s.idOf →
      p.Only (Tells N calls strict s) → Pending N ⟨u, Function.update t i p⟩ :=
    fun hseen hid hp => ht.pending.move_same hseen hid fun f =>
      iff_of_false (not_stores_of_only hp f) (idle f)
  rw [hi] at only
  cases only with
  | op ho rest =>
    cases o with
    | publish msg =>
      have grows : Grows s (s.say [msg]) := .of_eq rfl rfl
      refine ht.move (quiet rfl rfl (rest _)) grows ((SeenStage.tail (rest _)).grow grows)
        ht.recorded ⟨[msg], rfl, fun m hm => ?_⟩
      rw [List.mem_singleton.mp hm]
      exact ho.grow grows
    | execute pipe =>
      obtain ⟨mac, port, hN, hport, rfl⟩ := ho
      have grows : Grows s (execute (recordPipe mac port) s).2 := .of_eq rfl rfl
      refine ht.move (quiet rfl rfl (rest _)) grows ((SeenStage.tail (rest _)).grow grows)
        (fun m old hm hold => ?_) ⟨[], by rw [List.append_nil]; rfl, by simp⟩
      have hlookup : (execute (recordPipe mac port) s).2.portOf m =
          if m.format = mac.format then some port else s.portOf m :=
        lookup_insert_ite ..
      rw [handler, hlookup] at hold
      split at hold
      · rw [(mac_format_iff fields hm hN).mp ‹_›, ← Option.some.inj hold]
        exact hport
      · exact ht.recorded m old hm hold
    | _ => exact ho.elim

theorem Telling.step (fields : Fields N)
    (given : ∀ c ∈ calls, ∀ mac port, c.SeesOn mac port → Stays calls mac port)
    {d : Config synapse World Unit (Fin n)} (ht : Telling N calls strict start c)
    (guard : strict → ReadsStored c i) (step : Step handler c i d) :
    Telling N calls strict start d := by
  cases step with
  | @mk s t i o next hi =>
    have stage : SeenStage N calls strict s (.op o next) := hi ▸ ht.stage i
    cases stage with
    | @start now mac vlan port ip time _ hN hsees rest =>
      obtain ⟨call, hcall, hsees'⟩ := hsees
      have macN : Obj.mac mac ∈ N := fields.lower (mac_le_objOf mac vlan ip) hN
      obtain ⟨merged, hmerged, hcompare⟩ := finish_seenCompare now mac vlan ip
        ⟨call, hcall, hsees'⟩ (given call hcall mac port hsees')
        (fun old hold => ht.recorded mac old macN hold) time
      have hnext := (rest (s.macPort.lookup mac.format)).trans hcompare
      have idle : ∀ f, ¬ Stores f (t i) := hi ▸ fun f => id
      rw [handler, hnext]
      exact ht.move_same (ht.pending.move_same rfl rfl fun f =>
        iff_of_false (not_stores_touchPipe f) (idle f)) (.of_eq rfl rfl)
        (.touch hN hmerged fun _ => rfl) rfl rfl
    | @touch now mac vlan port oldPort ip time next hN hport rest =>
      obtain ⟨grows, flagged⟩ := grows_touchPipe mac vlan ip time s
      obtain ⟨h0, h1, h3⟩ := touchPipe_replies mac vlan ip time s
      obtain ⟨same, -⟩ := touchPipe_rest mac vlan ip time s
      have hnext := rest (execute (touchPipe mac vlan ip time) s).1
      rw [h0, h1, h3] at hnext
      have idle : ∀ f, ¬ Stores f (t i) := hi ▸ not_stores_touchPipe
      rw [handler, hnext]
      exact ht.move_same (ht.pending.touch fields idle now hN port oldPort time) grows
        (seenStage_allocate now hN hport oldPort time flagged)
        same.macPort same.published
    | @allocate now mac vlan port oldPort ip time macAdded vlanAdded ipAdded next hN hport
        flagged rest =>
      have stores : ∀ localId f, Stores f (next localId) ↔
          Flags mac vlan ip macAdded vlanAdded ipAdded f := fun localId f => by
        simp [rest, finish_seenStore, Stores, hset_mem_idsPipe]
      refine ht.move_same (ht.pending.allocate hi stores _) (.of_eq rfl rfl) ?_ rfl rfl
      rw [rest, finish_seenStore]
      exact .store hN hport (flagged.grow (.of_eq rfl rfl)) fun _ => rfl
    | @store now mac vlan port oldPort ip time macAdded vlanAdded ipAdded localId _ hN hport
        flagged rest =>
      have grows := grows_idsPipe ht.pending fields hi hN flagged
      have stored := stored_of_readsStored ht.pending fields guard hi hN flagged
      obtain ⟨same, -, -⟩ := idsPipe_rest mac vlan ip macAdded vlanAdded ipAdded localId s
      have only := only_afterStore fields now hN hport oldPort time localId flagged stored
      rw [handler, rest]
      exact ht.move_same (ht.pending.idsPipe hi (not_stores_of_only only)) grows (.tail only)
        same.macPort same.published
    | tail only => exact ht.tail fields hi (hi ▸ only)

end Steps

/-- The program of a call that marks a device as seen. -/
theorem seenStage_prog {start : World} (stays : NoPortChange start calls) {c : Call}
    (hc : c ∈ calls) (hN : c.obj ∈ N) :
    SeenStage N calls strict w c.prog ∧ ∀ f, ¬ Stores f c.prog := by
  obtain ⟨now, mac, vlan, port, ip, time, rfl⟩ := stays.seen c hc
  cases port with
  | none => exact ⟨.touch hN (by simp) fun _ => rfl, not_stores_touchPipe⟩
  | some port =>
    have hsees : ∃ c ∈ calls, c.SeesOn mac port := ⟨_, hc, now, vlan, ip, time, rfl⟩
    exact ⟨@SeenStage.start N calls strict w now mac vlan port ip (time.getD now) _ hN hsees
      fun _ => rfl, fun f => id⟩

variable {start : World}

theorem telling_pool (stays : NoPortChange start calls)
    (identified : ∀ x ∈ N, x ∈ support start.seenAt ↔ x ∈ support start.idOf)
    (h : ∀ c ∈ calls, c.obj ∈ N) : Telling N calls strict start (pool start calls) := by
  have stage : ∀ i, SeenStage N calls strict start ((pool start calls).threads i) ∧
      ∀ f, ¬ Stores f ((pool start calls).threads i) := fun i =>
    seenStage_prog stays (List.get_mem calls i) (h _ (List.get_mem calls i))
  exact ⟨pending_pool identified fun i => (stage i).2, fun i => (stage i).1,
    fun mac old _ => stays.recorded mac old, ⟨[], by simp [pool], by simp⟩⟩

theorem told_run (fields : Fields N) (stays : NoPortChange start calls)
    (identified : ∀ x ∈ N, x ∈ support start.seenAt ↔ x ∈ support start.idOf)
    (h : ∀ c ∈ calls, c.obj ∈ N) (strict : Prop) {G : Config synapse World Unit (Fin calls.length) →
      Fin calls.length → Prop} (guard : ∀ c i, G c i → strict → ReadsStored c i)
    {c : Config synapse World Unit (Fin calls.length)} (run : Run handler G (pool start calls) c) :
    Since start c.state (Told strict c.state) := by
  have telling : Telling N calls strict start c :=
    run.invariant (fun d i _ hd hG step => hd.step fields stays.given (guard d i hG) step)
      (telling_pool stays identified h)
  exact telling.told

/-- Calls that run concurrently and stay on their ports, on a store whose present objects are
those with an id: the ids of parents in their messages are final or null in every interleaving,
and not null in those where no call reads an id before it is stored. -/
theorem parentIds_final (fields : Fields N) (stays : NoPortChange start calls)
    (identified : ∀ x ∈ N, x ∈ support start.seenAt ↔ x ∈ support start.idOf)
    (h : ∀ c ∈ calls, c.obj ∈ N) :
    (∀ c, Run handler (fun _ _ => True) (pool start calls) c →
      Since start c.state (Message.Final c.state)) ∧
    ∀ c, Run handler ReadsStored (pool start calls) c →
      Since start c.state (Message.Complete c.state) := by
  refine ⟨fun c run => ?_, fun c run => ?_⟩
  · obtain ⟨msgs, hmsgs, told⟩ :=
      told_run fields stays identified h False (fun _ _ _ h => h.elim) run
    exact ⟨msgs, hmsgs, fun msg hmsg x hx => (told msg hmsg x hx).1⟩
  · obtain ⟨msgs, hmsgs, told⟩ :=
      told_run fields stays identified h True (fun _ _ hG _ => hG) run
    refine ⟨msgs, hmsgs, fun msg hmsg x hx => ?_⟩
    obtain ⟨hid, hne⟩ := told msg hmsg x hx
    exact ⟨hne trivial, hid.resolve_left (hne trivial)⟩

/-- A device seen twice at once, on a port whose interface one of the calls does not know. -/
def twiceCalls : List Call :=
  [.seen 100 "00:11" "eth0" (some ⟨"sw1", "g1", none, ∅⟩) "10.0.0.2" none,
    .seen 101 "00:11" "eth0" (some ⟨"sw1", .none, none, ∅⟩) .none none]

def twice : List (Fin twiceCalls.length) :=
  show List (Fin 2) from [0, 1, 0, 1, 0, 0, 1, 0, 1, 0, 1]

theorem twice_stays : NoPortChange .empty twiceCalls := by
  refine ⟨?_, ?_, ?_⟩
  · simp [twiceCalls]
  · intro mac old h
    cases h
  · rintro c hc mac port ⟨now, vlan, ip, time, rfl⟩ d hd new ⟨now', vlan', ip', time', rfl⟩
    simp only [twiceCalls, List.mem_cons, List.not_mem_nil, or_false, Call.seen.injEq,
      Option.some.injEq] at hc hd
    obtain ⟨-, -, -, rfl, -⟩ | ⟨-, -, -, rfl, -⟩ := hc <;>
      obtain ⟨-, -, -, rfl, -⟩ | ⟨-, -, -, rfl, -⟩ := hd <;> decide

section

variable {c : Config synapse World Unit (Fin n)} {i : Fin n}

theorem readsStored_of_op {o : Op} {next : synapse.Reply o → Prog synapse Unit}
    (hi : c.threads i = .op o next) (ho : ∀ pipe, o = .execute pipe → ∀ f, .hget f ∉ pipe) :
    ReadsStored c i := by
  intro pipe next' h f hf
  rw [hi] at h
  cases h
  exact (ho pipe rfl f hf).elim

theorem readsStored_of_idle (h : ∀ j, j ≠ i → ∀ f, ¬ Stores f (c.threads j)) : ReadsStored c i :=
  fun _ _ _ f _ j hj => h j hj f

end

theorem twice_guarded : Config.Guarded handler ReadsStored (pool .empty twiceCalls) twice := by
  refine ⟨?_, ?_, ?_, ?_, ?_, ?_, ?_, ?_, ?_, ?_, ?_, trivial⟩
  · exact readsStored_of_op rfl (by simp)
  · exact readsStored_of_op rfl (by simp)
  · exact readsStored_of_op rfl (by simp [touchPipe])
  · exact readsStored_of_op rfl (by simp [touchPipe])
  · exact readsStored_of_op rfl (by simp)
  · exact readsStored_of_op (o := .execute [.hset "mac=00:11" 1, .hset "mac=00:11,vlan=eth0" 1,
      .hset "mac=00:11,vlan=eth0,ip=10.0.0.2" 1]) rfl (by simp)
  · have other : ∀ j : Fin 2, j ≠ 1 → j = 0 := by decide
    refine readsStored_of_idle fun j hj => ?_
    rw [other j hj]
    exact not_stores_recordPipe
  · exact readsStored_of_op rfl (by simp)
  · exact readsStored_of_op rfl (by simp)
  · exact readsStored_of_op rfl (by simp)
  · exact readsStored_of_op rfl (by simp)

theorem parentIds_twice :
    Since .empty ((pool .empty twiceCalls).follow handler twice).state
      (Message.Final ((pool .empty twiceCalls).follow handler twice).state) ∧
    Since .empty ((pool .empty twiceCalls).follow handler twice).state
      (Message.Complete ((pool .empty twiceCalls).follow handler twice).state) := by
  have used : ∀ c ∈ twiceCalls, c.obj ∈ {o | o ∈ roamingObjs} := by
    simp [twiceCalls, Call.obj, objOf, roamingObjs]
  obtain ⟨final, complete⟩ := parentIds_final roamingNames.toFields twice_stays
    (fun x _ => iff_of_false (fun h => h rfl) fun h => h rfl) used
  exact ⟨final _ (Config.follow_run (Config.guarded_true _ twice)),
    complete _ (Config.follow_run twice_guarded)⟩

/-- A device seen on two VLANs at once. -/
def racingCalls : List Call :=
  [.seen 100 "00:11" "eth0" none .none none, .seen 100 "00:11" "eth1" none .none none]

/-- The id of a VLAN session is stored under the field of a device. -/
def sharedFieldCalls : List Call :=
  [.seen 100 "a,vlan=b" "v" none .none none, .seen 101 "a" "b" none .none none]

/-- In some interleaving all calls complete and a message is not as described. -/
def Misleads (calls : List Call) (ok : World → Message → Prop) : Prop :=
  ∃ c, Run handler (fun _ _ => True) (pool .empty calls) c ∧ c.Done ∧
    ∃ msg ∈ c.state.published, ¬ ok c.state msg

theorem noPortChange_of_none {w : World}
    (h : ∀ c ∈ calls, ∃ now mac vlan ip time, c = .seen now mac vlan none ip time) :
    NoPortChange w calls := by
  have none : ∀ c ∈ calls, ∀ mac port, ¬ c.SeesOn mac port := by
    rintro c hc mac port ⟨now, vlan, ip, time, rfl⟩
    obtain ⟨_, _, _, _, _, heq⟩ := h _ hc
    cases heq
  refine ⟨fun c hc => ?_, fun mac old _ c hc new hsees => (none c hc mac new hsees).elim,
    fun c hc mac port hsees => (none c hc mac port hsees).elim⟩
  obtain ⟨now, mac, vlan, ip, time, rfl⟩ := h c hc
  exact ⟨now, mac, vlan, _, ip, time, rfl⟩

/-- A message carries null for the device that another call has just added; and it carries
an id that is then overwritten, when two names have one field. -/
theorem misleading :
    (NoPortChange .empty racingCalls ∧ Misleads racingCalls Message.Complete) ∧
    NoPortChange .empty sharedFieldCalls ∧ Misleads sharedFieldCalls Message.Final := by
  have follow : ∀ (calls : List Call) (schedule : List (Fin calls.length)) ok,
      ((pool .empty calls).follow handler schedule).Done →
      (∃ msg ∈ ((pool .empty calls).follow handler schedule).state.published,
        ¬ ok ((pool .empty calls).follow handler schedule).state msg) → Misleads calls ok :=
    fun calls schedule ok done msg =>
      ⟨_, Config.follow_run (Config.guarded_true _ schedule), done, msg⟩
  refine ⟨⟨noPortChange_of_none (by simp [racingCalls]), follow racingCalls
      (show List (Fin 2) from [0, 1, 1, 1, 1, 0, 0, 0]) _ ?_ ?_⟩,
    noPortChange_of_none (by simp [sharedFieldCalls]), follow sharedFieldCalls
      (show List (Fin 2) from [0, 0, 0, 0, 1, 1, 1, 1]) _ ?_ ?_⟩
  · exact Config.done_iff.mpr (by decide)
  · unfold Message.Complete
    decide
  · exact Config.done_iff.mpr (by decide)
  · unfold Message.Final
    decide

end ElanAgent.Session
