import ElanAgent.Snmp.Polls

/-!
# Ports by index

`getPortFromIndex` of `elan/snmp.py` looks a port up in the cached record of a device, and
calls itself to poll the device if the port is not there. The call that it makes never
makes another one, so that the device is polled once at most.
-/

namespace ElanAgent.Snmp

open Raising
open Session (Port)

/-! ## What a poll comes to -/

/-- The record is the polled one, but for the order of its ports. -/
def Device.Reorders (device polled : Device) : Prop :=
  device = polled ∨
    ∃ ports, polled.ports = some ports ∧ device = { polled with ports := some (sortedPorts ports) }

/-- The update of what is cached under `id`. -/
inductive Updated (ip : Value) (id : Nat) (cached : Option Device) (device : Device) (w : World) :
    Except Error Device × World → Prop
  | raised (e : Error) (published : List Notice)
      (lacks : device.ports = none ∨ ∃ old, cached = some old ∧ old.ports = none) :
      Updated ip id cached device w (.error e, { w with published := published })
  | same {old : Device} (known : cached = some old) (same : old.same device) :
      Updated ip id cached device w (.ok device, w)
  | saved {saved : Device} (reorders : saved.Reorders device) (ports : saved.ports.isSome)
      (published : List Notice) :
      Updated ip id cached device w
        (.ok saved, { w.cache ip id cached saved with published := published })

theorem save_eq (ip : Value) (id : Nat) (cached : Option Device) (device : Device) (w : World) :
    exec (save ip id cached device) w =
      if device.ports.isSome then (.ok device, w.cache ip id cached device)
      else (.error (.keyError "ports"), w) := by
  cases h : device.ports with
  | none => simp [save, h]
  | some ports => exact save_exec ip id cached device (by simp [h]) w

theorem updated_save (ip : Value) (id : Nat) (cached : Option Device) {device saved : Device}
    (reorders : saved.Reorders device) (w : World) (published : List Notice) :
    Updated ip id cached device w
      (exec (save ip id cached saved) { w with published := published }) := by
  rw [save_eq]
  split
  · exact .saved reorders ‹_› published
  · rename_i lacks
    refine .raised _ published (.inl ?_)
    rcases reorders with rfl | ⟨ports, hports, rfl⟩
    · simpa using lacks
    · simp at lacks

theorem updated_update (ip : Value) (id : Nat) (cached : Option Device) (device : Device)
    (w : World) : Updated ip id cached device w (exec (update ip id cached device) w) := by
  cases cached with
  | none => exact updated_save ip id none (.inl rfl) w _
  | some old =>
    by_cases same : old.same device
    · rw [update, if_pos same]
      exact .same rfl same
    · rw [update, if_neg same]
      cases h1 : old.ports with
      | none =>
        have raises : exec (switchHasChanged old device) w = (.error (.keyError "ports"), w) := by
          simp [switchHasChanged, h1]
        rw [exec_bind_error raises]
        exact .raised _ w.published (.inr ⟨old, rfl, h1⟩)
      | some ports1 =>
        cases h2 : device.ports with
        | none =>
          have raises : exec (switchHasChanged old device) w =
              (.error (.keyError "ports"), w) := by simp [switchHasChanged, h1, h2]
          rw [exec_bind_error raises]
          exact .raised _ w.published (.inl h2)
        | some ports2 =>
          obtain ⟨changed, compared⟩ : ∃ changed, exec (switchHasChanged old device) w =
              (.ok (changed, { device with ports := some (sortedPorts ports2) }), w) :=
            ⟨_, by simp only [switchHasChanged, h1, h2]; rfl⟩
          rw [exec_bind_ok compared]
          cases changed with
          | true => exact updated_save ip id (some old) (.inr ⟨ports2, h2, rfl⟩) w _
          | false => exact updated_save ip id (some old) (.inr ⟨ports2, h2, rfl⟩) w w.published

/-- The world once the poller has answered. -/
def World.asking (w : World) (ip : Value) : World :=
  { w with
    asked := w.asked + 1
    readParams := Function.update w.readParams ip.format (w.polled w.asked).readParams }

/-- The id of a polled device, what is cached under it, and the counter. -/
inductive Identified (ip : Value) (device : Device) (w : World) :
    Nat → Option Device → World → Prop
  | known {id : Nat} (known : w.knownId ip device = some id) :
      Identified ip device w id (w.byId id) w
  | new (unknown : w.knownId ip device = none) :
      Identified ip device w (w.counter + 1) none { w with counter := w.counter + 1 }

/-- What a poll returns or raises, and the world that it leaves. -/
inductive PollOutcome (ip : Value) (w : World) : Except Error (Option Device) × World → Prop
  | raised (answer : (w.polled w.asked).answer = .raises) :
      PollOutcome ip w (.error .socket, w.asking ip)
  | failed (answer : (w.polled w.asked).answer = .timeout ∨ (w.polled w.asked).answer = .null) :
      PollOutcome ip w (.ok none, { w.asking ip with events := w.events ++ [.pollFailed ip] })
  | answered {device : Device} {id : Nat} {cached : Option Device} {w' : World}
      {outcome : Except Error Device × World}
      (answer : (w.polled w.asked).answer = .device device)
      (identified : Identified ip device (w.asking ip) id cached w')
      (updated : Updated ip id cached { device with localId := some id } w' outcome) :
      PollOutcome ip w (outcome.1.map some, outcome.2)

theorem pollOutcome (ip : Value) (w : World) : PollOutcome ip w (exec (poll ip) w) := by
  have asked : exec (ask ip) w = (.ok (w.polled w.asked).answer, w.asking ip) := ask_exec ip w
  rw [poll, exec_bind_ok asked]
  cases answer : (w.polled w.asked).answer with
  | raises => exact .raised answer
  | timeout => exact .failed (.inl answer)
  | null => exact .failed (.inr answer)
  | device found =>
    obtain ⟨id, cached, w', done, identified⟩ : ∃ id cached w',
        exec (identify ip found) (w.asking ip) = (.ok (id, cached), w') ∧
          Identified ip found (w.asking ip) id cached w' := by
      cases known : (w.asking ip).knownId ip found with
      | some id => exact ⟨id, _, _, by simp [identify, known], .known known⟩
      | none => exact ⟨_, _, _, by simp [identify, known, Except.map], .new known⟩
    have updated := updated_update ip id cached { found with localId := some id } w'
    simp only
    rw [exec_bind_ok done]
    simp only
    rw [← map_eq_pure_bind, exec_map]
    exact .answered answer identified updated

/-! ## What a poll keeps -/

section Kept

variable {ip : Value} {device : Device} {w w' : World} {id : Nat}

theorem Device.Reorders.localId {saved : Device} (h : saved.Reorders device) :
    saved.localId = device.localId := by
  rcases h with rfl | ⟨ports, -, rfl⟩ <;> rfl

/-- An IP that leads to a device leads to the polled one. -/
theorem Identified.id_eq {cached : Option Device} (h : Identified ip device w id cached w')
    {id' : Nat} (leads : w.idByIp ip.format = some id') : id = id' := by
  cases h with
  | known known => simpa [World.knownId, leads] using known.symm
  | new unknown => simp [World.knownId, leads] at unknown

theorem Identified.frame {cached : Option Device} (h : Identified ip device w id cached w') :
    w'.idByIp = w.idByIp ∧ w'.byId = w.byId ∧ w'.asked = w.asked := by
  cases h <;> exact ⟨rfl, rfl, rfl⟩

/-- What holds of the world when the poller has answered, and is kept when the record is
cached, holds after the poll. -/
theorem PollOutcome.keeps {I : World → Prop} {out : Except Error (Option Device) × World}
    (h : PollOutcome ip w out) (asking : I (w.asking ip))
    (events : ∀ v l, I v → I { v with events := l })
    (counter : ∀ v n, I v → I { v with counter := n })
    (published : ∀ v l, I v → I { v with published := l })
    (cache : ∀ v id cached device, device.localId = some id → device.ports.isSome →
      (∀ id', v.idByIp ip.format = some id' → id = id') → I v → I (v.cache ip id cached device)) :
    I out.2 := by
  cases h with
  | raised answer => exact asking
  | failed answer => exact events _ _ asking
  | @answered _ id _ v _ answer identified updated =>
    have identifies : ∀ id', v.idByIp ip.format = some id' → id = id' := by
      intro id' leads
      rw [identified.frame.1] at leads
      exact identified.id_eq leads
    have kept : I v := by
      cases identified with
      | known known => exact asking
      | new unknown => exact counter _ _ asking
    cases updated with
    | raised e l lacks => exact published _ l kept
    | same known same => exact kept
    | saved reorders ports l =>
      exact published _ l (cache _ _ _ _ reorders.localId ports identifies kept)

theorem poll_asked (ip : Value) (w : World) : (exec (poll ip) w).2.asked = w.asked + 1 :=
  (pollOutcome ip w).keeps (I := fun v => v.asked = w.asked + 1) rfl (fun _ _ h => h)
    (fun _ _ h => h) (fun _ _ h => h) fun _ _ _ _ _ _ _ h => h

/-- Once an IP leads to a device, it leads there for ever. -/
theorem poll_leads (ip : Value) {field : String} (leads : w.idByIp field = some id) :
    (exec (poll ip) w).2.idByIp field = some id := by
  refine (pollOutcome ip w).keeps (I := fun v => v.idByIp field = some id) leads
    (fun _ _ h => h) (fun _ _ h => h) (fun _ _ h => h) ?_
  intro v id' cached device _ _ identifies leads
  by_cases same : field = ip.format
  · subst same
    simp [World.cache, identifies id leads]
  · simpa [World.cache, same] using leads

/-- Every cached device has the id under which it is cached. -/
def World.Labelled (w : World) : Prop := ∀ id d, w.byId id = some d → d.localId = some id

theorem poll_labelled (ip : Value) (labelled : w.Labelled) : (exec (poll ip) w).2.Labelled := by
  refine (pollOutcome ip w).keeps (I := World.Labelled) labelled (fun _ _ h => h)
    (fun _ _ h => h) (fun _ _ h => h) ?_
  intro v id cached device localId _ _ labelled id' d hd
  by_cases same : id' = id
  · subst same
    obtain rfl : device = d := by simpa [World.cache] using hd
    exact localId
  · exact labelled id' d (by simpa [World.cache, same] using hd)

/-- The device has the port. -/
def Device.HasPort (device : Device) (port : SwitchPort) : Prop := port ∈ device.ports.getD []

/-- A polled device is cached afterwards, with its ports, and its IP leads to it if it leads
anywhere. -/
theorem poll_some (h : exec (poll ip) w = (.ok (some device), w')) :
    ∃ id kept, device.localId = some id ∧ w'.byId id = some kept ∧
      (∀ port, kept.HasPort port ↔ device.HasPort port) ∧
      ∀ id', w'.idByIp ip.format = some id' → id = id' := by
  have outcome := pollOutcome ip w
  generalize hout : exec (poll ip) w = out at outcome
  cases outcome with
  | raised answer => rw [h] at hout; cases hout
  | failed answer => rw [h] at hout; cases hout
  | @answered found id cached v out answer identified updated =>
    rw [h] at hout
    cases updated with
    | raised e l lacks => cases hout
    | @same old known same =>
      cases hout
      have here : v.byId id = some old := by
        cases identified with
        | known => exact known
        | new => cases known
      refine ⟨id, old, rfl, here, fun port => ?_, fun id' leads => ?_⟩
      · rw [Device.HasPort, same_ports same, Device.HasPort]
      · rw [identified.frame.1] at leads
        exact identified.id_eq leads
    | @saved saved reorders ports l =>
      cases hout
      refine ⟨id, device, reorders.localId, ?_, fun port => Iff.rfl, fun id' leads => ?_⟩
      · simp [World.cache]
      · simpa [World.cache] using leads

/-- What lookups of one IP may change: they keep the labels and where the IP leads, and change
the record of no other device than the one it leads to. -/
structure World.Follows (ip : Value) (w w' : World) : Prop where
  labelled : w.Labelled → w'.Labelled
  leads : ∀ id, w.idByIp ip.format = some id → w'.idByIp ip.format = some id
  others : ∀ id, w'.byId id = w.byId id ∨ w'.idByIp ip.format = some id

namespace World.Follows

theorem refl (ip : Value) (w : World) : w.Follows ip w := ⟨id, fun _ => id, fun _ => .inl rfl⟩

theorem trans {w'' : World} (h : w.Follows ip w') (h' : w'.Follows ip w'') :
    w.Follows ip w'' where
  labelled labelled := h'.labelled (h.labelled labelled)
  leads id leads := h'.leads id (h.leads id leads)
  others id := by
    rcases h'.others id with same | leads
    · rcases h.others id with same' | leads
      · exact .inl (same.trans same')
      · exact .inr (h'.leads id leads)
    · exact .inr leads

theorem poll {outcome : Except Error (Option Device)}
    (h : exec (poll ip) w = (outcome, w')) : w.Follows ip w' := by
  obtain rfl : (exec (Snmp.poll ip) w).2 = w' := congrArg Prod.snd h
  refine ⟨fun labelled => poll_labelled ip labelled, fun id leads => poll_leads ip leads,
    fun id => ?_⟩
  refine (pollOutcome ip w).keeps
    (I := fun v => v.byId id = w.byId id ∨ v.idByIp ip.format = some id) (.inl rfl)
    (fun _ _ h => h) (fun _ _ h => h) (fun _ _ h => h) ?_
  intro v id' cached device _ _ identifies kept
  by_cases same : id = id'
  · exact .inr (by simp [World.cache, same])
  · refine .inl ?_
    rcases kept with kept | leads
    · simpa [World.cache, same] using kept
    · exact absurd (identifies id leads).symm same

end World.Follows

end Kept

/-! ## The lookup -/

/-- The body of `getPortFromIndex`, where `again` is the function that it calls last. -/
def getPortFromIndexBody (again : Value → Value → Bool → Bool → Act (Option Port))
    (deviceIp ifIndex : Value) (forcePoll noPoll : Bool) : Act (Option Port) := do
  if forcePoll && noPoll then throw .typeError
  if deviceIp = .none || ifIndex = .none then pure none
  else
    let (device, devicePolled) ←
      if forcePoll then (·, true) <$> poll deviceIp
      else do
        let w ← get
        let device := w.getDeviceByIp deviceIp
        if device.isNone && !noPoll then (·, true) <$> poll deviceIp else pure (device, false)
    match device with
    | none => pure none
    | some device =>
      match ← device.portOfIndex ifIndex with
      | some port => pure (some port)
      | none =>
        if !devicePolled && !noPoll then again deviceIp ifIndex true false else pure none

section Lookup

variable (deviceIp ifIndex : Value)

theorem return_found (x : Act (Option Port)) : (do
    match ← x with
    | some port => pure (some port)
    | none => pure none) = x := by
  refine Eq.trans (bind_congr fun port => ?_) (bind_pure x)
  cases port <;> rfl

theorem lookup_polled : (do
    match ← poll deviceIp with
    | none => pure none
    | some device =>
      match ← device.portOfIndex ifIndex with
      | some port => pure (some port)
      | none => pure none) = polledPortFromIndex deviceIp ifIndex := by
  refine bind_congr fun device => ?_
  cases device with
  | none => rfl
  | some device => exact return_found _

/-- A forced call polls, and calls nothing again. -/
theorem body_forced (again : Value → Value → Bool → Bool → Act (Option Port)) :
    getPortFromIndexBody again deviceIp ifIndex true false =
      getPortFromIndex deviceIp ifIndex true false := by
  unfold getPortFromIndexBody getPortFromIndex
  simp only [Bool.and_false, Bool.false_eq_true, if_false, if_true, map_eq_pure_bind,
    bind_assoc, pure_bind, Bool.not_true, Bool.false_and]
  rw [← lookup_polled]

theorem body_unforced {again : Value → Value → Bool → Bool → Act (Option Port)}
    (forced : again deviceIp ifIndex true false = getPortFromIndex deviceIp ifIndex true false)
    (noPoll : Bool) : getPortFromIndexBody again deviceIp ifIndex false noPoll =
      getPortFromIndex deviceIp ifIndex false noPoll := by
  unfold getPortFromIndexBody
  rw [forced]
  unfold getPortFromIndex
  by_cases absent : deviceIp = .none || ifIndex = .none
  · simp [absent]
  · simp only [Bool.false_and, Bool.and_false, Bool.false_eq_true, if_false, if_true,
      if_neg absent, map_eq_pure_bind, bind_assoc]
    refine bind_congr fun w => ?_
    cases w.getDeviceByIp deviceIp with
    | none =>
      cases noPoll with
      | true => rfl
      | false => exact lookup_polled deviceIp ifIndex
    | some device =>
      change device.portOfIndex ifIndex >>= _ = device.portOfIndex ifIndex >>= _
      refine bind_congr fun port => ?_
      cases port with
      | none => cases noPoll <;> rfl
      | some port => rfl

/-- Two calls are enough, whatever a third one would do. -/
theorem body_body (again : Value → Value → Bool → Bool → Act (Option Port))
    (forcePoll noPoll : Bool) :
    getPortFromIndexBody (getPortFromIndexBody again) deviceIp ifIndex forcePoll noPoll =
      getPortFromIndex deviceIp ifIndex forcePoll noPoll := by
  cases forcePoll with
  | true =>
    cases noPoll with
    | true => rfl
    | false => exact body_forced deviceIp ifIndex _
  | false => exact body_unforced deviceIp ifIndex (body_forced deviceIp ifIndex again) noPoll

/-- The record of a device, in the cache or polled, and the world once it is obtained. -/
inductive Obtained (w : World) : Bool → Option Device → World → Prop
  | cached : Obtained w false (w.getDeviceByIp deviceIp) w
  | polled {device : Option Device} {w' : World}
      (returned : exec (poll deviceIp) w = (.ok device, w')) : Obtained w true device w'

/-- What is to be returned for a record: a port of it that has the index, or nothing if
there is none. -/
def LookedUp : Option Device → Option Port → Prop
  | none, port => port = none
  | some device, none => ∀ p ∈ device.ports.getD [], .str p.index ≠ ifIndex
  | some device, some port => ∃ p ∈ device.ports.getD [], .str p.index = ifIndex ∧
      ∃ id, device.localId = some id ∧ port = ⟨.int id, p.interface, none, ∅⟩

/-- The record lacks an item that is read. -/
def Device.Lacks (device : Device) : Prop := device.ports = none ∨ device.localId = none

/-- What the lookup returns or raises, and the world that it leaves. The port is that of the
last record that is obtained, which is the cached one only if no poll is allowed or if it
has the port. -/
inductive LookupOutcome (forcePoll noPoll : Bool) (w : World) :
    Except Error (Option Port) × World → Prop
  | misused (both : forcePoll && noPoll) :
      LookupOutcome forcePoll noPoll w (.error .typeError, w)
  | absent (missing : deviceIp = .none ∨ ifIndex = .none) :
      LookupOutcome forcePoll noPoll w (.ok none, w)
  | returned {polled : Bool} {device : Option Device} {port : Option Port} {w' : World}
      (obtained : Obtained deviceIp w polled device w') (lookedUp : LookedUp ifIndex device port)
      (last : if polled then noPoll = false else forcePoll = false ∧ (noPoll ∨ port.isSome)) :
      LookupOutcome forcePoll noPoll w (.ok port, w')
  | pollRaised {e : Error} {w' : World} (allowed : noPoll = false)
      (raised : exec (poll deviceIp) w = (.error e, w')) :
      LookupOutcome forcePoll noPoll w (.error e, w')
  | lacking {polled : Bool} {device : Device} {e : Error} {w' : World}
      (obtained : Obtained deviceIp w polled (some device) w') (lacks : device.Lacks)
      (allowed : if polled then noPoll = false else forcePoll = false) :
      LookupOutcome forcePoll noPoll w (.error e, w')

variable {ifIndex} {w w' : World} {device : Device}

theorem portOfIndex_ok {port : Option Port}
    (h : exec (device.portOfIndex ifIndex) w = (.ok port, w')) :
    w' = w ∧ LookedUp ifIndex (some device) port := by
  unfold Device.portOfIndex at h
  cases hports : device.ports with
  | none => simp [hports] at h
  | some ports =>
    simp only [hports] at h
    cases found : ports.find? fun port => Value.str port.index = ifIndex with
    | none =>
      rw [found] at h
      obtain ⟨rfl, rfl⟩ := exec_pure_eq_ok.mp h
      refine ⟨rfl, fun p hp => ?_⟩
      rw [hports, Option.getD_some] at hp
      simpa using List.find?_eq_none.mp found p hp
    | some p =>
      rw [found] at h
      cases hid : device.localId with
      | none => simp [hid] at h
      | some id =>
        simp only [hid] at h
        obtain ⟨rfl, rfl⟩ := exec_pure_eq_ok.mp h
        have index := List.find?_some found
        exact ⟨rfl, p, by simpa [hports] using List.mem_of_find?_eq_some found,
          by simpa using index, id, hid, rfl⟩

theorem portOfIndex_error {e : Error}
    (h : exec (device.portOfIndex ifIndex) w = (.error e, w')) : w' = w ∧ device.Lacks := by
  unfold Device.portOfIndex at h
  cases hports : device.ports with
  | none =>
    simp only [hports] at h
    exact ⟨(Prod.mk.inj h).2.symm, .inl hports⟩
  | some ports =>
    simp only [hports] at h
    cases found : ports.find? fun port => Value.str port.index = ifIndex with
    | none => simp [found] at h
    | some p =>
      cases hid : device.localId with
      | none =>
        simp only [found, hid] at h
        exact ⟨(Prod.mk.inj h).2.symm, .inr hid⟩
      | some id => simp [found, hid] at h

theorem polled_outcome (w : World) (forcePoll : Bool) :
    LookupOutcome deviceIp ifIndex forcePoll false w
      (exec (polledPortFromIndex deviceIp ifIndex) w) := by
  rw [polledPortFromIndex, exec_bind]
  rcases polled : exec (poll deviceIp) w with ⟨e | device, w'⟩
  · exact .pollRaised rfl polled
  · cases device with
    | none => exact .returned (.polled polled) rfl rfl
    | some device =>
      rcases looked : exec (device.portOfIndex ifIndex) w' with ⟨e | port, w''⟩
      · obtain ⟨rfl, lacks⟩ := portOfIndex_error looked
        simp only [looked]
        exact .lacking (.polled polled) lacks rfl
      · obtain ⟨rfl, lookedUp⟩ := portOfIndex_ok looked
        simp only [looked]
        exact .returned (.polled polled) lookedUp rfl

theorem getPortFromIndex_outcome (ifIndex : Value) (forcePoll noPoll : Bool) (w : World) :
    LookupOutcome deviceIp ifIndex forcePoll noPoll w
      (exec (getPortFromIndex deviceIp ifIndex forcePoll noPoll) w) := by
  unfold getPortFromIndex
  by_cases both : forcePoll && noPoll
  · simp only [both]
    exact .misused both
  simp only [both, Bool.false_eq_true, if_false]
  by_cases missing : deviceIp = .none ∨ ifIndex = .none
  · rw [if_pos (by simpa using missing)]
    exact .absent missing
  rw [if_neg (by simpa using missing)]
  cases forcePoll with
  | true =>
    obtain rfl : noPoll = false := by simpa using both
    exact polled_outcome deviceIp w true
  | false =>
    simp only [Bool.false_eq_true, if_false, exec_get_bind]
    cases cached : w.getDeviceByIp deviceIp with
    | none =>
      cases noPoll with
      | true =>
        have obtained : Obtained deviceIp w false none w := cached ▸ .cached
        exact .returned obtained rfl ⟨rfl, .inl rfl⟩
      | false => exact polled_outcome deviceIp w false
    | some device =>
      have obtained : Obtained deviceIp w false (some device) w := cached ▸ .cached
      simp only [exec_bind]
      rcases looked : exec (device.portOfIndex ifIndex) w with ⟨e | port, w'⟩
      · obtain ⟨rfl, lacks⟩ := portOfIndex_error looked
        exact .lacking obtained lacks rfl
      · obtain ⟨rfl, lookedUp⟩ := portOfIndex_ok looked
        cases port with
        | some port => exact .returned obtained lookedUp ⟨rfl, .inr rfl⟩
        | none =>
          cases noPoll with
          | true => exact .returned obtained lookedUp ⟨rfl, .inl rfl⟩
          | false => exact polled_outcome deviceIp w' false

variable {deviceIp}

theorem Obtained.asked_le {polled : Bool} {device : Option Device}
    (h : Obtained deviceIp w polled device w') : w'.asked ≤ w.asked + 1 := by
  cases h with
  | cached => exact Nat.le_succ _
  | polled returned =>
    have asked := poll_asked deviceIp w
    rw [returned] at asked
    exact asked.le

theorem Obtained.unchanged {device : Option Device}
    (h : Obtained deviceIp w false device w') : w' = w := by
  cases h
  rfl

theorem LookupOutcome.asked_le {forcePoll noPoll : Bool}
    {out : Except Error (Option Port) × World}
    (h : LookupOutcome deviceIp ifIndex forcePoll noPoll w out) :
    out.2.asked ≤ w.asked + 1 := by
  cases h with
  | misused both => exact Nat.le_succ _
  | absent missing => exact Nat.le_succ _
  | returned obtained lookedUp last => exact obtained.asked_le
  | pollRaised allowed raised =>
    have asked := poll_asked deviceIp w
    rw [raised] at asked
    exact asked.le
  | lacking obtained lacks allowed => exact obtained.asked_le

/-- Without polls, nothing changes. -/
theorem LookupOutcome.unchanged {forcePoll : Bool} {out : Except Error (Option Port) × World}
    (h : LookupOutcome deviceIp ifIndex forcePoll true w out) : out.2 = w := by
  cases h with
  | misused both => rfl
  | absent missing => rfl
  | @returned polled _ _ _ obtained lookedUp last =>
    cases polled with
    | false => exact obtained.unchanged
    | true => cases last
  | pollRaised allowed raised => cases allowed
  | @lacking polled _ _ _ obtained lacks allowed =>
    cases polled with
    | false => exact obtained.unchanged
    | true => cases allowed

theorem Obtained.follows {polled : Bool} {device : Option Device}
    (h : Obtained deviceIp w polled device w') : w.Follows deviceIp w' := by
  cases h with
  | cached => exact .refl deviceIp w
  | polled returned => exact .poll returned

theorem LookupOutcome.follows {forcePoll noPoll : Bool}
    {out : Except Error (Option Port) × World}
    (h : LookupOutcome deviceIp ifIndex forcePoll noPoll w out) :
    w.Follows deviceIp out.2 := by
  cases h with
  | misused both => exact .refl deviceIp w
  | absent missing => exact .refl deviceIp w
  | returned obtained lookedUp last => exact obtained.follows
  | pollRaised allowed raised => exact .poll raised
  | lacking obtained lacks allowed => exact obtained.follows

/-- The device is cached with a port that has the interface. -/
def World.Shows (w : World) (id : Nat) (interface : Value) : Prop :=
  ∃ device, w.byId id = some device ∧ ∃ port, device.HasPort port ∧ port.interface = interface

/-- The port is of the cached device, and the IP leads to no other one. -/
structure World.Holds (w : World) (ip : Value) (port : Port) (id : Nat) : Prop where
  localId : port.localId = .int id
  shows : w.Shows id port.interface
  leads : ∀ id', w.idByIp ip.format = some id' → id = id'

theorem LookedUp.holds {id : Nat} {kept : Device} {port : Port}
    (h : LookedUp ifIndex (some device) (some port)) (localId : device.localId = some id)
    (cached : w.byId id = some kept) (same : ∀ p, device.HasPort p → kept.HasPort p)
    (leads : ∀ id', w.idByIp deviceIp.format = some id' → id = id') :
    w.Holds deviceIp port id := by
  obtain ⟨p, hp, -, id', hid, rfl⟩ := h
  obtain rfl : id = id' := Option.some.inj (localId.symm.trans hid)
  exact ⟨rfl, ⟨kept, cached, p, same p hp, rfl⟩, leads⟩

/-- A port that is returned is in the cache. -/
theorem LookupOutcome.holds {forcePoll noPoll : Bool} {port : Port} (labelled : w.Labelled)
    (h : LookupOutcome deviceIp ifIndex forcePoll noPoll w (.ok (some port), w')) :
    ∃ id, w'.Holds deviceIp port id := by
  cases h with
  | @returned polled device _ _ obtained lookedUp last =>
    cases device with
    | none => cases lookedUp
    | some device =>
      generalize hdevice : some device = known at obtained
      cases obtained with
      | cached =>
        obtain ⟨id, leads, cached⟩ := Option.bind_eq_some_iff.mp hdevice.symm
        refine ⟨id, lookedUp.holds (labelled id device cached) cached (fun _ h => h) ?_⟩
        intro id' leads'
        exact Option.some.inj (leads.symm.trans leads')
      | polled returned =>
        subst hdevice
        obtain ⟨id, kept, localId, cached, same, leads⟩ := poll_some returned
        exact ⟨id, lookedUp.holds localId cached (fun p => (same p).mpr) leads⟩

/-- The lookup ends after two calls, polls the device once at most and not at all without
polls, and answers from the last record that it obtains. -/
theorem getPortFromIndex_polls_once (deviceIp ifIndex : Value) (forcePoll noPoll : Bool)
    (w : World) :
    (∀ again, getPortFromIndexBody (getPortFromIndexBody again) deviceIp ifIndex forcePoll noPoll =
      getPortFromIndex deviceIp ifIndex forcePoll noPoll) ∧
    (exec (getPortFromIndex deviceIp ifIndex forcePoll noPoll) w).2.asked ≤ w.asked + 1 ∧
    (noPoll = true → (exec (getPortFromIndex deviceIp ifIndex forcePoll noPoll) w).2 = w) ∧
    LookupOutcome deviceIp ifIndex forcePoll noPoll w
      (exec (getPortFromIndex deviceIp ifIndex forcePoll noPoll) w) := by
  have outcome : LookupOutcome deviceIp ifIndex forcePoll noPoll w _ :=
    getPortFromIndex_outcome deviceIp ifIndex forcePoll noPoll w
  refine ⟨fun again => body_body deviceIp ifIndex again forcePoll noPoll, outcome.asked_le, ?_,
    outcome⟩
  rintro rfl
  exact outcome.unchanged

end Lookup

end ElanAgent.Snmp
