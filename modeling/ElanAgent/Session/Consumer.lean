import ElanAgent.Session.Runs

/-!
# The consumer of the session messages

The control center sees nothing of the store but the published messages. `Consumer`
is what it can know: it opens a session and its parents under the ids that a message
carries, closes a session with everything below it, and keeps the port of each MAC.

`Mirrors` says that this is the content of `SESSION_IDS` and `MAC_PORT`. The messages
of each call carry the consumer from one store to the next.
-/

namespace ElanAgent.Session

open Atomic Redis Hierarchy

variable {N : Set Obj} {P : Set Port} {w : World}

/-- The session that a message is about. -/
def Message.obj (msg : Message) : Obj :=
  match msg.vlan, msg.ip with
  | some v, some i => .ip msg.mac v i
  | some v, none => .vlan msg.mac v
  | none, _ => .mac msg.mac

/-- The local id that a message carries for the session of `x`. -/
def Message.carried (msg : Message) (x : Obj) : Option Nat :=
  if x = msg.obj then msg.localId
  else match x with
    | .mac _ => msg.macLocalId
    | .vlan _ _ => msg.vlanLocalId
    | .ip _ _ _ => none

/-- Open sessions with their local ids, and the ports of MACs. -/
structure Consumer where
  ids : Obj → Option Nat
  ports : Value → Option Port

namespace Consumer

def empty : Consumer := ⟨fun _ => none, fun _ => none⟩

def receive (c : Consumer) (msg : Message) : Consumer where
  ids :=
    if msg.ended.isSome then prune msg.obj c.ids
    else if msg.start.isSome then fun x => if x ≤ msg.obj then msg.carried x else c.ids x
    else c.ids
  ports :=
    let ports := if msg.port.isSome then Function.update c.ports msg.mac msg.port else c.ports
    if msg.ended.isSome ∧ msg.obj = .mac msg.mac then Function.update ports msg.mac none
    else ports

/-- The consumer after all messages, the oldest first. -/
def replay (c : Consumer) (msgs : List Message) : Consumer := msgs.foldl receive c

/-- The sessions that a message opens, with the ids that it gives them. -/
def opens (c : Consumer) (msg : Message) : List (Obj × Nat) :=
  if msg.start.isSome then
    (msg.obj.parents ++ [msg.obj]).filterMap fun x =>
      if msg.carried x = c.ids x then none else (msg.carried x).map (x, ·)
  else []

/-- Every session that was ever opened, with the id given to it. -/
def openings (c : Consumer) : List Message → List (Obj × Nat)
  | [] => []
  | msg :: msgs => c.opens msg ++ (c.receive msg).openings msgs

@[simp] theorem replay_nil (c : Consumer) : c.replay [] = c := rfl

@[simp] theorem replay_cons (c : Consumer) (msg : Message) (msgs : List Message) :
    c.replay (msg :: msgs) = (c.receive msg).replay msgs := rfl

theorem replay_append (c : Consumer) (msgs more : List Message) :
    c.replay (msgs ++ more) = (c.replay msgs).replay more :=
  List.foldl_append ..

theorem openings_append (c : Consumer) (msgs more : List Message) :
    c.openings (msgs ++ more) = c.openings msgs ++ (c.replay msgs).openings more := by
  induction msgs generalizing c with
  | nil => rfl
  | cons msg msgs ih => simp only [List.cons_append, openings, ih, replay_cons, List.append_assoc]

end Consumer

/-- The consumer holds exactly what `SESSION_IDS` and `MAC_PORT` hold. -/
structure Mirrors (N : Set Obj) (c : Consumer) (w : World) : Prop where
  ids : ∀ x ∈ N, c.ids x = w.idOf x
  idsOut : ∀ x ∉ N, c.ids x = none
  fields : ∀ f id, w.sessionIds.lookup f = some id → ∃ x ∈ N, x.field = f
  ports : ∀ m, Obj.mac m ∈ N → c.ports m = w.portOf m
  portsOut : ∀ m, Obj.mac m ∉ N → c.ports m = none
  portFields : ∀ f p, w.macPort.lookup f = some p → ∃ m, Obj.mac m ∈ N ∧ m.format = f

/-! ## The messages -/

section Messages

variable (now : ℚ) (ids : Obj → Option Nat) (time : ℚ) (port : Option Port) (o : Obj)
  (c : Consumer)

theorem carried_startMessage {x : Obj} (h : x ≤ o) :
    (startMessage now ids time port o).carried x = ids x := by
  cases o <;> cases x <;> simp_all [Message.carried, Message.obj, startMessage]

theorem carried_endMessage {x : Obj} (h : x ≤ o) :
    (endMessage now ids time o).carried x = ids x := by
  cases o <;> cases x <;> simp_all [Message.carried, Message.obj, endMessage]

theorem obj_startMessage : (startMessage now ids time port o).obj = o := by
  cases o <;> rfl

theorem obj_endMessage : (endMessage now ids time o).obj = o := by
  cases o <;> rfl

theorem receive_startMessage : c.receive (startMessage now ids time port o) =
    ⟨fun x => if x ≤ o then ids x else c.ids x,
      if port.isSome then Function.update c.ports o.owner port else c.ports⟩ := by
  have hids : (fun x => if x ≤ o then (startMessage now ids time port o).carried x else c.ids x) =
      fun x => if x ≤ o then ids x else c.ids x := by
    funext x
    by_cases hx : x ≤ o
    · rw [if_pos hx, if_pos hx, carried_startMessage now ids time port o hx]
    · rw [if_neg hx, if_neg hx]
  unfold Consumer.receive
  rw [obj_startMessage, hids]
  cases o <;> rfl

theorem receive_endMessage : c.receive (endMessage now ids time o) =
    ⟨prune o c.ids, if o = .mac o.owner then Function.update c.ports o.owner none
      else c.ports⟩ := by
  unfold Consumer.receive
  rw [obj_endMessage]
  cases o <;> simp [endMessage, Obj.owner]

theorem receive_portMessage (mac : Value) (p : Port) : c.receive (portMessage ids mac p) =
    ⟨c.ids, Function.update c.ports mac (some p)⟩ := by
  simp [Consumer.receive, portMessage]

end Messages

/-! ## One call -/

/-- The messages of `end` carry the consumer along with the store. -/
theorem Ends.mirrors {now time : ℚ} {mac vlan ip : Value} {w' : World} {c : Consumer}
    (effect : Ends N P now mac vlan ip time w w') (inv : Invariant N P w) (names : Names N P)
    (hN : objOf mac vlan ip ∈ N) (h : Mirrors N c w) :
    Mirrors N (c.replay (if w.idOf (objOf mac vlan ip) = none then []
      else [endMessage now w.idOf time (objOf mac vlan ip)])) w' := by
  have inv' := effect.invariant inv names hN
  have hmac := names.lower (mac_le_objOf mac vlan ip) hN
  have hport := fun m hm => effect.portOf names hN (m := m) hm
  by_cases hid : w.idOf (objOf mac vlan ip) = none
  · have hnot : ¬ ClosesMac w mac vlan := by
      rintro ⟨rfl, hne⟩
      exact hne (by simpa using hid)
    have habsent : ∀ x, objOf mac vlan ip ≤ x → x ∈ N → w.idOf x = none := by
      intro x hx hxN
      by_contra hne
      exact (inv.ids _ hN).mp (inv.lower hx ((inv.ids x hxN).mpr hne)) hid
    simp only [hid, if_true, Consumer.replay_nil]
    refine ⟨fun x hx => ?_, h.idsOut, inv'.fieldNamed, fun m hm => ?_, h.portsOut, inv'.portMac⟩
    · rw [h.ids x hx, effect.idOf x hx]
      by_cases hle : objOf mac vlan ip ≤ x
      · rw [prune_of_le hle, habsent x hle hx]
      · rw [prune_of_not_le hle]
    · rw [h.ports m hm, hport m hm, if_neg fun hc => hnot hc.1]
  · simp only [hid, if_false, Consumer.replay_cons, Consumer.replay_nil, receive_endMessage,
      objOf_owner]
    refine ⟨fun x hx => ?_, fun x hx => ?_, inv'.fieldNamed, fun m hm => ?_, fun m hm => ?_,
      inv'.portMac⟩
    · rw [effect.idOf x hx]
      simp only [prune, h.ids x hx]
    · simp only [prune, h.idsOut x hx, ite_self]
    · have hcloses : objOf mac vlan ip = .mac mac ↔ ClosesMac w mac vlan := by
        constructor
        · intro he
          exact ⟨(objOf_le_mac.mp he.le).1, he ▸ hid⟩
        · rintro ⟨rfl, -⟩
          exact objOf_mac mac ip
      by_cases hc : ClosesMac w mac vlan
      · by_cases hmm : m = mac
        · subst m
          simp [hport mac hm, hcloses, hc]
        · simp [hport m hm, hcloses, hc, hmm, h.ports m hm]
      · simp [hport m hm, hcloses, hc, h.ports m hm]
    · have hne : m ≠ mac := fun he => hm (he ▸ hmac)
      split_ifs <;> simp [hne, h.portsOut m hm]

/-- The messages of `seen`, once the port is known. -/
def touchMessages (now : ℚ) (w w' : World) (mac vlan : Value) (port oldPort : Option Port)
    (ip : Value) (time : ℚ) : List Message :=
  (if w.seenAt (.mac mac) = none then []
    else ((newPort port oldPort).map (portMessage w'.idOf mac)).toList) ++
  if w.seenAt (objOf mac vlan ip) = none then
    [startMessage now w'.idOf time port (objOf mac vlan ip)]
  else []

/-- A port that is not new is the recorded one. -/
def PortKnown (w : World) (mac : Value) (port oldPort : Option Port) : Prop :=
  newPort port oldPort = none → port = none ∨ w.portOf mac = port

theorem replay_touchMessages (now : ℚ) (w w' : World) (mac vlan : Value)
    (port oldPort : Option Port) (ip : Value) (time : ℚ) (c : Consumer) :
    c.replay (touchMessages now w w' mac vlan port oldPort ip time) =
      let told := if w.seenAt (.mac mac) = none then c.ports mac
        else (newPort port oldPort).or (c.ports mac)
      if w.seenAt (objOf mac vlan ip) = none then
        ⟨fun x => if x ≤ objOf mac vlan ip then w'.idOf x else c.ids x,
          Function.update c.ports mac (port.or told)⟩
      else ⟨c.ids, Function.update c.ports mac told⟩ := by
  have first : c.replay (if w.seenAt (.mac mac) = none then []
      else ((newPort port oldPort).map (portMessage w'.idOf mac)).toList) =
      ⟨c.ids, Function.update c.ports mac (if w.seenAt (.mac mac) = none then c.ports mac
        else (newPort port oldPort).or (c.ports mac))⟩ := by
    by_cases hm : w.seenAt (.mac mac) = none
    · simp [hm]
    · cases newPort port oldPort with
      | none => simp [hm]
      | some p => simp [hm, receive_portMessage]
  unfold touchMessages
  rw [Consumer.replay_append, first]
  by_cases ho : w.seenAt (objOf mac vlan ip) = none
  · cases port with
    | none => simp [ho, receive_startMessage]
    | some p => simp [ho, receive_startMessage, objOf_owner]
  · simp [ho]

theorem Touches.mirrors {now time : ℚ} {mac vlan ip : Value} {port oldPort : Option Port}
    {w' : World} {c : Consumer}
    (effect : Touches N P now mac vlan port oldPort ip time w w') (inv : Invariant N P w)
    (inv' : Invariant N P w') (names : Names N P) (hN : objOf mac vlan ip ∈ N)
    (known : PortKnown w mac port oldPort) (h : Mirrors N c w) :
    Mirrors N (c.replay (touchMessages now w w' mac vlan port oldPort ip time)) w' := by
  have hmac := names.lower (mac_le_objOf mac vlan ip) hN
  have hport := fun m hm => effect.portOf names hN (m := m) hm
  have ports : ∀ p, p = (newPort port oldPort).or (w.portOf mac) →
      (∀ m, Obj.mac m ∈ N → Function.update c.ports mac p m = w'.portOf m) ∧
      ∀ m, Obj.mac m ∉ N → Function.update c.ports mac p m = none := by
    rintro _ rfl
    refine ⟨fun m hm => ?_, fun m hm => ?_⟩
    · by_cases hmm : m = mac
      · subst m
        simp [hport mac hm]
      · simp [hport m hm, hmm, h.ports m hm]
    · have hne : m ≠ mac := fun he => hm (he ▸ hmac)
      rw [Function.update_of_ne hne, h.portsOut m hm]
  rw [replay_touchMessages, h.ports mac hmac]
  by_cases ho : w.seenAt (objOf mac vlan ip) = none
  · simp only [ho, if_true]
    obtain ⟨hin, hout⟩ := ports (port.or (if w.seenAt (.mac mac) = none then w.portOf mac
      else (newPort port oldPort).or (w.portOf mac))) (by
        cases hnew : newPort port oldPort with
        | some p => simp [newPort_eq_some hnew]
        | none =>
          rcases known hnew with hp | hp
          · simp [hp]
          · simp [hp])
    refine ⟨fun x hx => ?_, fun x hx => ?_, inv'.fieldNamed, hin, hout, inv'.portMac⟩
    · dsimp only
      split
      · rfl
      · rename_i hle
        rw [effect.idOf x hx, cover_of_not_le hle, h.ids x hx]
    · have hle : ¬ x ≤ objOf mac vlan ip := fun hle => hx (names.lower hle hN)
      simp only [hle, if_false, h.idsOut x hx]
  · have hm : w.seenAt (.mac mac) ≠ none := inv.lower (mac_le_objOf mac vlan ip) ho
    simp only [ho, hm, if_false]
    obtain ⟨hin, hout⟩ := ports _ rfl
    refine ⟨fun x hx => ?_, h.idsOut, inv'.fieldNamed, hin, hout, inv'.portMac⟩
    rw [h.ids x hx, effect.idOf x hx]
    by_cases hle : x ≤ objOf mac vlan ip
    · obtain ⟨id, hid⟩ := Option.ne_none_iff_exists'.mp ((inv.ids x hx).mp (inv.lower hle ho))
      rw [cover_of_le hle, hid, Option.getD_some]
    · rw [cover_of_not_le hle]

theorem kind_pairwise (o : Obj) :
    (o.parents ++ [o]).Pairwise fun x y => x.kind ≠ y.kind := by
  cases o <;> simp [Obj.parents, Obj.kind]

theorem parents_le {o x : Obj} (h : x ∈ o.parents ++ [o]) : x ≤ o := by
  cases o <;> simp [Obj.parents] at h <;> rcases h with rfl | rfl | rfl <;> simp

/-- The sessions that the message of `seen` opens take the id that it allocated, and
are of one kind each. -/
theorem Touches.opens {now time : ℚ} {mac vlan ip : Value} {port oldPort : Option Port}
    {w' : World} (effect : Touches N P now mac vlan port oldPort ip time w w')
    (names : Names N P) (hN : objOf mac vlan ip ∈ N) {c : Consumer}
    (hc : ∀ x ∈ N, c.ids x = w.idOf x) :
    (∀ e ∈ c.opens (startMessage now w'.idOf time port (objOf mac vlan ip)),
      e.2 = w.sequence + 1) ∧
    (c.opens (startMessage now w'.idOf time port (objOf mac vlan ip))).Pairwise
      fun e e' => e.1.kind ≠ e'.1.kind := by
  set o := objOf mac vlan ip with ho
  have hstart : (startMessage now w'.idOf time port o).start.isSome := by cases o <;> rfl
  simp only [Consumer.opens, hstart, if_true, obj_startMessage]
  refine ⟨fun e he => ?_, ?_⟩
  · obtain ⟨x, hx, hxe⟩ := List.mem_filterMap.mp he
    have hle : x ≤ o := parents_le hx
    have hxN := names.lower hle hN
    rw [carried_startMessage now w'.idOf time port o hle, hc x hxN, effect.idOf x hxN,
      cover_of_le hle] at hxe
    split at hxe
    · cases hxe
    · rename_i hne
      cases hid : w.idOf x with
      | none =>
        rw [hid] at hxe
        simp only [Option.getD_none, Option.map_some, Option.some.injEq] at hxe
        rw [← hxe]
      | some id => simp [hid] at hne
  · refine List.pairwise_filterMap.mpr ((kind_pairwise o).imp ?_)
    intro x y hxy e he e' he'
    have fst : ∀ {x : Obj} {e : Obj × Nat}, (if (startMessage now w'.idOf time port o).carried x =
        c.ids x then none else ((startMessage now w'.idOf time port o).carried x).map (x, ·)) =
        some e → e.1 = x := by
      intro x e h
      split at h
      · cases h
      · obtain ⟨id, -, rfl⟩ := Option.map_eq_some_iff.mp h
        rfl
    rw [fst he, fst he']
    exact hxy

/-- What `seen` opens takes the id that it allocates, and is of one kind each. -/
theorem Touches.openings {now time : ℚ} {mac vlan ip : Value} {port oldPort : Option Port}
    {w' : World} {c : Consumer}
    (effect : Touches N P now mac vlan port oldPort ip time w w') (names : Names N P)
    (hN : objOf mac vlan ip ∈ N) (h : Mirrors N c w) :
    (∀ e ∈ c.openings (touchMessages now w w' mac vlan port oldPort ip time),
      e.2 = w.sequence + 1 ∧ w'.sequence = w.sequence + 1) ∧
    (c.openings (touchMessages now w w' mac vlan port oldPort ip time)).Pairwise
      fun e e' => e.1.kind ≠ e'.1.kind := by
  have first : ∀ p : Port, c.opens (portMessage w'.idOf mac p) = [] := fun p => rfl
  have hopens : ∀ c' : Consumer, c'.ids = c.ids → _ := fun c' hc' =>
    effect.opens names hN (c := c') (fun x hx => by rw [hc', h.ids x hx])
  have hseq := effect.sequence
  unfold touchMessages
  by_cases ho : w.seenAt (objOf mac vlan ip) = none
  · rw [if_pos ho] at hseq
    by_cases hm : w.seenAt (.mac mac) = none
    · obtain ⟨hid, hkind⟩ := hopens c rfl
      simpa [ho, hm, Consumer.openings, hseq] using
        ⟨fun x id he => hid (x, id) he, hkind⟩
    · cases newPort port oldPort with
      | none =>
        obtain ⟨hid, hkind⟩ := hopens c rfl
        simpa [ho, hm, Consumer.openings, hseq] using
        ⟨fun x id he => hid (x, id) he, hkind⟩
      | some p =>
        obtain ⟨hid, hkind⟩ := hopens (c.receive (portMessage w'.idOf mac p)) rfl
        simpa [ho, hm, Consumer.openings, hseq, first] using
        ⟨fun x id he => hid (x, id) he, hkind⟩
  · cases newPort port oldPort with
    | none => simp [ho, Consumer.openings]
    | some p =>
      by_cases hm : w.seenAt (.mac mac) = none <;> simp [ho, hm, Consumer.openings, first]

/-! ## Runs -/

theorem Touches.published_eq {now time : ℚ} {mac vlan ip : Value} {port oldPort : Option Port}
    {w' : World} (effect : Touches N P now mac vlan port oldPort ip time w w') :
    w'.published = w.published ++ touchMessages now w w' mac vlan port oldPort ip time := by
  rw [effect.published, touchMessages, List.append_assoc]

theorem newPort_eq_none {port oldPort : Option Port} (h : newPort port oldPort = none) :
    port = none ∨ oldPort = port := by
  unfold newPort at h
  split at h
  · exact .inr (by rw [‹port = oldPort›])
  · exact .inl h

@[simp] theorem changed_self (port : Port) : port.changed port = false := by
  simp [Port.changed]

theorem portKnown_stays (mac : Value) (port : Option Port) :
    PortKnown w mac (w.merge mac port) (if port = none then none else w.portOf mac) := by
  intro h
  rcases newPort_eq_none h with h | h
  · exact .inl h
  · by_cases hp : port = none
    · exact .inl (by rw [hp]; rfl)
    · rw [if_neg hp] at h
      exact .inr h

/-- A port that made `seen` end the session is not the recorded one. -/
theorem newPort_moves {mac : Value} {port : Option Port} (h : Moves w mac port = true) :
    newPort (w.merge mac port) (if port = none then none else w.portOf mac) = port ∧
    port ≠ none := by
  unfold Moves at h
  cases port with
  | none => simp at h
  | some p =>
    cases hold : w.portOf mac with
    | none => simp [hold] at h
    | some old =>
      have hc : p.changed old = true := by simpa [hold] using h
      have hne : p ≠ old := by
        rintro rfl
        simp at hc
      simp [World.merge, newPort, hold, hc, hne]

theorem portKnown_moves {mac : Value} {port : Option Port} (h : Moves w mac port = true)
    (u : World) : PortKnown u mac (w.merge mac port)
      (if port = none then none else w.portOf mac) := by
  intro hnone
  obtain ⟨hnew, hne⟩ := newPort_moves h
  exact absurd (hnew.symm.trans hnone) hne

/-- What the consumer knows after the messages of a run, beside the ids given so far. -/
structure Follows (N : Set Obj) (w : World) : Prop where
  mirrors : Mirrors N (Consumer.empty.replay w.published) w
  bounded : ∀ e ∈ Consumer.empty.openings w.published, e.2 ≤ w.sequence
  once : (Consumer.empty.openings w.published).Pairwise
    fun e e' => e.1.kind = e'.1.kind → e.2 ≠ e'.2

theorem follows_empty (N : Set Obj) : Follows N World.empty where
  mirrors := by
    refine ⟨?_, ?_, ?_, ?_, ?_, ?_⟩ <;>
      simp [World.empty, Consumer.empty, World.idOf, World.portOf]
  bounded := by simp [World.empty, Consumer.openings]
  once := by simp [World.empty, Consumer.openings]

theorem Ends.follows {now time : ℚ} {mac vlan ip : Value} {w' : World}
    (effect : Ends N P now mac vlan ip time w w') (inv : Invariant N P w) (names : Names N P)
    (hN : objOf mac vlan ip ∈ N) (h : Follows N w) : Follows N w' := by
  have mirrors := effect.mirrors inv names hN h.mirrors
  have hopen : (Consumer.empty.replay w.published).openings
      (if w.idOf (objOf mac vlan ip) = none then []
        else [endMessage now w.idOf time (objOf mac vlan ip)]) = [] := by
    split
    · rfl
    · cases objOf mac vlan ip <;> rfl
  refine ⟨?_, ?_, ?_⟩
  · rw [effect.published, Consumer.replay_append]
    exact mirrors
  · rw [effect.published, Consumer.openings_append, hopen, List.append_nil, effect.sequence]
    exact h.bounded
  · rw [effect.published, Consumer.openings_append, hopen, List.append_nil]
    exact h.once

theorem Touches.follows {now time : ℚ} {mac vlan ip : Value} {port oldPort : Option Port}
    {w' : World} (effect : Touches N P now mac vlan port oldPort ip time w w')
    (inv : Invariant N P w) (inv' : Invariant N P w') (names : Names N P)
    (hN : objOf mac vlan ip ∈ N) (known : PortKnown w mac port oldPort) (h : Follows N w) :
    Follows N w' := by
  obtain ⟨hid, hkind⟩ := effect.openings names hN h.mirrors
  have hle : w.sequence ≤ w'.sequence := by
    rw [effect.sequence]
    split <;> omega
  refine ⟨?_, ?_, ?_⟩
  · rw [effect.published_eq, Consumer.replay_append]
    exact effect.mirrors inv inv' names hN known h.mirrors
  · intro e he
    rw [effect.published_eq, Consumer.openings_append] at he
    rcases List.mem_append.mp he with he | he
    · exact (h.bounded e he).trans hle
    · obtain ⟨hid, hseq⟩ := hid e he
      omega
  · rw [effect.published_eq, Consumer.openings_append]
    refine List.pairwise_append.mpr ⟨h.once, hkind.imp fun hne he => absurd he hne, ?_⟩
    intro e he e' he' _
    have hold := h.bounded e he
    have hnew := (hid e' he').1
    omega

theorem CallEffect.follows {c : Call} {w' : World} (effect : CallEffect N P c w w')
    (inv : Invariant N P w) (inv' : Invariant N P w') (names : Names N P) (hc : c.Uses N P)
    (h : Follows N w) : Follows N w' := by
  obtain ⟨hN, -⟩ := hc
  cases effect with
  | raises => exact h
  | ends _ effect => exact effect.follows inv names hN h
  | stays _ touch => exact touch.follows inv inv' names hN (portKnown_stays _ _) h
  | moves hm ends inv'' touch =>
    have hmac := names.lower (mac_le_objOf _ _ _) hN
    exact touch.follows inv'' inv' names hN (portKnown_moves hm _)
      (ends.follows inv names (by rwa [objOf_mac]) h)

/-! ## The ids of parents -/

/-- A message carries, for every parent of its session, the id that `w` holds. -/
def Message.CarriesParents (w : World) (msg : Message) : Prop :=
  ∀ x < msg.obj, msg.carried x = w.idOf x ∧ w.idOf x ≠ none

theorem not_lt_mac (x : Obj) (m : Value) : ¬ x < .mac m := by
  intro h
  cases x with
  | mac m' => exact h.ne (by rw [Obj.mac_le_mac.mp h.le])
  | vlan => exact Obj.not_vlan_le_mac h.le
  | ip => exact Obj.not_ip_le_mac h.le

theorem Ends.parents {now time : ℚ} {mac vlan ip : Value} {w' : World}
    (effect : Ends N P now mac vlan ip time w w') (inv : Invariant N P w) (names : Names N P)
    (hN : objOf mac vlan ip ∈ N) :
    ∀ msg ∈ (if w.idOf (objOf mac vlan ip) = none then []
      else [endMessage now w.idOf time (objOf mac vlan ip)]), msg.CarriesParents w' := by
  intro msg hmsg x hx
  split at hmsg
  · cases hmsg
  · rename_i hid
    rw [List.mem_singleton.mp hmsg] at hx ⊢
    rw [obj_endMessage] at hx
    have hxN := names.lower hx.le hN
    rw [carried_endMessage now w.idOf time _ hx.le, effect.idOf x hxN, prune_of_not_le hx.not_ge]
    exact ⟨rfl, (inv.ids x hxN).mp (inv.lower hx.le ((inv.ids _ hN).mpr hid))⟩

theorem Touches.parents {now time : ℚ} {mac vlan ip : Value} {port oldPort : Option Port}
    {w' : World} (effect : Touches N P now mac vlan port oldPort ip time w w')
    (inv' : Invariant N P w') (names : Names N P) (hN : objOf mac vlan ip ∈ N) :
    ∀ msg ∈ touchMessages now w w' mac vlan port oldPort ip time, msg.CarriesParents w' := by
  intro msg hmsg x hx
  rcases List.mem_append.mp hmsg with hmsg | hmsg
  · split at hmsg
    · cases hmsg
    · obtain ⟨p, -, rfl⟩ := List.mem_map.mp (Option.toList_map .. ▸ hmsg)
      exact absurd hx (not_lt_mac x mac)
  · split at hmsg
    · rw [List.mem_singleton.mp hmsg] at hx ⊢
      rw [obj_startMessage] at hx
      refine ⟨carried_startMessage now w'.idOf time port _ hx.le, ?_⟩
      apply (inv'.ids x (names.lower hx.le hN)).mp
      rw [effect.seenAt, support_cover]
      exact .inl hx.le
    · cases hmsg

theorem CallEffect.parents {c : Call} {w' : World} (effect : CallEffect N P c w w')
    (inv : Invariant N P w) (inv' : Invariant N P w') (names : Names N P) (hc : c.Uses N P) :
    ∃ msgs, w'.published = w.published ++ msgs ∧ ∀ msg ∈ msgs, msg.CarriesParents w' := by
  obtain ⟨hN, -⟩ := hc
  cases effect with
  | raises => exact ⟨[], by simp⟩
  | ends _ effect => exact ⟨_, effect.published, effect.parents inv names hN⟩
  | stays _ touch => exact ⟨_, touch.published_eq, touch.parents inv' names hN⟩
  | moves _ ends _ touch =>
    have hpub := touch.published_eq
    rw [ends.published, List.append_assoc] at hpub
    refine ⟨_, hpub, fun msg hmsg => ?_⟩
    rcases List.mem_append.mp hmsg with hmsg | hmsg
    · split at hmsg
      · cases hmsg
      · rw [List.mem_singleton.mp hmsg]
        intro x hx
        rw [obj_endMessage, objOf_mac] at hx
        exact absurd hx (not_lt_mac x _)
    · exact touch.parents inv' names hN msg hmsg

/-- The consumer keeps up with any sequence of calls: it holds what the store holds, no id
has been given to two sessions of one kind, and the next call's messages carry the ids
that the store holds for the parents. -/
theorem consumer_follows (names : Names N P) (cs : List Call) (h : ∀ c ∈ cs, c.Uses N P) :
    Follows N (World.empty.calls cs) ∧
    ∀ c, c.Uses N P → ∃ msgs,
      ((World.empty.calls cs).step c).published = (World.empty.calls cs).published ++ msgs ∧
      ∀ msg ∈ msgs, msg.CarriesParents ((World.empty.calls cs).step c) := by
  obtain ⟨inv, follows⟩ := calls_rule names (Q := Follows N)
    (fun c w w' hc inv effect hQ =>
      effect.follows inv (effect.invariant names inv hc) names hc hQ)
    cs h (invariant_empty N P) (follows_empty N)
  refine ⟨follows, fun c hc => ?_⟩
  have effect := step_effect names inv hc
  exact effect.parents inv (effect.invariant names inv hc) names hc

theorem consumer_follows_roaming :
    Follows {o | o ∈ roamingObjs} (World.empty.calls roamingCalls) ∧
    ∀ c, c.Uses {o | o ∈ roamingObjs} {p | p ∈ roamingPorts} → ∃ msgs,
      ((World.empty.calls roamingCalls).step c).published =
        (World.empty.calls roamingCalls).published ++ msgs ∧
      ∀ msg ∈ msgs, msg.CarriesParents ((World.empty.calls roamingCalls).step c) :=
  consumer_follows roamingNames roamingCalls roamingCalls_uses

/-- With an IP index deleted under another name, ending the VLAN leaves in `SESSION_IDS` an
IP session that the consumer has closed. -/
theorem shared_key_not_mirrored :
    (∀ o ∈ sharedKeyObjs, ∀ x ∈ sharedKeyObjs, o.field = x.field → o = x) ∧
    let w := World.empty.calls (sharedKeyCalls ++ [.ends 102 "a" "b:vlan:c" .none none])
    w.idOf (.ip "a" "b:vlan:c" "10.0.0.2") = some 1 ∧
    (Consumer.empty.replay w.published).ids (.ip "a" "b:vlan:c" "10.0.0.2") = none := by
  decide

end ElanAgent.Session
