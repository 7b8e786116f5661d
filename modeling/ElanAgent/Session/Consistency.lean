import ElanAgent.Session.Pipelines

/-!
# The consistency of the store

`World.seenAt` and `World.idOf` view the store as two partial maps on objects.
`Consistent` says how its structures agree between calls. The pipeline of `end`
then prunes both maps at the object it names, because the index sets lead it to
every descendant; `seen` covers both at its object.
-/

namespace ElanAgent.Session

open Atomic Redis Hierarchy

/-- The score of an object in `LAST_SEEN`. -/
def World.seenAt (w : World) (o : Obj) : Option ℚ := w.lastSeen.lookup o

/-- The session id that `SESSION_IDS` holds for an object. -/
def World.idOf (w : World) (o : Obj) : Option Nat := w.sessionIds.lookup o.field

/-- The port that `MAC_PORT` holds for a MAC. -/
def World.portOf (w : World) (mac : Value) : Option Port := w.macPort.lookup mac.format

@[simp] theorem say_published (w : World) (l : List Message) :
    (w.say l).published = w.published ++ l := rfl
@[simp] theorem say_idOf (w : World) (l : List Message) : (w.say l).idOf = w.idOf := rfl

theorem say_say (w : World) (l l' : List Message) : (w.say l).say l' = w.say (l ++ l') := by
  simp [World.say]

@[simp] theorem say_nil (w : World) : w.say [] = w := by
  simp [World.say]

/-- How the structures of the session store agree on the objects named in `N`. -/
structure Consistent (N : Set Obj) (w : World) : Prop where
  ids : ∀ o ∈ N, o ∈ support w.seenAt ↔ o ∈ support w.idOf
  lower : IsLowerSet (support w.seenAt)
  vlans : ∀ m v, Obj.mac m ∈ N →
    (v ∈ w.sets (macVlansPath m) ↔ Obj.vlan m v ∈ support w.seenAt)
  ips : ∀ m v i, Obj.ip m v i ∈ support w.seenAt → i ∈ w.sets (macVlanIpsPath m v)
  port : ∀ m, Obj.mac m ∈ N → w.portOf m ≠ none → Obj.mac m ∈ support w.seenAt

/-- What calls on the names `N` and `P` preserve: the store is consistent, holds
nothing but those names, and its ids come from the sequence. -/
structure Invariant (N : Set Obj) (P : Set Port) (w : World) : Prop
    extends Consistent N w where
  named : support w.seenAt ⊆ N
  proper : ∀ x ∈ support w.seenAt, x.Proper
  ipsUnder : ∀ m v i, Obj.vlan m v ∈ N → i ∈ w.sets (macVlanIpsPath m v) →
    Obj.vlan m v ∈ support w.seenAt ∧ Obj.ip m v i ∈ N
  portNamed : ∀ f p, w.macPort.lookup f = some p →
    Key.portMacs p.localId p.interface ∈ keysOf N P
  portMac : ∀ f p, w.macPort.lookup f = some p → ∃ m, Obj.mac m ∈ N ∧ m.format = f
  fieldNamed : ∀ f id, w.sessionIds.lookup f = some id → ∃ x ∈ N, x.field = f
  idPos : ∀ f id, w.sessionIds.lookup f = some id → 0 < id
  idLe : ∀ f id, w.sessionIds.lookup f = some id → id ≤ w.sequence

theorem invariant_empty (N : Set Obj) (P : Set Port) : Invariant N P World.empty where
  ids := by simp [World.seenAt, World.idOf, World.empty]
  lower := by
    intro a b _ h
    simp [World.seenAt, World.empty] at h
  vlans := by simp [World.seenAt, World.empty]
  ips := by simp [World.seenAt, World.empty]
  port := by simp [World.portOf, World.empty]
  named := by
    intro o h
    simp [World.seenAt, World.empty] at h
  proper := by simp [World.seenAt, World.empty]
  ipsUnder := by simp [World.empty]
  portNamed := by simp [World.empty]
  portMac := by simp [World.empty]
  fieldNamed := by simp [World.empty]
  idPos := by simp [World.empty]
  idLe := by simp [World.empty]

variable {N : Set Obj} {P : Set Port} {w : World}

/-! ## Names of keys -/

theorem mac_format_iff (fields : Fields N) {m m' : Value} (hm : Obj.mac m ∈ N)
    (hm' : Obj.mac m' ∈ N) : m.format = m'.format ↔ m = m' := by
  refine ⟨fun h => ?_, fun h => by rw [h]⟩
  have hf : (Obj.mac m).field = (Obj.mac m').field := by simp [Obj.field, sessionIdsField, h]
  exact Obj.mac.inj (fields.field hm hm' hf)

theorem Names.mac (names : Names N P) {m v : Value} (h : Obj.vlan m v ∈ N) : Obj.mac m ∈ N :=
  names.lower (by simp) h

theorem Names.vlan (names : Names N P) {m v i : Value} (h : Obj.ip m v i ∈ N) :
    Obj.vlan m v ∈ N :=
  names.lower (by simp) h

theorem vlans_mem_keysOf {m : Value} (h : Obj.mac m ∈ N) : Key.vlans m ∈ keysOf N P := h

theorem ips_mem_keysOf {m v : Value} (h : Obj.vlan m v ∈ N) : Key.ips m v ∈ keysOf N P := h

theorem macVlansPath_inj (names : Names N P) {m m' : Value} (hm : Obj.mac m ∈ N)
    (hm' : Obj.mac m' ∈ N) : macVlansPath m = macVlansPath m' ↔ m = m' :=
  ⟨fun h => Key.vlans.inj (names.key _ (vlans_mem_keysOf hm) _ (vlans_mem_keysOf hm') h),
    fun h => by rw [h]⟩

theorem macVlanIpsPath_inj (names : Names N P) {m v m' v' : Value} (h : Obj.vlan m v ∈ N)
    (h' : Obj.vlan m' v' ∈ N) : macVlanIpsPath m v = macVlanIpsPath m' v' ↔ m = m' ∧ v = v' :=
  ⟨fun e => Key.ips.inj (names.key _ (ips_mem_keysOf h) _ (ips_mem_keysOf h') e),
    fun e => by rw [e.1, e.2]⟩

theorem vlans_ne_ips (names : Names N P) {m m' v : Value} (hm : Obj.mac m ∈ N)
    (h : Obj.vlan m' v ∈ N) : macVlansPath m ≠ macVlanIpsPath m' v := fun e =>
  Key.noConfusion (names.key _ (vlans_mem_keysOf hm) _ (ips_mem_keysOf h) e)

theorem vlans_ne_portMacs (names : Names N P) {p : Port} {m : Value}
    (hp : Key.portMacs p.localId p.interface ∈ keysOf N P) (hm : Obj.mac m ∈ N) :
    macVlansPath m ≠ portMacsPath p := fun e =>
  Key.noConfusion (names.key _ (vlans_mem_keysOf hm) _ hp e)

theorem ips_ne_portMacs (names : Names N P) {p : Port} {m v : Value}
    (hp : Key.portMacs p.localId p.interface ∈ keysOf N P) (h : Obj.vlan m v ∈ N) :
    macVlanIpsPath m v ≠ portMacsPath p := fun e =>
  Key.noConfusion (names.key _ (ips_mem_keysOf h) _ hp e)

/-! ## The pipeline of `end` -/

/-- The pipeline only removes the object it names and its descendants. -/
theorem le_of_ended {mac vlan ip : Value} (h : ip = .none ∨ vlan ≠ .none) {x : Obj}
    (hx : Ended w mac vlan ip x) : objOf mac vlan ip ≤ x := by
  by_cases hv : vlan = .none
  · subst hv
    obtain rfl : ip = .none := by tauto
    cases x <;> simp_all [Ended]
  · by_cases hi : ip = .none
    · subst hi
      cases x <;> simp_all [Ended, objOf, endedVlans, eq_comm]
    · cases x <;> simp_all [Ended, objOf, endedVlans, endedIps, eq_comm]

/-- The index sets lead the pipeline to every descendant that is present. -/
theorem Invariant.ended (inv : Invariant N P w) (names : Names N P) {mac vlan ip : Value}
    (h : ip = .none ∨ vlan ≠ .none) {x : Obj} (hx : x ∈ support w.seenAt)
    (hle : objOf mac vlan ip ≤ x) : Ended w mac vlan ip x := by
  have hN := inv.named hx
  have onIndex : ∀ m v, x = .vlan m v → v ∈ w.sets (macVlansPath m) := by
    rintro m v rfl
    exact (inv.vlans m v (names.mac hN)).mpr hx
  have onIpIndex : ∀ m v i, x = .ip m v i →
      v ∈ w.sets (macVlansPath m) ∧ i ∈ w.sets (macVlanIpsPath m v) := by
    rintro m v i rfl
    refine ⟨(inv.vlans m v (names.mac (names.vlan hN))).mpr ?_, inv.ips m v i hx⟩
    exact inv.lower (show Obj.vlan m v ≤ .ip m v i by simp) hx
  by_cases hv : vlan = .none
  · subst hv
    obtain rfl : ip = .none := by tauto
    cases x <;> simp_all [Ended, endedVlans, endedIps]
  · by_cases hi : ip = .none
    · subst hi
      cases x <;> simp_all [Ended, objOf, endedVlans, endedIps]
    · cases x <;> simp_all [Ended, objOf, endedVlans, endedIps]

/-- Whatever the pipeline removes has a name. -/
theorem Invariant.ended_named (inv : Invariant N P w) (names : Names N P) {mac vlan ip : Value}
    (h : ip = .none ∨ vlan ≠ .none) (hN : objOf mac vlan ip ∈ N) {x : Obj}
    (hx : Ended w mac vlan ip x) : x ∈ N := by
  have hmac : Obj.mac mac ∈ N := names.lower (mac_le_objOf mac vlan ip) hN
  have hvlan : ∀ v ∈ endedVlans w mac vlan, Obj.vlan mac v ∈ N := by
    intro v hv
    by_cases hvn : vlan = .none
    · simp only [endedVlans, hvn, if_true] at hv
      exact inv.named ((inv.vlans mac v hmac).mp hv)
    · simp only [endedVlans, hvn, if_false, List.mem_singleton] at hv
      subst v
      exact names.lower (by unfold objOf; split_ifs <;> simp) hN
  cases x with
  | mac m => rwa [hx.2]
  | vlan m v => rw [hx.1]; exact hvlan v hx.2.2
  | ip m v i =>
    obtain ⟨rfl, hv, hi⟩ := hx
    by_cases hin : ip = .none
    · simp only [endedIps, hin, if_true] at hi
      exact (inv.ipsUnder m v i (hvlan v hv) hi).2
    · have hvn : vlan ≠ .none := by tauto
      simp only [endedIps, hin, if_false, List.mem_singleton] at hi
      simp only [endedVlans, hvn, if_false, List.mem_singleton] at hv
      subst hi hv
      rwa [objOf_ip hvn hin] at hN

end ElanAgent.Session
