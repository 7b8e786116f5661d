import ElanAgent.Session.Runs

/-!
# The index of IPs and the sets of ports

`MAC_VLAN_IPS` must hold an IP exactly while its session is open, and the set of a
port must hold a MAC exactly while that port is recorded for it. `seen` completes both.
Two paths forget a removal: the end of one IP leaves it in the index of its VLAN, and
an interface that becomes known leaves the MAC in the set of the unknown interface.

The results say that these are the only ones: on runs without them, both are exact.
-/

namespace ElanAgent.Session

open Atomic Redis Hierarchy

variable {N : Set Obj} {P : Set Port} {w : World}

/-! ## IPs -/

/-- Only open IP sessions are in the index of their VLAN. -/
def IpsExact (N : Set Obj) (w : World) : Prop :=
  ∀ m v i, Obj.vlan m v ∈ N → i ∈ w.sets (macVlanIpsPath m v) →
    Obj.ip m v i ∈ support w.seenAt

/-- The call is not the end of an IP session that is open. -/
def EndsNoOpenIp (w : World) : Call → Prop
  | .seen .. => True
  | .ends _ mac vlan ip _ => vlan ≠ .none → ip ≠ .none → w.seenAt (.ip mac vlan ip) = none

theorem Touches.ipsExact {now time : ℚ} {mac vlan ip : Value} {port oldPort : Option Port}
    {w' : World} (effect : Touches N P now mac vlan port oldPort ip time w w')
    (h : IpsExact N w) : IpsExact N w' := by
  intro m v i hv hi
  rw [effect.seenAt, support_cover]
  rcases (effect.ips m v i hv).mp hi with hi | hle
  · exact .inr (h m v i hv hi)
  · exact .inl hle

theorem Ends.ipsExact {now time : ℚ} {mac vlan ip : Value} {w' : World}
    (effect : Ends N P now mac vlan ip time w w')
    (closed : vlan ≠ .none → ip ≠ .none → w.seenAt (.ip mac vlan ip) = none)
    (h : IpsExact N w) : IpsExact N w' := by
  intro m v i hv hi
  obtain ⟨hi, hnot⟩ := (effect.ips m v i hv).mp hi
  have present := h m v i hv hi
  rw [effect.seenAt, support_prune]
  refine ⟨present, fun hle => ?_⟩
  by_cases hvn : vlan = .none
  · subst hvn
    exact hnot (by simpa using hle)
  · by_cases hin : ip = .none
    · subst hin
      rw [objOf_vlan hvn] at hle hnot
      exact hnot (by simpa using hle)
    · rw [objOf_ip hvn hin] at hle
      obtain ⟨rfl, rfl, rfl⟩ := Obj.ip_le_ip.mp hle
      exact present (closed hvn hin)

theorem CallEffect.ipsExact {c : Call} {w' : World} (effect : CallEffect N P c w w')
    (ok : EndsNoOpenIp w c) (h : IpsExact N w) : IpsExact N w' := by
  cases effect with
  | raises => exact h
  | ends _ effect => exact effect.ipsExact ok h
  | stays _ touch => exact touch.ipsExact h
  | moves _ ends _ touch => exact touch.ipsExact (ends.ipsExact (fun hv => absurd rfl hv) h)

/-- While no call ends one open IP session, `macHasIpOnVlan` is true exactly of the IP
sessions that are open. -/
theorem macHasIpOnVlan_iff_open (names : Names N P) (cs : List Call)
    (h : ∀ c ∈ cs, c.Uses N P) (along : Along EndsNoOpenIp World.empty cs) (m v i : Value)
    (hv : Obj.vlan m v ∈ N) :
    ((macHasIpOnVlan m i v).run handler (World.empty.calls cs)).1 = true ↔
      Obj.ip m v i ∈ support (World.empty.calls cs).seenAt ∧
      Obj.ip m v i ∈ support (World.empty.calls cs).idOf := by
  obtain ⟨inv, exact⟩ := along_rule names (Q := IpsExact N)
    (fun _ _ _ _ _ effect ok hQ => effect.ipsExact ok hQ) h along (invariant_empty N P)
    (by simp [IpsExact, World.empty])
  simp only [macHasIpOnVlan, run_sismember, decide_eq_true_eq]
  constructor
  · intro hi
    have present := exact m v i hv hi
    exact ⟨present, (inv.ids _ (inv.named present)).mp present⟩
  · rintro ⟨present, -⟩
    exact inv.ips m v i present

/-- The end of an open IP session leaves the IP in the index of its VLAN. -/
theorem Ends.still_indexed {now time : ℚ} {mac vlan ip : Value} {w' : World}
    (effect : Ends N P now mac vlan ip time w w') (inv : Invariant N P w) (hv : vlan ≠ .none)
    (hi : ip ≠ .none) (hN : Obj.vlan mac vlan ∈ N)
    (present : Obj.ip mac vlan ip ∈ support w.seenAt) :
    ip ∈ w'.sets (macVlanIpsPath mac vlan) ∧ Obj.ip mac vlan ip ∉ support w'.seenAt := by
  refine ⟨(effect.ips mac vlan ip hN).mpr ⟨inv.ips _ _ _ present, ?_⟩, ?_⟩
  · rw [objOf_ip hv hi]
    exact Obj.not_ip_le_vlan
  · rw [effect.seenAt, support_prune, objOf_ip hv hi]
    exact fun h => h.2 (Set.mem_Ici.mpr le_rfl)

theorem macHasIpOnVlan_iff_open_roaming :
    ((macHasIpOnVlan "00:11" "10.0.0.2" "eth0").run handler
      (World.empty.calls (roamingCalls.take 2))).1 = true ↔
      Obj.ip "00:11" "eth0" "10.0.0.2" ∈
        support (World.empty.calls (roamingCalls.take 2)).seenAt ∧
      Obj.ip "00:11" "eth0" "10.0.0.2" ∈
        support (World.empty.calls (roamingCalls.take 2)).idOf :=
  macHasIpOnVlan_iff_open roamingNames (roamingCalls.take 2)
    (fun c hc => roamingCalls_uses c (List.mem_of_mem_take hc)) ⟨trivial, trivial, trivial⟩
    "00:11" "eth0" "10.0.0.2" (by decide)

/-- After a device's IP session has ended, the index still gives it the IP. -/
theorem macHasIpOnVlan_ended :
    let w := World.empty.calls [.seen 100 "00:11" "eth0" none "10.0.0.2" none,
      .ends 101 "00:11" "eth0" "10.0.0.2" none]
    ((macHasIpOnVlan "00:11" "10.0.0.2" "eth0").run handler w).1 = true ∧
    w.seenAt (.ip "00:11" "eth0" "10.0.0.2") = none ∧
    w.idOf (.ip "00:11" "eth0" "10.0.0.2") = none := by
  decide

/-! ## Ports -/

/-- Ports with different local ids or interfaces have different sets. -/
def PortNames (P : Set Port) : Prop := Set.InjOn Key.path (keysOf ∅ P)

/-- A MAC is in the set of a port exactly when that port is recorded for it. -/
def PortsExact (N : Set Obj) (P : Set Port) (w : World) : Prop :=
  ∀ m l i, Obj.mac m ∈ N → Key.portMacs l i ∈ keysOf N P →
    (m ∈ w.sets (Key.portMacs l i).path ↔
      ∃ q, w.portOf m = some q ∧ q.localId = l ∧ q.interface = i)

/-- The call supplies the interface of a recorded port that has none. -/
def FillsInterface (w : World) : Call → Bool
  | .seen _ mac _ port _ _ =>
    match port, w.portOf mac with
    | some port, some old =>
      !port.changed old && old.interface == .none && port.interface != .none
    | _, _ => false
  | .ends .. => false

theorem portMacsPath_eq (p : Port) :
    portMacsPath p = (Key.portMacs p.localId p.interface).path := rfl

theorem portMacsPath_inj (hP : PortNames P) {l i l' i' : Value}
    (h : Key.portMacs l i ∈ keysOf N P) (h' : Key.portMacs l' i' ∈ keysOf N P) :
    (Key.portMacs l i).path = (Key.portMacs l' i').path ↔ l = l' ∧ i = i' :=
  ⟨fun e => Key.portMacs.inj (hP h h' e), fun e => by rw [e.1, e.2]⟩

theorem Ends.portsExact {now time : ℚ} {mac vlan ip : Value} {w' : World}
    (effect : Ends N P now mac vlan ip time w w') (names : Names N P)
    (hN : objOf mac vlan ip ∈ N) (h : PortsExact N P w) : PortsExact N P w' := by
  intro m l i hm hk
  have hsets := effect.portMacs ⟨l, i, none, ∅⟩ hk m
  rw [portMacsPath_eq] at hsets
  rw [hsets, effect.portOf names hN hm, h m l i hm hk]
  by_cases hc : ClosesMac w mac vlan ∧ m = mac
  · obtain ⟨hc, rfl⟩ := hc
    simp only [hc, true_and, and_self, if_true, reduceCtorEq, false_and, exists_false, iff_false]
    rintro ⟨⟨q, hq, rfl, rfl⟩, hno⟩
    exact hno ⟨q, hq, rfl⟩
  · rw [if_neg hc]
    exact and_iff_left fun hx => hc ⟨hx.1, hx.2.1⟩

/-- A new port takes the place of a recorded one only under the same key. -/
theorem Touches.portsExact {now time : ℚ} {mac vlan ip : Value} {port oldPort : Option Port}
    {w' : World} (effect : Touches N P now mac vlan port oldPort ip time w w')
    (names : Names N P) (hP : PortNames P) (hN : objOf mac vlan ip ∈ N)
    (hport : ∀ p, port = some p → Key.portMacs p.localId p.interface ∈ keysOf N P)
    (same : ∀ new q, newPort port oldPort = some new → w.portOf mac = some q →
      q.localId = new.localId ∧ q.interface = new.interface)
    (h : PortsExact N P w) : PortsExact N P w' := by
  intro m l i hm hk
  have hsets := effect.portMacs ⟨l, i, none, ∅⟩ hk m
  rw [portMacsPath_eq] at hsets
  rw [hsets, effect.portOf names hN hm, h m l i hm hk]
  by_cases hmm : m = mac
  · subst m
    cases hnew : newPort port oldPort with
    | none => simp
    | some new =>
      have hkey := portMacsPath_inj hP hk (hport new (newPort_eq_some hnew))
      have hsame := same new
      simp only [portMacsPath_eq, Option.some.injEq, exists_eq_left', true_and, if_true,
        Option.some_or, hkey]
      constructor
      · rintro (⟨q, hq, rfl, rfl⟩ | ⟨rfl, rfl⟩)
        · obtain ⟨hl, hi⟩ := hsame q hnew hq
          exact ⟨hl.symm, hi.symm⟩
        · exact ⟨rfl, rfl⟩
      · rintro ⟨rfl, rfl⟩
        exact .inr ⟨rfl, rfl⟩
  · simp [hmm]

theorem localId_eq_of_not_changed {port old : Port} (h : port.changed old = false) :
    port.localId = old.localId := by
  by_contra hne
  simp [Port.changed, hne] at h

/-- A port that is completed keeps the key of the recorded one, unless it fills in the
interface. -/
theorem merge_same_key {now : ℚ} {mac vlan ip : Value} {port : Option Port} {time : Option ℚ}
    (stays : Moves w mac port = false)
    (ok : FillsInterface w (.seen now mac vlan port ip time) = false) {new q : Port}
    (hnew : w.merge mac port = some new) (hq : w.portOf mac = some q) :
    q.localId = new.localId ∧ q.interface = new.interface := by
  obtain ⟨p, rfl, hp⟩ := Option.map_eq_some_iff.mp hnew
  have hc : p.changed q = false := by simpa [Moves, hq] using stays
  simp only [hq, hc, Bool.false_eq_true, if_false] at hp
  rw [← hp]
  refine ⟨(localId_eq_of_not_changed hc).symm, ?_⟩
  by_cases hi : q.interface = .none
  · simp only [FillsInterface, hq, hc, hi, Bool.not_false, beq_self_eq_true, Bool.and_self,
      Bool.true_and, bne_eq_false_iff_eq] at ok
    simp [Port.completed, hi, ok]
  · simp [Port.completed, hi]

theorem CallEffect.portsExact {c : Call} {w' : World} (effect : CallEffect N P c w w')
    (inv : Invariant N P w) (names : Names N P) (hP : PortNames P) (hc : c.Uses N P)
    (ok : FillsInterface w c = false) (h : PortsExact N P w) : PortsExact N P w' := by
  obtain ⟨hN, hp⟩ := hc
  cases effect with
  | raises => exact h
  | ends _ effect => exact effect.portsExact names hN h
  | stays hm touch =>
    refine touch.portsExact names hP hN (fun p hp' => merge_named inv.portNamed hp hp') ?_ h
    intro new q hnew hq
    exact merge_same_key hm ok (newPort_eq_some hnew) hq
  | @moves now mac vlan port ip time _ u _ hm ends _ touch =>
    have hmac : Obj.mac mac ∈ N := names.lower (mac_le_objOf mac vlan ip) hN
    have ended : objOf mac .none .none ∈ N := by rwa [objOf_mac]
    refine touch.portsExact names hP hN (fun p hp' => merge_named inv.portNamed hp hp') ?_
      (ends.portsExact names ended h)
    intro new q _ hq
    have closes : ClosesMac w mac .none := by
      refine ⟨rfl, (inv.ids _ hmac).mp (inv.port mac hmac fun hnone => ?_)⟩
      unfold Moves at hm
      cases port <;> simp [hnone] at hm
    rw [ends.portOf names ended hmac, if_pos ⟨closes, rfl⟩] at hq
    cases hq

/-- While no call supplies an interface that was unknown, the set of a port holds exactly
the MACs that have it recorded. -/
theorem portMacs_iff_macPort (names : Names N P) (hP : PortNames P) (cs : List Call)
    (h : ∀ c ∈ cs, c.Uses N P) (along : Along (FillsInterface · · = false) World.empty cs)
    (m : Value) (port : Port) (hm : Obj.mac m ∈ N) (hp : port ∈ P) :
    m ∈ ((portMacs port).run handler (World.empty.calls cs)).1 ↔
      ∃ q, ((macPort m).run handler (World.empty.calls cs)).1 = some q ∧
        q.localId = port.localId ∧ q.interface = port.interface := by
  obtain ⟨-, exact⟩ := along_rule names (Q := PortsExact N P)
    (fun _ _ _ hc inv effect ok hQ => effect.portsExact inv names hP hc ok hQ) h along
    (invariant_empty N P) (by simp [PortsExact, World.empty, World.portOf])
  exact exact m port.localId port.interface hm ⟨port, hp, rfl, rfl⟩

theorem portNames_of_ok {ports : List Port}
    (h : ∀ p ∈ ports, ∀ q ∈ ports, portMacsPath p = portMacsPath q →
      p.localId = q.localId ∧ p.interface = q.interface) : PortNames {p | p ∈ ports} := by
  intro k hk k' hk' he
  match k, k' with
  | .portMacs l i, .portMacs l' i' =>
    obtain ⟨p, hp, rfl, rfl⟩ := hk
    obtain ⟨q, hq, rfl, rfl⟩ := hk'
    obtain ⟨hl, hi⟩ := h p hp q hq he
    rw [hl, hi]
  | .vlans _, _ | .ips _ _, _ => simp [keysOf] at hk
  | _, .vlans _ | _, .ips _ _ => simp [keysOf] at hk'

theorem portMacs_iff_macPort_roaming :
    ("00:11" : Value) ∈ ((portMacs ⟨"sw1", "g1", none, ∅⟩).run handler
      (World.empty.calls roamingCalls)).1 ↔
      ∃ q, ((macPort "00:11").run handler (World.empty.calls roamingCalls)).1 = some q ∧
        q.localId = "sw1" ∧ q.interface = "g1" :=
  portMacs_iff_macPort roamingNames (portNames_of_ok (by decide)) roamingCalls roamingCalls_uses
    (by decide) "00:11" ⟨"sw1", "g1", none, ∅⟩ (by decide) (by decide)

/-- Once its interface is known, a device is still in the set of the unknown interface. -/
theorem portMacs_filled :
    let w := World.empty.calls [.seen 100 "00:11" .none (some ⟨"sw1", .none, none, ∅⟩) .none none,
      .seen 101 "00:11" .none (some ⟨"sw1", "g1", none, ∅⟩) .none none]
    ("00:11" : Value) ∈ ((portMacs ⟨"sw1", .none, none, ∅⟩).run handler w).1 ∧
    ((macPort "00:11").run handler w).1 = some ⟨"sw1", "g1", none, ∅⟩ := by
  decide

end ElanAgent.Session
