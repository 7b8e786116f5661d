import ElanAgent.Net.Address
import ElanAgent.Session.Tracker

/-!
# What the device tracker sees

`bin/device_trackerd.py` turns each captured packet into a call of `seen`, with the IP of
its sender if it is an ARP packet or an IPv6 neighbour discovery. MACs and IPs that stand
for no device are left out by their texts.

The port search and the authorization check that a new session starts run in a thread of
their own; the calls on sessions that they make are among the calls of others here. The
host name and fingerprint that `process_packet` goes on to read do not reach the sessions.
-/

namespace ElanAgent.Session

open Atomic Hierarchy Net

/-- `text[:n]`. -/
def textPrefix (text : String) (n : Nat) : String := String.ofList (text.toList.take n)

/-- Broadcast packets, and the MACs that IANA reserves. -/
def ignoreMAC (mac : String) : Bool :=
  mac ∈ ["ff:ff:ff:ff:ff:ff", "00:00:00:00:00:00"] ||
  textPrefix mac 8 ∈ ["00:00:5e", "01:00:5e", "02:00:5e", "03:00:5e"] ||
  textPrefix mac 5 ∈ ["33:33"]

/-- Broadcast, multicast and unspecified addresses: `range(224, 239)` stops at 238. -/
def ignoreIP (ip : String) : Bool :=
  textPrefix ip 6 = "0.0.0." || ip ∈ ["255.255.255.255", "::"] ||
  textPrefix ip 4 ∈ (List.range' 224 (239 - 224)).map (fun v => toString v ++ ".") ||
  ip = "::"

/-- `packet.highest_layer`, with what is read of it. -/
inductive Layer where
  | arp (srcProtoIpv4 : IPv4)
  | icmpv6 (type : Nat) (src : IPv6)
  | other (name : String)

/-- A captured packet. `now` is the reading of the clock by `seen`. -/
structure Packet (interfaces : List String) where
  now : ℚ
  ethSrc : String
  interfaceId : Fin interfaces.length
  vlanId : Option String
  timeEpoch : ℚ
  highestLayer : Layer

namespace Packet

variable {interfaces : List String} (p : Packet interfaces)

/-- `'{nic}.{vlan_id}'`. -/
def vlan : String := interfaces.get p.interfaceId ++ "." ++ p.vlanId.getD "0"

/-- The IP of the sender, where one is told. -/
def ip : Option String :=
  match p.highestLayer with
  | .arp srcProtoIpv4 => some srcProtoIpv4.text
  | .icmpv6 type src => if toString type ∈ ["136", "135"] then some src.text else none
  | .other _ => none

/-- The IP with which the sender is seen. -/
def seenIp : Value :=
  match p.ip with
  | some ip => if ignoreIP ip then .none else ip
  | none => .none

/-- The call of `process_packet` on the sessions. -/
def call : Option Call :=
  if ignoreMAC p.ethSrc then none
  else some (.seen p.now p.ethSrc p.vlan none p.seenIp (some (truncate p.timeEpoch)))

end Packet

/-- What happens to the sessions: a packet, or `seen` called by others without an IP. -/
inductive Event (interfaces : List String) where
  | packet (p : Packet interfaces)
  | seen (now : ℚ) (mac vlan : Value) (port : Option Port) (time : Option ℚ)

variable {interfaces : List String}

def Event.call : Event interfaces → Option Call
  | .packet p => p.call
  | .seen now mac vlan port time => some (.seen now mac vlan port .none time)

/-- The store after the events, from an empty one. -/
def World.after (events : List (Event interfaces)) : World :=
  World.empty.calls (events.filterMap Event.call)

/-! ## The filter, by octets -/

theorem textPrefix_eq {text p : String} {n : Nat} (hn : p.length = n) :
    textPrefix text n = p ↔ ∃ rest, text.toList = p.toList ++ rest := by
  rw [← String.toList_inj, textPrefix, String.toList_ofList]
  constructor
  · intro same
    exact ⟨text.toList.drop n, by rw [← same, List.take_append_drop]⟩
  · rintro ⟨rest, same⟩
    rw [same, ← hn, ← String.length_toList, List.take_left]

theorem prefix_zero (a : IPv4) :
    textPrefix a.text 6 = "0.0.0." ↔ a.first = 0 ∧ a.second = 0 ∧ a.third = 0 := by
  have zero : '.' ∉ decimal 0 := not_mem_decimal (by decide)
  have fields (rest : List Char) : "0.0.0.".toList ++ rest =
      decimal 0 ++ '.' :: (decimal 0 ++ '.' :: (decimal 0 ++ '.' :: rest)) := rfl
  simp only [textPrefix_eq (n := 6) (p := "0.0.0.") rfl, fields,
    IPv4.toList_text_eq zero zero zero, decimal_inj, exists_and_left, exists_eq', and_true]
  simp only [Fin.ext_iff, Fin.val_zero]

theorem prefix_octet (a : IPv4) {v : Nat} (hv : (toString v ++ ".").length = 4) :
    textPrefix a.text 4 = toString v ++ "." ↔ a.first = v := by
  have fields (rest : List Char) :
      (toString v ++ ".").toList ++ rest = decimal v ++ '.' :: rest := by simp [decimal]
  have dots (n : Nat) : '.' ∉ decimal n := not_mem_decimal (by decide)
  simp only [textPrefix_eq hv, fields, IPv4.toList_text, split_at (dots _) (dots _),
    exists_and_left, exists_eq', and_true, decimal_inj]

theorem prefix_multicast (a : IPv4) :
    textPrefix a.text 4 ∈ (List.range' 224 (239 - 224)).map (fun v => toString v ++ ".") ↔
      224 ≤ a.first.val ∧ a.first.val ≤ 238 := by
  have lengths : ∀ v ∈ List.range' 224 (239 - 224), (toString v ++ ".").length = 4 := by decide
  rw [List.mem_map]
  constructor
  · rintro ⟨v, hv, same⟩
    have hfirst := (prefix_octet a (lengths v hv)).mp same.symm
    rw [List.mem_range'_1] at hv
    omega
  · intro range
    have hv : a.first.val ∈ List.range' 224 (239 - 224) := by
      rw [List.mem_range'_1]
      omega
    exact ⟨a.first, hv, ((prefix_octet a (lengths _ hv)).mpr rfl).symm⟩

/-- The limited broadcast address. -/
def broadcast : IPv4 := ⟨255, 255, 255, 255⟩

theorem text_eq_broadcast (a : IPv4) : a.text = "255.255.255.255" ↔ a = broadcast := by
  have text : broadcast.text = "255.255.255.255" := by decide
  rw [← text, IPv4.text_injective.eq_iff]

/-- What the filter does to an IPv4 address. -/
theorem ignoreIP_text (a : IPv4) : ignoreIP a.text ↔
    (a.first = 0 ∧ a.second = 0 ∧ a.third = 0) ∨
      (224 ≤ a.first.val ∧ a.first.val ≤ 238) ∨ a = broadcast := by
  have noColon : a.text ≠ "::" := fun same => a.colon_not_mem (by rw [same]; decide)
  simp only [ignoreIP, Bool.or_eq_true, decide_eq_true_eq, prefix_zero, prefix_multicast,
    List.mem_cons, List.not_mem_nil, or_false, text_eq_broadcast, noColon]
  rw [or_right_comm, or_assoc]

/-! ## Runs -/

/-- The addresses of no device: `0.0.0.0/24`, the multicast range and the broadcast. -/
def Reserved (a : IPv4) : Prop :=
  (a.first = 0 ∧ a.second = 0 ∧ a.third = 0) ∨
    (224 ≤ a.first.val ∧ a.first.val ≤ 239) ∨ a = broadcast

instance (a : IPv4) : Decidable (Reserved a) := inferInstanceAs (Decidable (_ ∨ _))

/-- `a` is the sender of an ARP packet, from a MAC that is not ignored. -/
def Packet.Sends (p : Packet interfaces) (a : IPv4) : Prop :=
  p.highestLayer = .arp a ∧ ignoreMAC p.ethSrc = false

/-- No reserved address has a session after the events, and the sender of the last one has
its session if it is a packet with another address. -/
def Filtered (events : List (Event interfaces)) : Prop :=
  (∀ mac vlan a, Reserved a → (World.after events).seenAt (.ip mac vlan a.text) = none) ∧
  ∀ p, events.getLast? = some (.packet p) → ∀ a, p.Sends a → ¬ Reserved a →
    (World.after events).seenAt (.ip p.ethSrc p.vlan a.text) ≠ none

theorem after_append (events : List (Event interfaces)) (e : Event interfaces) :
    World.after (events ++ [e]) = (World.after events).calls e.call.toList := by
  rw [World.after, World.after, List.filterMap_append, calls_append]
  cases h : e.call <;> simp [h]

/-- A packet that tells `a` opens its session. -/
theorem after_packet (events : List (Event interfaces)) {p : Packet interfaces} {a : IPv4}
    (sends : p.Sends a) (kept : ignoreIP a.text = false) :
    (World.after (events ++ [.packet p])).seenAt (.ip p.ethSrc p.vlan a.text) ≠ none := by
  obtain ⟨harp, hmac⟩ := sends
  have seenIp : p.seenIp = .str a.text := by simp [Packet.seenIp, Packet.ip, harp, kept]
  rw [after_append, Event.call, Packet.call, hmac, seenIp]
  change ((World.after events).step (.seen p.now p.ethSrc p.vlan none a.text _)).seenAt _ ≠ none
  rw [step_seen, cover_of_le (ip_le_objOf.mpr ⟨by simp, by simp, rfl, rfl, rfl⟩)]
  simp

/-- `seen` opens no reserved session if it is not given a reserved address. -/
theorem step_reserved {w : World} {a : IPv4} {mac vlan : Value}
    (h : w.seenAt (.ip mac vlan a.text) = none) (now : ℚ) (m v : Value) (port : Option Port)
    {ip : Value} (time : Option ℚ) (other : ip ≠ .str a.text) :
    (w.step (.seen now m v port ip time)).seenAt (.ip mac vlan a.text) = none := by
  rw [step_seen, cover_of_not_le fun hle => other (ip_le_objOf.mp hle).2.2.2.2.symm]
  rcases seenPort_seenAt now m port w (.ip mac vlan a.text) with gone | same
  · exact gone
  · rw [same, h]

/-- The IP that a packet tells is reserved only for a sender in `239.0.0.0/8`. -/
theorem seenIp_ne {p : Packet interfaces} (hmac : ignoreMAC p.ethSrc = false)
    (h : ∀ a, p.Sends a → a.first ≠ 239) {a : IPv4} (reserved : Reserved a) :
    p.seenIp ≠ .str a.text := by
  intro same
  unfold Packet.seenIp Packet.ip at same
  cases hl : p.highestLayer with
  | arp src =>
    simp only [hl] at same
    split at same
    · cases same
    · rename_i kept
      obtain rfl := IPv4.text_injective (Value.str.inj same)
      have hfirst := h src ⟨hl, hmac⟩
      rw [ignoreIP_text] at kept
      rcases reserved with zero | multicast | whole
      · exact kept (.inl zero)
      · exact kept (.inr (.inl ⟨multicast.1, by have := Fin.val_ne_of_ne hfirst; omega⟩))
      · exact kept (.inr (.inr whole))
  | icmpv6 type src =>
    by_cases neighbour : toString type ∈ ["136", "135"]
    · simp only [hl, if_pos neighbour] at same
      split at same
      · cases same
      · exact a.colon_not_mem (Value.str.inj same ▸ src.colon)
    · simp only [hl, if_neg neighbour, reduceCtorEq] at same
  | other name => simp [hl] at same

/-- One event opens no reserved session if it tells none of `239.0.0.0/8`. -/
theorem after_reserved (events : List (Event interfaces)) (e : Event interfaces)
    (h : ∀ p a, e = .packet p → p.Sends a → a.first ≠ 239) {a : IPv4} (reserved : Reserved a)
    {mac vlan : Value} (before : (World.after events).seenAt (.ip mac vlan a.text) = none) :
    (World.after (events ++ [e])).seenAt (.ip mac vlan a.text) = none := by
  rw [after_append]
  cases e with
  | packet p =>
    cases hmac : ignoreMAC p.ethSrc with
    | true =>
      simp only [Event.call, Packet.call, hmac]
      exact before
    | false =>
      simp only [Event.call, Packet.call, hmac]
      exact step_reserved before _ _ _ _ _ (seenIp_ne hmac (fun a => h p a rfl) reserved)
  | seen now m v port time => exact step_reserved before _ _ _ _ _ (by simp)

theorem none_reserved (events : List (Event interfaces))
    (h : ∀ p a, .packet p ∈ events → p.Sends a → a.first ≠ 239) {a : IPv4}
    (reserved : Reserved a) (mac vlan : Value) :
    (World.after events).seenAt (.ip mac vlan a.text) = none := by
  induction events using List.reverseRecOn with
  | nil => rfl
  | append_singleton events e ih =>
    refine after_reserved events e (fun p a he => h p a (by simp [he])) reserved ?_
    exact ih fun p a hp => h p a (List.mem_append_left _ hp)

/-- The filter does what it is for through a whole run if and only if no packet of the run
tells a sender in `239.0.0.0/8`, which the filter lets pass. -/
theorem filtered_iff (events : List (Event interfaces)) :
    (∀ before, before <+: events → Filtered before) ↔
      ∀ p a, .packet p ∈ events → p.Sends a → a.first ≠ 239 := by
  constructor
  · intro h p a hp sends hfirst
    obtain ⟨before, after, rfl⟩ := List.append_of_mem hp
    have kept : ignoreIP a.text = false := by
      rw [Bool.eq_false_iff, Ne, ignoreIP_text, hfirst]
      rintro (⟨zero, -⟩ | ⟨-, upper⟩ | whole)
      · exact absurd zero (by decide)
      · exact absurd upper (by decide)
      · rw [whole] at hfirst
        exact absurd hfirst (by decide)
    have reserved : Reserved a := .inr (.inl (by rw [hfirst]; decide))
    have filtered := h (before ++ [.packet p]) ⟨after, by simp⟩
    exact after_packet before sends kept (filtered.1 _ _ a reserved)
  · rintro h before ⟨rest, rfl⟩
    refine ⟨fun mac vlan a reserved => ?_, fun p last a sends free => ?_⟩
    · exact none_reserved before (fun p a hp => h p a (List.mem_append_left rest hp)) reserved
        mac vlan
    · obtain ⟨earlier, rfl⟩ := List.getLast?_eq_some_iff.mp last
      refine after_packet earlier sends ?_
      rw [Bool.eq_false_iff, Ne, ignoreIP_text]
      rintro (zero | ⟨lower, upper⟩ | whole)
      · exact free (.inl zero)
      · exact free (.inr (.inl ⟨lower, by omega⟩))
      · exact free (.inr (.inr whole))

/-- A host that announces `239.255.255.250`, as in the discovery of services. -/
def discovery : List (Event ["eth0"]) :=
  [.packet ⟨100, "00:11:22:33:44:55", 0, none, 100, .arp ⟨239, 255, 255, 250⟩⟩]

/-- The session of the multicast address is opened. -/
theorem discovery_not_filtered :
    (World.after discovery).seenAt (.ip "00:11:22:33:44:55" "eth0.0" "239.255.255.250") = some 100 ∧
    ¬ ∀ before, before <+: discovery → Filtered before := by
  have opened : (World.after discovery).seenAt
      (.ip "00:11:22:33:44:55" "eth0.0" "239.255.255.250") = some 100 := by decide +kernel
  refine ⟨opened, fun h => ?_⟩
  have closed := (h discovery List.prefix_rfl).1 "00:11:22:33:44:55" "eth0.0"
    ⟨239, 255, 255, 250⟩ (by decide)
  exact absurd (opened.symm.trans closed) (by simp)

end ElanAgent.Session
