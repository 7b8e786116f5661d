import ElanAgent.Session.DeviceTracker
import ElanAgent.Session.Hostnames

/-!
# The pings of the session tracker

`bin/session_trackerd.py` asks an IP whether it is there with an ARP request or a neighbour
solicitation, sent on the interface and with the tag that it reads back from the name of the
VLAN. The device tracker made that name from the interface and the tag of a packet, so the
answer is one more packet of the same VLAN.
-/

namespace ElanAgent.Session

open Net

/-! ## Texts -/

/-- `text.rsplit(sep, 1)`, where the separator occurs. -/
def rsplit (sep : Char) (text : String) : Option (String × String) :=
  let last := text.toList.reverse.takeWhile (· ≠ sep)
  match text.toList.reverse.dropWhile (· ≠ sep) with
  | [] => none
  | _ :: before => some (String.ofList before.reverse, String.ofList last.reverse)

/-- Digits, with single underscores between them. -/
def digits (text : List Char) : Option ℕ :=
  let groups := text.splitOn '_'
  if groups.all fun group => group ≠ [] && group.all Char.isDigit then
    some (Nat.ofDigitChars 10 groups.flatten 0)
  else none

/-- `int(text)` for the ASCII texts. The blanks around the number do not count. -/
def int (text : String) : Option ℤ :=
  let strip (cs : List Char) := (cs.dropWhile Char.isWhitespace).reverse
  match strip (strip text.toList) with
  | '+' :: cs => (digits cs).map fun n : ℕ => (n : ℤ)
  | '-' :: cs => (digits cs).map fun n : ℕ => -(n : ℤ)
  | cs => (digits cs).map fun n : ℕ => (n : ℤ)

theorem rsplit_append (before : String) {sep : Char} {last : String} (h : sep ∉ last.toList) :
    rsplit sep (before ++ sep.toString ++ last) = some (before, last) := by
  have reversed : (before ++ sep.toString ++ last).toList.reverse =
      last.toList.reverse ++ sep :: before.toList.reverse := by
    simp [Char.toString]
  have apart : ∀ c ∈ last.toList.reverse, decide (c ≠ sep) = true := by
    intro c hc
    rw [List.mem_reverse] at hc
    exact decide_eq_true fun same => h (same ▸ hc)
  simp only [rsplit, reversed, List.takeWhile_append_of_pos apart,
    List.dropWhile_append_of_pos apart]
  simp

theorem digits_decimal (n : ℕ) : digits (decimal n) = some n := by
  have noUnderscore : '_' ∉ decimal n := not_mem_decimal (by decide)
  have whole : (decimal n).splitOn '_' = [decimal n] := by
    simpa using List.splitOn_eq_singleton noUnderscore
  have allDigits : (decimal n).all Char.isDigit := by
    rw [List.all_eq_true]
    exact fun c hc => isDigit_of_mem_decimal hc
  simp only [digits, whole, List.all_cons, List.all_nil, allDigits]
  simp [decimal, Nat.toString_eq_repr, Nat.toList_repr, Nat.ofDigitChars_ten_toDigits]

theorem decimal_strip (n : ℕ) :
    ((decimal n).dropWhile Char.isWhitespace).reverse = (decimal n).reverse ∧
    ((decimal n).reverse.dropWhile Char.isWhitespace).reverse = decimal n := by
  have plain : ∀ c ∈ decimal n, ¬ c.isWhitespace := by
    intro c hc blank
    have digit := isDigit_of_mem_decimal hc
    simp only [Char.isWhitespace, Bool.or_eq_true, decide_eq_true_eq] at blank
    rcases blank with ((rfl | rfl) | rfl) | rfl <;> exact absurd digit (by decide)
  have kept : ∀ cs : List Char, (∀ c ∈ cs, c ∈ decimal n) → cs.dropWhile Char.isWhitespace = cs := by
    intro cs h
    cases cs with
    | nil => rfl
    | cons c cs => exact List.dropWhile_cons_of_neg (plain c (h c List.mem_cons_self))
  rw [kept _ fun c hc => hc, kept _ fun c hc => List.mem_reverse.mp hc, List.reverse_reverse]
  exact ⟨rfl, rfl⟩

/-- A number is read back from its text. -/
theorem int_toString (n : ℕ) : int (toString n) = some (n : ℤ) := by
  obtain ⟨first, second⟩ := decimal_strip n
  have text : (toString n).toList = decimal n := rfl
  have unsigned : ∀ c cs, decimal n = c :: cs → c ≠ '+' ∧ c ≠ '-' := by
    intro c cs h
    have digit : c.isDigit := isDigit_of_mem_decimal (h ▸ List.mem_cons_self)
    constructor <;> rintro rfl <;> exact absurd digit (by decide)
  simp only [int, text, first, second]
  split
  · rename_i cs h
    exact absurd rfl (unsigned _ _ h).1
  · rename_i cs h
    exact absurd rfl (unsigned _ _ h).2
  · rw [digits_decimal, Option.map_some]

/-! ## The frames -/

/-- What a ping asks. -/
inductive Request where
  | arp (hwsrc : Option String) (psrc hwdst pdst : String)
  | neighbourSolicitation (src dst tgt : String)
  deriving DecidableEq

/-- A frame that is sent, with a `Dot1Q` header if it has a tag. -/
structure Frame where
  iface : String
  src : Option String
  dst : String
  tag : Option ℤ
  request : Request
  deriving DecidableEq

/-- `int(vlan_id)` of a name that does not end in a number. -/
inductive PingError where
  | valueError

/-- The addresses of the bridge: its MAC, and the IPs of `get_current_ipv4` and
`get_current_ipv6` without their prefix lengths. -/
structure Bridge where
  mac : Option String
  ipv4 : List String
  ipv6 : List String

/-- The interface and the tag that the name of a VLAN stands for. -/
def vlanOf (vlan : String) : Except PingError (String × Option ℤ) :=
  match rsplit '.' vlan with
  | none => pure (vlan, none)
  | some (ifName, vlanId) =>
    match int vlanId with
    | none => .error .valueError
    | some vlanId => pure (ifName, if vlanId ≠ 0 then some vlanId else none)

/-- `src_ip` of `ndpPing`: the first IP that is not link-local, else the last one that is. -/
def ndpSource (localIp : Option String) : List String → String
  | [] => localIp.getD "fe80::66:66"
  | ip6 :: ips => if textPrefix ip6 4 = "fe80" then ndpSource (some ip6) ips else ip6

def ndpPing (bridge : Bridge) (mac vlan ip : String) : Except PingError Frame := do
  let (iface, tag) ← vlanOf vlan
  let srcIp := ndpSource none bridge.ipv6
  pure ⟨iface, bridge.mac, mac, tag, .neighbourSolicitation srcIp ip ip⟩

def arpPing (bridge : Bridge) (mac vlan ip : String) : Except PingError Frame := do
  let (iface, tag) ← vlanOf vlan
  let srcIp := bridge.ipv4.head?.getD "169.254.66.66"
  pure ⟨iface, bridge.mac, mac, tag, .arp bridge.mac srcIp mac ip⟩

def pingIP (bridge : Bridge) (mac vlan ip : String) : Except PingError Frame :=
  if ':' ∈ ip.toList then ndpPing bridge mac vlan ip else arpPing bridge mac vlan ip

/-! ## The answer -/

variable {interfaces : List String}

/-- The tag of a captured packet, which has none if it is zero. -/
def Packet.Tagged (p : Packet interfaces) (tag : Option ℕ) : Prop :=
  match tag with
  | none => p.vlanId = none ∨ p.vlanId = some "0"
  | some n => n ≠ 0 ∧ p.vlanId = some (toString n)

/-- The packet answers what the frame asks: it comes from where the frame went to. -/
structure Frame.Answer (frame : Frame) (p : Packet interfaces) : Prop where
  iface : interfaces.get p.interfaceId = frame.iface
  tag : ∃ tag : Option ℕ, p.Tagged tag ∧ frame.tag = tag.map fun n : ℕ => (n : ℤ)
  mac : p.ethSrc = frame.dst
  layer : match frame.request with
    | .arp _ _ _ pdst => ∃ a : IPv4, p.highestLayer = .arp a ∧ a.text = pdst
    | .neighbourSolicitation _ _ tgt => ∃ a : IPv6, p.highestLayer = .icmpv6 136 a ∧ a.text = tgt

theorem Packet.Tagged.vlan {p : Packet interfaces} {tag : Option ℕ} (h : p.Tagged tag) :
    p.vlan = interfaces.get p.interfaceId ++ "." ++ toString (tag.getD 0) := by
  cases tag with
  | none =>
    rcases h with h | h <;> rw [Packet.vlan, h] <;> rfl
  | some n => rw [Packet.vlan, h.2, Option.getD_some, Option.getD_some]

/-- The interface and the tag are read back from the name that they make. -/
theorem vlanOf_vlan {p : Packet interfaces} {tag : Option ℕ} (h : p.Tagged tag) :
    vlanOf p.vlan = .ok (interfaces.get p.interfaceId, tag.map fun n : ℕ => (n : ℤ)) := by
  have noDot : '.' ∉ (toString (tag.getD 0)).toList := not_mem_decimal (by decide)
  have parts := rsplit_append (interfaces.get p.interfaceId) noDot
  simp only [vlanOf, h.vlan]
  rw [show ("." : String) = '.'.toString from rfl, parts]
  simp only [int_toString]
  cases tag with
  | none => rfl
  | some n => simp [h.1]; rfl

/-- What the sender of a packet is seen with. -/
theorem Packet.seenIp_eq {p : Packet interfaces} {ip : String} :
    p.seenIp = .str ip ↔ p.ip = some ip ∧ ignoreIP ip = false := by
  unfold Packet.seenIp
  cases h : p.ip with
  | none => simp
  | some ip' => grind

/-- A packet of a device that is not ignored is a call on what it names. -/
theorem Packet.call_obj {p : Packet interfaces} {ip : String} (kept : ignoreMAC p.ethSrc = false)
    (hip : p.seenIp = .str ip) :
    ∃ call, p.call = some call ∧ call.obj = .ip p.ethSrc p.vlan ip := by
  refine ⟨_, by rw [Packet.call, kept]; rfl, ?_⟩
  rw [Call.obj, hip]
  exact objOf_ip (by simp) (by simp)

/-- The ping of an IP that a packet told goes out where the packet came in, with its tag,
and whatever answers it there is seen as the same MAC, VLAN and IP. -/
theorem ping_answer (bridge : Bridge) {p : Packet interfaces} {tag : Option ℕ} {ip : String}
    (kept : ignoreMAC p.ethSrc = false) (tagged : p.Tagged tag) (told : p.seenIp = .str ip) :
    ∃ frame, pingIP bridge p.ethSrc p.vlan ip = .ok frame ∧
      frame.iface = interfaces.get p.interfaceId ∧ frame.tag = tag.map (fun n : ℕ => (n : ℤ)) ∧
      ∀ q : Packet interfaces, frame.Answer q →
        ∃ call, q.call = some call ∧ call.obj = .ip p.ethSrc p.vlan ip := by
  obtain ⟨hip, hkept⟩ := Packet.seenIp_eq.mp told
  -- whatever is asked, an answer has the MAC and the VLAN of the packet
  have answer : ∀ request, (∀ q : Packet interfaces,
      (Frame.mk (interfaces.get p.interfaceId) bridge.mac p.ethSrc
        (tag.map fun n : ℕ => (n : ℤ)) request).Answer q → q.ip = some ip) →
      ∀ q : Packet interfaces, (Frame.mk (interfaces.get p.interfaceId) bridge.mac p.ethSrc
        (tag.map fun n : ℕ => (n : ℤ)) request).Answer q →
        ∃ call, q.call = some call ∧ call.obj = .ip p.ethSrc p.vlan ip := by
    intro request asks q hq
    obtain ⟨tag', tagged', same⟩ := hq.tag
    obtain rfl : tag = tag' := Option.map_injective Nat.cast_injective same
    have vlan : q.vlan = p.vlan := by rw [tagged'.vlan, tagged.vlan, hq.iface]
    have mac : q.ethSrc = p.ethSrc := hq.mac
    rw [← vlan, ← mac]
    exact Packet.call_obj (mac ▸ kept) (Packet.seenIp_eq.mpr ⟨asks q hq, hkept⟩)
  unfold Packet.ip at hip
  cases hl : p.highestLayer with
  | arp a =>
    rw [hl] at hip
    obtain rfl := Option.some.inj hip
    refine ⟨_, ?_, rfl, rfl, answer (.arp bridge.mac (bridge.ipv4.head?.getD "169.254.66.66")
      p.ethSrc a.text) fun q hq => ?_⟩
    · rw [pingIP, if_neg a.colon_not_mem, arpPing, vlanOf_vlan tagged]
      rfl
    · obtain ⟨b, hb, text⟩ := hq.layer
      rw [Packet.ip, hb, ← text]
  | icmpv6 type a =>
    simp only [hl] at hip
    split at hip
    · obtain rfl := Option.some.inj hip
      refine ⟨_, ?_, rfl, rfl, answer (.neighbourSolicitation (ndpSource none bridge.ipv6)
        a.text a.text) fun q hq => ?_⟩
      · rw [pingIP, if_pos a.colon, ndpPing, vlanOf_vlan tagged]
        rfl
      · obtain ⟨b, hb, text⟩ := hq.layer
        have advertised : toString 136 ∈ ["136", "135"] := by decide
        simp only [Packet.ip, hb, if_pos advertised, text]
    · cases hip
  | other name => simp [hl] at hip

/-- A device behind a tagged port. -/
def taggedArp : Packet ["enp1s0", "enp2s0.1"] :=
  ⟨100, "00:11:22:33:44:55", Fin.last 1, some "12", 99,
    .arp ⟨⟨10, by decide⟩, ⟨1, by decide⟩, ⟨2, by decide⟩, ⟨3, by decide⟩⟩⟩

theorem taggedArp_answer :
    ∃ frame, pingIP ⟨some "52:54:00:00:00:01", ["10.0.0.1"], []⟩ "00:11:22:33:44:55"
        "enp2s0.1.12" "10.1.2.3" = .ok frame ∧
      frame.iface = "enp2s0.1" ∧ frame.tag = some 12 ∧
      ∀ q : Packet ["enp1s0", "enp2s0.1"], frame.Answer q →
        ∃ call, q.call = some call ∧
          call.obj = .ip "00:11:22:33:44:55" "enp2s0.1.12" "10.1.2.3" :=
  ping_answer ⟨some "52:54:00:00:00:01", ["10.0.0.1"], []⟩ (p := taggedArp)
    (by decide) (show taggedArp.Tagged (some 12) from ⟨by decide, by decide⟩) (by decide)

end ElanAgent.Session
