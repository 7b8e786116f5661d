import ElanAgent.AccessControl.Nft
import ElanAgent.Library.Nftables

/-!
# The bridge table

The chains of `table bridge elan`, rule by rule. A match on a field of a header also
matches on the protocol of that header, as `nft` completes it. The output interface of
a packet is known from the forward hook on.

The main result is the isolation of access-controlled devices: whatever the sets hold,
a packet of a device that is not in `mac_on_vlan` is marked, and is forwarded exactly
when it is of one of the kinds of traffic that are passed through.
-/

namespace ElanAgent.AccessControl

open Nftables

/-! ## Packets -/

structure Ip where
  saddr : BitVec 32
  daddr : BitVec 32
  deriving DecidableEq

structure Ip6 where
  saddr : BitVec 128
  daddr : BitVec 128
  nexthdr : BitVec 8
  deriving DecidableEq

/-- The transport header. Ports are numbers below `2 ^ 16`. -/
inductive Transport where
  | tcp (sport dport : BitVec 16)
  | udp (sport dport : BitVec 16)
  | icmpv6 (type : BitVec 8)
  | other (protocol : BitVec 8)
  deriving DecidableEq

/-- A frame on the bridge. The headers are absent when they cannot be read. -/
structure Packet where
  iif : String
  oif : Option String
  mark : Nat
  etherSaddr : String
  etherDaddr : String
  etherType : BitVec 16
  ip : Option Ip
  ip6 : Option Ip6
  transport : Option Transport
  deriving DecidableEq

/-- The packet on its way to an output interface. -/
def Packet.towards (p : Packet) (oif : String) : Packet := { p with oif := some oif }

def etherIp : BitVec 16 := 0x0800
def etherArp : BitVec 16 := 0x0806
def etherIp6 : BitVec 16 := 0x86dd
def domain : BitVec 16 := 53
def bootps : BitVec 16 := 67
def bootpc : BitVec 16 := 68
def http : BitVec 16 := 80
def https : BitVec 16 := 443
def dhcpv6Client : BitVec 16 := 546
def dhcpv6Server : BitVec 16 := 547
def mdns : BitVec 16 := 5353
def ipv6Icmp : BitVec 8 := 58
def ndRouterSolicit : BitVec 8 := 133
def ndRouterAdvert : BitVec 8 := 134
def ndNeighborSolicit : BitVec 8 := 135
def ndNeighborAdvert : BitVec 8 := 136
/-- `8.8.8.9`. -/
def portalIp : BitVec 32 := 0x08080809
/-- `2001:41d0:2:ba47::1000:1010`. -/
def portalIp6 : BitVec 128 := 0x200141d00002ba470000000010001010
/-- `224.0.0.251`. -/
def mdnsIp : BitVec 32 := 0xe00000fb
/-- `ff02::fb`. -/
def mdnsIp6 : BitVec 128 := 0xff0200000000000000000000000000fb
/-- `ff02::1:2`. -/
def dhcpServersIp6 : BitVec 128 := 0xff020000000000000000000000010002
/-- `fe80::/10`. -/
def linkLocal (addr : BitVec 128) : Bool := addr.extractLsb' 118 10 = 0x3fa

/-! ## Sets and expressions -/

/-- The sets and maps of the bridge table. -/
structure BridgeSets extends Ruleset where
  macOnVlan : Finset (String × String)
  macToVlan : Finset (String × String)
  ipConn2mark : Finset (BitVec 32 × BitVec 16 × BitVec 32 × BitVec 16)
  ip6Conn2mark : Finset (BitVec 128 × BitVec 16 × BitVec 128 × BitVec 16)

namespace Packet

/-- `mark 0`. -/
def unmarked (p : Packet) : Bool := p.mark = 0

/-- `iif . oif @set`. -/
def iifOif (set : Finset (String × String)) (p : Packet) : Bool :=
  p.oif.any fun oif => (p.iif, oif) ∈ set

/-- `oif . iif @set`. -/
def oifIif (set : Finset (String × String)) (p : Packet) : Bool :=
  p.oif.any fun oif => (oif, p.iif) ∈ set

/-- `iif @set`. -/
def iifIn (set : Finset String) (p : Packet) : Bool := p.iif ∈ set

/-- `oif @set`. -/
def oifIn (set : Finset String) (p : Packet) : Bool := p.oif.any fun oif => oif ∈ set

/-- `ether <mac> . iif @set`. -/
def macIif (mac : Packet → String) (set : Finset (String × String)) (p : Packet) : Bool :=
  (mac p, p.iif) ∈ set

/-- `ether <mac> . oif @set`. -/
def macOif (mac : Packet → String) (set : Finset (String × String)) (p : Packet) : Bool :=
  p.oif.any fun oif => (mac p, oif) ∈ set

def etherDaddrIs (mac : String) (p : Packet) : Bool := p.etherDaddr = mac

/-- An expression on the IPv4 header. -/
def ipIs (test : Ip → Bool) (p : Packet) : Bool := p.etherType = etherIp && p.ip.any test

/-- An expression on the IPv6 header. -/
def ip6Is (test : Ip6 → Bool) (p : Packet) : Bool := p.etherType = etherIp6 && p.ip6.any test

/-- An expression on the TCP header. -/
def tcpIs (test : BitVec 16 → BitVec 16 → Bool) (p : Packet) : Bool :=
  match p.transport with
  | some (.tcp sport dport) => test sport dport
  | _ => false

/-- An expression on the UDP header. -/
def udpIs (test : BitVec 16 → BitVec 16 → Bool) (p : Packet) : Bool :=
  match p.transport with
  | some (.udp sport dport) => test sport dport
  | _ => false

/-- `icmpv6 type { types }`. -/
def icmpv6Type (types : List (BitVec 8)) (p : Packet) : Bool :=
  match p.transport with
  | some (.icmpv6 type) => type ∈ types
  | _ => false

/-- `tcp dport { http, https }`. -/
def web : Packet → Bool := tcpIs fun _ dport => dport = http || dport = https

/-- `udp sport <s> udp dport <d>`. -/
def udpPorts (s d : BitVec 16) : Packet → Bool := udpIs fun sport dport => sport = s && dport = d

/-- `ip6 nexthdr ipv6-icmp icmpv6 type { types }`. -/
def nd (types : List (BitVec 8)) (p : Packet) : Bool :=
  p.ip6Is (fun h => h.nexthdr = ipv6Icmp) && p.icmpv6Type types

/-- `ip saddr . tcp sport . ip daddr . tcp dport @set`. -/
def ipConn (set : Finset (BitVec 32 × BitVec 16 × BitVec 32 × BitVec 16)) (p : Packet) : Bool :=
  p.ipIs fun h => p.tcpIs fun sport dport => (h.saddr, sport, h.daddr, dport) ∈ set

/-- `ip6 saddr . tcp sport . ip6 daddr . tcp dport @set`. -/
def ip6Conn (set : Finset (BitVec 128 × BitVec 16 × BitVec 128 × BitVec 16)) (p : Packet) : Bool :=
  p.ip6Is fun h => p.tcpIs fun sport dport => (h.saddr, sport, h.daddr, dport) ∈ set

end Packet

/-! ## The chains -/

/-- The chains of the table. -/
inductive Chain where
  | accessControlIn
  | captivePortal
  | prerouting
  | accessControlForwardArp
  | accessControlForwardIp4
  | accessControlForwardIp6
  | accessControlForward
  | forward
  | ids
  | connections
  | postrouting
  deriving DecidableEq

namespace BridgeSets

open Packet

variable (s : BridgeSets)

/-- `mark set iif map @vlan_mark`. -/
def setMark (p : Packet) : Option Packet :=
  (s.vlanMark.get p.iif).map fun mark => { p with mark }

def accessControlIn : List (Rule Chain Packet) :=
  [[.test (macIif etherSaddr s.macOnVlan), .verdict .accept],
   [.update s.setMark]]

def captivePortal : List (Rule Chain Packet) :=
  [[.test (ipConn s.ipConn2mark), .update s.setMark, .verdict .accept],
   [.test (ip6Conn s.ip6Conn2mark), .update s.setMark, .verdict .accept],
   [.test (ipIs fun h => h.daddr = portalIp), .update s.setMark, .verdict .accept],
   [.test (ip6Is fun h => h.daddr = portalIp6), .update s.setMark, .verdict .accept]]

def prerouting : List (Rule Chain Packet) :=
  [[.test web, .verdict (.jump .captivePortal)],
   [.test (iifIn (s.ifs .ac)), .verdict (.jump .accessControlIn)]]

/-- The accepting rules of `access_control_forward_arp`. -/
def arpRows : List (List (Packet → Bool)) :=
  [[iifOif (s.pts .ndp)],
   [oifIif (s.pts .ndp)],
   [iifOif (s.pts .dns)],
   [oifIif (s.pts .dns)],
   [iifOif (s.pts .dhcp)],
   [oifIif (s.pts .dhcp)]]

/-- The accepting rules of `access_control_forward_ip4`. -/
def ip4Rows : List (List (Packet → Bool)) :=
  [[etherDaddrIs "01:00:5e:00:00:fb", ipIs fun h => h.daddr = mdnsIp, udpPorts mdns mdns,
    iifOif (s.pts .mdns)],
   [udpPorts bootpc bootps, iifOif (s.pts .dhcp)],
   [udpPorts bootps bootpc, oifIif (s.pts .dhcp)]]

/-- The accepting rules of `access_control_forward_ip6`. -/
def ip6Rows : List (List (Packet → Bool)) :=
  [[nd [ndNeighborSolicit, ndNeighborAdvert], iifOif (s.pts .ndp)],
   [nd [ndNeighborSolicit, ndNeighborAdvert], oifIif (s.pts .ndp)],
   [nd [ndNeighborSolicit, ndNeighborAdvert], iifOif (s.pts .dns)],
   [nd [ndNeighborSolicit, ndNeighborAdvert], oifIif (s.pts .dns)],
   [etherDaddrIs "33:33:00:00:00:fb", ip6Is fun h => h.daddr = mdnsIp6, udpPorts mdns mdns,
    iifOif (s.pts .mdns)],
   [nd [ndNeighborSolicit, ndNeighborAdvert, ndRouterSolicit], iifOif (s.pts .dhcp)],
   [nd [ndNeighborSolicit, ndNeighborAdvert, ndRouterAdvert], oifIif (s.pts .dhcp)],
   [ip6Is fun h => linkLocal h.saddr, ip6Is fun h => h.daddr = dhcpServersIp6,
    udpPorts dhcpv6Client dhcpv6Server, iifOif (s.pts .dhcp)],
   [ip6Is fun h => linkLocal h.saddr, ip6Is fun h => linkLocal h.daddr,
    udpPorts dhcpv6Server dhcpv6Client, oifIif (s.pts .dhcp)]]

/-- `ether type vmap { arp: .., ip: .., ip6: .. }`. -/
def etherTypeChain (p : Packet) : Option (Verdict Chain) :=
  if p.etherType = etherArp then some (.jump .accessControlForwardArp)
  else if p.etherType = etherIp then some (.jump .accessControlForwardIp4)
  else if p.etherType = etherIp6 then some (.jump .accessControlForwardIp6)
  else none

/-- The accepting rules of `access_control_forward`. -/
def forwardRows : List (List (Packet → Bool)) :=
  [[unmarked, macOif etherDaddr s.macOnVlan, macIif etherDaddr s.macToVlan],
   [unmarked, macOif etherSaddr s.macToVlan],
   [udpIs fun _ dport => dport = domain, iifOif (s.pts .dns)],
   [udpIs fun sport _ => sport = domain, oifIif (s.pts .dns)]]

def accessControlForward : List (Rule Chain Packet) :=
  s.forwardRows.map acceptIf ++
  [[.vmap etherTypeChain],
   [.test unmarked, .test web, .log, .verdict .drop],
   [.verdict .drop]]

def forward : List (Rule Chain Packet) :=
  [[.test (oifIn (s.ifs .ac)), .verdict (.jump .accessControlForward)],
   [.test (iifIn (s.ifs .ac)), .verdict (.jump .accessControlForward)]]

def ids : List (Rule Chain Packet) :=
  [[.test (iifIn (s.ifs .ids)), .log, .verdict .accept],
   [.test (oifIn (s.ifs .ids)), .log, .verdict .accept]]

def connections : List (Rule Chain Packet) :=
  [[.test (oifIn (s.ifs .log)), .update fun p => some { p with mark := 0x40000000 },
    .verdict .accept],
   [.test (iifIn (s.ifs .log)), .update fun p => some { p with mark := 0x40000000 },
    .verdict .accept]]

/-- The rules of each chain. -/
def rules : Chain → List (Rule Chain Packet)
  | .accessControlIn => s.accessControlIn
  | .captivePortal => s.captivePortal
  | .prerouting => s.prerouting
  | .accessControlForwardArp => s.arpRows.map acceptIf
  | .accessControlForwardIp4 => s.ip4Rows.map acceptIf
  | .accessControlForwardIp6 => s.ip6Rows.map acceptIf
  | .accessControlForward => s.accessControlForward
  | .forward => s.forward
  | .ids => s.ids
  | .connections => s.connections
  | .postrouting => []

/-- The base chains of the forward hook. -/
def forwardHook : List Chain := [.forward, .ids, .connections]

end BridgeSets

/-! ## Isolation -/

/-- The traffic that is passed through between access-controlled interfaces, and the
passthroughs that it needs. -/
inductive Passthrough (s : BridgeSets) (p : Packet) (out : String) : Prop where
  | dnsQuery {sport : BitVec 16} (header : p.transport = some (.udp sport domain))
      (pt : (p.iif, out) ∈ s.pts .dns)
  | dnsAnswer {dport : BitVec 16} (header : p.transport = some (.udp domain dport))
      (pt : (out, p.iif) ∈ s.pts .dns)
  | arp {set : PtSet} (ether : p.etherType = etherArp) (other : set ≠ .mdns)
      (pt : (p.iif, out) ∈ s.pts set ∨ (out, p.iif) ∈ s.pts set)
  | dhcpRequest (ether : p.etherType = etherIp) (header : p.transport = some (.udp bootpc bootps))
      (pt : (p.iif, out) ∈ s.pts .dhcp)
  | dhcpReply (ether : p.etherType = etherIp) (header : p.transport = some (.udp bootps bootpc))
      (pt : (out, p.iif) ∈ s.pts .dhcp)
  | mdnsQuery {ip : Ip} (ether : p.etherType = etherIp) (daddr : p.etherDaddr = "01:00:5e:00:00:fb")
      (hip : p.ip = some ip) (hdaddr : ip.daddr = mdnsIp)
      (header : p.transport = some (.udp mdns mdns)) (pt : (p.iif, out) ∈ s.pts .mdns)
  | neighbor {ip : Ip6} {type : BitVec 8} {set : PtSet} (ether : p.etherType = etherIp6)
      (hip : p.ip6 = some ip) (next : ip.nexthdr = ipv6Icmp)
      (header : p.transport = some (.icmpv6 type))
      (htype : type = ndNeighborSolicit ∨ type = ndNeighborAdvert) (other : set ≠ .mdns)
      (pt : (p.iif, out) ∈ s.pts set ∨ (out, p.iif) ∈ s.pts set)
  | routerSolicit {ip : Ip6} (ether : p.etherType = etherIp6) (hip : p.ip6 = some ip)
      (next : ip.nexthdr = ipv6Icmp) (header : p.transport = some (.icmpv6 ndRouterSolicit))
      (pt : (p.iif, out) ∈ s.pts .dhcp)
  | routerAdvert {ip : Ip6} (ether : p.etherType = etherIp6) (hip : p.ip6 = some ip)
      (next : ip.nexthdr = ipv6Icmp) (header : p.transport = some (.icmpv6 ndRouterAdvert))
      (pt : (out, p.iif) ∈ s.pts .dhcp)
  | mdns6Query {ip : Ip6} (ether : p.etherType = etherIp6)
      (daddr : p.etherDaddr = "33:33:00:00:00:fb") (hip : p.ip6 = some ip)
      (hdaddr : ip.daddr = mdnsIp6) (header : p.transport = some (.udp mdns mdns))
      (pt : (p.iif, out) ∈ s.pts .mdns)
  | dhcp6Request {ip : Ip6} (ether : p.etherType = etherIp6) (hip : p.ip6 = some ip)
      (saddr : linkLocal ip.saddr) (daddr : ip.daddr = dhcpServersIp6)
      (header : p.transport = some (.udp dhcpv6Client dhcpv6Server))
      (pt : (p.iif, out) ∈ s.pts .dhcp)
  | dhcp6Reply {ip : Ip6} (ether : p.etherType = etherIp6) (hip : p.ip6 = some ip)
      (saddr : linkLocal ip.saddr) (daddr : linkLocal ip.daddr)
      (header : p.transport = some (.udp dhcpv6Server dhcpv6Client))
      (pt : (out, p.iif) ∈ s.pts .dhcp)

namespace BridgeSets
open Packet
variable {s : BridgeSets} {p : Packet} {out : String}

theorem udpIs_eq_true {test : BitVec 16 → BitVec 16 → Bool} :
    udpIs test p ↔ ∃ sport dport, p.transport = some (.udp sport dport) ∧ test sport dport := by
  unfold udpIs
  split <;> simp_all

theorem icmpv6Type_eq_true {types : List (BitVec 8)} :
    icmpv6Type types p ↔ ∃ type, p.transport = some (.icmpv6 type) ∧ type ∈ types := by
  unfold icmpv6Type
  split <;> simp_all

theorem ipIs_eq_true {test : Ip → Bool} :
    ipIs test p ↔ p.etherType = etherIp ∧ ∃ ip, p.ip = some ip ∧ test ip := by
  simp [ipIs, Option.any_eq_true]

theorem ip6Is_eq_true {test : Ip6 → Bool} :
    ip6Is test p ↔ p.etherType = etherIp6 ∧ ∃ ip, p.ip6 = some ip ∧ test ip := by
  simp [ip6Is, Option.any_eq_true]

theorem matches_arpRows (h : p.oif = some out) (ether : p.etherType = etherArp) :
    Matches s.arpRows p → Passthrough s p out := by
  simp only [Matches, arpRows, List.mem_cons, List.not_mem_nil, or_false, exists_eq_or_imp,
    exists_eq_left, forall_eq, iifOif, oifIif, h, Option.any_some, decide_eq_true_eq]
  rintro (pt | pt | pt | pt | pt | pt)
  · exact .arp ether (by decide) (.inl pt)
  · exact .arp ether (by decide) (.inr pt)
  · exact .arp ether (by decide) (.inl pt)
  · exact .arp ether (by decide) (.inr pt)
  · exact .arp ether (by decide) (.inl pt)
  · exact .arp ether (by decide) (.inr pt)

theorem matches_ip4Rows (h : p.oif = some out) (ether : p.etherType = etherIp) :
    Matches s.ip4Rows p → Passthrough s p out := by
  simp only [Matches, ip4Rows, List.mem_cons, List.not_mem_nil, or_false, exists_eq_or_imp,
    exists_eq_left, forall_eq_or_imp, forall_eq, iifOif, oifIif, h, Option.any_some,
    decide_eq_true_eq, udpPorts, udpIs_eq_true, ipIs_eq_true, Bool.and_eq_true, etherDaddrIs]
  rintro (⟨daddr, ⟨-, ip, hip, hdaddr⟩, ⟨_, _, header, rfl, rfl⟩, pt⟩ |
    ⟨⟨_, _, header, rfl, rfl⟩, pt⟩ | ⟨⟨_, _, header, rfl, rfl⟩, pt⟩)
  · exact .mdnsQuery ether daddr hip hdaddr header pt
  · exact .dhcpRequest ether header pt
  · exact .dhcpReply ether header pt

theorem matches_ip6Rows (h : p.oif = some out) (ether : p.etherType = etherIp6) :
    Matches s.ip6Rows p → Passthrough s p out := by
  simp only [Matches, ip6Rows, List.mem_cons, List.not_mem_nil, or_false, exists_eq_or_imp,
    exists_eq_left, forall_eq_or_imp, forall_eq, iifOif, oifIif, h, Option.any_some,
    decide_eq_true_eq, udpPorts, udpIs_eq_true, ip6Is_eq_true, Bool.and_eq_true, etherDaddrIs,
    nd, icmpv6Type_eq_true]
  rintro (row | row | row | row | row | row | row | row | row)
  · obtain ⟨⟨⟨-, ip, hip, next⟩, type, header, htype⟩, pt⟩ := row
    exact .neighbor ether hip next header htype (by decide) (.inl pt)
  · obtain ⟨⟨⟨-, ip, hip, next⟩, type, header, htype⟩, pt⟩ := row
    exact .neighbor ether hip next header htype (by decide) (.inr pt)
  · obtain ⟨⟨⟨-, ip, hip, next⟩, type, header, htype⟩, pt⟩ := row
    exact .neighbor ether hip next header htype (by decide) (.inl pt)
  · obtain ⟨⟨⟨-, ip, hip, next⟩, type, header, htype⟩, pt⟩ := row
    exact .neighbor ether hip next header htype (by decide) (.inr pt)
  · obtain ⟨daddr, ⟨-, ip, hip, hdaddr⟩, ⟨_, _, header, rfl, rfl⟩, pt⟩ := row
    exact .mdns6Query ether daddr hip hdaddr header pt
  · obtain ⟨⟨⟨-, ip, hip, next⟩, type, header, htype | htype | rfl⟩, pt⟩ := row
    · exact .neighbor ether hip next header (.inl htype) (by decide) (.inl pt)
    · exact .neighbor ether hip next header (.inr htype) (by decide) (.inl pt)
    · exact .routerSolicit ether hip next header pt
  · obtain ⟨⟨⟨-, ip, hip, next⟩, type, header, htype | htype | rfl⟩, pt⟩ := row
    · exact .neighbor ether hip next header (.inl htype) (by decide) (.inr pt)
    · exact .neighbor ether hip next header (.inr htype) (by decide) (.inr pt)
    · exact .routerAdvert ether hip next header pt
  · obtain ⟨⟨-, ip, hip, saddr⟩, ⟨-, ip', hip', daddr⟩, ⟨_, _, header, rfl, rfl⟩, pt⟩ := row
    obtain rfl := Option.some.inj (hip.symm.trans hip')
    exact .dhcp6Request ether hip saddr daddr header pt
  · obtain ⟨⟨-, ip, hip, saddr⟩, ⟨-, ip', hip', daddr⟩, ⟨_, _, header, rfl, rfl⟩, pt⟩ := row
    obtain rfl := Option.some.inj (hip.symm.trans hip')
    exact .dhcp6Reply ether hip saddr daddr header pt


/-- The accepting rules of the chain that a packet is dispatched to by its ether type. -/
def etherTypeRows (s : BridgeSets) (p : Packet) : List (List (Packet → Bool)) :=
  if p.etherType = etherArp then s.arpRows
  else if p.etherType = etherIp then s.ip4Rows
  else if p.etherType = etherIp6 then s.ip6Rows
  else []

theorem evalRules_etherType (depth : Nat) (rules : List (Rule Chain Packet)) :
    evalRules (evalChain s.rules (depth + 1)) ([.vmap etherTypeChain] :: rules) p =
      if Matches (s.etherTypeRows p) p then some (.accept p)
      else evalRules (evalChain s.rules (depth + 1)) rules p := by
  have dispatched : evalRule (evalChain s.rules (depth + 1)) [.vmap etherTypeChain] p =
      some (if Matches (s.etherTypeRows p) p then .accept p else .next p) := by
    have chain {c : Chain} {rows : List (List (Packet → Bool))}
        (hc : s.rules c = rows.map acceptIf) := evalChain_acceptIf p hc depth
    simp only [evalRule, etherTypeChain, etherTypeRows]
    split
    · exact chain rfl
    split
    · exact chain rfl
    split
    · exact chain rfl
    · simp [Matches]
  by_cases rows : Matches (s.etherTypeRows p) p
  · rw [if_pos rows] at dispatched ⊢
    exact evalRules_cons_accept _ p dispatched rules
  · rw [if_neg rows] at dispatched ⊢
    exact evalRules_cons_next _ p dispatched rules

theorem matches_forwardRows (h : p.oif = some out) (marked : p.mark ≠ 0) :
    Matches s.forwardRows p ↔
      (∃ sport, p.transport = some (.udp sport domain) ∧ (p.iif, out) ∈ s.pts .dns) ∨
      ∃ dport, p.transport = some (.udp domain dport) ∧ (out, p.iif) ∈ s.pts .dns := by
  simp [Matches, forwardRows, unmarked, marked, iifOif, oifIif, h, udpIs_eq_true]

theorem etherTypeRows_arp (ether : p.etherType = etherArp) : s.etherTypeRows p = s.arpRows :=
  if_pos ether

theorem etherTypeRows_ip4 (ether : p.etherType = etherIp) : s.etherTypeRows p = s.ip4Rows := by
  simp [etherTypeRows, ether, show etherIp ≠ etherArp by decide]

theorem etherTypeRows_ip6 (ether : p.etherType = etherIp6) : s.etherTypeRows p = s.ip6Rows := by
  simp [etherTypeRows, ether, show etherIp6 ≠ etherArp by decide,
    show etherIp6 ≠ etherIp by decide]

theorem PtSet.cases_of_ne_mdns {set : PtSet} (other : set ≠ .mdns) :
    set = .ndp ∨ set = .dns ∨ set = .dhcp := by
  cases set <;> simp_all

theorem nd_of_type {ip : Ip6} {type : BitVec 8} (ether : p.etherType = etherIp6)
    (hip : p.ip6 = some ip) (next : ip.nexthdr = ipv6Icmp)
    (header : p.transport = some (.icmpv6 type)) {types : List (BitVec 8)} (listed : type ∈ types) :
    nd types p := by
  have known : icmpv6Type types p := icmpv6Type_eq_true.mpr ⟨type, header, listed⟩
  simp [nd, ip6Is, ether, hip, next, known]

theorem iifOif_of_mem (h : p.oif = some out) {set : Finset (String × String)}
    (pt : (p.iif, out) ∈ set) : iifOif set p := by
  simp [iifOif, h, pt]

theorem oifIif_of_mem (h : p.oif = some out) {set : Finset (String × String)}
    (pt : (out, p.iif) ∈ set) : oifIif set p := by
  simp [oifIif, h, pt]

theorem udpPorts_of_header {sport dport : BitVec 16}
    (header : p.transport = some (.udp sport dport)) : udpPorts sport dport p :=
  udpIs_eq_true.mpr ⟨sport, dport, header, by simp⟩

theorem ip6Is_of_header {ip : Ip6} {test : Ip6 → Bool} (ether : p.etherType = etherIp6)
    (hip : p.ip6 = some ip) (holds : test ip) : ip6Is test p :=
  ip6Is_eq_true.mpr ⟨ether, ip, hip, holds⟩

theorem matches_of_passthrough (h : p.oif = some out) (passed : Passthrough s p out) :
    Matches s.forwardRows p ∨ Matches (s.etherTypeRows p) p := by
  cases passed with
  | dnsQuery header pt => simp [Matches, forwardRows, udpIs, header, iifOif, h, pt]
  | dnsAnswer header pt => simp [Matches, forwardRows, udpIs, header, oifIif, h, pt]
  | arp ether other pt =>
    right
    rw [etherTypeRows_arp ether]
    rcases pt with pt | pt
    · have sent := iifOif_of_mem h pt
      obtain rfl | rfl | rfl := PtSet.cases_of_ne_mdns other <;> simp [arpRows, matches_cons, sent]
    · have sent := oifIif_of_mem h pt
      obtain rfl | rfl | rfl := PtSet.cases_of_ne_mdns other <;> simp [arpRows, matches_cons, sent]
  | mdnsQuery ether daddr hip hdaddr header pt =>
    right
    rw [etherTypeRows_ip4 ether]
    have ports := udpPorts_of_header header
    have sent := iifOif_of_mem h pt
    simp [ip4Rows, matches_cons, etherDaddrIs, daddr, ipIs, ether, hip, hdaddr, ports, sent]
  | dhcpRequest ether header pt =>
    right
    rw [etherTypeRows_ip4 ether]
    have ports := udpPorts_of_header header
    have sent := iifOif_of_mem h pt
    simp [ip4Rows, matches_cons, ports, sent]
  | dhcpReply ether header pt =>
    right
    rw [etherTypeRows_ip4 ether]
    have ports := udpPorts_of_header header
    have sent := oifIif_of_mem h pt
    simp [ip4Rows, matches_cons, ports, sent]
  | neighbor ether hip next header htype other pt =>
    right
    rw [etherTypeRows_ip6 ether]
    have solicits : nd [ndNeighborSolicit, ndNeighborAdvert] p :=
      nd_of_type ether hip next header (by simpa using htype)
    have routers : nd [ndNeighborSolicit, ndNeighborAdvert, ndRouterSolicit] p :=
      nd_of_type ether hip next header (by simpa using htype.imp_right .inl)
    have adverts : nd [ndNeighborSolicit, ndNeighborAdvert, ndRouterAdvert] p :=
      nd_of_type ether hip next header (by simpa using htype.imp_right .inl)
    rcases pt with pt | pt
    · have sent := iifOif_of_mem h pt
      obtain rfl | rfl | rfl := PtSet.cases_of_ne_mdns other <;>
        simp [ip6Rows, matches_cons, solicits, routers, sent]
    · have sent := oifIif_of_mem h pt
      obtain rfl | rfl | rfl := PtSet.cases_of_ne_mdns other <;>
        simp [ip6Rows, matches_cons, solicits, adverts, sent]
  | mdns6Query ether daddr hip hdaddr header pt =>
    right
    rw [etherTypeRows_ip6 ether]
    have target : ip6Is (fun h => h.daddr = mdnsIp6) p :=
      ip6Is_of_header ether hip (decide_eq_true hdaddr)
    have ports := udpPorts_of_header header
    have sent := iifOif_of_mem h pt
    simp [ip6Rows, matches_cons, etherDaddrIs, daddr, target, ports, sent]
  | dhcp6Request ether hip saddr daddr header pt =>
    right
    rw [etherTypeRows_ip6 ether]
    have source : ip6Is (fun h => linkLocal h.saddr) p := ip6Is_of_header ether hip saddr
    have target : ip6Is (fun h => h.daddr = dhcpServersIp6) p :=
      ip6Is_of_header ether hip (decide_eq_true daddr)
    have ports := udpPorts_of_header header
    have sent := iifOif_of_mem h pt
    simp [ip6Rows, matches_cons, source, target, ports, sent]
  | dhcp6Reply ether hip saddr daddr header pt =>
    right
    rw [etherTypeRows_ip6 ether]
    have source : ip6Is (fun h => linkLocal h.saddr) p := ip6Is_of_header ether hip saddr
    have target : ip6Is (fun h => linkLocal h.daddr) p := ip6Is_of_header ether hip daddr
    have ports := udpPorts_of_header header
    have sent := oifIif_of_mem h pt
    simp [ip6Rows, matches_cons, source, target, ports, sent]
  | routerSolicit ether hip next header pt =>
    right
    rw [etherTypeRows_ip6 ether]
    have solicits : nd [ndNeighborSolicit, ndNeighborAdvert, ndRouterSolicit] p :=
      nd_of_type ether hip next header (by simp)
    have sent := iifOif_of_mem h pt
    simp [ip6Rows, matches_cons, solicits, sent]
  | routerAdvert ether hip next header pt =>
    right
    rw [etherTypeRows_ip6 ether]
    have adverts : nd [ndNeighborSolicit, ndNeighborAdvert, ndRouterAdvert] p :=
      nd_of_type ether hip next header (by simp)
    have sent := oifIif_of_mem h pt
    simp [ip6Rows, matches_cons, adverts, sent]

theorem passthrough_of_matches (h : p.oif = some out) (marked : p.mark ≠ 0)
    (matched : Matches s.forwardRows p ∨ Matches (s.etherTypeRows p) p) : Passthrough s p out := by
  rcases matched with matched | matched
  · obtain ⟨_, header, pt⟩ | ⟨_, header, pt⟩ := (matches_forwardRows h marked).mp matched
    · exact .dnsQuery header pt
    · exact .dnsAnswer header pt
  unfold etherTypeRows at matched
  split at matched
  · exact matches_arpRows h ‹_› matched
  split at matched
  · exact matches_ip4Rows h ‹_› matched
  split at matched
  · exact matches_ip6Rows h ‹_› matched
  · exact absurd matched (not_matches_nil p)

/-- A marked packet that enters the chain is accepted if it is passed through, dropped
otherwise: the rules for unmarked packets do not see it. -/
theorem evalChain_accessControlForward (h : p.oif = some out) (marked : p.mark ≠ 0)
    (depth : Nat) :
    (Passthrough s p out →
      evalChain s.rules (depth + 2) .accessControlForward p = some (.accept p)) ∧
    (¬Passthrough s p out →
      evalChain s.rules (depth + 2) .accessControlForward p = some (.drop p)) := by
  have rows : evalChain s.rules (depth + 2) .accessControlForward p =
      if Matches s.forwardRows p then some (.accept p)
      else if Matches (s.etherTypeRows p) p then some (.accept p) else some (.drop p) := by
    show evalRules _ (s.forwardRows.map acceptIf ++ _) p = _
    rw [evalRules_acceptIf, evalRules_etherType]
    simp [evalRules, unmarked, marked]
  constructor
  · intro passed
    rcases matches_of_passthrough h passed with matched | matched <;> simp [rows, matched]
  · intro stopped
    have first : ¬Matches s.forwardRows p := fun matched =>
      stopped (passthrough_of_matches h marked (.inl matched))
    have second : ¬Matches (s.etherTypeRows p) p := fun matched =>
      stopped (passthrough_of_matches h marked (.inr matched))
    rw [rows, if_neg first, if_neg second]

/-- The forward chain hands every packet of an access-controlled interface over. -/
theorem evalChain_forward (controlled : p.iif ∈ s.ifs .ac) {depth : Nat} {left : Outcome Packet}
    (h : evalChain s.rules (depth + 2) .accessControlForward p = some left)
    (final : ∀ q, left ≠ .next q) : evalChain s.rules (depth + 3) .forward p = some left := by
  have enters : iifIn (s.ifs .ac) p = true := decide_eq_true controlled
  show evalRules _ s.forward p = _
  cases left with
  | next q => exact absurd rfl (final q)
  | accept q | drop q =>
    by_cases out : oifIn (s.ifs .ac) p = true <;> simp [forward, evalRules, out, enters, h]

theorem forward_marked (controlled : p.iif ∈ s.ifs .ac) (h : p.oif = some out)
    (marked : p.mark ≠ 0) :
    (Passthrough s p out → baseChain s.rules .forward p = some (true, p)) ∧
    (¬Passthrough s p out → baseChain s.rules .forward p = some (false, p)) := by
  obtain ⟨accepted, dropped⟩ := evalChain_accessControlForward (s := s) h marked 13
  constructor
  · intro passed
    have left := evalChain_forward controlled (accepted passed) (by simp)
    simp only [baseChain, jumpStackSize, left, Option.map_some]
  · intro stopped
    have left := evalChain_forward controlled (dropped stopped) (by simp)
    simp only [baseChain, jumpStackSize, left, Option.map_some]

/-- The rule that marks what `holds` and accepts it. -/
theorem evalRule_mark {mark : Nat} (h : s.vlanMark.get p.iif = some mark)
    (enter : Chain → Packet → Option (Outcome Packet)) (holds : Packet → Bool) :
    evalRule enter [.test holds, .update s.setMark, .verdict .accept] p =
      some (if holds p then .accept { p with mark } else .next p) := by
  have set : s.setMark p = some { p with mark } := by simp [setMark, h]
  rw [evalRule_test, evalRule_update_some enter p set, evalRule_accept]
  split <;> rfl

/-- Rules that mark and accept either leave the packet alone or accept it marked. -/
theorem evalRules_mark {mark : Nat} (h : s.vlanMark.get p.iif = some mark)
    (enter : Chain → Packet → Option (Outcome Packet)) (tests : List (Packet → Bool)) :
    let rules := tests.map fun holds => [.test holds, .update s.setMark, .verdict .accept]
    evalRules enter rules p = some (.accept { p with mark }) ∨
      evalRules enter rules p = some (.next p) := by
  induction tests with
  | nil => exact .inr rfl
  | cons holds tests ih =>
    have first := evalRule_mark h enter holds
    by_cases matched : holds p = true
    · rw [if_pos matched] at first
      exact .inl (evalRules_cons_accept enter p first _)
    · rw [if_neg matched] at first
      simpa only [List.map_cons, evalRules_cons_next enter p first] using ih

/-- The captive portal chain marks what it accepts, and leaves the rest as it is. -/
theorem evalChain_captivePortal {mark : Nat} (h : s.vlanMark.get p.iif = some mark)
    (depth : Nat) :
    evalChain s.rules (depth + 1) .captivePortal p = some (.accept { p with mark }) ∨
    evalChain s.rules (depth + 1) .captivePortal p = some (.next p) :=
  evalRules_mark h (evalChain s.rules depth)
    [ipConn s.ipConn2mark, ip6Conn s.ip6Conn2mark, ipIs fun h => h.daddr = portalIp,
      ip6Is fun h => h.daddr = portalIp6]

theorem evalChain_accessControlIn {mark : Nat} (h : s.vlanMark.get p.iif = some mark)
    (unknown : (p.etherSaddr, p.iif) ∉ s.macOnVlan) (depth : Nat) :
    evalChain s.rules (depth + 1) .accessControlIn p = some (.next { p with mark }) := by
  have stranger : macIif etherSaddr s.macOnVlan p = false := decide_eq_false unknown
  have set : s.setMark p = some { p with mark } := by simp [setMark, h]
  show evalRules _ s.accessControlIn p = _
  simp [accessControlIn, evalRules, stranger, evalRule, set]

theorem prerouting_marks {mark : Nat} (h : s.vlanMark.get p.iif = some mark)
    (controlled : p.iif ∈ s.ifs .ac) (unknown : (p.etherSaddr, p.iif) ∉ s.macOnVlan) :
    baseChain s.rules .prerouting p = some (true, { p with mark }) := by
  have enters : iifIn (s.ifs .ac) p = true := decide_eq_true controlled
  have marks := evalChain_accessControlIn h unknown 14
  suffices evalChain s.rules 16 .prerouting p = some (.accept { p with mark }) ∨
      evalChain s.rules 16 .prerouting p = some (.next { p with mark }) by
    rcases this with left | left <;>
      simp only [baseChain, jumpStackSize, left, Option.map_some]
  show evalRules _ s.prerouting p = _ ∨ evalRules _ s.prerouting p = _
  by_cases hweb : web p = true
  · rcases evalChain_captivePortal h 14 with left | left
    · exact .inl (by simp [prerouting, evalRules, hweb, left])
    · exact .inr (by simp [prerouting, evalRules, hweb, left, enters, marks])
  · exact .inr (by simp [prerouting, evalRules, hweb, enters, marks])

theorem ids_passes : baseChain s.rules .ids p = some (true, p) := by
  have left : evalChain s.rules 16 .ids p = some (.accept p) ∨
      evalChain s.rules 16 .ids p = some (.next p) := by
    show evalRules _ s.ids p = _ ∨ evalRules _ s.ids p = _
    simp only [ids, evalRules, evalRule_test, evalRule_log, evalRule_accept]
    by_cases hin : iifIn (s.ifs .ids) p = true <;> by_cases hout : oifIn (s.ifs .ids) p = true <;>
      simp [hin, hout]
  rcases left with left | left <;> simp only [baseChain, jumpStackSize, left, Option.map_some]

theorem connections_passes : ∃ q, baseChain s.rules .connections p = some (true, q) := by
  have left : ∃ q, evalChain s.rules 16 .connections p = some (.accept q) ∨
      evalChain s.rules 16 .connections p = some (.next q) := by
    show ∃ q, evalRules _ s.connections p = _ ∨ evalRules _ s.connections p = _
    simp only [connections, evalRules, evalRule]
    by_cases hin : iifIn (s.ifs .log) p = true <;> by_cases hout : oifIn (s.ifs .log) p = true <;>
      simp [hin, hout, Verdict.follow]
  obtain ⟨q, left | left⟩ := left <;>
    exact ⟨q, by simp only [baseChain, jumpStackSize, left, Option.map_some]⟩

/-- Of the chains of the forward hook, only the first can stop a packet. -/
theorem forwardHook_of_forward {passed : Bool}
    (h : baseChain s.rules .forward p = some (passed, p)) :
    ∃ q, hook s.rules forwardHook p = some (passed, q) := by
  obtain ⟨q, hq⟩ := connections_passes (s := s) (p := p)
  cases passed with
  | false => exact ⟨p, by simp [hook, forwardHook, h]⟩
  | true => exact ⟨q, by simp [hook, forwardHook, h, ids_passes, hq]⟩

end BridgeSets

/-- What is passed through does not depend on the mark, nor on the output interface that
the packet carries. -/
theorem Passthrough.same {s : BridgeSets} {p : Packet} {out : String} (h : Passthrough s p out)
    (mark : Nat) (oif : Option String) : Passthrough s { p with mark, oif } out := by
  cases h with
  | dnsQuery header pt => exact .dnsQuery header pt
  | dnsAnswer header pt => exact .dnsAnswer header pt
  | arp ether other pt => exact .arp ether other pt
  | dhcpRequest ether header pt => exact .dhcpRequest ether header pt
  | dhcpReply ether header pt => exact .dhcpReply ether header pt
  | mdnsQuery ether daddr hip hdaddr header pt =>
    exact .mdnsQuery ether daddr hip hdaddr header pt
  | neighbor ether hip next header htype other pt =>
    exact .neighbor ether hip next header htype other pt
  | routerSolicit ether hip next header pt => exact .routerSolicit ether hip next header pt
  | routerAdvert ether hip next header pt => exact .routerAdvert ether hip next header pt
  | mdns6Query ether daddr hip hdaddr header pt =>
    exact .mdns6Query ether daddr hip hdaddr header pt
  | dhcp6Request ether hip saddr daddr header pt =>
    exact .dhcp6Request ether hip saddr daddr header pt
  | dhcp6Reply ether hip saddr daddr header pt =>
    exact .dhcp6Reply ether hip saddr daddr header pt

/-- An access-controlled device that is not known on its interface is marked, and what it
sends is forwarded exactly when it is passed through. -/
theorem isolation (s : BridgeSets)
    (marks : ∀ nic ∈ s.ifs .ac, ∃ mark, s.vlanMark.get nic = some mark ∧ mark ≠ 0)
    (p : Packet) (controlled : p.iif ∈ s.ifs .ac)
    (unknown : (p.etherSaddr, p.iif) ∉ s.macOnVlan) :
    ∃ q, baseChain s.rules .prerouting p = some (true, q) ∧ q.mark ≠ 0 ∧ ∀ out,
      (Passthrough s p out →
        baseChain s.rules .forward (q.towards out) = some (true, q.towards out)) ∧
      (¬Passthrough s p out →
        baseChain s.rules .forward (q.towards out) = some (false, q.towards out)) := by
  obtain ⟨mark, hmark, nonzero⟩ := marks p.iif controlled
  refine ⟨{ p with mark }, BridgeSets.prerouting_marks hmark controlled unknown, nonzero, ?_⟩
  intro out
  have forwarded := BridgeSets.forward_marked (s := s)
    (p := ({ p with mark } : Packet).towards out) controlled rfl nonzero
  have same : Passthrough s p out ↔ Passthrough s (({ p with mark } : Packet).towards out) out :=
    ⟨fun h => h.same mark (some out), fun h => h.same p.mark p.oif⟩
  rwa [same]

/-- Two access-controlled VLANs, with DNS passed through from the first to the second. -/
def twoVlans : BridgeSets where
  ifs set := if set = .ac then {"eth1.10", "eth1.20"} else ∅
  pts set := if set = .dns then {("eth1.10", "eth1.20")} else ∅
  vlanMark := (Dict.empty.set "eth1.10" 1).set "eth1.20" 2
  captivePortals _ := .empty
  macOnVlan := {("00:00:00:00:00:01", "eth1.10")}
  macToVlan := ∅
  ipConn2mark := ∅
  ip6Conn2mark := ∅

/-- A DNS query that an unknown device sends. -/
def strangersQuery : Packet where
  iif := "eth1.10"
  oif := none
  mark := 0
  etherSaddr := "00:00:00:00:00:02"
  etherDaddr := "00:00:00:00:00:03"
  etherType := etherIp
  ip := some ⟨0x0a000002, 0x0a000003⟩
  ip6 := none
  transport := some (.udp 50000 domain)

theorem isolation_twoVlans :
    ∃ q, baseChain twoVlans.rules .prerouting strangersQuery = some (true, q) ∧ q.mark ≠ 0 ∧
      ∀ out,
        (Passthrough twoVlans strangersQuery out →
          baseChain twoVlans.rules .forward (q.towards out) = some (true, q.towards out)) ∧
        (¬Passthrough twoVlans strangersQuery out →
          baseChain twoVlans.rules .forward (q.towards out) = some (false, q.towards out)) := by
  refine isolation twoVlans ?_ strangersQuery (by decide) (by decide)
  intro nic controlled
  have names : nic = "eth1.10" ∨ nic = "eth1.20" := by simpa [twoVlans] using controlled
  rcases names with rfl | rfl
  · exact ⟨1, by decide⟩
  · exact ⟨2, by decide⟩

example : baseChain twoVlans.rules .forward
    (({ strangersQuery with mark := 1 } : Packet).towards "eth1.20") =
      some (true, ({ strangersQuery with mark := 1 } : Packet).towards "eth1.20") := by decide

end ElanAgent.AccessControl
