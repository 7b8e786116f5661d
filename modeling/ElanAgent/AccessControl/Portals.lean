import ElanAgent.AccessControl.Bridge
import ElanAgent.AccessControl.LocalIndexes

/-!
# The captive portal of a VLAN

A web request that the bridge table has marked is redirected by the NAT chain to a port of
this host that depends on the mark, and on each such port nginx serves the portal of one
VLAN. The marks, the map of the NAT chain and the servers all come from the local indexes of
the interfaces; the map and the servers are written anew with each configuration, the marks
only added.

Of a server, the directives are kept that differ from one server to the other.
-/

namespace ElanAgent.AccessControl

open Nftables

/-! ## The servers of nginx -/

/-- A VLAN dictionary with the entries that only the portal reads, which may be absent. -/
structure WebVlan extends Vlan where
  webAuthentication : Option Value
  guestAccess : Option Value
  deriving DecidableEq

/-- A `listen` directive, on every address of both protocols. -/
structure Listen where
  port : Nat
  ssl : Bool
  deriving DecidableEq

structure Server where
  listen : List Listen
  serverName : String
  uwsgiParams : List (String × String)
  deriving DecidableEq

def dashboard : Server := ⟨[⟨80, false⟩, ⟨443, true⟩], "dashboard", [("dashboard", "1")]⟩

def allowedMacs : Server := ⟨[⟨20000, false⟩, ⟨20001, true⟩], "allowed_macs", []⟩

/-- A `uwsgi_param` that is left out if the entry is missing or false. -/
def optionalParam (name : String) : Option Value → List (String × String)
  | some value => if value.truthy then [(name, value.format)] else []
  | none => []

/-- The server of a VLAN. -/
def WebVlan.server (vlan : WebVlan) (httpPort httpsPort : Nat) : Server where
  listen := [⟨httpPort, false⟩, ⟨httpsPort, true⟩]
  serverName := "captive-portal"
  uwsgiParams :=
    [("vlan_id", (vlan.vlanId.getD (.int 0)).format), ("interface", vlan.interface)] ++
    optionalParam "web_authentication" vlan.webAuthentication ++
    optionalParam "guest_access" vlan.guestAccess

/-- `new_vlans_by_ifname`, with all that the VLANs have. -/
def webVlansByIfname (vlans : List WebVlan) : Dict String WebVlan :=
  .keyed (fun vlan => some vlan.nicName) vlans

/-- The file that the template renders. Every VLAN has been given its index before. -/
def render (byIfname : Dict String WebVlan) (indexes : LocalIndexes) : List Server :=
  dashboard :: allowedMacs :: byIfname.items.filterMap fun (nic, vlan) =>
    (indexes.byIfname.lookup nic).map fun localIndex =>
      vlan.server (20000 + localIndex * 2) (20000 + localIndex * 2 + 1)

/-- The host, and the file of nginx if there is one. -/
structure Gateway where
  host : Host
  nginx : Option (List Server)

/-- The end of `new_vlan_conf`, which an exception in its loops does not reach. -/
def Gateway.configure (order : Enumeration) (g : Gateway) (vlans : List WebVlan) : Gateway :=
  let sent := (g.host.configurator.newVlanConf order (vlans.map (·.toVlan))).1
  let host := g.host.configure order (vlans.map (·.toVlan))
  ⟨host, if sent.error = none then
    some (render (webVlansByIfname vlans) host.configurator.localIndexes) else g.nginx⟩

def Gateway.configureAll (order : Enumeration) (g : Gateway) (confs : List (List WebVlan)) :
    Gateway := confs.foldl (Gateway.configure order) g

/-! ## The NAT chain -/

/-- `8.8.8.8`. -/
def agentIp : BitVec 32 := 0x08080808
/-- `2001:41d0:2:ba47::1000:1000`. -/
def agentIp6 : BitVec 128 := 0x200141d00002ba470000000010001000

/-- A packet on its way through the NAT chain, and the port of this host to which it is
redirected. -/
structure NatPacket where
  packet : Packet
  redirected : Option Nat
  deriving DecidableEq

namespace NatPacket

/-- The destination port. -/
def dport (p : NatPacket) : Option (BitVec 16) :=
  match p.packet.transport with
  | some (.tcp _ dport) | some (.udp _ dport) => some dport
  | _ => none

/-- `redirect`, which keeps the port. -/
def redirect (p : NatPacket) : Option NatPacket :=
  p.dport.map fun dport => { p with redirected := some dport.toNat }

/-- `redirect to mark . tcp dport map @captive_portals`. -/
def redirectTo (captivePortals : Dict (Nat × Nat) Nat) (p : NatPacket) : Option NatPacket :=
  p.dport.bind fun dport => (captivePortals.get (p.packet.mark, dport.toNat)).map fun port =>
    { p with redirected := some port }

/-- `ip daddr $agent_ip` and `ip6 daddr $agent_ip6`. -/
def toAgent (protocol : Protocol) (p : NatPacket) : Bool :=
  match protocol with
  | .ip => p.packet.ipIs fun h => h.daddr = agentIp
  | .ip6 => p.packet.ip6Is fun h => h.daddr = agentIp6

def udpServices (p : NatPacket) : Bool :=
  p.packet.udpIs fun _ dport => dport ∈ ([1812, 1813, 161, 162] : List (BitVec 16))

end NatPacket

/-- The chain `prerouting` of `table ip elan` and of `table ip6 elan`. -/
def natPrerouting (protocol : Protocol) (r : Ruleset) : List (Rule Unit NatPacket) :=
  [[.test (NatPacket.toAgent protocol), .test NatPacket.udpServices, .update NatPacket.redirect,
      .verdict .accept],
   [.test (NatPacket.toAgent protocol), .test fun p => p.packet.web, .update NatPacket.redirect,
      .verdict .accept],
   [.test fun p => p.packet.mark ≠ 0, .test fun p => p.packet.web, .log,
      .update (NatPacket.redirectTo (r.captivePortals protocol)), .verdict .accept]]

/-- What becomes of a packet in the NAT chain. -/
def nat (protocol : Protocol) (r : Ruleset) (p : Packet) : Option (Bool × NatPacket) :=
  baseChain (fun _ : Unit => natPrerouting protocol r) () ⟨p, none⟩

/-- A marked web request that is not for the agent goes where the map sends it, if it does. -/
theorem nat_marked {protocol : Protocol} {r : Ruleset} {p : Packet} {sport dport : BitVec 16}
    (marked : p.mark ≠ 0) (header : p.transport = some (.tcp sport dport))
    (web : dport = http ∨ dport = https) (other : NatPacket.toAgent protocol ⟨p, none⟩ = false) :
    nat protocol r p = some (true, ⟨p, (r.captivePortals protocol).get (p.mark, dport.toNat)⟩) := by
  have isWeb : p.web = true := by
    rcases web with rfl | rfl <;> simp [Packet.web, Packet.tcpIs, header]
  have port : NatPacket.dport ⟨p, none⟩ = some dport := by simp [NatPacket.dport, header]
  generalize lookup : (r.captivePortals protocol).get (p.mark, dport.toNat) = found
  have skip (rest : Rule Unit NatPacket) (enter : Unit → NatPacket → Option (Outcome NatPacket)) :
      evalRule enter (.test (NatPacket.toAgent protocol) :: rest) ⟨p, none⟩ =
        some (.next ⟨p, none⟩) := by
    simp [other]
  have last (enter : Unit → NatPacket → Option (Outcome NatPacket)) :
      evalRule enter [.test fun p => p.packet.mark ≠ 0, .test fun p => p.packet.web, .log,
        .update (NatPacket.redirectTo (r.captivePortals protocol)), .verdict .accept] ⟨p, none⟩ =
      some (found.elim (.next ⟨p, none⟩) fun port => .accept ⟨p, some port⟩) := by
    cases found <;> simp [evalRule, Verdict.follow, marked, isWeb, NatPacket.redirectTo, port, lookup]
  have left : evalChain (fun _ : Unit => natPrerouting protocol r) jumpStackSize () ⟨p, none⟩ =
      some (found.elim (.next ⟨p, none⟩) fun port => .accept ⟨p, some port⟩) := by
    show evalRules _ (natPrerouting protocol r) _ = _
    rw [natPrerouting, evalRules_cons_next _ _ (skip _ _), evalRules_cons_next _ _ (skip _ _),
      evalRules, last]
    cases found <;> rfl
  rw [nat, baseChain, left]
  cases found <;> rfl

/-! ## The marks of the bridge table -/

/-- The packet is as it came, or has the mark of its interface. -/
def MarkedFrom (s : BridgeSets) (p q : Packet) : Prop :=
  q = p ∨ ∃ mark, s.vlanMark.get p.iif = some mark ∧ q = { p with mark }

/-- The chains that lead from the prerouting hook. -/
def Early (chain : Chain) : Prop :=
  chain = .prerouting ∨ chain = .captivePortal ∨ chain = .accessControlIn

theorem early_keeps (s : BridgeSets) (p : Packet) (chain : Chain) (early : Early chain) :
    ∀ rule ∈ s.rules chain, Keeps Early (MarkedFrom s p) rule := by
  have marks : ∀ q q', MarkedFrom s p q → s.setMark q = some q' → MarkedFrom s p q' := by
    intro q q' hq same
    obtain ⟨mark, hmark, rfl⟩ := Option.map_eq_some_iff.mp same
    rcases hq with rfl | ⟨before, hbefore, rfl⟩
    · exact .inr ⟨mark, hmark, rfl⟩
    · exact .inr ⟨mark, hmark, rfl⟩
  rcases early with rfl | rfl | rfl
  all_goals
    intro rule hrule
    simp only [BridgeSets.rules, BridgeSets.prerouting, BridgeSets.captivePortal,
      BridgeSets.accessControlIn, List.mem_cons, List.not_mem_nil, or_false] at hrule
  · rcases hrule with rfl | rfl <;> constructor <;> simp [Early]
  · rcases hrule with rfl | rfl | rfl | rfl <;> constructor <;> simp <;> exact marks
  · rcases hrule with rfl | rfl
    · constructor <;> simp
    · constructor <;> simp
      exact marks

/-- Before the NAT chain, a packet is marked for its interface or not at all. -/
theorem prerouting_marked {s : BridgeSets} {p q : Packet} {passed : Bool}
    (h : baseChain s.rules .prerouting p = some (passed, q)) : MarkedFrom s p q :=
  baseChain_keeps (early_keeps s p) (.inl rfl) (.inl rfl) h

/-! ## The map of the NAT chain -/

/-- The port that a mark and a destination port lead to. -/
def PortalPort (mark dport port : Nat) : Prop :=
  dport = 80 ∧ port = 20000 + mark * 2 ∨ dport = 443 ∧ port = 20000 + mark * 2 + 1

/-- The map has these marks, and leads from each of them to its two ports. -/
def Directs (captivePortals : Dict (Nat × Nat) Nat) (marks : Nat → Prop) : Prop :=
  ∀ mark dport port, captivePortals.get (mark, dport) = some port ↔
    marks mark ∧ PortalPort mark dport port

/-- The commands add the ports of a mark. -/
def Adds (commands : List Nft) (protocol : Protocol) (mark : Nat) : Prop :=
  .addCaptivePortals protocol mark (20000 + mark * 2) (20000 + mark * 2 + 1) ∈ commands

variable {protocol : Protocol} {commands : List Nft} {r : Ruleset} {marks : Nat → Prop}

theorem Directs.congr {captivePortals : Dict (Nat × Nat) Nat} {marks' : Nat → Prop}
    (directs : Directs captivePortals marks) (same : ∀ mark, marks mark ↔ marks' mark) :
    Directs captivePortals marks' := by
  intro mark dport port
  rw [directs mark dport port, same]

theorem Directs.add {captivePortals : Dict (Nat × Nat) Nat} (directs : Directs captivePortals marks)
    (mark : Nat) :
    Directs (addElement (addElement captivePortals (mark, 80) (20000 + mark * 2)) (mark, 443)
      (20000 + mark * 2 + 1)) fun i => marks i ∨ i = mark := by
  intro i dport port
  have same := directs i dport
  have http := directs mark 80
  have https := directs mark 443
  simp only [PortalPort] at *
  simp only [get_addElement, Prod.mk.injEq]
  by_cases hi : i = mark
  · subst i
    by_cases h80 : dport = 80
    · subst dport
      cases found : captivePortals.get (mark, 80) <;> grind
    · by_cases h443 : dport = 443
      · subst dport
        cases found : captivePortals.get (mark, 443) <;> grind
      · grind
  · grind

variable {byId : Dict Value Vlan} {old : Dict String Vlan} {items : List (String × Vlan)}
  {indexes : LocalIndexes}

/-- A web request that the bridge table lets in with a mark, on its way to `q`. -/
structure Caught (s : BridgeSets) (protocol : Protocol) (p q : Packet) (dport : BitVec 16) :
    Prop where
  fresh : p.mark = 0
  passed : baseChain s.rules .prerouting p = some (true, q)
  marked : q.mark ≠ 0
  header : ∃ sport, q.transport = some (.tcp sport dport)
  web : dport = http ∨ dport = https
  other : NatPacket.toAgent protocol ⟨q, none⟩ = false

variable {s : BridgeSets} {p q : Packet} {dport : BitVec 16}

theorem Caught.mark (caught : Caught s protocol p q dport) :
    s.vlanMark.get p.iif = some q.mark := by
  rcases prerouting_marked caught.passed with rfl | ⟨mark, hmark, rfl⟩
  · exact absurd caught.fresh caught.marked
  · exact hmark

theorem Caught.nat (caught : Caught s protocol p q dport) :
    nat protocol s.toRuleset q =
      some (true, ⟨q, (s.captivePortals protocol).get (q.mark, dport.toNat)⟩) := by
  obtain ⟨sport, header⟩ := caught.header
  exact nat_marked caught.marked header caught.web caught.other

/-- A configuration with a portal for guests, and a device that nobody knows there. -/
def guestConf : List WebVlan :=
  [⟨⟨some (.int 1), "eth0", none, true, false, false, [], [], [], []⟩, none, some (.int 1)⟩,
    ⟨⟨some (.int 2), "eth1", none, true, false, false, [], [], [], []⟩, some (.int 3), none⟩]

def guestGateway : Gateway :=
  Gateway.configureAll ⟨id, fun _ => .rfl⟩ ⟨.start .empty, none⟩ [guestConf]

def guestSets : BridgeSets := ⟨guestGateway.host.ruleset, ∅, ∅, ∅, ∅⟩

def guestRequest : Packet where
  iif := "eth1"
  oif := none
  mark := 0
  etherSaddr := "00:00:00:00:00:02"
  etherDaddr := "00:00:00:00:00:03"
  etherType := etherIp
  ip := some ⟨0x0a000002, 0x0a000003⟩
  ip6 := none
  transport := some (.tcp 50000 https)

end ElanAgent.AccessControl
