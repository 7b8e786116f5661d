import ElanAgent.AccessControl.Nft
import ElanAgent.Library.Redis
import ElanAgent.Value

/-!
# The access control configurator

`newVlanConf` is `AccessControlConfigurator.new_vlan_conf`, as the commands it sends
to `nft` and the state it leaves. A missing key raises in the middle of the loops:
what was sent before is kept, and the stored configuration is the previous one.

The bridge, netplan and nginx are left out: they neither read nor write the nft sets.
The configurator enumerates a difference of Python sets, in an order that Python does
not specify; it is a parameter here.
-/

namespace ElanAgent.AccessControl

open Redis

/-- A VLAN dictionary. `id` and `vlan_id` may be absent. The flags are the truth values
of `get(…, False)` and the lists are those of `get(…, [])`. -/
structure Vlan where
  id : Option Value
  interface : String
  vlanId : Option Value
  accessControl : Bool
  log : Bool
  ids : Bool
  dhcpPassthroughs : List Value
  dnsPassthroughs : List Value
  ndpPassthroughs : List Value
  mdnsAnswersPassthroughs : List Value
  deriving DecidableEq

namespace Vlan

/-- `<nic>.<vlan>`, or the interface itself when there is no VLAN-ID. -/
def nicName (vlan : Vlan) : String :=
  let vlanId := vlan.vlanId.getD (.int 0)
  if vlanId.truthy then vlan.interface ++ "." ++ vlanId.format else vlan.interface

/-- The passthrough list that goes to a set. -/
def passthroughs (vlan : Vlan) : PtSet → List Value
  | .dhcp => vlan.dhcpPassthroughs
  | .dns => vlan.dnsPassthroughs
  | .ndp => vlan.ndpPassthroughs
  | .mdns => vlan.mdnsAnswersPassthroughs

/-- The flag that puts the interface in a set. -/
def flag (vlan : Vlan) : IfSet → Bool
  | .ac => vlan.accessControl
  | .ids => vlan.ids
  | .log => vlan.log

end Vlan

/-! ## Local indexes -/

/-- The local indexes in Redis, by interface name, with the last index given. Indexes are
positive and never shared. -/
structure LocalIndexes where
  byIfname : Hash String Nat
  index : Nat
  pos : ∀ nic i, byIfname.lookup nic = some i → 0 < i
  le : ∀ nic i, byIfname.lookup nic = some i → i ≤ index
  inj : ∀ nic nic' i, byIfname.lookup nic = some i → byIfname.lookup nic' = some i → nic = nic'

def LocalIndexes.empty : LocalIndexes where
  byIfname := ∅
  index := 0
  pos _ _ h := by simp at h
  le _ _ h := by simp at h
  inj _ _ _ h := by simp at h

/-- Take the next index for an interface. -/
def LocalIndexes.create (s : LocalIndexes) (nic : String) : LocalIndexes where
  byIfname := s.byIfname.insert nic (s.index + 1)
  index := s.index + 1
  pos nic' i h := by
    have := s.pos nic' i
    grind [lookup_insert_ite]
  le nic' i h := by
    have := s.le nic' i
    grind [lookup_insert_ite]
  inj nic₁ nic₂ i h₁ h₂ := by
    have := s.le nic₁ i
    have := s.le nic₂ i
    have := s.inj nic₁ nic₂ i
    grind [lookup_insert_ite]

/-- The index of an interface, created at its first use. -/
def LocalIndexes.getVlanLocalIndex (s : LocalIndexes) (nic : String) : Nat × LocalIndexes :=
  match s.byIfname.lookup nic with
  | some i => (i, s)
  | none => (s.index + 1, s.create nic)

theorem LocalIndexes.getVlanLocalIndex_lookup (s : LocalIndexes) (nic : String) :
    (s.getVlanLocalIndex nic).2.byIfname.lookup nic = some (s.getVlanLocalIndex nic).1 := by
  unfold getVlanLocalIndex
  cases h : s.byIfname.lookup nic with
  | some i => exact h
  | none => simp [create]

theorem LocalIndexes.getVlanLocalIndex_keeps {s : LocalIndexes} {nic nic' : String} {i : Nat}
    (h : s.byIfname.lookup nic' = some i) :
    (s.getVlanLocalIndex nic).2.byIfname.lookup nic' = some i := by
  unfold getVlanLocalIndex
  cases hn : s.byIfname.lookup nic with
  | some j => exact h
  | none =>
    have hne : nic' ≠ nic := by rintro rfl; simp [hn] at h
    rw [create, lookup_insert_ite, if_neg hne, h]

/-! ## The commands of one configuration -/

/-- The lines sent to `nft`, and the key whose absence stopped them, if any. -/
structure Sent where
  commands : List Nft
  error : Option Value

/-- Commands that cannot raise. -/
def send (commands : List Nft) : Sent := ⟨commands, none⟩

/-- Go on, unless an exception was raised. -/
def Sent.andThen (first next : Sent) : Sent :=
  match first.error with
  | some _ => first
  | none => ⟨first.commands ++ next.commands, next.error⟩

/-- The interface of the entry that a passthrough names. Unlike everywhere else, an entry
without `vlan_id` raises here. -/
def nicOut (newVlansById : Dict Value Vlan) (pt : Value) : Except Value String :=
  match newVlansById.get pt with
  | none => .error pt
  | some target =>
    match target.vlanId with
    | none => .error "vlan_id"
    | some vlanId =>
      .ok (if vlanId.truthy then target.interface ++ "." ++ vlanId.format else target.interface)

/-- The passthrough list of the entry that was stored for an interface. -/
def oldPassthroughs (old : Option Vlan) (set : PtSet) : List Value :=
  match old with
  | some vlan => vlan.passthroughs set
  | none => []

/-- Add the passthroughs that the stored entry does not have. -/
def sendPassthroughs (newVlansById : Dict Value Vlan) (old : Option Vlan) (nic : String)
    (set : PtSet) : List Value → Sent
  | [] => send []
  | pt :: pts =>
    if pt ∈ oldPassthroughs old set then sendPassthroughs newVlansById old nic set pts
    else
      match nicOut newVlansById pt with
      | .error key => ⟨[], some key⟩
      | .ok out =>
        (send [.addPt set nic out]).andThen (sendPassthroughs newVlansById old nic set pts)

/-- Add the interface to a set, or delete it. -/
def setIf (vlan : Vlan) (nic : String) (set : IfSet) : Nft :=
  if vlan.flag set then .addIf set nic else .deleteIf set nic

/-- The body of the loop over the new VLANs. -/
def configureVlan (newVlansById : Dict Value Vlan) (old : Option Vlan) (nic : String)
    (vlan : Vlan) (localIndex : Nat) : Sent :=
  let httpPort := 20000 + localIndex * 2
  let httpsPort := 20000 + localIndex * 2 + 1
  let passthroughs := fun set =>
    sendPassthroughs newVlansById old nic set (vlan.passthroughs set)
  send [setIf vlan nic .ac, .addMark nic localIndex,
      .addCaptivePortals .ip localIndex httpPort httpsPort,
      .addCaptivePortals .ip6 localIndex httpPort httpsPort]
    |>.andThen (passthroughs .dhcp)
    |>.andThen (passthroughs .dns)
    |>.andThen (passthroughs .ndp)
    |>.andThen (passthroughs .mdns)
    |>.andThen (send [setIf vlan nic .log, setIf vlan nic .ids])

/-- The loop over the new VLANs. An exception leaves the indexes given so far. -/
def configureVlans (newVlansById : Dict Value Vlan) (old : Dict String Vlan) :
    List (String × Vlan) → LocalIndexes → Sent × LocalIndexes
  | [], indexes => (send [], indexes)
  | (nic, vlan) :: items, indexes =>
    let (localIndex, indexes) := indexes.getVlanLocalIndex nic
    let sent := configureVlan newVlansById (old.get nic) nic vlan localIndex
    match sent.error with
    | some _ => (sent, indexes)
    | none =>
      let (rest, indexes) := configureVlans newVlansById old items indexes
      (sent.andThen rest, indexes)

/-- An order in which a Python set may be enumerated. -/
structure Enumeration where
  order : List String → List String
  perm : ∀ l, (order l).Perm l

/-- What the configurator keeps: its dictionary, and the local indexes in Redis. -/
structure Configurator where
  vlansByIfname : Dict String Vlan
  localIndexes : LocalIndexes

def newVlansById (vlans : List Vlan) : Dict Value Vlan := .keyed Vlan.id vlans

def newVlansByIfname (vlans : List Vlan) : Dict String Vlan :=
  .keyed (fun vlan => some vlan.nicName) vlans

/-- The sets that are re-populated after. -/
def flushes : List Nft :=
  [.flushPts .dhcp, .flushPts .dns, .flushPts .ndp, .flushPts .mdns,
    .flushCaptivePortals .ip, .flushCaptivePortals .ip6]

/-- Take the interfaces that are no longer configured out of their sets. -/
def deletes (nics : List String) : List Nft :=
  nics.flatMap fun nic => [.deleteIf .ac nic, .deleteIf .ids nic, .deleteIf .log nic]

/-- Configure the VLANs: a configuration is the list of all of them. -/
def Configurator.newVlanConf (order : Enumeration) (self : Configurator) (vlans : List Vlan) :
    Sent × Configurator :=
  let byIfname := newVlansByIfname vlans
  let deleted := order.order (self.vlansByIfname.keys.filter (· ∉ byIfname.keys))
  let (sent, indexes) :=
    configureVlans (newVlansById vlans) self.vlansByIfname byIfname.items self.localIndexes
  let sent := (send (flushes ++ deletes deleted)).andThen (sent.andThen (send [.quit]))
  (sent, ⟨if sent.error = none then byIfname else self.vlansByIfname, indexes⟩)

/-! ## Sequences of configurations -/

/-- The configurator and the nft sets. -/
structure Host where
  configurator : Configurator
  ruleset : Ruleset

/-- A configurator that has just started, with empty nft sets. Indexes outlive it. -/
def Host.start (indexes : LocalIndexes) : Host := ⟨⟨.empty, indexes⟩, .empty⟩

/-- The commands sent for a configuration. -/
def Host.commands (order : Enumeration) (host : Host) (vlans : List Vlan) : List Nft :=
  (host.configurator.newVlanConf order vlans).1.commands

/-- The host after one configuration. -/
def Host.configure (order : Enumeration) (host : Host) (vlans : List Vlan) : Host :=
  ⟨(host.configurator.newVlanConf order vlans).2,
    host.ruleset.applyAll (host.commands order vlans)⟩

/-- The host after several configurations. -/
def Host.configureAll (order : Enumeration) (host : Host) (confs : List (List Vlan)) : Host :=
  confs.foldl (Host.configure order) host

end ElanAgent.AccessControl
