import ElanAgent.AccessControl.Interfaces
import ElanAgent.Nac.Firewall
import ElanAgent.Session.DeviceTracker

/-!
# The names of a VLAN

The device tracker and the captive portal name every VLAN `<nic>.<vlan>`, VLAN 0 included,
and look that name up in `allow_on`. The configurator puts VLAN 0 in `ac_ifs` under the name
of its interface alone, and the elements that `fw_allow_mac` adds have to name it likewise.
-/

namespace ElanAgent.Nac

open AccessControl (Vlan Host Enumeration Targets newVlansByIfname configured)
open Session (Packet)

/-- The VLAN of a login: nginx passes the interface and the VLAN-ID of the entry on, 0 where
there is none. -/
def loginVlan (vlan : Vlan) : String :=
  vlan.interface ++ "." ++ (vlan.vlanId.getD (.int 0)).format

/-- `not authz or vlan not in authz.allow_on`: the event `device-not-authorized` is sent. -/
def deviceNotAuthorized (authz : Option RedisMacAuthorization) (vlan : String) : Bool :=
  match authz with
  | none => true
  | some authz => vlan ∉ authz.allowOn

theorem deviceNotAuthorized_iff {authz : Option RedisMacAuthorization} {vlan : String} :
    deviceNotAuthorized authz vlan ↔ vlan ∉ allowedOn authz := by
  cases authz <;> simp [deviceNotAuthorized, allowedOn]

/-- The packet was captured on the VLAN: with its tag, or with none or 0 on VLAN 0. -/
def SeenOn {interfaces : List String} (vlan : Vlan) (p : Packet interfaces) : Prop :=
  let vlanId := vlan.vlanId.getD (.int 0)
  interfaces.get p.interfaceId = vlan.interface ∧
    p.vlanId.getD "0" = if vlanId.truthy then vlanId.format else "0"

/-- The names under which devices are seen on the VLAN and log in there. -/
inductive NamedAs (vlan : Vlan) : String → Prop where
  | login : NamedAs vlan (loginVlan vlan)
  | packet {interfaces} (p : Packet interfaces) : SeenOn vlan p → NamedAs vlan p.vlan

/-- `new_vlan_conf` controls the access to the VLAN under the name `nic`. -/
structure ControlledAs (vlans : List Vlan) (vlan : Vlan) (nic : String) : Prop where
  entry : (newVlansByIfname vlans).get nic = some vlan
  accessControl : vlan.accessControl

variable {vlans : List Vlan} {vlan : Vlan} {nic : String}

/-- The name is that of the element in `ac_ifs`. -/
theorem ControlledAs.addIf (controlled : ControlledAs vlans vlan nic) (order : Enumeration)
    (host : Host) (targets : Targets vlans) : .addIf .ac nic ∈ host.commands order vlans :=
  ((configured order host targets).addIf .ac nic).mpr
    ⟨vlan, controlled.entry, controlled.accessControl⟩

theorem ControlledAs.nicName (controlled : ControlledAs vlans vlan nic) : vlan.nicName = nic :=
  Option.some.inj (Dict.get_keyed_some controlled.entry).2

/-- The code finds a device with this authorization authorized on the VLAN exactly if the
firewall lets it in there. -/
def Agrees (vlan : Vlan) (nic : String) (authz : RedisMacAuthorization) : Prop :=
  ∀ (fw : Firewall) (mac name : String), (fw.device mac).Exact → NamedAs vlan name →
    (deviceNotAuthorized (some authz) name = false ↔
      (mac, nic) ∈ (fw.fwAllowMac mac authz.allowOn authz.bridgeTo).macOnVlan)

/-- What the firewall lets in is what the authorization names. -/
theorem mem_fwAllowMac {fw : Firewall} {mac : String} (exact : (fw.device mac).Exact)
    (allowOn bridgeTo : Finset String) :
    (mac, nic) ∈ (fw.fwAllowMac mac allowOn bridgeTo).macOnVlan ↔ nic ∈ allowOn := by
  have programmed := (exact.program allowOn bridgeTo).1
  have device := device_fwAllowMac fw mac allowOn bridgeTo mac
  rw [if_pos rfl] at device
  rw [← device] at programmed
  simpa [Firewall.device, Firewall.fwAllowMac] using Set.ext_iff.mp programmed nic

theorem agrees_iff_names {authz : RedisMacAuthorization} :
    Agrees vlan nic authz ↔
      ∀ name, NamedAs vlan name → (name ∈ authz.allowOn ↔ nic ∈ authz.allowOn) := by
  have closed : (Firewall.device ⟨fun _ => ∅, fun _ => ∅, ∅, ∅⟩ "").Exact := by
    simp [Firewall.device, Device.Exact, Mirror.Exact]
  refine ⟨fun agrees name named => ?_, fun same fw mac name exact named => ?_⟩
  · have := agrees _ _ name closed named
    rw [mem_fwAllowMac closed] at this
    simpa [deviceNotAuthorized] using this
  · rw [mem_fwAllowMac exact, ← same name named]
    simp [deviceNotAuthorized]

/-- A VLAN with a VLAN-ID has one name. -/
theorem NamedAs.eq_nicName {name : String} (named : NamedAs vlan name)
    (tagged : (vlan.vlanId.getD (.int 0)).truthy) : name = vlan.nicName := by
  cases named with
  | login => simp only [loginVlan, Vlan.nicName, if_pos tagged]
  | packet p seen =>
    obtain ⟨interface, tag⟩ := seen
    rw [if_pos tagged] at tag
    simp only [Packet.vlan, Vlan.nicName, if_pos tagged, interface, tag]

/-- VLAN 0 has one name for the tracker and the portal. -/
theorem NamedAs.eq_zero {name : String} (named : NamedAs vlan name)
    (zero : vlan.vlanId = none ∨ vlan.vlanId = some (.int 0)) :
    name = vlan.interface ++ "." ++ "0" := by
  have untagged : vlan.vlanId.getD (.int 0) = .int 0 := by
    rcases zero with h | h <;> rw [h] <;> rfl
  cases named with
  | login => simp only [loginVlan, untagged, Value.format]; rfl
  | packet p seen =>
    obtain ⟨interface, tag⟩ := seen
    rw [untagged] at tag
    rw [Packet.vlan, interface, tag]
    rfl

/-- The decisions agree for every authorization exactly if the VLAN has a VLAN-ID. On VLAN 0
they agree for an authorization that names it in both ways, or in neither. -/
theorem agrees_iff (controlled : ControlledAs vlans vlan nic) :
    ((∀ authz, Agrees vlan nic authz) ↔ (vlan.vlanId.getD (.int 0)).truthy) ∧
    (vlan.vlanId = none ∨ vlan.vlanId = some (.int 0) → ∀ authz, Agrees vlan nic authz ↔
      (vlan.interface ++ "." ++ "0" ∈ authz.allowOn ↔ vlan.interface ∈ authz.allowOn)) := by
  obtain rfl := controlled.nicName
  refine ⟨⟨fun agrees => ?_, fun tagged authz => ?_⟩, fun zero authz => ?_⟩
  · by_contra untagged
    let authz : RedisMacAuthorization := ⟨none, "", .none, {vlan.nicName}, ∅, none, none, ∅⟩
    have same : loginVlan vlan = vlan.nicName := by
      simpa [authz] using agrees_iff_names.mp (agrees authz) _ .login
    rw [loginVlan, Vlan.nicName, if_neg untagged] at same
    have lengths := congrArg String.length same
    simp only [String.length_append] at lengths
    have dot : ".".length = 1 := rfl
    omega
  · exact agrees_iff_names.mpr fun name named => by rw [named.eq_nicName tagged]
  · have untagged : ¬ (vlan.vlanId.getD (.int 0)).truthy := by
      rcases zero with h | h <;> rw [h] <;> decide
    rw [agrees_iff_names]
    simp only [Vlan.nicName, untagged]
    refine ⟨fun same => ?_, fun same name named => ?_⟩
    · have := same _ .login
      rwa [NamedAs.eq_zero .login zero] at this
    · rw [named.eq_zero zero]
      simpa using same

/-- An entry for the devices on `eth0` without a tag. -/
def untaggedEntry : Vlan where
  id := some (.int 1)
  interface := "eth0"
  vlanId := some (.int 0)
  accessControl := true
  log := false
  ids := false
  dhcpPassthroughs := []
  dnsPassthroughs := []
  ndpPassthroughs := []
  mdnsAnswersPassthroughs := []

theorem agrees_iff_untaggedEntry : ControlledAs [untaggedEntry] untaggedEntry "eth0" ∧
    ¬ ∀ authz, Agrees untaggedEntry "eth0" authz := by
  have controlled : ControlledAs [untaggedEntry] untaggedEntry "eth0" :=
    ⟨by decide +kernel, by decide⟩
  refine ⟨controlled, fun agrees => ?_⟩
  have tagged := (agrees_iff controlled).1.mp agrees
  revert tagged
  decide

/-- A device that is allowed on `eth0` is let in, and found not to be authorized. -/
theorem not_agrees_untagged : ¬ ∀ (vlans : List Vlan) (vlan : Vlan) (nic : String),
    ControlledAs vlans vlan nic → ∀ authz, Agrees vlan nic authz := by
  intro agrees
  let authz : RedisMacAuthorization :=
    ⟨some 1, "aa:bb:cc:dd:ee:01", .none, {"eth0"}, ∅, some true, none, ∅⟩
  have same := agrees_iff_names.mp
    (agrees [untaggedEntry] untaggedEntry "eth0" ⟨by decide +kernel, by decide⟩ authz) _ .login
  revert same
  decide +kernel

end ElanAgent.Nac
