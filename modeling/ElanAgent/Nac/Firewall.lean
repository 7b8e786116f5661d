import ElanAgent.Library.Mirror
import ElanAgent.Nac.Events

/-!
# The firewall of one device

The VLANs that are open for a device, and those it is bridged to, are each an nft set with
a dictionary beside it. `fw_allow_mac` programs both for one device and leaves those of
the others alone.
-/

namespace ElanAgent.Nac

open Atomic RedisMacAuthorization MacAuthorizationManager

/-- The VLANs that an authorization opens, none without one. -/
def allowedOn (authz : Option RedisMacAuthorization) : Finset String := authz.elim ∅ (·.allowOn)

/-- The VLANs that an authorization bridges to, none without one. -/
def bridgedTo (authz : Option RedisMacAuthorization) : Finset String := authz.elim ∅ (·.bridgeTo)

/-- The part of the firewall that is about one device. -/
structure Device where
  allowed : Mirror String
  bridged : Mirror String

def Firewall.device (fw : Firewall) (mac : String) : Device where
  allowed := ⟨fw.allowedVlans mac, {vlan | (mac, vlan) ∈ fw.macOnVlan}⟩
  bridged := ⟨fw.bridgedVlans mac, {vlan | (mac, vlan) ∈ fw.macToVlan}⟩

namespace Device

variable (d : Device) (authz : Option RedisMacAuthorization)

def program (allowOn bridgeTo : Finset String) : Device :=
  ⟨d.allowed.program allowOn, d.bridged.program bridgeTo⟩

/-- The nft sets are what the dictionaries say. -/
def Exact : Prop := d.allowed.Exact ∧ d.bridged.Exact

/-- The nft sets have all that the dictionaries say. -/
def Contains : Prop := d.allowed.Contains ∧ d.bridged.Contains

/-- The dictionaries say what the authorization asks for. -/
def Holds : Prop := d.allowed.copy = allowedOn authz ∧ d.bridged.copy = bridgedTo authz

/-- The nft sets have nothing that the authorization does not ask for. -/
def Within : Prop := d.allowed.actual ⊆ ↑(allowedOn authz) ∧ d.bridged.actual ⊆ ↑(bridgedTo authz)

variable {d authz}

theorem Exact.contains (h : d.Exact) : d.Contains := ⟨h.1.contains, h.2.contains⟩

theorem Exact.program (h : d.Exact) (allowOn bridgeTo : Finset String) :
    (d.program allowOn bridgeTo).Exact := ⟨h.1.program, h.2.program⟩

theorem Contains.program (h : d.Contains) (allowOn bridgeTo : Finset String) :
    (d.program allowOn bridgeTo).Contains :=
  ⟨Mirror.contains_program h.1, Mirror.contains_program h.2⟩

theorem Within.program (h : d.Within authz) (contains : d.Contains) :
    (d.program (allowedOn authz) (bridgedTo authz)).Exact :=
  ⟨Mirror.exact_program contains.1 (Set.sdiff_subset.trans h.1),
    Mirror.exact_program contains.2 (Set.sdiff_subset.trans h.2)⟩

theorem holds_program : (d.program (allowedOn authz) (bridgedTo authz)).Holds authz := ⟨rfl, rfl⟩

end Device

section Program

variable (fw : Firewall) (mac : String)

theorem mem_elements {vlans : Finset String} {mac' vlan : String} :
    (mac', vlan) ∈ elements mac vlans ↔ mac' = mac ∧ vlan ∈ vlans := by
  simp only [elements, Finset.mem_image, Prod.mk.injEq]
  grind

/-- Programming a device touches no other one. -/
theorem device_fwAllowMac (allowOn bridgeTo : Finset String) (mac' : String) :
    (fw.fwAllowMac mac allowOn bridgeTo).device mac' =
      if mac' = mac then (fw.device mac).program allowOn bridgeTo else fw.device mac' := by
  by_cases same : mac' = mac
  · subst mac'
    simp only [Firewall.device, Firewall.fwAllowMac, Device.program, Mirror.program, if_true,
      Function.update_self, Finset.mem_union, Finset.mem_sdiff, mem_elements, true_and]
    congr 2 <;> ext vlan <;> simp
  · simp [Firewall.device, Firewall.fwAllowMac, mem_elements, same]

end Program

/-- The firewall is what the stored authorization of `mac` asks for. -/
def World.Programmed (w : World) (mac : String) : Prop :=
  (w.firewall.device mac).Exact ∧ (w.firewall.device mac).Holds (w.stored mac)

theorem World.Programmed.mem_iff {w : World} {mac : String} (h : w.Programmed mac) (vlan : String) :
    ((mac, vlan) ∈ w.firewall.macOnVlan ↔ vlan ∈ allowedOn (w.stored mac)) ∧
      ((mac, vlan) ∈ w.firewall.macToVlan ↔ vlan ∈ bridgedTo (w.stored mac)) := by
  obtain ⟨exact, holds⟩ := h
  rw [← holds.1, ← holds.2]
  exact ⟨Set.ext_iff.mp exact.1 vlan, Set.ext_iff.mp exact.2 vlan⟩

theorem programmed_empty (answers : Nat → Option NetworkAssignments) (mac : String) :
    (World.empty answers).Programmed mac := by
  simp [World.Programmed, World.empty, Firewall.device, Device.Exact, Device.Holds, Mirror.Exact,
    World.stored, allowedOn, bridgedTo]

end ElanAgent.Nac
