import ElanAgent.Library.Text
import ElanAgent.Radius.PortSearch
import ElanAgent.Snmp.PortIndex

/-!
# Whose port it is

`find_port` tells a port by the id of a switch and an interface. The interface that the NAS
port leads to is looked up under an IP, which may be that of another device than the switch:
the IP of a cached switch is always that of the client.
-/

namespace ElanAgent.Radius

open Raising Candidates
open Session (Port)
open Snmp (Device SwitchPort)

/-! ## The lookups of the NAS port -/

section NasPort

variable {ip : Value} {w w' : Snmp.World}

theorem getReadParams_follows {outcome : Except Snmp.Error (Option String)}
    (h : exec (Snmp.getReadParams ip) w = (outcome, w')) : w.Follows ip w' := by
  rw [Snmp.getReadParams, exec_get_bind] at h
  cases cached : w.readParams ip.format with
  | some params =>
    rw [cached] at h
    exact (Prod.mk.inj h).2 ▸ .refl ip w
  | none =>
    simp only [cached, exec_bind] at h
    rcases polled : exec (Snmp.poll ip) w with ⟨e | device, w₁⟩
    · rw [polled] at h
      exact (Prod.mk.inj h).2 ▸ .poll polled
    · rw [polled] at h
      cases device with
      | none => exact (Prod.mk.inj h).2 ▸ .poll polled
      | some device => exact (Prod.mk.inj h).2 ▸ .poll polled

theorem nasPort2IfIndexes_follows {indexes : List Value}
    (h : exec (Snmp.nasPort2IfIndexes ip) w = (.ok indexes, w')) : w.Follows ip w' := by
  obtain ⟨params, w₁, read, rest⟩ := exec_bind_eq_ok.mp h
  have follows := getReadParams_follows read
  rw [exec_get_bind, exec_set_bind] at rest
  cases resolved : w₁.resolved w₁.asked with
  | none => simp [resolved] at rest
  | some found =>
    simp only [resolved] at rest
    obtain ⟨-, rfl⟩ := exec_pure_eq_ok.mp rest
    exact ⟨follows.labelled, follows.leads, follows.others⟩

/-- Once the switch is polled, the lookups change nothing. -/
theorem interfacesOfIndexes_unchanged {known indexes l : List Value}
    (h : exec (interfacesOfIndexes ip true known indexes) w = (.ok l, w')) : w' = w := by
  induction indexes generalizing known with
  | nil => exact (exec_pure_eq_ok.mp h).2.symm
  | cons index indexes ih =>
    rw [interfacesOfIndexes] at h
    obtain ⟨port, w₁, asked, rest⟩ := exec_bind_eq_ok.mp h
    rw [exec_manager_eq_ok] at asked
    have outcome := Snmp.getPortFromIndex_outcome ip index false true w
    obtain rfl : w₁ = w := (congrArg Prod.snd asked).symm.trans outcome.unchanged
    cases port with
    | none => exact ih rest
    | some port => exact ih rest

/-- Each port that the manager answers is in the cache at the end. -/
theorem indexed_holds {polled : Bool} {known indexes l : List Value}
    {answers : List (Option Port)} (h : Indexed ip polled w indexes answers)
    (labelled : w.Labelled)
    (returned : exec (interfacesOfIndexes ip polled known indexes) w = (.ok l, w')) :
    w.Follows ip w' ∧ ∀ port, some port ∈ answers → ∃ id, w'.Holds ip port id := by
  induction h generalizing known with
  | nil polled w =>
    obtain ⟨-, rfl⟩ := exec_pure_eq_ok.mp returned
    exact ⟨.refl ip w, by simp⟩
  | @cons polled w w₁ index indexes port answers first later ih =>
    have outcome := Snmp.getPortFromIndex_outcome ip index (!polled) polled w
    rw [first] at outcome
    have follows := outcome.follows
    obtain ⟨known', rest⟩ : ∃ known',
        exec (interfacesOfIndexes ip true known' indexes) w₁ = (.ok l, w') := by
      have asked : exec (manager (Snmp.getPortFromIndex ip index (!polled) (!!polled))) w =
          (.ok port, w₁) := by rwa [exec_manager_eq_ok, Bool.not_not]
      rw [interfacesOfIndexes, exec_bind_ok asked] at returned
      cases port with
      | none => exact ⟨known, returned⟩
      | some port => exact ⟨_, returned⟩
    obtain rfl := interfacesOfIndexes_unchanged rest
    refine ⟨follows, fun answer hanswer => ?_⟩
    rcases List.mem_cons.mp hanswer with rfl | hanswer
    · exact outcome.holds labelled
    · exact (ih (follows.labelled labelled) rest).2 answer hanswer

theorem resolved_holds {found : Found} {nasPort : Value} {answers : List (Option Port)}
    (h : Resolved found nasPort w answers) (labelled : w.Labelled) {l : List Value}
    (returned : exec (portsByNasPort found nasPort) w = (.ok l, w')) :
    w.Follows found.switchIp w' ∧
      ∀ port, some port ∈ answers → ∃ id, w'.Holds found.switchIp port id := by
  cases h with
  | absent falsy =>
    rw [portsByNasPort, if_neg (by simp [falsy])] at returned
    obtain ⟨-, rfl⟩ := exec_pure_eq_ok.mp returned
    exact ⟨.refl _ w, by simp⟩
  | known truthy listed indexed =>
    rw [portsByNasPort, if_pos truthy, exec_bind_ok (exec_manager_eq_ok.mpr listed)] at returned
    have follows := nasPort2IfIndexes_follows listed
    obtain ⟨follows', holds⟩ := indexed_holds indexed (follows.labelled labelled) returned
    exact ⟨follows.trans follows', holds⟩

end NasPort

/-! ## The switch -/

section Switch

variable {found : Found} {w w' : Snmp.World}

/-- The switch is cached under its id, with the ports that are searched. -/
def Found.Cached (found : Found) (w : Snmp.World) (id : Nat) : Prop :=
  found.switch.localId = some id ∧ ∃ kept, w.byId id = some kept ∧
    ∀ port, kept.HasPort port ↔ found.switch.HasPort port

/-- A switch that is found is a cached one. -/
def Kept (w' : Snmp.World) (outcome : Option Found) : Prop :=
  w'.Labelled ∧ ∀ found, outcome = some found → ∃ id, found.Cached w' id

end Switch

/-! ## The interface -/

section Search

variable {request : Request} {found : Found} {w w' : Snmp.World} {r : Reading}

/-- The texts tell the port: one of the first three sets has one element only. -/
def Reading.Early (r : Reading) (request : Request) (found : Found) : Prop :=
  ∃ s ∈ (r.candidates request found.switch).take 3, Single s

end Search

/-! ## Whose interface it is -/

/-- The device that the port names is cached, and has a port with that interface. Both are
named by their texts. -/
def Owned (w : Snmp.World) (port : Port) : Prop :=
  ∃ id device, port.localId = .str (toString id) ∧ w.byId id = some device ∧
    ∃ p, device.HasPort p ∧ port.interface = .str p.interface.format

/-- The search comes to the NAS port, which leads to one interface. -/
structure ComesToNasPort (request : Request) (found : Found) (w : Snmp.World) (r : Reading)
    (interface : Value) : Prop where
  reads : Reads request found w r
  ports : r.PortsKnown request found
  late : ¬r.Early request found
  only : nasPortCandidates r.answers = {interface}

/-- An answer for the NAS port is of the switch, or the switch has a port with the same
interface anyway. -/
def Reading.OfSwitch (r : Reading) (found : Found) (interface : Value) : Prop :=
  (∃ port id, some port ∈ r.answers ∧ found.switch.localId = some id ∧ port.localId = .int id) ∨
    ∃ p, found.switch.HasPort p ∧ p.interface.format = interface.format

section Owners

variable {request : Request} {found : Found} {w w' : Snmp.World} {r : Reading} {id : Nat}

theorem Found.Cached.owned (h : found.Cached w id) {p : SwitchPort}
    (here : found.switch.HasPort p) (ssid : Option Value) :
    Owned w ⟨.str (toString id), .str p.interface.format, ssid, ∅⟩ := by
  obtain ⟨-, kept, cached, same⟩ := h
  exact ⟨id, kept, rfl, cached, p, (same p).mpr here, rfl⟩

/-- The answers are of the switch if the IP of the lookups leads to it. -/
theorem ofSwitch_of_leads (labelled : w.Labelled) (cached : found.Cached w id)
    (leads : w.idByIp found.switchIp.format = some id) {interface : Value}
    (comes : ComesToNasPort request found w r interface) : r.OfSwitch found interface := by
  have resolved := comes.reads.answers fun s hs one => comes.late ⟨s, hs, one⟩
  obtain ⟨l, w', returned, -⟩ := portsByNasPort_eq resolved
  obtain ⟨follows, holds⟩ := resolved_holds resolved labelled returned
  have answer : interface ∈ nasPortCandidates r.answers := by simp [comes.only]
  obtain ⟨port, hport, rfl⟩ := answer
  obtain ⟨owner, held⟩ := holds port hport
  obtain rfl : owner = id := held.leads id (follows.leads id leads)
  exact .inl ⟨port, owner, hport, cached.1, held.localId⟩

end Owners

/-! ## A controller and its client -/

/-- A device with one port. -/
def onePort (localId : Option Nat) (interface : String) : Device where
  localId := localId
  ports := some [⟨"7", .str interface, .str interface, none, .none, none⟩]
  fwMac := .absent
  fwPort := .absent
  ignored := ∅
  rest := ∅

end ElanAgent.Radius
