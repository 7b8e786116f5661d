import ElanAgent.Library.Candidates
import ElanAgent.Radius.Ports

/-!
# When the search for a port finds it

Once `find_port` has a switch, it should return what can be chosen among its four sets of
candidates. It does, unless only the SSID tells the port, or only what the sets have in
common does: the first reads a variable without a value, and the second an item of a set.
-/

namespace ElanAgent.Radius

open Raising Candidates
open Session (Port)
open Snmp (Device SwitchPort)

/-! ## Candidates -/

section Candidates

variable (switch : Device)

/-- The interfaces of the ports of a switch that satisfy `P`. -/
def interfacesWith (P : SwitchPort → Prop) : Set Value :=
  {interface | ∃ port ∈ switch.ports.getD [], P port ∧ port.interface = interface}

/-- The ports that have the MAC of the called station. -/
def macCandidates (called : Option String) : Set Value :=
  interfacesWith switch fun port => ∃ mac, called = some mac ∧ port.mac = some mac

/-- The ports that advertise the SSID. -/
def ssidCandidates (ssid : Option String) : Set Value :=
  interfacesWith switch fun port =>
    ∃ name, ssid = some name ∧ ∃ s ∈ port.ssids.getD [], s.ssid = .str name

/-- The ports whose interface, name or description is the id of the NAS port. -/
def nasPortIdCandidates (nasPortId : Value) : Set Value :=
  interfacesWith switch fun port =>
    nasPortId.truthy ∧ nasPortId ∈ [port.interface, port.name, port.description]

end Candidates

/-- What `getPortFromIndex` returns for each index in turn, after one poll at most. -/
inductive Indexed (ip : Value) : Bool → Snmp.World → List Value → List (Option Port) → Prop
  | nil (polled : Bool) (w : Snmp.World) : Indexed ip polled w [] []
  | cons {polled : Bool} {w w' : Snmp.World} {index : Value} {indexes : List Value}
      {port : Option Port} {ports : List (Option Port)}
      (first : exec (Snmp.getPortFromIndex ip index (!polled) polled) w = (.ok port, w'))
      (later : Indexed ip true w' indexes ports) :
      Indexed ip polled w (index :: indexes) (port :: ports)

/-- The answers of `snmp_manager` for the NAS port, if the request has one. -/
inductive Resolved (found : Found) (nasPort : Value) (w : Snmp.World) :
    List (Option Port) → Prop
  | absent (falsy : nasPort.truthy = false) : Resolved found nasPort w []
  | known {w' : Snmp.World} {indexes : List Value} {ports : List (Option Port)}
      (truthy : nasPort.truthy = true)
      (listed : exec (Snmp.nasPort2IfIndexes found.switchIp) w = (.ok indexes, w'))
      (answers : Indexed found.switchIp found.switchPolled w'
        (if indexes = [] then [.str nasPort.format] else indexes) ports) :
      Resolved found nasPort w ports

/-- The interfaces of the ports that the NAS port may be. -/
def nasPortCandidates (ports : List (Option Port)) : Set Value :=
  {interface | ∃ port, some port ∈ ports ∧ port.interface = interface}

/-- What is found out for a request: its SSID, the MAC of the called station, and the answers
for its NAS port. -/
structure Reading where
  ssid : Option String
  called : Option String
  answers : List (Option Port)

/-- The sets of candidates, in the order in which they are looked at. -/
def Reading.candidates (r : Reading) (request : Request) (switch : Device) : List (Set Value) :=
  [macCandidates switch r.called, ssidCandidates switch r.ssid,
    nasPortIdCandidates switch (request.attribute "NAS-Port-ID"), nasPortCandidates r.answers]

section Search

variable (request : Request) (found : Found) (w : Snmp.World)

/-- The texts that can be read off the request. -/
structure ReadsTexts (r : Reading) : Prop where
  ssid : findSsid request = pure r.ssid
  called : extractMac (request.attribute "Called-Station-Id") = pure r.called

/-- Moreover, the NAS port is resolved if no set before it tells the port. -/
structure Reads (r : Reading) : Prop extends ReadsTexts request r where
  answers : (∀ s ∈ (r.candidates request found.switch).take 3, ¬Single s) →
    Resolved found (request.attribute "NAS-Port") w r.answers

/-- `str(port_interface)`, or `None`. -/
def interfaceText : Option Value → Value
  | some interface => .str interface.format
  | none => .none

/-- The outcome is what can be chosen among the candidates, on the switch, with the SSID. -/
def Reading.Answers (r : Reading) (outcome : Except Error (Option Port)) : Prop :=
  ∃ id interface, found.switch.localId = some id ∧
    Chosen (r.candidates request found.switch) interface ∧
    outcome = .ok (some ⟨.str (toString id), interfaceText interface, r.ssid.map .str, ∅⟩)

/-- The outcome is right, for what can be read and resolved. -/
def Answered (outcome : Except Error (Option Port)) : Prop :=
  ∃ r, Reads request found w r ∧ r.Answers request found outcome

/-- The SSID tells no port that the called station does not, and no port has to be found by
what the sets have in common. -/
structure Reading.Settled (r : Reading) : Prop where
  ssid : Single (ssidCandidates found.switch r.ssid) →
    Single (macCandidates found.switch r.called)
  common : (∀ s ∈ r.candidates request found.switch, ¬Single s) →
    ¬Single (common (r.candidates request found.switch))

/-- The record has ports, or none are looked up in it. -/
def Reading.PortsKnown (r : Reading) : Prop :=
  found.switch.ports = none →
    r.called = none ∧ r.ssid = none ∧ (request.attribute "NAS-Port-ID").truthy = false

/-- Moreover, the record has what is looked up in it. -/
structure Reading.Clear (r : Reading) : Prop extends r.Settled request found where
  localId : found.switch.localId ≠ none
  ports : r.PortsKnown request found

end Search

/-! ## The lists of candidates -/

theorem lists_interfaces (switch : Device) {test : SwitchPort → Bool} {P : SwitchPort → Prop}
    (h : ∀ port, test port ↔ P port) :
    Lists (interfaces test (switch.ports.getD [])) (interfacesWith switch P) := by
  constructor
  · exact List.nodup_dedup _
  · intro interface
    simp [interfaces, interfacesWith, h, and_assoc]

section Lookups

variable {switch : Device}

theorem lists_nil {P : SwitchPort → Prop} (h : ∀ port, ¬P port) :
    Lists [] (interfacesWith switch P) := by
  have empty : interfacesWith switch P = ∅ := by simp [interfacesWith, h]
  exact empty ▸ Lists.empty

theorem lookup_eq {test : SwitchPort → Bool} {P : SwitchPort → Prop}
    (h : ∀ port, test port ↔ P port) (ports : switch.ports ≠ none) :
    ∃ l, (do let ports ← switchPorts switch; pure (interfaces test ports)) = (pure l : Act _) ∧
      Lists l (interfacesWith switch P) := by
  obtain ⟨all, hall⟩ := Option.ne_none_iff_exists'.mp ports
  refine ⟨interfaces test all, by simp [switchPorts, hall], ?_⟩
  have listed := lists_interfaces switch h
  rwa [hall] at listed

theorem portsByMac_eq {called : Option String} (h : switch.ports = none → called = none) :
    ∃ l, portsByMac switch called = pure l ∧ Lists l (macCandidates switch called) := by
  cases called with
  | none => exact ⟨[], rfl, lists_nil (by simp)⟩
  | some mac =>
    have ports : switch.ports ≠ none := fun absent => absurd (h absent) (by simp)
    exact lookup_eq (by simp) ports

theorem portsBySsid_eq {ssid : Option String} (h : switch.ports = none → ssid = none) :
    ∃ l, portsBySsid switch ssid = pure l ∧ Lists l (ssidCandidates switch ssid) := by
  cases ssid with
  | none => exact ⟨[], rfl, lists_nil (by simp)⟩
  | some name =>
    have ports : switch.ports ≠ none := fun absent => absurd (h absent) (by simp)
    exact lookup_eq (by simp) ports

theorem portsByNasPortId_eq {nasPortId : Value}
    (h : switch.ports = none → nasPortId.truthy = false) :
    ∃ l, portsByNasPortId switch nasPortId = pure l ∧
      Lists l (nasPortIdCandidates switch nasPortId) := by
  unfold portsByNasPortId nasPortIdCandidates
  cases wanted : nasPortId.truthy with
  | false => exact ⟨[], rfl, lists_nil (by simp)⟩
  | true =>
    have ports : switch.ports ≠ none := fun absent => by simp [wanted] at h; exact h absent
    exact lookup_eq (by simp) ports

end Lookups

/-! ## The answers of the manager -/

@[simp] theorem nasPortCandidates_nil : nasPortCandidates [] = ∅ := by
  simp [nasPortCandidates]

@[simp] theorem nasPortCandidates_none (ports : List (Option Port)) :
    nasPortCandidates (none :: ports) = nasPortCandidates ports := by
  simp [nasPortCandidates]

@[simp] theorem mem_nasPortCandidates_some (port : Port) (ports : List (Option Port))
    (x : Value) : x ∈ nasPortCandidates (some port :: ports) ↔
      x = port.interface ∨ x ∈ nasPortCandidates ports := by
  simp [nasPortCandidates, eq_comm]

theorem exec_manager_eq_ok {α : Type} {x : Snmp.Act α} {w w' : Snmp.World} {a : α} :
    exec (manager x) w = (.ok a, w') ↔ exec x w = (.ok a, w') := by
  rw [manager, exec_raiseAs]
  rcases exec x w with ⟨e | b, w''⟩ <;> simp [Except.mapError]

theorem interfacesOfIndexes_eq {ip : Value} {polled : Bool} {w : Snmp.World}
    {indexes : List Value} {ports : List (Option Port)} (h : Indexed ip polled w indexes ports)
    {known : List Value} (nodup : known.Nodup) :
    ∃ l w', exec (interfacesOfIndexes ip polled known indexes) w = (.ok l, w') ∧ l.Nodup ∧
      ∀ x, x ∈ l ↔ x ∈ known ∨ x ∈ nasPortCandidates ports := by
  induction h generalizing known with
  | nil polled w => exact ⟨known, w, rfl, nodup, by simp⟩
  | @cons polled w w' index indexes port ports first _ ih =>
    have asked : exec (manager (Snmp.getPortFromIndex ip index (!polled) (!!polled))) w =
        (.ok port, w') := by
      rwa [exec_manager_eq_ok, Bool.not_not]
    cases port with
    | none =>
      obtain ⟨l, w'', returned, nodup, mem⟩ := ih nodup
      refine ⟨l, w'', ?_, nodup, fun x => ?_⟩
      · rw [interfacesOfIndexes, exec_bind_ok asked, returned]
      · rw [mem, nasPortCandidates_none]
    | some port =>
      obtain ⟨l, w'', returned, nodup, mem⟩ := ih (nodup.insert (a := port.interface))
      refine ⟨l, w'', ?_, nodup, fun x => ?_⟩
      · rw [interfacesOfIndexes, exec_bind_ok asked, returned]
      · rw [mem, List.mem_insert_iff, mem_nasPortCandidates_some, or_left_comm, or_assoc]

theorem portsByNasPort_eq {found : Found} {nasPort : Value} {w : Snmp.World}
    {ports : List (Option Port)} (h : Resolved found nasPort w ports) :
    ∃ l w', exec (portsByNasPort found nasPort) w = (.ok l, w') ∧
      Lists l (nasPortCandidates ports) := by
  cases h with
  | absent falsy =>
    refine ⟨[], w, by simp [portsByNasPort, falsy], ?_⟩
    exact nasPortCandidates_nil ▸ Lists.empty
  | @known w' indexes ports truthy listed answers =>
    obtain ⟨l, w'', returned, nodup, mem⟩ := interfacesOfIndexes_eq answers List.nodup_nil
    refine ⟨l, w'', ?_, nodup, by simpa using mem⟩
    rw [portsByNasPort, if_pos truthy, exec_bind_ok (exec_manager_eq_ok.mpr listed), returned]

/-! Conversely, the manager has answered where its answers have been used. -/

theorem indexed_of_interfaces {ip : Value} {polled : Bool} {indexes known : List Value}
    {w w' : Snmp.World} {l : List Value}
    (h : exec (interfacesOfIndexes ip polled known indexes) w = (.ok l, w')) :
    ∃ ports, Indexed ip polled w indexes ports := by
  induction indexes generalizing polled known w with
  | nil => exact ⟨[], .nil polled w⟩
  | cons index indexes ih =>
    rw [interfacesOfIndexes] at h
    obtain ⟨port, w₁, asked, rest⟩ := exec_bind_eq_ok.mp h
    rw [exec_manager_eq_ok, Bool.not_not] at asked
    have later : ∃ ports, Indexed ip true w₁ indexes ports := by
      cases port with
      | none => exact ih rest
      | some port => exact ih rest
    obtain ⟨ports, later⟩ := later
    exact ⟨port :: ports, .cons asked later⟩

theorem resolved_of_portsByNasPort {found : Found} {nasPort : Value} {w w' : Snmp.World}
    {l : List Value} (h : exec (portsByNasPort found nasPort) w = (.ok l, w')) :
    ∃ ports, Resolved found nasPort w ports := by
  rw [portsByNasPort] at h
  split at h
  · rename_i truthy
    obtain ⟨indexes, w₁, listed, rest⟩ := exec_bind_eq_ok.mp h
    obtain ⟨ports, answers⟩ := indexed_of_interfaces rest
    exact ⟨ports, .known truthy (exec_manager_eq_ok.mp listed) answers⟩
  · rename_i falsy
    exact ⟨[], .absent (Bool.not_eq_true _ ▸ falsy)⟩

/-! ## What is read off the texts -/

/-- The call does not look at the state, nor does it change it. -/
def Steady {α : Type} (x : Act α) : Prop := (∃ a, x = pure a) ∨ ∃ e, x = throw e

section Steady

variable {α β : Type}

theorem steady_pure (a : α) : Steady (pure a) := .inl ⟨a, rfl⟩

theorem steady_throw (e : Error) : Steady (throw e : Act α) := .inr ⟨e, rfl⟩

theorem Steady.bind {x : Act α} (h : Steady x) {f : α → Act β} (hf : ∀ a, Steady (f a)) :
    Steady (x >>= f) := by
  rcases h with ⟨a, rfl⟩ | ⟨e, rfl⟩
  · rw [pure_bind]
    exact hf a
  · exact .inr ⟨e, rfl⟩

theorem Steady.eq_pure {x : Act α} (h : Steady x) {w w' : Snmp.World} {a : α}
    (returned : exec x w = (.ok a, w')) : x = pure a ∧ w = w' := by
  rcases h with ⟨b, rfl⟩ | ⟨e, rfl⟩
  · obtain ⟨rfl, rfl⟩ := exec_pure_eq_ok.mp returned
    exact ⟨rfl, rfl⟩
  · cases returned

theorem steady_extract (find : String → Option String) (string : Value) :
    Steady (extract find string) := by
  cases string with
  | none => exact steady_pure _
  | int n =>
    simp only [extract]
    split
    · exact steady_pure _
    · exact steady_throw _
  | str text => exact steady_pure _

theorem steady_avpairSsid (vals : List Value) : Steady (avpairSsid vals) := by
  induction vals with
  | nil => exact steady_pure _
  | cons val vals ih =>
    cases val with
    | none => exact steady_throw _
    | int n => exact steady_throw _
    | str text =>
      unfold avpairSsid
      split
      · exact steady_pure _
      · exact ih

theorem steady_attributesSsid (items : List (String × Attribute)) :
    Steady (attributesSsid items) := by
  induction items with
  | nil => exact steady_pure _
  | cons item items ih =>
    unfold attributesSsid
    split
    · refine (steady_avpairSsid _).bind fun ssid => ?_
      split
      · split
        · exact ih
        · exact steady_pure _
      · exact ih
    · exact ih

theorem steady_findSsid (request : Request) : Steady (findSsid request) := by
  refine (steady_attributesSsid _).bind fun ssid => ?_
  split
  · exact steady_pure _
  · exact steady_extract ssidOf _

end Steady

/-! ## The search -/

section Single

variable {l : List Value} {s : Set Value}

theorem single_of_eq (h : Lists l s) {x : Value} (only : s = {x}) : single l = some x := by
  rw [h.eq_singleton.mp only, single]

theorem single_of_not (h : Lists l s) (several : ¬Single s) : single l = none := by
  rw [h.single] at several
  unfold single
  split
  · exact absurd rfl several
  · rfl

end Single

section Outcome

variable {request : Request} {found : Found} {w : Snmp.World} {r : Reading}

/-- What the three lookups in the record return. -/
structure Lookups (request : Request) (found : Found) (r : Reading)
    (mac bySsid nasPortId : List Value) : Prop where
  mac_eq : portsByMac found.switch r.called = pure mac
  ssid_eq : portsBySsid found.switch r.ssid = pure bySsid
  nasPortId_eq : portsByNasPortId found.switch (request.attribute "NAS-Port-ID") = pure nasPortId
  macs : Lists mac (macCandidates found.switch r.called)
  ssids : Lists bySsid (ssidCandidates found.switch r.ssid)
  nasPortIds : Lists nasPortId
    (nasPortIdCandidates found.switch (request.attribute "NAS-Port-ID"))

theorem exists_lookups (ports : r.PortsKnown request found) :
    ∃ mac bySsid nasPortId, Lookups request found r mac bySsid nasPortId := by
  obtain ⟨mac, hmac, macs⟩ := portsByMac_eq fun absent => (ports absent).1
  obtain ⟨bySsid, hssid, ssids⟩ := portsBySsid_eq fun absent => (ports absent).2.1
  obtain ⟨nasPortId, hid, nasPortIds⟩ := portsByNasPortId_eq fun absent => (ports absent).2.2
  exact ⟨mac, bySsid, nasPortId, hmac, hssid, hid, macs, ssids, nasPortIds⟩

/-- The call returns what is chosen among the candidates, or it raises. -/
def Follows (request : Request) (found : Found) (r : Reading) (w : Snmp.World)
    (x : Act (Option Port)) : Prop :=
  (r.Settled request found ∧ ∃ interface w',
    Chosen (r.candidates request found.switch) interface ∧
    exec x w = exec (result found.switch r.ssid (interfaceText interface)) w') ∨
  (¬r.Settled request found ∧ ∃ e w', exec x w = (.error e, w'))

theorem follows_of_eq {x y : Act (Option Port)} {w' : Snmp.World}
    (same : exec x w = exec y w') (h : Follows request found r w' y) :
    Follows request found r w x := by
  unfold Follows at h ⊢
  rwa [same]

/-- The only element of the first set that has only one is chosen. -/
theorem follows_first {x : Act (Option Port)} {w' : Snmp.World} {interface : Value}
    (before : List (Set Value)) {after : List (Set Value)}
    (split : r.candidates request found.switch = before ++ {interface} :: after)
    (earlier : ∀ s ∈ before, ¬Single s)
    (ssid : Single (ssidCandidates found.switch r.ssid) →
      Single (macCandidates found.switch r.called))
    (same : exec x w = exec (resultOn found.switch r.ssid interface) w') :
    Follows request found r w x := by
  refine .inl ⟨⟨ssid, fun several => ?_⟩, some interface, w', .first before split earlier, same⟩
  have here : {interface} ∈ r.candidates request found.switch := by simp [split]
  exact absurd ⟨interface, rfl⟩ (several _ here)

theorem follows_findCommon {mac bySsid nasPortId nasPort : List Value}
    (lists : List.Forall₂ Lists [mac, bySsid, nasPortId, nasPort]
      (r.candidates request found.switch))
    (several : ∀ s ∈ r.candidates request found.switch, ¬Single s) :
    Follows request found r w
      (findCommon found.switch r.ssid ⟨mac, bySsid, nasPortId, nasPort⟩) := by
  have inCommon : Lists (FoundPorts.intersection ⟨mac, bySsid, nasPortId, nasPort⟩)
      (common (r.candidates request found.switch)) := Lists.intersection lists
  unfold findCommon
  by_cases one : Single (common (r.candidates request found.switch))
  · rw [if_pos (inCommon.single.mp one)]
    exact .inr ⟨fun settled => settled.common several one, _, w, rfl⟩
  · rw [if_neg (mt inCommon.single.mpr one)]
    have settled : r.Settled request found :=
      ⟨fun h => absurd h (several _ (by simp [Reading.candidates])), fun _ => one⟩
    exact .inl ⟨settled, none, _, .none several one, rfl⟩

theorem follows_findOn (reads : Reads request found w r) (ports : r.PortsKnown request found) :
    Follows request found r w (findOn request found) := by
  obtain ⟨mac, bySsid, nasPortId, hmac, hssid, hid, macs, ssids, ids⟩ := exists_lookups ports
  simp only [findOn, reads.ssid, reads.called, hmac, hssid, hid, pure_bind]
  -- one case for each set that may be the first to have one element only
  by_cases oneMac : Single (macCandidates found.switch r.called)
  · obtain ⟨x, only⟩ := oneMac
    rw [single_of_eq macs only]
    exact follows_first [] (by rw [Reading.candidates, only]; rfl) (by simp)
      (fun _ => ⟨x, only⟩) rfl
  rw [single_of_not macs oneMac]
  by_cases oneSsid : Single (ssidCandidates found.switch r.ssid)
  · obtain ⟨x, only⟩ := oneSsid
    refine .inr ⟨fun settled => oneMac (settled.ssid ⟨x, only⟩), ?_⟩
    rw [single_of_eq ssids only]
    exact ⟨_, w, rfl⟩
  rw [single_of_not ssids oneSsid]
  by_cases oneId : Single (nasPortIdCandidates found.switch (request.attribute "NAS-Port-ID"))
  · obtain ⟨x, only⟩ := oneId
    rw [single_of_eq ids only]
    exact follows_first [_, _] (by rw [Reading.candidates, only]; rfl)
      (by simp [oneMac, oneSsid]) (absurd · oneSsid) rfl
  rw [single_of_not ids oneId]
  obtain ⟨nasPort, w', returned, nasPorts⟩ :=
    portsByNasPort_eq (reads.answers (by simp [Reading.candidates, oneMac, oneSsid, oneId]))
  refine follows_of_eq (exec_bind_ok returned) ?_
  by_cases onePort : Single (nasPortCandidates r.answers)
  · obtain ⟨x, only⟩ := onePort
    rw [single_of_eq nasPorts only]
    exact follows_first [_, _, _] (by rw [Reading.candidates, only]; rfl)
      (by simp [oneMac, oneSsid, oneId]) (absurd · oneSsid) rfl
  rw [single_of_not nasPorts onePort]
  exact follows_findCommon (.cons macs (.cons ssids (.cons ids (.cons nasPorts .nil))))
    (by simp [Reading.candidates, oneMac, oneSsid, oneId, onePort])

/-- A record without ports raises where they are looked up. -/
theorem findOn_error (reads : ReadsTexts request r) (unknown : ¬r.PortsKnown request found) :
    ∃ e w', exec (findOn request found) w = (.error e, w') := by
  obtain ⟨absent, wanted⟩ := Classical.not_imp.mp unknown
  have raises : switchPorts found.switch = throw (.manager (.keyError "ports")) := by
    rw [switchPorts, absent]
  refine ⟨.manager (.keyError "ports"), w, ?_⟩
  simp only [findOn, reads.ssid, reads.called, pure_bind]
  cases called : r.called with
  | some mac =>
    rw [portsByMac, raises]
    rfl
  | none =>
    simp only [portsByMac, pure_bind, single]
    cases ssid : r.ssid with
    | some name =>
      rw [portsBySsid, raises]
      rfl
    | none =>
      have truthy : (request.attribute "NAS-Port-ID").truthy = true := by
        simpa [called, ssid] using wanted
      rw [portsBySsid, pure_bind, portsByNasPortId, if_pos truthy, raises]
      rfl

theorem findOn_clear_or_error (reads : Reads request found w r) :
    (r.Clear request found ∧ r.Answers request found (exec (findOn request found) w).1) ∨
    (¬r.Clear request found ∧ ∃ e, (exec (findOn request found) w).1 = .error e) := by
  by_cases ports : r.PortsKnown request found
  · rcases follows_findOn reads ports with
      ⟨settled, interface, w', chosen, same⟩ | ⟨unsettled, e, w', raised⟩
    · rw [same, result]
      cases localId : found.switch.localId with
      | none => exact .inr ⟨fun clear => clear.localId localId, _, rfl⟩
      | some id =>
        refine .inl ⟨⟨settled, by simp [localId], ports⟩, id, interface, localId, chosen, rfl⟩
    · exact .inr ⟨fun clear => unsettled clear.toSettled, e, by rw [raised]⟩
  · obtain ⟨e, w', raised⟩ := findOn_error (w := w) reads.toReadsTexts ports
    exact .inr ⟨fun clear => ports clear.ports, e, by rw [raised]⟩

theorem not_answers_error (e : Error) : ¬r.Answers request found (.error e) := by
  rintro ⟨_, _, _, _, returned⟩
  cases returned

theorem answers_findOn_iff (reads : Reads request found w r) :
    r.Answers request found (exec (findOn request found) w).1 ↔ r.Clear request found := by
  rcases findOn_clear_or_error reads with ⟨clear, answers⟩ | ⟨unclear, e, raised⟩
  · exact iff_of_true answers clear
  · rw [raised]
    exact iff_of_false (not_answers_error e) unclear

/-! ## Requests whose port is found -/

theorem readsTexts_of_findOn {w' : Snmp.World} {port : Option Port}
    (returned : exec (findOn request found) w = (.ok port, w')) :
    ∃ ssid called, ∀ answers, ReadsTexts request ⟨ssid, called, answers⟩ := by
  obtain ⟨ssid, w₁, hssid, rest⟩ := exec_bind_eq_ok.mp returned
  obtain ⟨called, w₂, hcalled, -⟩ := exec_bind_eq_ok.mp rest
  obtain ⟨readSsid, -⟩ := (steady_findSsid request).eq_pure hssid
  obtain ⟨readCalled, -⟩ := (steady_extract macOf _).eq_pure hcalled
  exact ⟨ssid, called, fun _ => ⟨readSsid, readCalled⟩⟩

theorem reads_of_findOn {w' : Snmp.World} {port : Option Port}
    (returned : exec (findOn request found) w = (.ok port, w')) :
    ∃ r, Reads request found w r := by
  obtain ⟨ssid, called, texts⟩ := readsTexts_of_findOn returned
  by_cases several : ∀ s ∈ ((⟨ssid, called, []⟩ : Reading).candidates request found.switch).take 3,
      ¬Single s
  · have ports : (⟨ssid, called, []⟩ : Reading).PortsKnown request found := by
      by_contra unknown
      obtain ⟨e, w'', raised⟩ := findOn_error (w := w) (texts []) unknown
      rw [raised] at returned
      cases returned
    obtain ⟨mac, bySsid, nasPortId, hmac, hssid, hid, macs, ssids, ids⟩ := exists_lookups ports
    simp only [findOn, (texts []).ssid, (texts []).called, hmac, hssid, hid, pure_bind] at returned
    rw [single_of_not macs (several _ (by simp [Reading.candidates])),
      single_of_not ssids (several _ (by simp [Reading.candidates])),
      single_of_not ids (several _ (by simp [Reading.candidates]))] at returned
    obtain ⟨nasPort, w₁, resolved, -⟩ := exec_bind_eq_ok.mp returned
    obtain ⟨answers, resolved⟩ := resolved_of_portsByNasPort resolved
    exact ⟨⟨ssid, called, answers⟩, texts answers, fun _ => resolved⟩
  · exact ⟨⟨ssid, called, []⟩, texts [], fun all => absurd all several⟩

/-- `find_port` returns for these requests only. -/
theorem clear_of_findPort {w w' : Snmp.World} {port : Option Port}
    (h : exec (findSwitch (request.attribute "NAS-IP-Address")
      (request.attribute "ELAN-Radius-Client-Ip")) w = (.ok (some found), w'))
    (returned : (exec (findPort request) w).1 = .ok port) :
    ∃ r, Reads request found w' r ∧ r.Clear request found := by
  rw [findPort, exec_bind_ok h] at returned
  obtain ⟨r, reads⟩ := reads_of_findOn (Prod.ext returned rfl)
  refine ⟨r, reads, ?_⟩
  rcases findOn_clear_or_error reads with ⟨clear, -⟩ | ⟨-, e, raised⟩
  · exact clear
  · rw [raised] at returned
    cases returned

/-- With a switch, `find_port` returns what can be chosen among the candidates exactly if all
that has to be read can be, and then neither the SSID alone nor what the candidates have in
common has to tell the port. -/
theorem findPort_answers_iff {w w' : Snmp.World}
    (h : exec (findSwitch (request.attribute "NAS-IP-Address")
      (request.attribute "ELAN-Radius-Client-Ip")) w = (.ok (some found), w')) :
    Answered request found w' (exec (findPort request) w).1 ↔
      ∃ r, Reads request found w' r ∧ r.Clear request found := by
  have same : exec (findPort request) w = exec (findOn request found) w' := by
    rw [findPort, exec_bind_ok h]
  rw [same]
  exact exists_congr fun r => and_congr_right fun reads => answers_findOn_iff reads

end Outcome

/-! ## Two switches -/

/-- A switch with the ports. -/
def accessSwitch (ports : List SwitchPort) : Device where
  localId := some 1
  ports := some ports
  fwMac := .absent
  fwPort := .absent
  ignored := ∅
  rest := ∅

/-- A world in which the switch is in the cache. -/
def cachedSwitch (ports : List SwitchPort) : Snmp.World :=
  { Snmp.World.empty (fun _ => ⟨.null, none⟩) fun _ => none with
    counter := 1
    byId := fun _ => some (accessSwitch ports)
    idByIp := fun ip => if ip = "10.0.0.1" then some 1 else none }

def accessFound (ports : List SwitchPort) : Found := ⟨accessSwitch ports, .str "10.0.0.1", false⟩

/-- A request from the switch. -/
def accessRequest (called nasPortId : String) : Request :=
  ((Dict.empty.set "ELAN-Radius-Client-Ip" (.one "10.0.0.1")).set "Called-Station-Id"
    (.one (.str called))).set "NAS-Port-ID" (.one (.str nasPortId))

theorem findSwitch_cached (called nasPortId : String) (ports : List SwitchPort) :
    exec (findSwitch ((accessRequest called nasPortId).attribute "NAS-IP-Address")
      ((accessRequest called nasPortId).attribute "ELAN-Radius-Client-Ip")) (cachedSwitch ports) =
      (.ok (some (accessFound ports)), cachedSwitch ports) := by
  rfl

/-- One port advertises the SSID. -/
def radio : List SwitchPort :=
  [⟨"1", .str "wlan0", .str "wlan0", none, .none, some [⟨.str "corp", none, none⟩]⟩]

/-- Two ports have the MAC of the called station, and two the description. -/
def uplinks : List SwitchPort :=
  [⟨"1", .str "g1", .str "g1", some "00:11:22:33:44:55", .none, none⟩,
    ⟨"2", .str "g2", .str "g2", some "00:11:22:33:44:55", .str "uplink", none⟩,
    ⟨"3", .str "g3", .str "g3", none, .str "uplink", none⟩]

/-- The id of its NAS port tells one of the ports. -/
theorem findPort_answers_iff_uplinks :
    Answered (accessRequest "core" "g3") (accessFound uplinks) (cachedSwitch uplinks)
      (exec (findPort (accessRequest "core" "g3")) (cachedSwitch uplinks)).1 := by
  have found := findSwitch_cached "core" "g3" uplinks
  have returned : (exec (findPort (accessRequest "core" "g3")) (cachedSwitch uplinks)).1 =
      .ok (some ⟨.str "1", .str "g3", none, ∅⟩) := by decide +kernel
  exact (findPort_answers_iff found).mpr (clear_of_findPort found returned)

theorem not_answered_error (request : Request) (found : Found) (w : Snmp.World) (e : Error) :
    ¬Answered request found w (.error e) := by
  rintro ⟨r, -, answers⟩
  exact not_answers_error e answers

/-- The port that alone advertises the SSID is not returned, nor is the one that the MAC and
the description have in common. -/
theorem findPort_unanswered :
    ¬Answered (accessRequest "00-11-22-33-44-66:corp" "1") (accessFound radio)
      (cachedSwitch radio)
      (exec (findPort (accessRequest "00-11-22-33-44-66:corp" "1")) (cachedSwitch radio)).1 ∧
    ¬Answered (accessRequest "00-11-22-33-44-55" "uplink") (accessFound uplinks)
      (cachedSwitch uplinks)
      (exec (findPort (accessRequest "00-11-22-33-44-55" "uplink")) (cachedSwitch uplinks)).1 := by
  have bySsid : (exec (findPort (accessRequest "00-11-22-33-44-66:corp" "1"))
      (cachedSwitch radio)).1 = .error (.unboundLocalError "port_interface") := by decide +kernel
  have inCommon : (exec (findPort (accessRequest "00-11-22-33-44-55" "uplink"))
      (cachedSwitch uplinks)).1 = .error .typeError := by decide +kernel
  rw [bySsid, inCommon]
  exact ⟨not_answered_error _ _ _ _, not_answered_error _ _ _ _⟩

end ElanAgent.Radius
