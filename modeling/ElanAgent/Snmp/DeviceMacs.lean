import ElanAgent.Snmp.PortIndex

/-!
# The MACs of a device

`get_macs_on_device` polls a device, joins its two forwarding tables and looks up the port of
each index. It raises when the poll finds nothing, and when the poller has replaced a table
that it needs by an empty text.
-/

namespace ElanAgent.Snmp

open Raising
open Session (Port)

/-! ## What is asked of the mapping -/

/-- The entry of a table under a hash. A text has none. -/
def Table.get : Table → String → Option Value
  | .dict d, hash => d.get hash
  | _, _ => none

/-- An entry of both tables has the MAC on the index. -/
def Forwards (device : Option Device) (mac ifIndex : Value) : Prop :=
  ∃ d hash, device = some d ∧ d.fwMac.get hash = some mac ∧ d.fwPort.get hash = some ifIndex

/-- Calls of `getPortFromIndex`, one after the other, with the ports that they return. -/
inductive Resolves (deviceIp : Value) : World → List (Value × Option Port) → World → Prop
  | nil (w : World) : Resolves deviceIp w [] w
  | cons {w w₁ w' : World} {ifIndex : Value} {port : Option Port}
      {calls : List (Value × Option Port)}
      (first : exec (getPortFromIndex deviceIp ifIndex false false) w = (.ok port, w₁))
      (later : Resolves deviceIp w₁ calls w') :
      Resolves deviceIp w ((ifIndex, port) :: calls) w'

/-- Each index of the tables is resolved once, and a MAC leads to a port that one of its
indexes has been resolved to, if there is one. -/
structure MacPorts (device : Option Device) (calls : List (Value × Option Port))
    (macPorts : Dict Value Port) : Prop where
  once : (calls.map Prod.fst).Nodup
  resolved : ∀ ifIndex, ifIndex ∈ calls.map Prod.fst ↔ ∃ mac, Forwards device mac ifIndex
  sound : ∀ mac port, macPorts.get mac = some port →
    ∃ ifIndex, Forwards device mac ifIndex ∧ (ifIndex, some port) ∈ calls
  complete : ∀ mac ifIndex port, Forwards device mac ifIndex → (ifIndex, some port) ∈ calls →
    macPorts.get mac ≠ none

/-- `get_macs_on_device` returns, and what it should. -/
def MapsMacs (deviceIp : Value) (w : World) : Prop :=
  ∃ device w₁ calls w' macPorts, exec (poll deviceIp) w = (.ok device, w₁) ∧
    Resolves deviceIp w₁ calls w' ∧
    exec (getMacsOnDevice deviceIp) w = (.ok macPorts, w') ∧ MacPorts device calls macPorts

/-- The tables can be joined: the ports are not a text, and the MACs are no text that has one
of the hashes in it. -/
def Device.Joins (d : Device) : Prop :=
  match d.fwPort with
  | .absent => True
  | .text _ => False
  | .dict entries =>
    ∀ s, d.fwMac = .text s → ∀ hash ∈ entries.keys, ¬hash.toList <:+: s.toList

/-- The poll finds a device whose tables can be joined. -/
def Answer.Joins : Answer → Prop
  | .device d => d.Joins
  | _ => False

/-! ## What the poller sends -/

/-- The socket works, and a device has a list of ports. -/
def Answer.Sent : Answer → Prop
  | .raises => False
  | .device d => d.ports.isSome
  | _ => True

/-- Cached records have their own id and a list of ports, and the poller sends what it can. -/
structure World.Sane (w : World) : Prop where
  cached : ∀ id d, w.byId id = some d → d.localId = some id ∧ d.ports.isSome
  sent : ∀ n, (w.polled n).answer.Sent

section Sane

variable {deviceIp : Value} {w w' : World}

theorem poll_sane {outcome : Except Error (Option Device)} (sane : w.Sane)
    (h : exec (poll deviceIp) w = (outcome, w')) : w'.Sane := by
  obtain rfl : (exec (poll deviceIp) w).2 = w' := congrArg Prod.snd h
  refine (pollOutcome deviceIp w).keeps (I := World.Sane) ⟨sane.cached, sane.sent⟩
    (fun _ _ h => ⟨h.cached, h.sent⟩) (fun _ _ h => ⟨h.cached, h.sent⟩)
    (fun _ _ h => ⟨h.cached, h.sent⟩) ?_
  intro v id cached device localId ports _ h
  refine ⟨fun id' d hd => ?_, h.sent⟩
  by_cases same : id' = id
  · subst same
    obtain rfl : device = d := by simpa [World.cache] using hd
    exact ⟨localId, ports⟩
  · exact h.cached id' d (by simpa [World.cache, same] using hd)

/-- What a poll returns for an answer. -/
def Polls (device : Option Device) : Answer → Prop
  | .device d => ∃ found, device = some found ∧ found.fwMac = d.fwMac ∧ found.fwPort = d.fwPort ∧
      ¬found.Lacks
  | _ => device = none

theorem Device.Reorders.tables {saved device : Device} (h : saved.Reorders device) :
    saved.fwMac = device.fwMac ∧ saved.fwPort = device.fwPort := by
  rcases h with rfl | ⟨ports, -, rfl⟩ <;> exact ⟨rfl, rfl⟩

theorem Identified.sane {ip : Value} {device old : Device} {id : Nat}
    (h : Identified ip device w id (some old) w') (sane : w.Sane) : old.ports.isSome := by
  generalize hcached : some old = cached at h
  cases h with
  | known known => exact (sane.cached id old hcached.symm).2
  | new unknown => cases hcached

theorem poll_returns (deviceIp : Value) (sane : w.Sane) :
    ∃ device w', exec (poll deviceIp) w = (.ok device, w') ∧
      Polls device (w.polled w.asked).answer := by
  have outcome := pollOutcome deviceIp w
  generalize exec (poll deviceIp) w = out at outcome
  have sent := sane.sent w.asked
  cases outcome with
  | raised answer =>
    rw [answer] at sent
    exact sent.elim
  | failed answer =>
    refine ⟨none, _, rfl, ?_⟩
    rcases answer with answer | answer <;> rw [answer] <;> rfl
  | @answered found id cached v out answer identified updated =>
    rw [answer] at sent ⊢
    have asking : (w.asking deviceIp).Sane := ⟨sane.cached, sane.sent⟩
    cases updated with
    | raised e l lacks =>
      rcases lacks with absent | ⟨old, rfl, absent⟩
      · exact absurd absent (Option.isSome_iff_ne_none.mp sent)
      · exact absurd absent (Option.isSome_iff_ne_none.mp (identified.sane asking))
    | same known same =>
      exact ⟨_, _, rfl, _, rfl, rfl, rfl, by
        simpa [Device.Lacks, Answer.Sent, Option.isSome_iff_ne_none] using sent⟩
    | @saved saved reorders ports l =>
      refine ⟨_, _, rfl, saved, rfl, reorders.tables.1, reorders.tables.2, ?_⟩
      simp [Device.Lacks, reorders.localId, Option.isSome_iff_ne_none.mp ports]

theorem Polls.not_lacks {device : Device} {answer : Answer} (h : Polls (some device) answer) :
    ¬device.Lacks := by
  cases answer with
  | device d =>
    obtain ⟨found, same, -, -, complete⟩ := h
    exact Option.some.inj same ▸ complete
  | raises => cases h
  | timeout => cases h
  | null => cases h

/-- A record that is obtained can be read. -/
theorem Obtained.not_lacks {polled : Bool} {device : Device} (sane : w.Sane)
    (h : Obtained deviceIp w polled (some device) w') : ¬device.Lacks := by
  generalize hdevice : some device = known at h
  cases h with
  | cached =>
    obtain ⟨id, -, cached⟩ := Option.bind_eq_some_iff.mp hdevice.symm
    obtain ⟨localId, ports⟩ := sane.cached id device cached
    simp [Device.Lacks, localId, Option.isSome_iff_ne_none.mp ports]
  | polled returned =>
    obtain ⟨device', v, returned', polls⟩ := poll_returns deviceIp sane
    rw [returned] at returned'
    cases returned'
    exact Polls.not_lacks (hdevice ▸ polls)

/-- A lookup returns, and leaves the cache in order. -/
theorem lookup_returns (deviceIp : Value) (sane : w.Sane) (ifIndex : Value) : ∃ port w',
    exec (getPortFromIndex deviceIp ifIndex false false) w = (.ok port, w') ∧ w'.Sane := by
  have outcome := getPortFromIndex_outcome deviceIp ifIndex false false w
  generalize exec (getPortFromIndex deviceIp ifIndex false false) w = out at outcome
  cases outcome with
  | misused both => cases both
  | absent missing => exact ⟨none, w, rfl, sane⟩
  | @returned polled device port w' obtained lookedUp last =>
    refine ⟨port, w', rfl, ?_⟩
    cases obtained with
    | cached => exact sane
    | polled returned => exact poll_sane sane returned
  | pollRaised allowed raised =>
    obtain ⟨device, w', returned, -⟩ := poll_returns deviceIp sane
    rw [raised] at returned
    cases returned
  | lacking obtained lacks allowed => exact absurd lacks (obtained.not_lacks sane)

end Sane

/-! ## The joined tables -/

section Join

variable {fwMac : Table} {macs : Dict Value (List Value)} {entries : List (String × Value)}
variable {w : World}

theorem exec_item (hash : String) (safe : ∀ s, fwMac = .text s → ¬hash.toList <:+: s.toList) :
    fwMac.item hash = pure (fwMac.get hash) := by
  cases fwMac with
  | absent => rfl
  | text s =>
    rw [Table.item, if_neg (safe s rfl)]
    rfl
  | dict d => rfl

/-- The MACs that are filed under an index. -/
def filed (macs : Dict Value (List Value)) (ifIndex : Value) : List Value :=
  (macs.get ifIndex).getD []

/-- No index is filed without a MAC. -/
def NoneEmpty (macs : Dict Value (List Value)) : Prop := ∀ k l, macs.get k = some l → l ≠ []

theorem NoneEmpty.mem_keys (h : NoneEmpty macs) {ifIndex : Value} :
    ifIndex ∈ macs.keys ↔ ∃ mac, mac ∈ filed macs ifIndex := by
  rw [Dict.mem_keys]
  constructor
  · rintro ⟨l, hl⟩
    obtain ⟨mac, hmac⟩ := List.exists_mem_of_ne_nil l (h ifIndex l hl)
    exact ⟨mac, by simpa [filed, hl] using hmac⟩
  · rintro ⟨mac, hmac⟩
    cases hl : macs.get ifIndex with
    | none => simp [filed, hl] at hmac
    | some l => exact ⟨l, rfl⟩

/-- A MAC is added under an index. -/
def addMac (macs : Dict Value (List Value)) (ifIndex mac : Value) : Dict Value (List Value) :=
  macs.set ifIndex (filed macs ifIndex ++ [mac])

theorem mem_filed_addMac {ifIndex ifIndex' mac mac' : Value} :
    mac' ∈ filed (addMac macs ifIndex mac) ifIndex' ↔
      mac' ∈ filed macs ifIndex' ∨ ifIndex' = ifIndex ∧ mac' = mac := by
  unfold filed addMac
  rw [Dict.get_set]
  by_cases same : ifIndex' = ifIndex
  · simp [same, filed]
  · simp [same]

theorem NoneEmpty.addMac (h : NoneEmpty macs) (ifIndex mac : Value) :
    NoneEmpty (addMac macs ifIndex mac) := by
  intro k l hl
  rw [Snmp.addMac, Dict.get_set] at hl
  split at hl
  · exact Option.some.inj hl ▸ by simp
  · exact h k l hl

/-- The MACs are filed under the indexes of their hashes. -/
theorem macsByIfIndex_returns (h : NoneEmpty macs)
    (safe : ∀ s, fwMac = .text s → ∀ e ∈ entries, ¬e.1.toList <:+: s.toList) :
    ∃ joined, exec (macsByIfIndex fwMac macs entries) w = (.ok joined, w) ∧ NoneEmpty joined ∧
      ∀ ifIndex mac, mac ∈ filed joined ifIndex ↔ mac ∈ filed macs ifIndex ∨
        ∃ hash, (hash, ifIndex) ∈ entries ∧ fwMac.get hash = some mac := by
  induction entries generalizing macs with
  | nil => exact ⟨macs, rfl, h, by simp⟩
  | cons e entries ih =>
    obtain ⟨fwHash, index⟩ := e
    have item := exec_item fwHash fun s hs => safe s hs _ List.mem_cons_self
    have safe' : ∀ s, fwMac = .text s → ∀ e ∈ entries, ¬e.1.toList <:+: s.toList :=
      fun s hs e he => safe s hs e (List.mem_cons_of_mem _ he)
    rw [macsByIfIndex, item, pure_bind]
    cases present : fwMac.get fwHash with
    | none =>
      obtain ⟨joined, returned, some, mem⟩ := ih h safe'
      refine ⟨joined, returned, some, fun ifIndex mac => ?_⟩
      rw [mem]
      grind
    | some mac =>
      obtain ⟨joined, returned, some, mem⟩ := ih (h.addMac index mac) safe'
      refine ⟨joined, returned, some, fun ifIndex mac' => ?_⟩
      rw [mem, mem_filed_addMac]
      grind

/-- A text with a hash in it raises. -/
theorem macsByIfIndex_raises {s : String}
    (inside : ∃ e ∈ entries, e.1.toList <:+: s.toList) :
    exec (macsByIfIndex (.text s) macs entries) w = (.error .typeError, w) := by
  induction entries with
  | nil => simp at inside
  | cons e entries ih =>
    obtain ⟨fwHash, index⟩ := e
    rw [macsByIfIndex, Table.item]
    by_cases here : fwHash.toList <:+: s.toList
    · rw [if_pos here]
      rfl
    · rw [if_neg here, pure_bind]
      exact ih (by simpa [here] using inside)

end Join

/-! ## The ports -/

section Ports

variable {deviceIp : Value} {w w' : World}

theorem get_foldl_set (macs : List Value) (ports : Dict Value Port) (port : Port) (mac : Value) :
    (macs.foldl (fun ports mac => ports.set mac port) ports).get mac =
      if mac ∈ macs then some port else ports.get mac := by
  induction macs generalizing ports with
  | nil => simp
  | cons first macs ih =>
    rw [List.foldl_cons, ih, Dict.get_set]
    by_cases later : mac ∈ macs
    · simp [later]
    · simp [later]

/-- A MAC of the items whose index is resolved to the port. -/
def Leads (items : List (Value × List Value)) (calls : List (Value × Option Port)) (mac : Value)
    (port : Port) : Prop :=
  ∃ ifIndex macs, (ifIndex, macs) ∈ items ∧ mac ∈ macs ∧ (ifIndex, some port) ∈ calls

theorem leads_cons {items : List (Value × List Value)} {calls : List (Value × Option Port)}
    (keys : calls.map Prod.fst = items.map Prod.fst) {ifIndex : Value} {macs : List Value}
    (hout : ifIndex ∉ items.map Prod.fst) (port : Option Port) (mac : Value) (p : Port) :
    Leads ((ifIndex, macs) :: items) ((ifIndex, port) :: calls) mac p ↔
      mac ∈ macs ∧ port = some p ∨ Leads items calls mac p := by
  constructor
  · rintro ⟨index, macs', hitem, hmac, hcall⟩
    rcases List.mem_cons.mp hitem with hitem | hitem
    · obtain ⟨rfl, rfl⟩ := Prod.mk.inj hitem
      rcases List.mem_cons.mp hcall with hcall | hcall
      · exact .inl ⟨hmac, (Prod.mk.inj hcall).2.symm⟩
      · exact absurd (keys ▸ List.mem_map_of_mem hcall) hout
    · rcases List.mem_cons.mp hcall with hcall | hcall
      · have here : index = ifIndex := (Prod.mk.inj hcall).1
        exact absurd (List.mem_map_of_mem hitem) (here ▸ hout)
      · exact .inr ⟨index, macs', hitem, hmac, hcall⟩
  · rintro (⟨hmac, rfl⟩ | ⟨index, macs', hitem, hmac, hcall⟩)
    · exact ⟨ifIndex, macs, List.mem_cons_self, hmac, List.mem_cons_self⟩
    · exact ⟨index, macs', List.mem_cons_of_mem _ hitem, hmac, List.mem_cons_of_mem _ hcall⟩

/-- The ports of the MACs of one index. -/
def addPort (ports : Dict Value Port) (macs : List Value) : Option Port → Dict Value Port
  | some port => macs.foldl (fun ports mac => ports.set mac port) ports
  | none => ports

theorem get_addPort (ports : Dict Value Port) (macs : List Value) (port : Option Port)
    (mac : Value) : (addPort ports macs port).get mac =
      if mac ∈ macs then port.or (ports.get mac) else ports.get mac := by
  cases port with
  | none => simp [addPort]
  | some port => rw [addPort, get_foldl_set, Option.some_or]

theorem macPorts_cons {ifIndex : Value} {port : Option Port} {w₁ : World}
    (first : exec (getPortFromIndex deviceIp ifIndex false false) w = (.ok port, w₁))
    (ports : Dict Value Port) (macs : List Value) (items : List (Value × List Value)) :
    exec (macPorts deviceIp ports ((ifIndex, macs) :: items)) w =
      exec (macPorts deviceIp (addPort ports macs port) items) w₁ := by
  rw [macPorts, exec_bind_ok first]
  cases port <;> rfl

theorem macPorts_returns (deviceIp : Value) (sane : w.Sane) (ports : Dict Value Port)
    {items : List (Value × List Value)} (nodup : (items.map Prod.fst).Nodup) :
    ∃ calls w' found, Resolves deviceIp w calls w' ∧
      exec (macPorts deviceIp ports items) w = (.ok found, w') ∧
      calls.map Prod.fst = items.map Prod.fst ∧
      (∀ mac port, found.get mac = some port →
        ports.get mac = some port ∨ Leads items calls mac port) ∧
      ∀ mac, (ports.get mac ≠ none ∨ ∃ port, Leads items calls mac port) →
        found.get mac ≠ none := by
  induction items generalizing ports w with
  | nil => exact ⟨[], w, ports, .nil w, rfl, rfl, fun _ _ => .inl, by simp [Leads]⟩
  | cons item items ih =>
    obtain ⟨ifIndex, macs⟩ := item
    obtain ⟨port, w₁, first, sane'⟩ := lookup_returns deviceIp sane ifIndex
    obtain ⟨hout, nodup⟩ := List.nodup_cons.mp nodup
    obtain ⟨calls, w', found, resolves, returned, keys, sound, complete⟩ :=
      ih sane' (addPort ports macs port) nodup
    refine ⟨(ifIndex, port) :: calls, w', found, .cons first resolves,
      (macPorts_cons first ports macs items).trans returned, by simp [keys], ?_, ?_⟩
    · intro mac p hp
      rw [leads_cons keys hout]
      rcases sound mac p hp with here | later
      · rw [get_addPort] at here
        split at here
        · rcases Option.or_eq_some_iff.mp here with resolved | ⟨-, before⟩
          · exact .inr (.inl ⟨‹_›, resolved⟩)
          · exact .inl before
        · exact .inl here
      · exact .inr (.inr later)
    · intro mac h
      apply complete mac
      rw [get_addPort]
      simp only [leads_cons keys hout] at h
      rcases h with before | ⟨p, ⟨hmac, rfl⟩ | later⟩
      · left
        split
        · simp [before]
        · exact before
      · left
        simp [hmac]
      · exact .inr ⟨p, later⟩

end Ports

/-! ## The MACs -/

section Macs

variable {deviceIp : Value} {w w' : World} {d : Device}

theorem forwards_some {mac ifIndex : Value} : Forwards (some d) mac ifIndex ↔
    ∃ hash, d.fwPort.get hash = some ifIndex ∧ d.fwMac.get hash = some mac := by
  simp [Forwards, and_comm]

theorem Device.Joins.entries (joins : d.Joins) : ∃ l, d.fwPort.entries = pure l ∧
    (∀ hash ifIndex, (hash, ifIndex) ∈ l ↔ d.fwPort.get hash = some ifIndex) ∧
    ∀ s, d.fwMac = .text s → ∀ e ∈ l, ¬e.1.toList <:+: s.toList := by
  unfold Device.Joins at joins
  cases hport : d.fwPort with
  | absent => exact ⟨[], rfl, by simp [Table.get], by simp⟩
  | text s => simp [hport] at joins
  | dict entries =>
    simp only [hport] at joins
    exact ⟨entries.items, rfl, fun hash ifIndex => Dict.mem_items,
      fun s hs e he => joins s hs e.1 (List.mem_map_of_mem he)⟩

theorem mem_filed_iff {macs : Dict Value (List Value)} {ifIndex mac : Value} :
    mac ∈ filed macs ifIndex ↔ ∃ l, (ifIndex, l) ∈ macs.items ∧ mac ∈ l := by
  simp only [filed, Dict.mem_items]
  cases macs.get ifIndex <;> simp

theorem MacPorts.of_joined {joined : Dict Value (List Value)}
    {calls : List (Value × Option Port)} {found : Dict Value Port}
    (some : NoneEmpty joined)
    (mem : ∀ ifIndex mac, mac ∈ filed joined ifIndex ↔ Forwards (.some d) mac ifIndex)
    (keys : calls.map Prod.fst = joined.items.map Prod.fst)
    (sound : ∀ mac port, found.get mac = .some port → Leads joined.items calls mac port)
    (complete : ∀ mac port, Leads joined.items calls mac port → found.get mac ≠ none) :
    MacPorts (.some d) calls found where
  once := keys ▸ joined.nodup
  resolved ifIndex := by
    simp only [← mem]
    exact keys ▸ some.mem_keys
  sound mac port hport := by
    obtain ⟨ifIndex, l, hitem, hmac, hcall⟩ := sound mac port hport
    exact ⟨ifIndex, (mem ifIndex mac).mp (mem_filed_iff.mpr ⟨l, hitem, hmac⟩), hcall⟩
  complete mac ifIndex port forwards hcall := by
    obtain ⟨l, hitem, hmac⟩ := mem_filed_iff.mp ((mem ifIndex mac).mpr forwards)
    exact complete mac port ⟨ifIndex, l, hitem, hmac, hcall⟩

/-- The tables of a device that can be joined lead to its ports. -/
theorem mapsMacs_of_joins (sane : w.Sane) (polled : exec (poll deviceIp) w = (.ok (some d), w'))
    (joins : d.Joins) : MapsMacs deviceIp w := by
  obtain ⟨entries, listed, mem, safe⟩ := joins.entries
  have none : NoneEmpty .empty := fun k l hl => by simp at hl
  obtain ⟨joined, filedAll, some, mem'⟩ := macsByIfIndex_returns (w := w') none safe
  obtain ⟨calls, w'', found, resolves, returned, keys, sound, complete⟩ :=
    macPorts_returns deviceIp (poll_sane sane polled) .empty joined.nodup
  refine ⟨_, w', calls, w'', found, polled, resolves, ?_, ?_⟩
  · rw [getMacsOnDevice, exec_bind_ok polled]
    simp only [listed, pure_bind]
    rw [exec_bind_ok filedAll]
    exact returned
  · refine .of_joined some (fun ifIndex mac => ?_) keys (fun mac port hport => ?_)
      fun mac port leads => complete mac (.inr ⟨port, leads⟩)
    · rw [mem', forwards_some]
      simp [filed, mem]
    · simpa using sound mac port hport

/-- Tables that cannot be joined raise. -/
theorem getMacsOnDevice_raises (polled : exec (poll deviceIp) w = (.ok (some d), w'))
    (broken : ¬d.Joins) : ∃ e, exec (getMacsOnDevice deviceIp) w = (.error e, w') := by
  rw [getMacsOnDevice, exec_bind_ok polled]
  unfold Device.Joins at broken
  cases hport : d.fwPort with
  | absent => simp [hport] at broken
  | text s =>
    refine ⟨.attributeError, ?_⟩
    simp only [hport, Table.entries]
    rfl
  | dict entries =>
    simp only [hport, not_forall, not_not] at broken
    obtain ⟨s, hmac, hash, hhash, inside⟩ := broken
    refine ⟨.typeError, ?_⟩
    simp only [hport, Table.entries, pure_bind, hmac]
    obtain ⟨e, he, rfl⟩ := List.mem_map.mp hhash
    exact exec_bind_error (macsByIfIndex_raises ⟨e, he, inside⟩)

theorem not_mapsMacs {e : Error} (raised : exec (getMacsOnDevice deviceIp) w = (.error e, w')) :
    ¬MapsMacs deviceIp w := by
  rintro ⟨_, _, _, _, found, -, -, returned, -⟩
  rw [raised] at returned
  cases returned

theorem getMacsOnDevice_unpolled (polled : exec (poll deviceIp) w = (.ok none, w')) :
    exec (getMacsOnDevice deviceIp) w = (.error .attributeError, w') := by
  rw [getMacsOnDevice, exec_bind_ok polled]
  rfl

/-- `get_macs_on_device` returns the MACs of a device exactly if the poll finds one whose
tables can be joined. -/
theorem mapsMacs_iff (deviceIp : Value) (sane : w.Sane) :
    MapsMacs deviceIp w ↔ (w.polled w.asked).answer.Joins := by
  obtain ⟨outcome, w', polled, polls⟩ := poll_returns deviceIp sane
  have unpolled (absent : outcome = none) : ¬MapsMacs deviceIp w :=
    not_mapsMacs (getMacsOnDevice_unpolled (absent ▸ polled))
  cases answer : (w.polled w.asked).answer with
  | device d =>
    rw [answer] at polls
    obtain ⟨found, rfl, fwMac, fwPort, -⟩ := polls
    have same : d.Joins ↔ found.Joins := by rw [Device.Joins, Device.Joins, fwMac, fwPort]
    change MapsMacs deviceIp w ↔ d.Joins
    rw [same]
    by_cases joins : found.Joins
    · exact iff_of_true (mapsMacs_of_joins sane polled joins) joins
    · obtain ⟨e, raised⟩ := getMacsOnDevice_raises polled joins
      exact iff_of_false (not_mapsMacs raised) joins
  | raises =>
    rw [answer] at polls
    exact iff_of_false (unpolled polls) id
  | timeout =>
    rw [answer] at polls
    exact iff_of_false (unpolled polls) id
  | null =>
    rw [answer] at polls
    exact iff_of_false (unpolled polls) id

end Macs

/-- The poller answers the same device to every poll, with one port and the two tables. -/
def pollsTables (fwMac fwPort : Table) : World :=
  .empty (fun _ => ⟨.device ⟨none, some [⟨"1", .str "g1", .str "g1", none, .none, none⟩], fwMac,
    fwPort, ∅, ∅⟩, none⟩) fun _ => none

theorem pollsTables_sane (fwMac fwPort : Table) : (pollsTables fwMac fwPort).Sane where
  cached id d cached := by simp [pollsTables, World.empty] at cached
  sent n := rfl

/-- One MAC on the port. -/
theorem mapsMacs_iff_oneMac :
    MapsMacs (.str "10.0.0.1")
      (pollsTables (.dict (Dict.empty.set "1.0" (.str "00:11:22:33:44:55")))
        (.dict (Dict.empty.set "1.0" (.str "1")))) :=
  (mapsMacs_iff (.str "10.0.0.1") (pollsTables_sane _ _)).mpr fun s hs => by cases hs

/-- A device without forwarding tables. -/
theorem getMacsOnDevice_noTables :
    (pollsTables (.text "") (.text "")).Sane ∧
      ¬MapsMacs (.str "10.0.0.1") (pollsTables (.text "") (.text "")) ∧
      (exec (getMacsOnDevice (.str "10.0.0.1")) (pollsTables (.text "") (.text ""))).1 =
        .error .attributeError := by
  have raised : (exec (getMacsOnDevice (.str "10.0.0.1"))
      (pollsTables (.text "") (.text ""))).1 = .error .attributeError := rfl
  refine ⟨pollsTables_sane _ _, ?_, raised⟩
  rintro ⟨_, _, _, _, found, -, -, returned, -⟩
  rw [returned] at raised
  cases raised

end ElanAgent.Snmp
