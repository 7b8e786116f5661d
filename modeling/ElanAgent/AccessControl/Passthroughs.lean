import ElanAgent.AccessControl.Configurator
import Mathlib.Data.List.TakeWhile
import Mathlib.Data.Set.Basic

/-!
# The passthrough sets after a configuration

The passthrough sets are flushed at every configuration, but only the passthroughs
that the stored configuration does not have are added back, up to the first whose
target has no `vlan_id`. `reached` lists those, in the order of the loops, and the
sets hold what a configuration gives exactly when every pair it gives is among them.
-/

namespace ElanAgent.AccessControl

/-- A passthrough of an interface, and the set that it goes to. -/
structure Item where
  nic : String
  set : PtSet
  pt : Value

/-- The order in which the lists of an entry are gone through. -/
def PtSet.all : List PtSet := [.dhcp, .dns, .ndp, .mdns]

/-- The passthroughs of one list that the stored entry does not have. -/
def newItems (old : Option Vlan) (nic : String) (vlan : Vlan) (set : PtSet) : List Item :=
  ((vlan.passthroughs set).filter (· ∉ oldPassthroughs old set)).map fun pt => ⟨nic, set, pt⟩

/-- The passthroughs of a configuration that the stored one does not have. -/
def allNewItems (old : Dict String Vlan) (items : List (String × Vlan)) : List Item :=
  items.flatMap fun e => PtSet.all.flatMap (newItems (old.get e.1) e.1 e.2)

/-- The entry that a passthrough names is there and has a `vlan_id`. -/
def Item.resolves (newVlansById : Dict Value Vlan) (item : Item) : Bool :=
  ((newVlansById.get item.pt).bind Vlan.vlanId).isSome

/-- What `sent` adds to the passthrough sets is `items`, in turn, up to the first that
raises. -/
structure Sends (newVlansById : Dict Value Vlan) (items : List Item) (sent : Sent) : Prop where
  noFlush : ∀ set, .flushPts set ∉ sent.commands
  error : sent.error = none ↔ ∀ item ∈ items, item.resolves newVlansById
  addPt : ∀ set nic out, .addPt set nic out ∈ sent.commands ↔
    ∃ pt, ⟨nic, set, pt⟩ ∈ items.takeWhile (Item.resolves newVlansById) ∧
      nicOut newVlansById pt = .ok out

variable {byId : Dict Value Vlan} {old : Option Vlan} {nic : String}

theorem sends_send {commands : List Nft} (hflush : ∀ set, .flushPts set ∉ commands)
    (h : ∀ set nic out, .addPt set nic out ∉ commands) : Sends byId [] (send commands) where
  noFlush := hflush
  error := by simp [send]
  addPt set nic out := by simp [send, h]

theorem Sends.andThen {items rest : List Item} {first next : Sent} (h : Sends byId items first)
    (hnext : Sends byId rest next) : Sends byId (items ++ rest) (first.andThen next) := by
  cases he : first.error with
  | none =>
    have all := h.error.mp he
    refine ⟨fun set => ?_, ?_, fun set nic out => ?_⟩
    · simpa [Sent.andThen, he] using ⟨h.noFlush set, hnext.noFlush set⟩
    · have := hnext.error
      simp only [Sent.andThen, he, List.mem_append]
      grind
    · have hitems : items.takeWhile (Item.resolves byId) = items :=
        List.takeWhile_eq_self_iff.mpr all
      rw [List.takeWhile_append_of_pos all]
      have := h.addPt set nic out
      have := hnext.addPt set nic out
      simp only [Sent.andThen, he, List.mem_append]
      grind
  | some key =>
    have hnot : ¬ ∀ item ∈ items, item.resolves byId := by
      rw [← h.error, he]
      simp
    refine ⟨fun set => ?_, ?_, fun set nic out => ?_⟩
    · simpa only [Sent.andThen, he] using h.noFlush set
    · simp only [Sent.andThen, he, List.mem_append]
      grind
    · have hstop : (items ++ rest).takeWhile (Item.resolves byId) =
          items.takeWhile (Item.resolves byId) := by
        rw [List.takeWhile_append, if_neg]
        intro hlen
        refine hnot fun item hi => ?_
        have : items.takeWhile (Item.resolves byId) = items :=
          (List.takeWhile_prefix _).eq_of_length hlen
        exact List.takeWhile_eq_self_iff.mp this item hi
      rw [hstop]
      simpa only [Sent.andThen, he] using h.addPt set nic out

theorem nicOut_ok {pt : Value} {out : String} :
    nicOut byId pt = .ok out ↔
      ∃ target, byId.get pt = some target ∧ target.vlanId ≠ none ∧ out = target.nicName := by
  unfold nicOut Vlan.nicName
  cases byId.get pt with
  | none => simp
  | some target => cases hv : target.vlanId <;> simp [hv]; grind

theorem resolves_iff (byId : Dict Value Vlan) (item : Item) :
    item.resolves byId ↔ ∃ out, nicOut byId item.pt = .ok out := by
  simp only [Item.resolves, nicOut_ok, Option.isSome_iff_ne_none]
  cases byId.get item.pt <;> simp

theorem sends_sendPassthroughs (byId : Dict Value Vlan) (old : Option Vlan) (nic : String)
    (vlan : Vlan) (set : PtSet) :
    Sends byId (newItems old nic vlan set)
      (sendPassthroughs byId old nic set (vlan.passthroughs set)) := by
  unfold newItems
  induction vlan.passthroughs set with
  | nil => exact sends_send (by simp) (by simp)
  | cons pt pts ih =>
    by_cases hold : pt ∈ oldPassthroughs old set
    · simpa [sendPassthroughs, hold] using ih
    · simp only [sendPassthroughs, hold, if_false, List.filter_cons, not_false_eq_true,
        decide_true, if_true, List.map_cons]
      have hres := resolves_iff byId ⟨nic, set, pt⟩
      cases hout : nicOut byId pt with
      | error key =>
        have hno : Item.resolves byId ⟨nic, set, pt⟩ = false := by simpa [hout] using hres
        refine ⟨fun set' => ?_, ?_, fun set' nic' out => ?_⟩ <;> simp [hno]
      | ok out =>
        have hyes : Item.resolves byId ⟨nic, set, pt⟩ = true := hres.mpr ⟨out, hout⟩
        have one : Sends byId [⟨nic, set, pt⟩] (send [.addPt set nic out]) := by
          refine ⟨by simp [send], by simp [send, hyes], fun set' nic' out' => ?_⟩
          simp only [send, List.mem_singleton, List.takeWhile_cons, hyes, if_true,
            List.takeWhile_nil, Nft.addPt.injEq, Item.mk.injEq]
          grind
        exact one.andThen ih

theorem sends_configureVlan (byId : Dict Value Vlan) (old : Option Vlan) (nic : String)
    (vlan : Vlan) (localIndex : Nat) :
    Sends byId (PtSet.all.flatMap (newItems old nic vlan))
      (configureVlan byId old nic vlan localIndex) := by
  have sets := sends_sendPassthroughs byId old nic vlan
  have head : Sends byId [] (send [setIf vlan nic .ac, .addMark nic localIndex,
      .addCaptivePortals .ip localIndex (20000 + localIndex * 2) (20000 + localIndex * 2 + 1),
      .addCaptivePortals .ip6 localIndex (20000 + localIndex * 2) (20000 + localIndex * 2 + 1)]) :=
    sends_send (by simp [setIf]; grind) (by simp [setIf]; grind)
  have tail : Sends byId [] (send [setIf vlan nic .log, setIf vlan nic .ids]) :=
    sends_send (by simp [setIf]; grind) (by simp [setIf]; grind)
  unfold configureVlan
  simpa [PtSet.all] using
    ((((head.andThen (sets .dhcp)).andThen (sets .dns)).andThen (sets .ndp)).andThen
      (sets .mdns)).andThen tail

theorem sends_configureVlans (byId : Dict Value Vlan) (old : Dict String Vlan)
    (items : List (String × Vlan)) (indexes : LocalIndexes) :
    Sends byId (allNewItems old items) (configureVlans byId old items indexes).1 := by
  induction items generalizing indexes with
  | nil => exact sends_send (by simp) (by simp)
  | cons e items ih =>
    obtain ⟨nic, vlan⟩ := e
    generalize hi : indexes.getVlanLocalIndex nic = r
    obtain ⟨localIndex, indexes'⟩ := r
    have one := sends_configureVlan byId (old.get nic) nic vlan localIndex
    have both := one.andThen (ih indexes')
    simp only [configureVlans, hi]
    rw [allNewItems, List.flatMap_cons]
    cases he : (configureVlan byId (old.get nic) nic vlan localIndex).error with
    | none => exact both
    | some key => simpa [Sent.andThen, he, allNewItems] using both

/-! ## The sets after a configuration -/

/-- The new passthroughs that are sent: those before the first that raises. -/
def reached (old : Dict String Vlan) (vlans : List Vlan) : List Item :=
  (allNewItems old (newVlansByIfname vlans).items).takeWhile (Item.resolves (newVlansById vlans))

/-- The pairs that the passthrough lists of a configuration give. -/
def given (vlans : List Vlan) (set : PtSet) : Set (String × String) :=
  {p | ∃ vlan ∈ vlans, ∃ pt ∈ vlan.passthroughs set, ∃ target ∈ vlans,
    target.id = some pt ∧ p = (vlan.nicName, target.nicName)}

variable {order : Enumeration} {host : Host} {vlans : List Vlan}

theorem mem_pts_configure {set : PtSet} {p : String × String} :
    p ∈ (host.configure order vlans).ruleset.pts set ↔
      ∃ pt, ⟨p.1, set, pt⟩ ∈ reached host.configurator.vlansByIfname vlans ∧
        nicOut (newVlansById vlans) pt = .ok p.2 := by
  have loop := sends_configureVlans (newVlansById vlans) host.configurator.vlansByIfname
    (newVlansByIfname vlans).items host.configurator.localIndexes
  have quit : Sends (newVlansById vlans) [] (send [.quit]) := sends_send (by simp) (by simp)
  have all := loop.andThen quit
  rw [List.append_nil] at all
  simp only [Host.configure, Host.commands, Configurator.newVlanConf, Sent.andThen, send,
    applyAll_append] at all ⊢
  rw [mem_pts_of_not_flushed (all.noFlush set), all.addPt,
    mem_pts_of_not_flushed (by simp [deletes])]
  cases set <;> simp [flushes, deletes, Nft.apply, reached]

theorem mem_newItems {old : Option Vlan} {nic nic' : String} {vlan : Vlan} {set set' : PtSet}
    {pt : Value} : ⟨nic', set', pt⟩ ∈ newItems old nic vlan set ↔
      nic' = nic ∧ set' = set ∧ pt ∈ vlan.passthroughs set ∧ pt ∉ oldPassthroughs old set := by
  simp only [newItems, List.mem_map, List.mem_filter, decide_not, Item.mk.injEq]
  grind

theorem mem_allNewItems {old : Dict String Vlan} {nic : String} {set : PtSet} {pt : Value} :
    ⟨nic, set, pt⟩ ∈ allNewItems old (newVlansByIfname vlans).items ↔
      ∃ vlan, (newVlansByIfname vlans).get nic = some vlan ∧
        pt ∈ vlan.passthroughs set ∧ pt ∉ oldPassthroughs (old.get nic) set := by
  have hset : set ∈ PtSet.all := by cases set <;> simp [PtSet.all]
  simp only [allNewItems, List.mem_flatMap, mem_newItems, Prod.exists, Dict.mem_items]
  grind

/-- Nothing but the given pairs is ever added. -/
theorem pts_subset_given (set : PtSet) :
    ↑((host.configure order vlans).ruleset.pts set) ⊆ given vlans set := by
  intro p hp
  obtain ⟨pt, hreached, hout⟩ := mem_pts_configure.mp hp
  obtain ⟨vlan, hvlan, hpt, -⟩ := mem_allNewItems.mp ((List.takeWhile_prefix _).subset hreached)
  obtain ⟨target, htarget, -, hp⟩ := nicOut_ok.mp hout
  obtain ⟨hmem, hname⟩ := Dict.get_keyed_some hvlan
  obtain ⟨htargetMem, hid⟩ := Dict.get_keyed_some htarget
  refine ⟨vlan, hmem, pt, hpt, target, htargetMem, hid, ?_⟩
  rw [Option.some.inj hname, ← hp]

/-- Every pair that the configuration gives is also given by a passthrough that the
stored configuration does not list for that interface, and that is sent before any whose
target has no `vlan_id`. -/
def Repopulates (old : Dict String Vlan) (vlans : List Vlan) : Prop :=
  ∀ set, ∀ p ∈ given vlans set, ∃ pt, ⟨p.1, set, pt⟩ ∈ reached old vlans ∧
    ∃ target, (newVlansById vlans).get pt = some target ∧ target.nicName = p.2

/-- After any configurations, one more leaves in the passthrough sets what it gives exactly
when it repopulates them. -/
theorem pts_given_iff_repopulates (order : Enumeration) (indexes : LocalIndexes)
    (before : List (List Vlan)) (vlans : List Vlan) :
    (∀ set, (((Host.start indexes).configureAll order (before ++ [vlans])).ruleset.pts set :
      Set (String × String)) = given vlans set) ↔
    Repopulates ((Host.start indexes).configureAll order before).configurator.vlansByIfname
      vlans := by
  generalize hhost : (Host.start indexes).configureAll order before = host
  have hlast : (Host.start indexes).configureAll order (before ++ [vlans]) =
      host.configure order vlans := by
    simp [Host.configureAll, ← hhost]
  rw [hlast]
  constructor
  · intro h set p hp
    rw [← h set] at hp
    obtain ⟨pt, hreached, hout⟩ := mem_pts_configure.mp hp
    obtain ⟨target, htarget, -, hname⟩ := nicOut_ok.mp hout
    exact ⟨pt, hreached, target, htarget, hname.symm⟩
  · intro h set
    refine (pts_subset_given set).antisymm fun p hp => ?_
    obtain ⟨pt, hreached, target, htarget, hname⟩ := h set p hp
    obtain ⟨out, hout⟩ := (resolves_iff _ _).mp (List.mem_takeWhile_imp hreached)
    obtain ⟨target', htarget', -, hname'⟩ := nicOut_ok.mp hout
    have heq : target = target' := Option.some.inj (htarget.symm.trans htarget')
    refine mem_pts_configure.mpr ⟨pt, hreached, ?_⟩
    rw [hout, hname', ← heq, hname]

/-- Entries have names and ids of their own, and passthroughs name entries with a
`vlan_id`. -/
structure Plain (vlans : List Vlan) : Prop where
  names : ∀ v ∈ vlans, ∀ v' ∈ vlans, v.nicName = v'.nicName → v = v'
  ids : ∀ v ∈ vlans, ∀ v' ∈ vlans, v.id ≠ none → v.id = v'.id → v = v'
  targets : ∀ v ∈ vlans, ∀ set, ∀ pt ∈ v.passthroughs set,
    ∃ target ∈ vlans, target.id = some pt ∧ target.vlanId ≠ none

theorem Plain.get_name (plain : Plain vlans) {vlan : Vlan} (h : vlan ∈ vlans) :
    (newVlansByIfname vlans).get vlan.nicName = some vlan := by
  obtain ⟨found, hfound⟩ : ∃ found, (newVlansByIfname vlans).get vlan.nicName = some found :=
    Dict.exists_get_keyed h rfl
  obtain ⟨hmem, hname⟩ := Dict.get_keyed_some hfound
  rw [hfound, plain.names found hmem vlan h (Option.some.inj hname)]

theorem Plain.get_id (plain : Plain vlans) {vlan : Vlan} (h : vlan ∈ vlans) {id : Value}
    (hid : vlan.id = some id) : (newVlansById vlans).get id = some vlan := by
  obtain ⟨found, hfound⟩ := Dict.exists_get_keyed h hid
  obtain ⟨hmem, hfoundId⟩ := Dict.get_keyed_some hfound
  rw [newVlansById, hfound,
    plain.ids found hmem vlan h (by simp [hfoundId]) (by rw [hfoundId, hid])]

theorem Plain.reached_eq (plain : Plain vlans) (old : Dict String Vlan) :
    reached old vlans = allNewItems old (newVlansByIfname vlans).items := by
  refine List.takeWhile_eq_self_iff.mpr fun ⟨nic, set, pt⟩ hitem => ?_
  obtain ⟨vlan, hvlan, hpt, -⟩ := mem_allNewItems.mp hitem
  obtain ⟨target, htarget, hid, hvlanId⟩ :=
    plain.targets vlan (Dict.get_keyed_some hvlan).1 set pt hpt
  simpa [Item.resolves, plain.get_id htarget hid] using Option.isSome_iff_ne_none.mpr hvlanId

/-- A plain configuration repopulates the sets when it lists no passthrough that the stored
configuration lists for the same interface. -/
theorem Plain.repopulates_iff (plain : Plain vlans) (old : Dict String Vlan) :
    Repopulates old vlans ↔ ∀ vlan ∈ vlans, ∀ set, ∀ pt ∈ vlan.passthroughs set,
      pt ∉ oldPassthroughs (old.get vlan.nicName) set := by
  unfold Repopulates
  rw [plain.reached_eq]
  constructor
  · intro h vlan hvlan set pt hpt
    obtain ⟨target, htarget, hid, -⟩ := plain.targets vlan hvlan set pt hpt
    obtain ⟨pt', hitem, target', htarget', hname⟩ :=
      h set (vlan.nicName, target.nicName) ⟨vlan, hvlan, pt, hpt, target, htarget, hid, rfl⟩
    obtain ⟨hmem', hid'⟩ := Dict.get_keyed_some htarget'
    obtain rfl := plain.names target' hmem' target htarget hname
    obtain rfl : pt' = pt := Option.some.inj (hid'.symm.trans hid)
    obtain ⟨-, -, -, hnew⟩ := mem_allNewItems.mp hitem
    exact hnew
  · rintro h set p ⟨vlan, hvlan, pt, hpt, target, htarget, hid, rfl⟩
    exact ⟨pt, mem_allNewItems.mpr ⟨vlan, plain.get_name hvlan, hpt, h vlan hvlan set pt hpt⟩,
      target, plain.get_id htarget hid, rfl⟩

/-- A configuration that went through and is sent again empties the sets. -/
theorem pts_resent (h : (host.configurator.newVlanConf order vlans).1.error = none)
    (set : PtSet) :
    ((host.configure order vlans).configure order vlans).ruleset.pts set = ∅ := by
  have hold : (host.configure order vlans).configurator.vlansByIfname = newVlansByIfname vlans := by
    unfold Configurator.newVlanConf at h
    simp only [Host.configure, Configurator.newVlanConf]
    rw [if_pos h]
  refine Finset.eq_empty_of_forall_notMem fun p hp => ?_
  obtain ⟨pt, hreached, -⟩ := mem_pts_configure.mp hp
  rw [hold] at hreached
  obtain ⟨vlan, hvlan, hpt, hnew⟩ := mem_allNewItems.mp ((List.takeWhile_prefix _).subset hreached)
  rw [hvlan] at hnew
  exact hnew hpt

/-- A configuration that lists `eth1` as the DHCP passthrough of `eth0`. -/
def passthroughConf : List Vlan :=
  [⟨some (.int 1), "eth0", some (.int 0), true, false, false, [.int 2], [], [], []⟩,
    ⟨some (.int 2), "eth1", some (.int 0), false, false, false, [], [], [], []⟩]

/-- Sent twice, it flushes the passthrough and does not add it back. -/
theorem resent_not_given :
    ¬ ∀ order indexes (before : List (List Vlan)) (vlans : List Vlan),
      (∀ conf ∈ before ++ [vlans], ∀ vlan ∈ conf, ∀ set, ∀ pt ∈ vlan.passthroughs set,
        ∃ target ∈ conf, target.id = some pt) →
      ∀ set, (((Host.start indexes).configureAll order (before ++ [vlans])).ruleset.pts set :
        Set (String × String)) = given vlans set := by
  intro h
  have all := h ⟨id, fun _ => .rfl⟩ .empty [passthroughConf] passthroughConf
    (by simp [passthroughConf, Vlan.passthroughs]; grind) .dhcp
  have hgiven : ("eth0", "eth1") ∈ given passthroughConf .dhcp :=
    ⟨_, .head _, .int 2, by decide, _, .tail _ (.head _), rfl, by decide⟩
  rw [← all, Finset.mem_coe] at hgiven
  revert hgiven
  decide

end ElanAgent.AccessControl
