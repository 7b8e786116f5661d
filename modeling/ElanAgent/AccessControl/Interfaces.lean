import ElanAgent.AccessControl.Passthroughs

/-!
# The interface sets and the marks

`ac_ifs`, `ids_ifs` and `log_ifs` are never flushed: an interface leaves them when it
is no longer configured or its flag is off. `Exact` says that they agree with the
stored configuration, and every configuration whose passthroughs resolve keeps that.
-/

namespace ElanAgent.AccessControl

variable {byId : Dict Value Vlan} {old : Option Vlan} {nic : String} {vlan : Vlan}

/-! ## What the loops send -/

theorem andThen_error {first next : Sent} :
    (first.andThen next).error = none ↔ first.error = none ∧ next.error = none := by
  cases h : first.error <;> simp [Sent.andThen, h]

theorem andThen_commands {first next : Sent} (h : first.error = none) :
    (first.andThen next).commands = first.commands ++ next.commands := by
  simp [Sent.andThen, h]

theorem mem_sendPassthroughs {set : PtSet} {pts : List Value} {c : Nft}
    (h : c ∈ (sendPassthroughs byId old nic set pts).commands) : ∃ out, c = .addPt set nic out := by
  induction pts with
  | nil => simp [sendPassthroughs, send] at h
  | cons pt pts ih =>
    simp only [sendPassthroughs] at h
    split at h
    · exact ih h
    · cases hout : nicOut byId pt with
      | error key => simp [hout] at h
      | ok out =>
        rcases List.mem_cons.mp (by simpa [hout, Sent.andThen, send] using h) with rfl | h
        · exact ⟨out, rfl⟩
        · exact ih h

theorem mem_configureVlan {localIndex : Nat} {c : Nft} (hc : ∀ set nic out, c ≠ .addPt set nic out)
    (h : (configureVlan byId old nic vlan localIndex).error = none) :
    c ∈ (configureVlan byId old nic vlan localIndex).commands ↔
      c = .addMark nic localIndex ∨ (∃ set, c = setIf vlan nic set) ∨
      ∃ protocol, c = .addCaptivePortals protocol localIndex (20000 + localIndex * 2)
        (20000 + localIndex * 2 + 1) := by
  have pts : ∀ set, c ∉ (sendPassthroughs byId old nic set (vlan.passthroughs set)).commands := by
    intro set hmem
    obtain ⟨out, rfl⟩ := mem_sendPassthroughs hmem
    exact hc set nic out rfl
  unfold configureVlan at h ⊢
  simp only [andThen_error] at h
  obtain ⟨⟨⟨⟨⟨h0, h1⟩, h2⟩, h3⟩, h4⟩, h5⟩ := h
  simp only [Sent.andThen, h0, h1, h2, h3, h4, List.mem_append, pts]
  constructor
  · simp only [send, List.mem_cons, List.not_mem_nil, or_false]
    grind
  · rintro (rfl | ⟨set, rfl⟩ | ⟨protocol, rfl⟩)
    · simp [send]
    · cases set <;> simp [send]
    · cases protocol <;> simp [send]

theorem setIf_eq_addIf {set set' : IfSet} {nic' : String} :
    setIf vlan nic set = .addIf set' nic' ↔ set = set' ∧ nic = nic' ∧ vlan.flag set' := by
  unfold setIf
  grind

theorem setIf_eq_deleteIf {set set' : IfSet} {nic' : String} :
    setIf vlan nic set = .deleteIf set' nic' ↔ set = set' ∧ nic = nic' ∧ ¬ vlan.flag set' := by
  unfold setIf
  grind

/-- What the loop sends for the interface sets and the marks, and the indexes it leaves. -/
structure Configures (items : List (String × Vlan)) (indexes : LocalIndexes) (sent : Sent)
    (indexes' : LocalIndexes) : Prop where
  addIf : ∀ set nic, .addIf set nic ∈ sent.commands ↔ ∃ vlan, (nic, vlan) ∈ items ∧ vlan.flag set
  deleteIf : ∀ set nic, .deleteIf set nic ∈ sent.commands ↔
    ∃ vlan, (nic, vlan) ∈ items ∧ ¬ vlan.flag set
  addMark : ∀ nic mark, .addMark nic mark ∈ sent.commands →
    indexes'.byIfname.lookup nic = some mark
  marked : ∀ nic vlan, (nic, vlan) ∈ items → ∃ mark, .addMark nic mark ∈ sent.commands
  keeps : ∀ nic i, indexes.byIfname.lookup nic = some i → indexes'.byIfname.lookup nic = some i

theorem configures_configureVlans (old : Dict String Vlan) (items : List (String × Vlan))
    (indexes : LocalIndexes) (h : (configureVlans byId old items indexes).1.error = none) :
    Configures items indexes (configureVlans byId old items indexes).1
      (configureVlans byId old items indexes).2 := by
  induction items generalizing indexes with
  | nil => constructor <;> simp [configureVlans, send]
  | cons e items ih =>
    obtain ⟨nic, vlan⟩ := e
    have hlookup := indexes.getVlanLocalIndex_lookup nic
    have hkeeps : ∀ nic' i, indexes.byIfname.lookup nic' = some i →
        (indexes.getVlanLocalIndex nic).2.byIfname.lookup nic' = some i :=
      fun nic' i => indexes.getVlanLocalIndex_keeps
    generalize hi : indexes.getVlanLocalIndex nic = r at hlookup hkeeps
    obtain ⟨localIndex, indexes'⟩ := r
    simp only [configureVlans, hi] at h ⊢
    cases he : (configureVlan byId (old.get nic) nic vlan localIndex).error with
    | some key => simp [he] at h
    | none =>
      simp only [he] at h ⊢
      have rest := ih indexes' (andThen_error.mp h).2
      have one := fun c hc => mem_configureVlan (c := c) hc he
      refine ⟨fun set nic' => ?_, fun set nic' => ?_, fun nic' mark => ?_, fun nic' vlan' => ?_,
        fun nic' i hi => rest.keeps nic' i (hkeeps nic' i hi)⟩
      · rw [andThen_commands he, List.mem_append, one _ (by simp), rest.addIf]
        simp only [reduceCtorEq, exists_false, or_false, false_or, List.mem_cons, Prod.mk.injEq,
          eq_comm (a := Nft.addIf set nic'), setIf_eq_addIf]
        grind
      · rw [andThen_commands he, List.mem_append, one _ (by simp), rest.deleteIf]
        simp only [reduceCtorEq, exists_false, or_false, false_or, List.mem_cons, Prod.mk.injEq,
          eq_comm (a := Nft.deleteIf set nic'), setIf_eq_deleteIf]
        grind
      · rw [andThen_commands he, List.mem_append, one _ (by simp)]
        have := rest.keeps nic localIndex hlookup
        have := rest.addMark nic' mark
        simp only [setIf]
        grind
      · rw [andThen_commands he]
        rintro (_ | ⟨_, h⟩)
        · exact ⟨localIndex, List.mem_append_left _ ((one _ (by simp)).mpr (.inl rfl))⟩
        · obtain ⟨mark, hmark⟩ := rest.marked nic' vlan' h
          exact ⟨mark, List.mem_append_right _ hmark⟩

/-! ## One configuration -/

/-- The ids that passthroughs name are there, on entries with a `vlan_id`. -/
def Targets (vlans : List Vlan) : Prop :=
  ∀ vlan ∈ vlans, ∀ set, ∀ pt ∈ vlan.passthroughs set,
    (∃ target ∈ vlans, target.id = some pt) ∧
    ∀ target ∈ vlans, target.id = some pt → target.vlanId ≠ none

instance : DecidablePred Targets := fun vlans => by
  unfold Targets
  infer_instance

/-- The nft sets agree with the stored configuration, the marks with the local indexes. -/
structure Exact (host : Host) : Prop where
  ifs : ∀ set nic, nic ∈ host.ruleset.ifs set ↔
    ∃ vlan, host.configurator.vlansByIfname.get nic = some vlan ∧ vlan.flag set
  marks : ∀ nic mark, host.ruleset.vlanMark.get nic = some mark →
    host.configurator.localIndexes.byIfname.lookup nic = some mark
  marked : ∀ nic vlan, host.configurator.vlansByIfname.get nic = some vlan →
    (host.ruleset.vlanMark.get nic).isSome

theorem exact_start (indexes : LocalIndexes) : Exact (.start indexes) := by
  constructor <;> simp [Host.start, Ruleset.empty]

variable {order : Enumeration} {host : Host} {vlans : List Vlan}

theorem mem_newVlansByIfname :
    (nic, vlan) ∈ (newVlansByIfname vlans).items ↔ (newVlansByIfname vlans).get nic = some vlan :=
  Dict.mem_items

/-- No passthrough raises, so the loops send all that they have to. -/
theorem Targets.error (targets : Targets vlans) (host : Host) :
    (configureVlans (newVlansById vlans) host.configurator.vlansByIfname
      (newVlansByIfname vlans).items host.configurator.localIndexes).1.error = none := by
  refine (sends_configureVlans _ _ _ _).error.mpr fun ⟨nic, set, pt⟩ hitem => ?_
  obtain ⟨vlan, hvlan, hpt, -⟩ := mem_allNewItems.mp hitem
  obtain ⟨⟨target, htarget, hid⟩, hvlanId⟩ := targets vlan (Dict.get_keyed_some hvlan).1 set pt hpt
  obtain ⟨found, hfound⟩ := Dict.exists_get_keyed htarget hid
  obtain ⟨hmem, hfoundId⟩ := Dict.get_keyed_some hfound
  have := Option.isSome_iff_ne_none.mpr (hvlanId found hmem hfoundId)
  simpa [Item.resolves, newVlansById, hfound] using this

/-- What a configuration sends, and what it leaves in the configurator. -/
structure Configured (order : Enumeration) (host : Host) (vlans : List Vlan) : Prop where
  stored : (host.configure order vlans).configurator.vlansByIfname = newVlansByIfname vlans
  addIf : ∀ set nic, .addIf set nic ∈ host.commands order vlans ↔
    ∃ vlan, (newVlansByIfname vlans).get nic = some vlan ∧ vlan.flag set
  deleteIf : ∀ set nic, .deleteIf set nic ∈ host.commands order vlans ↔
    (∃ vlan, (newVlansByIfname vlans).get nic = some vlan ∧ ¬ vlan.flag set) ∨
    (∃ vlan, host.configurator.vlansByIfname.get nic = some vlan) ∧
      (newVlansByIfname vlans).get nic = none
  addMark : ∀ nic mark, .addMark nic mark ∈ host.commands order vlans →
    (host.configure order vlans).configurator.localIndexes.byIfname.lookup nic = some mark
  marked : ∀ nic vlan, (newVlansByIfname vlans).get nic = some vlan →
    ∃ mark, .addMark nic mark ∈ host.commands order vlans
  keeps : ∀ nic i, host.configurator.localIndexes.byIfname.lookup nic = some i →
    (host.configure order vlans).configurator.localIndexes.byIfname.lookup nic = some i

theorem configured (order : Enumeration) (host : Host) (targets : Targets vlans) :
    Configured order host vlans := by
  have herr := targets.error host
  have loop := configures_configureVlans host.configurator.vlansByIfname
    (newVlansByIfname vlans).items host.configurator.localIndexes herr
  have hcommands : host.commands order vlans =
      flushes ++ deletes (order.order (host.configurator.vlansByIfname.keys.filter
        (· ∉ (newVlansByIfname vlans).keys))) ++
      ((configureVlans (newVlansById vlans) host.configurator.vlansByIfname
        (newVlansByIfname vlans).items host.configurator.localIndexes).1.commands ++ [.quit]) := by
    simp only [Host.commands, Configurator.newVlanConf, Sent.andThen, send, herr]
  have hindexes : (host.configure order vlans).configurator.localIndexes =
      (configureVlans (newVlansById vlans) host.configurator.vlansByIfname
        (newVlansByIfname vlans).items host.configurator.localIndexes).2 := rfl
  refine ⟨?_, fun set nic => ?_, fun set nic => ?_, fun nic mark => ?_, fun nic vlan h => ?_, ?_⟩
  · simp [Host.configure, Configurator.newVlanConf, Sent.andThen, send, herr]
  · simp [hcommands, flushes, deletes, loop.addIf, mem_newVlansByIfname]
  · have hkeys : (newVlansByIfname vlans).get nic = none ↔ nic ∉ (newVlansByIfname vlans).keys := by
      simp [Dict.mem_keys, Option.eq_none_iff_forall_ne_some]
    rw [hkeys, ← Dict.mem_keys]
    simp only [hcommands, flushes, deletes, List.mem_append, loop.deleteIf, mem_newVlansByIfname,
      List.mem_flatMap, (order.perm _).mem_iff, List.mem_filter]
    cases set <;> simp [or_comm]
  · intro h
    rw [hindexes]
    exact loop.addMark nic mark (by simpa [hcommands, flushes, deletes] using h)
  · obtain ⟨mark, hmark⟩ := loop.marked nic vlan (mem_newVlansByIfname.mpr h)
    exact ⟨mark, by simp [hcommands, hmark]⟩
  · exact loop.keeps

theorem Exact.configure (exact : Exact host) (order : Enumeration) (targets : Targets vlans) :
    Exact (host.configure order vlans) := by
  have conf := configured order host targets
  refine ⟨fun set nic => ?_, fun nic mark h => ?_, fun nic vlan h => ?_⟩
  · rw [conf.stored]
    by_cases hadd : .addIf set nic ∈ host.commands order vlans
    · obtain ⟨vlan, hvlan, hflag⟩ := (conf.addIf set nic).mp hadd
      have hdelete : .deleteIf set nic ∉ host.commands order vlans := by
        rw [conf.deleteIf]
        grind
      simp only [Host.configure, mem_ifs_of_not_deleted hdelete, hadd, or_true, true_iff]
      exact ⟨vlan, hvlan, hflag⟩
    · have hiff := conf.addIf set nic
      have := conf.deleteIf set nic
      have := exact.ifs set nic
      simp only [Host.configure, mem_ifs_of_not_added hadd]
      cases hv : (newVlansByIfname vlans).get nic <;> grind
  · rcases vlanMark_applyAll host.ruleset h with h | h
    · exact conf.keeps nic mark (exact.marks nic mark h)
    · exact conf.addMark nic mark h
  · rw [conf.stored] at h
    exact vlanMark_applyAll_isSome host.ruleset (.inr (conf.marked nic vlan h))

/-! ## Sequences of configurations -/

theorem Exact.configureAll (exact : Exact host) (order : Enumeration) {confs : List (List Vlan)}
    (h : ∀ conf ∈ confs, Targets conf) : Exact (host.configureAll order confs) := by
  induction confs generalizing host with
  | nil => exact exact
  | cons conf confs ih =>
    exact ih (exact.configure order (h conf List.mem_cons_self))
      fun c hc => h c (List.mem_cons_of_mem conf hc)

/-- The entry of an interface, the last if several entries name it, has the flag. -/
def Flagged (vlans : List Vlan) (set : IfSet) (nic : String) : Prop :=
  ∃ vlan, (vlans.reverse.find? fun vlan => vlan.nicName = nic) = some vlan ∧ vlan.flag set

theorem flagged_iff {set : IfSet} {nic : String} :
    Flagged vlans set nic ↔
      ∃ vlan, (newVlansByIfname vlans).get nic = some vlan ∧ vlan.flag set := by
  simp only [Flagged, newVlansByIfname, Dict.get_keyed, Option.some.injEq]

theorem configureAll_stored (host : Host) (order : Enumeration) {confs : List (List Vlan)}
    (h : ∀ conf ∈ confs, Targets conf) {prev : List Vlan} (hprev : prev ∈ confs.getLast?) :
    (host.configureAll order confs).configurator.vlansByIfname = newVlansByIfname prev := by
  obtain ⟨confs, rfl⟩ := List.getLast?_eq_some_iff.mp hprev
  have conf := configured order (host.configureAll order confs) (h prev (by simp))
  simpa [Host.configureAll] using conf.stored

/-- The host `next` follows the flags of `vlans`, and so does every host on the way to it
from `host`, which followed `prev`. -/
structure Follows (order : Enumeration) (host next : Host) (prev : Option (List Vlan))
    (vlans : List Vlan) : Prop where
  ifs : ∀ set nic, nic ∈ next.ruleset.ifs set ↔ Flagged vlans set nic
  marked : ∀ nic ∈ next.ruleset.ifs .ac,
    ∃ mark, next.ruleset.vlanMark.get nic = some mark ∧ mark ≠ 0
  distinct : ∀ nic nic' mark, next.ruleset.vlanMark.get nic = some mark →
    next.ruleset.vlanMark.get nic' = some mark → nic = nic'
  noGap : ∀ conf ∈ prev, ∀ set nic, Flagged conf set nic → Flagged vlans set nic →
    ∀ sent, sent <+: host.commands order vlans → nic ∈ (host.ruleset.applyAll sent).ifs set

/-- After any configurations whose passthroughs resolve, the interface sets are those of the
last one, the marks of access control are distinct and not zero, and no interface that keeps
a flag is ever out of its set while the commands are applied. -/
theorem interfaces_exact (order : Enumeration) (indexes : LocalIndexes)
    (confs : List (List Vlan)) (vlans : List Vlan) (h : ∀ conf ∈ confs ++ [vlans], Targets conf) :
    Follows order ((Host.start indexes).configureAll order confs)
      ((Host.start indexes).configureAll order (confs ++ [vlans])) confs.getLast? vlans := by
  set host := (Host.start indexes).configureAll order confs with hhost
  set next := (Host.start indexes).configureAll order (confs ++ [vlans]) with hlast
  have hconfs : ∀ conf ∈ confs, Targets conf := fun conf hc => h conf (List.mem_append_left _ hc)
  have hvlans : Targets vlans := h vlans (by simp)
  have exact : Exact host := (exact_start indexes).configureAll order hconfs
  have conf := configured order host hvlans
  have hnext : next = host.configure order vlans := by
    simp [hlast, hhost, Host.configureAll]
  have exactNext : Exact next := hnext ▸ exact.configure order hvlans
  have ifs : ∀ set nic, nic ∈ next.ruleset.ifs set ↔ Flagged vlans set nic := by
    intro set nic
    rw [exactNext.ifs, hnext, conf.stored, flagged_iff]
  refine ⟨ifs, fun nic hnic => ?_, fun nic nic' mark hm hm' => ?_,
    fun prev hprev set nic hold hnew sent hsent => ?_⟩
  · obtain ⟨vlan, hvlan, -⟩ := (exactNext.ifs .ac nic).mp hnic
    obtain ⟨mark, hmark⟩ := Option.isSome_iff_exists.mp (exactNext.marked nic vlan hvlan)
    have pos := next.configurator.localIndexes.pos nic mark (exactNext.marks nic mark hmark)
    exact ⟨mark, hmark, by omega⟩
  · exact next.configurator.localIndexes.inj nic nic' mark (exactNext.marks nic mark hm)
      (exactNext.marks nic' mark hm')
  · have hdelete : .deleteIf set nic ∉ host.commands order vlans := by
      rw [conf.deleteIf]
      have := flagged_iff.mp hnew
      grind
    refine (mem_ifs_of_not_deleted (fun hd => hdelete (hsent.subset hd)) _).mpr (.inl ?_)
    rw [exact.ifs, configureAll_stored _ _ hconfs hprev]
    exact flagged_iff.mp hold

/-- The device behind `eth1.5` gets access control, the one behind `eth0` loses it. -/
def switchedConfs : List (List Vlan) :=
  [[⟨some (.int 1), "eth0", some (.int 0), true, true, false, [.int 2], [], [], []⟩,
      ⟨some (.int 2), "eth1", some (.int 5), false, true, true, [], [], [], []⟩],
    [⟨some (.int 1), "eth0", some (.int 0), false, true, false, [.int 2], [], [], []⟩,
      ⟨some (.int 2), "eth1", some (.int 5), true, false, true, [], [], [], []⟩]]

theorem interfaces_exact_switched :
    Follows ⟨id, fun _ => .rfl⟩ ((Host.start .empty).configureAll ⟨id, fun _ => .rfl⟩ switchedConfs)
      ((Host.start .empty).configureAll ⟨id, fun _ => .rfl⟩ (switchedConfs ++ [passthroughConf]))
      switchedConfs.getLast? passthroughConf :=
  interfaces_exact ⟨id, fun _ => .rfl⟩ .empty switchedConfs passthroughConf (by decide)

/-- Two entries that name one interface, and a passthrough to an entry without `vlan_id`. -/
def sharedNameConf : List Vlan :=
  [⟨none, "eth0.5", none, true, false, false, [], [], [], []⟩,
    ⟨none, "eth0", some (.int 5), false, false, false, [], [], [], []⟩]

def noVlanIdConf : List Vlan :=
  [⟨some (.int 1), "eth0", some (.int 0), true, true, false, [.int 2], [], [], []⟩,
    ⟨some (.int 2), "eth1", none, true, false, false, [], [], [], []⟩]

/-- The first entry of a shared name is not followed, nor what comes after an entry without
`vlan_id` has been looked up. -/
theorem flags_not_followed :
    (∀ conf ∈ [sharedNameConf, noVlanIdConf],
      (conf.map fun vlan => (vlan.interface, vlan.vlanId)).Nodup ∧
      ∀ vlan ∈ conf, ∀ set, ∀ pt ∈ vlan.passthroughs set, ∃ t ∈ conf, t.id = some pt) ∧
    ∀ conf ∈ [sharedNameConf, noVlanIdConf],
      ¬ ∀ set nic, nic ∈ ((Host.start .empty).configure ⟨id, fun _ => .rfl⟩ conf).ruleset.ifs set ↔
        ∃ vlan ∈ conf, vlan.nicName = nic ∧ vlan.flag set := by
  refine ⟨by decide, fun conf hconf h => ?_⟩
  rcases List.mem_pair.mp hconf with rfl | rfl
  · have := h .ac "eth0.5"
    revert this
    decide
  · have := h .log "eth0"
    revert this
    decide

end ElanAgent.AccessControl
