import ElanAgent.Nac.Handlers

/-!
# The firewall once all messages are handled

The firewall of a device may lag behind its stored authorization. What is missing is then
in a message still to be handled, or in the hands of a handler. The invariant says so for
one device, and holds in every run in which no two handlers hold something for the device
at once.
-/

namespace ElanAgent.Nac

open Atomic Redis Session RedisMacAuthorization MacAuthorizationManager Handler Handler.Stage

section Track

variable {ι : Type} {m : String} {w : World} {q : ι → Stage}

/-- A message about `m` is pending, or received and not handled, or will be published. -/
structure Debt (m : String) (w : World) (q : ι → Stage) : Prop where
  subscribed : w.subscribed = true
  message : m ∈ w.changes ∨ ∃ i, q i = owing ∨ q i = called

/-- At most one thread has read what it is going to program. -/
def Single (q : ι → Stage) : Prop := ∀ i j, (q i).Critical → (q j).Critical → i = j

/-- What is missing in the firewall of `m` is on its way. -/
structure Tracked (m : String) (w : World) (q : ι → Stage) : Prop where
  mirrored : (w.firewall.device m).Exact ∨ ∃ i authz, q i = holding authz ∧
    (w.firewall.device m).Contains ∧ (w.firewall.device m).Within authz
  accurate : (w.firewall.device m).Holds (w.stored m) ∨ Debt m w q ∨
    ∃ i, q i = holding (w.stored m)
  held : ∀ i authz, q i = holding authz → authz = w.stored m ∨ Debt m w q

/-- The operation changes what is stored for `m`. -/
def Op.Changes (m : String) (o : Op) : Prop :=
  o = .execute (deletePipe m) ∨ ∃ authz : RedisMacAuthorization, authz.mac = m ∧
    o = .execute authz.savePipe

theorem tracked_spares (hw : Tracked m w q) {o : Op} (h : o.Spares m) :
    Tracked m (handler o w).2 q := by
  have debt : Debt m w q → Debt m (handler o w).2 q := fun ⟨subscribed, message⟩ =>
    ⟨(h.subscribed w).trans subscribed, message.imp_left (h.changes w)⟩
  obtain ⟨mirrored, accurate, held⟩ := hw
  rw [← h.device w] at mirrored accurate
  rw [← h.stored w] at accurate held
  exact ⟨mirrored, accurate.imp_right (Or.imp_left debt), fun i authz hi =>
    (held i authz hi).imp_right debt⟩

variable [DecidableEq ι] {i : ι} {q' : Stage}

/-- What holds of some stage other than that of the moving thread still does. -/
theorem exists_update {P : Stage → Prop} (hi : ¬P (q i)) (h : ∃ j, P (q j)) :
    ∃ j, P (Function.update q i q' j) := by
  obtain ⟨j, hj⟩ := h
  refine ⟨j, ?_⟩
  rwa [Function.update_of_ne]
  rintro rfl
  exact hi hj

theorem debt_update (hi : ¬(q i = owing ∨ q i = called)) (h : Debt m w q) :
    Debt m w (Function.update q i q') :=
  ⟨h.subscribed, h.message.imp_right (exists_update (P := fun s => s = owing ∨ s = called) hi)⟩

/-- Unless the moving thread holds something then, nobody does. -/
theorem holding_update (alone : ∀ j, j ≠ i → ¬(q j).Critical) {j : ι}
    {authz : Option RedisMacAuthorization} (h : Function.update q i q' j = holding authz) :
    j = i ∧ q' = holding authz := by
  rw [Function.update_apply] at h
  split at h
  · exact ⟨‹j = i›, h⟩
  · exact absurd (h ▸ trivial) (alone j ‹_›)

/-- The thread reads what it is going to program. -/
theorem tracked_read (hw : Tracked m w q) (alone : ∀ j, j ≠ i → ¬(q j).Critical)
    (hi : ¬(q i).Critical) : Tracked m w (Function.update q i (holding (w.stored m))) := by
  refine ⟨.inl ?_, .inr (.inr ⟨i, Function.update_self ..⟩), fun j authz hj => .inl ?_⟩
  · rcases hw.mirrored with exact | ⟨j, authz, hj, -⟩
    · exact exact
    · by_cases same : j = i
      · subst j
        exact absurd (hj ▸ trivial) hi
      · exact absurd (hj ▸ trivial) (alone j same)
  · obtain ⟨-, h⟩ := holding_update alone hj
    exact (Stage.holding.inj h).symm

/-- The thread reads what it is going to remove. -/
theorem tracked_condemn (hw : Tracked m w q) (alone : ∀ j, j ≠ i → ¬(q j).Critical)
    (hi : q i = idle) : Tracked m w (Function.update q i removing) := by
  have nobody : ∀ j authz, q j ≠ holding authz := by
    intro j authz hj
    by_cases same : j = i
    · subst j
      rw [hi] at hj
      cases hj
    · exact alone j same (hj ▸ trivial)
  refine ⟨.inl ?_, ?_, fun j authz hj => ?_⟩
  · exact hw.mirrored.resolve_right fun ⟨j, authz, hj, _⟩ => nobody j authz hj
  · rcases hw.accurate with holds | debt | ⟨j, hj⟩
    · exact .inl holds
    · exact .inr (.inl (debt_update (by simp [hi]) debt))
    · exact absurd hj (nobody j _)
  · cases (holding_update alone hj).2

/-- The thread deletes what it has read. -/
theorem tracked_remove (hw : Tracked m w q) (single : Single q) (hi : q i = removing) :
    Tracked m (w.deleted m) (Function.update q i (holding none)) := by
  have gone : (w.deleted m).stored m = none := (stored_deleted ..).trans (if_pos rfl)
  have alone : ∀ j, j ≠ i → ¬(q j).Critical := fun j hj critical =>
    hj (single j i critical (hi ▸ trivial))
  refine ⟨.inl ?_, .inr (.inr ⟨i, ?_⟩), fun j authz hj => .inl ?_⟩
  · refine hw.mirrored.resolve_right fun ⟨j, authz, hj, _⟩ => ?_
    by_cases same : j = i
    · subst j
      rw [hi] at hj
      cases hj
    · exact alone j same (hj ▸ trivial)
  · rw [Function.update_self, gone]
  · obtain ⟨-, h⟩ := holding_update alone hj
    exact (Stage.holding.inj h).symm.trans gone.symm

/-- The thread programs what it has read. -/
theorem tracked_apply (hw : Tracked m w q) (single : Single q)
    {authz : Option RedisMacAuthorization} (hi : q i = holding authz) :
    Tracked m (handler (.fwAllowMac m (allowedOn authz) (bridgedTo authz)) w).2
      (Function.update q i idle) := by
  have alone : ∀ j, j ≠ i → ¬(q j).Critical := fun j hj critical =>
    hj (single j i critical (hi ▸ trivial))
  have programmed := device_fwAllowMac w.firewall m (allowedOn authz) (bridgedTo authz) m
  rw [if_pos rfl] at programmed
  have device : (handler (.fwAllowMac m (allowedOn authz) (bridgedTo authz)) w).2.firewall.device m
    = _ := programmed
  refine ⟨.inl ?_, ?_, fun j authz hj => ?_⟩
  · rw [device]
    rcases hw.mirrored with exact | ⟨j, authz', hj, contains, within⟩
    · exact exact.program _ _
    · obtain rfl := single j i (hj ▸ trivial) (hi ▸ trivial)
      rw [hi] at hj
      cases hj
      exact within.program contains
  · rw [device]
    rcases hw.held i authz hi with rfl | debt
    · exact .inl Device.holds_program
    · have debt : Debt m w (Function.update q i idle) := debt_update (by simp [hi]) debt
      exact .inr (.inl ⟨debt.subscribed, debt.message⟩)
  · cases (holding_update alone hj).2

/-- A step that leaves a debt, of a thread that holds nothing. -/
theorem tracked_debt (hw : Tracked m w q) {w' : World} (hi : ¬(q i).Critical)
    (device : w'.firewall.device m = w.firewall.device m)
    (debt : Debt m w' (Function.update q i q')) : Tracked m w' (Function.update q i q') := by
  have free : ¬∃ authz, q i = holding authz := fun ⟨authz, h⟩ => hi (h ▸ trivial)
  refine ⟨?_, .inr (.inl debt), fun _ _ _ => .inr debt⟩
  rw [device]
  refine hw.mirrored.imp_right fun ⟨j, authz, hj, covered⟩ => ?_
  obtain ⟨j, hj⟩ : ∃ j, Function.update q i q' j = holding authz :=
    exists_update (P := (· = holding authz)) (fun h => free ⟨authz, h⟩) ⟨j, hj⟩
  exact ⟨j, authz, hj, covered⟩

/-- A step of a thread that holds nothing, which leaves the device alone and is not about a
debt. -/
theorem tracked_free (hw : Tracked m w q) {w' : World} (hi : ¬(q i).Critical)
    (hq : ¬q'.Critical) (device : w'.firewall.device m = w.firewall.device m)
    (stored : w'.stored m = w.stored m)
    (debt : Debt m w q → Debt m w' (Function.update q i q')) :
    Tracked m w' (Function.update q i q') := by
  have free : ∀ authz, q i ≠ holding authz := fun authz h => hi (h ▸ trivial)
  refine ⟨?_, ?_, fun j authz hj => ?_⟩
  · rw [device]
    refine hw.mirrored.imp_right fun ⟨j, authz, hj, covered⟩ => ?_
    obtain ⟨j, hj⟩ : ∃ j, Function.update q i q' j = holding authz :=
      exists_update (P := (· = holding authz)) (free authz) ⟨j, hj⟩
    exact ⟨j, authz, hj, covered⟩
  · rw [device, stored]
    exact hw.accurate.imp_right (Or.imp debt
      (exists_update (P := (· = holding (w.stored m))) (free _)))
  · rw [Function.update_apply] at hj
    split at hj
    · exact absurd (hj ▸ trivial) hq
    · rw [stored]
      exact (hw.held j authz hj).imp_right debt

/-- What is stored for `m` is changed only while the manager is subscribed, and then by a
thread that will publish it. -/
theorem tracked_step (hw : Tracked m w q) (single : Single q) {full : Bool} {o : Op}
    (alone : q'.Critical → ¬(q i).Critical → ∀ j, j ≠ i → ¬(q j).Critical)
    (unchanged : w.subscribed = false → ¬o.Changes m)
    (permitted : Handler.Permitted m full (q i) o (handler o w).1 q') :
    Tracked m (handler o w).2 (Function.update q i q') := by
  generalize hq : q i = qi at permitted alone
  generalize hr : (handler o w).1 = r at permitted
  have stays {s : Stage} (h : q i = s) : Function.update q i s = q := by
    rw [← h, Function.update_eq_self]
  have subscribed (h : o.Changes m) : w.subscribed = true := by
    by_contra unsubscribed
    exact unchanged (Bool.eq_false_of_not_eq_true unsubscribed) h
  cases permitted with
  | other _ h => exact (stays hq).symm ▸ tracked_spares hw h
  | owe _ h => exact (stays hq).symm ▸ tracked_spares hw h
  | tell authz message =>
    exact (stays hq).symm ▸ tracked_spares hw (o := .publish message) (spares_of_aside trivial)
  | receive =>
    refine tracked_free hw (by simp [hq, Critical]) id rfl rfl fun debt => ?_
    exact ⟨debt.subscribed, .inr ⟨i, .inr (Function.update_self ..)⟩⟩
  | read =>
    subst hr
    exact tracked_read hw (alone trivial id) (by simp [hq, Critical])
  | answer =>
    subst hr
    exact tracked_read hw (alone trivial id) (by simp [hq, Critical])
  | condemn => exact tracked_condemn hw (alone trivial id) hq
  | remove => exact tracked_remove hw single hq
  | apply authz => exact tracked_apply hw single hq
  | delete =>
    refine tracked_debt hw (by simp [hq, Critical]) rfl ⟨subscribed (.inl rfl), .inr ⟨i, .inl ?_⟩⟩
    exact Function.update_self ..
  | save authz _ _ key start =>
    refine tracked_debt hw ?_ rfl ⟨subscribed (.inr ⟨authz, key, rfl⟩), .inr ⟨i, .inl ?_⟩⟩
    · rw [hq]
      rcases start with rfl | rfl <;> exact id
    · exact Function.update_self ..
  | change =>
    refine tracked_free hw (by simp [hq, Critical]) id rfl rfl fun debt => ?_
    refine ⟨debt.subscribed, .inl ?_⟩
    show m ∈ if w.subscribed then w.changes ++ [m] else w.changes
    rw [if_pos debt.subscribed]
    exact List.mem_append_right _ (List.mem_singleton_self m)

theorem single_step (single : Single q)
    (alone : q'.Critical → ¬(q i).Critical → ∀ j, j ≠ i → ¬(q j).Critical) :
    Single (Function.update q i q') := by
  have others (h : q'.Critical) : ∀ j, j ≠ i → ¬(q j).Critical := by
    by_cases before : (q i).Critical
    · exact fun j hj critical => hj (single j i critical before)
    · exact alone h before
  intro j k hj hk
  rw [Function.update_apply] at hj hk
  by_cases hji : j = i <;> by_cases hki : k = i
  · exact hji.trans hki.symm
  · rw [if_pos hji] at hj
    rw [if_neg hki] at hk
    exact absurd hk (others hj k hki)
  · rw [if_neg hji] at hj
    rw [if_pos hki] at hk
    exact absurd hj (others hk j hji)
  · rw [if_neg hji] at hj
    rw [if_neg hki] at hk
    exact single j k hj hk

omit [DecidableEq ι] in
/-- With nothing left to deliver and no thread at work, nothing is missing. -/
theorem programmed_of_tracked (hw : Tracked m w q) (isIdle : ∀ i, q i = idle)
    (delivered : w.changes = []) : w.Programmed m := by
  have settled : ¬Debt m w q := by
    rintro ⟨-, pending | ⟨i, h⟩⟩
    · rw [delivered] at pending
      cases pending
    · rw [isIdle i] at h
      rcases h with h | h <;> cases h
  have nobody : ∀ i authz, q i ≠ holding authz := fun i authz h => by
    rw [isIdle i] at h
    cases h
  exact ⟨hw.mirrored.resolve_right fun ⟨i, authz, h, _⟩ => nobody i authz h,
    hw.accurate.resolve_right fun h => h.elim settled fun ⟨i, h⟩ => nobody i _ h⟩

end Track

/-! ## Every interleaving -/

/-- The operation programs the firewall of `mac`. -/
def Op.Applies (mac : String) (o : Op) : Prop :=
  ∃ allowOn bridgeTo, o = .fwAllowMac mac allowOn bridgeTo

/-- The thread has read what is stored for `mac`, and is going to program the firewall of
`mac` from it. -/
def Applying {α : Type} (mac : String) (p : Prog agent α) : Prop :=
  p.Owes (Op.Applies mac) (Op.Reads mac)

/-- A thread that reads what it is going to program for a device does so while no other one
is between such a reading and its programming for that device. -/
def Exclusive {α ι : Type} (c : Config agent World α ι) (i : ι) : Prop :=
  ∀ mac next, c.threads i = .op (.hget mac) next →
    Applying mac (next (c.state.sessions.lookup mac)) →
      ∀ j, j ≠ i → ¬Applying mac (c.threads j)

/-- A critical stage is left by programming the firewall only. -/
theorem critical_leaves {m : String} {full : Bool} {q q' : Stage} {o : Op} {r : o.Reply}
    (critical : q.Critical) (permitted : Handler.Permitted m full q o r q') :
    o.Applies m ∨ ¬o.Reads m ∧ q'.Critical := by
  cases permitted with
  | remove => exact .inr ⟨nofun, trivial⟩
  | tell => exact .inr ⟨nofun, trivial⟩
  | apply => exact .inl ⟨_, _, rfl⟩
  | save _ _ _ _ start => rcases start with rfl | rfl <;> cases critical
  | _ => cases critical

theorem applying_of_critical {α : Type} {m : String} {full : Bool} {p : Prog agent (Except Error α)}
    {q : Stage} (hp : p.Conforms (Handler.Permitted m full) q (Outcome (fun _ s => s = idle)
      (· = idle))) (critical : q.Critical) : Applying m p := by
  refine Prog.Conforms.owes (A := Handler.Permitted m full) (R := Stage.Critical) ?_
    (fun _ _ _ _ => critical_leaves) hp critical
  rintro (_ | _) q critical rfl <;> exact critical

theorem alone_of_exclusive {α ι : Type} {m : String} {full : Bool} {w : World}
    {t : ι → Prog agent α} {q : ι → Stage} {i : ι} {o : Op} {next : o.Reply → Prog agent α}
    {q' : Stage} (exclusive : Exclusive ⟨w, t⟩ i) (hi : t i = .op o next)
    (permitted : Handler.Permitted m full (q i) o (handler o w).1 q')
    (now : q'.Critical → Applying m (next (handler o w).1))
    (others : ∀ j, (q j).Critical → Applying m (t j)) :
    q'.Critical → ¬(q i).Critical → ∀ j, j ≠ i → ¬(q j).Critical := by
  intro critical before j hj held
  have reads : o = .hget m := by
    generalize (handler o w).1 = r at permitted
    generalize q i = qi at permitted before
    cases permitted with
    | read => rfl
    | answer => rfl
    | condemn => rfl
    | remove => exact absurd trivial before
    | tell => exact absurd trivial before
    | _ => cases critical
  subst reads
  exact exclusive m next hi (now critical) j hj (others j held)

theorem subscribed_step {m : String} {full : Bool} {w : World} {q q' : Stage} {o : Op}
    (permitted : Handler.Permitted m full q o (handler o w).1 q') :
    (handler o w).2.subscribed = w.subscribed := by
  generalize (handler o w).1 = r at permitted
  cases permitted with
  | other _ h => exact h.subscribed w
  | owe _ h => exact h.subscribed w
  | _ => rfl

/-- From a state in which the firewall is what is stored: if no thread reads what it is
going to program for a device while another one is between such a reading and its
programming for the device, the firewall is what is stored whenever all messages are
delivered and all threads are done. -/
theorem programmed_when_delivered {ι : Type} [DecidableEq ι] {w : World}
    (subscribed : w.subscribed = true) (programmed : ∀ mac, w.Programmed mac) (tasks : ι → Task)
    (running : ∀ i, (tasks i).Running) {d : Config agent World (Except Error Unit) ι}
    (run : Run handler Exclusive ⟨w, fun i => (tasks i).deliver.run⟩ d) (done : d.Done)
    (delivered : d.state.changes = []) (mac : String) :
    d.state.firewall.allowedVlans mac = allowedOn (d.state.stored mac) ∧
      d.state.firewall.bridgedVlans mac = bridgedTo (d.state.stored mac) ∧
      ∀ vlan, ((mac, vlan) ∈ d.state.firewall.macOnVlan ↔ vlan ∈ allowedOn (d.state.stored mac)) ∧
        ((mac, vlan) ∈ d.state.firewall.macToVlan ↔ vlan ∈ bridgedTo (d.state.stored mac)) := by
  obtain ⟨q, ⟨-, -, hd⟩, conform⟩ := run.monitored
    (A := fun _ => Handler.Permitted mac true) (q := fun _ => idle)
    (Q := fun c q => c.state.subscribed = true ∧ Single q ∧ Tracked mac c.state q)
    (fun s t q i o next q' hs conform exclusive hi permitted rest => by
      obtain ⟨subscribed, single, tracked⟩ := hs
      have alone := alone_of_exclusive exclusive hi permitted (applying_of_critical rest)
        fun j => applying_of_critical (conform j)
      refine ⟨?_, single_step single alone, tracked_step tracked single alone ?_ permitted⟩
      · exact (subscribed_step permitted).trans subscribed
      · exact fun unsubscribed => absurd (subscribed.symm.trans unsubscribed) (by decide))
    ⟨subscribed, nofun, ⟨.inl (programmed mac).1, .inl (programmed mac).2, nofun⟩⟩
    (fun i => conforms_deliver (running i))
  have isIdle (i : ι) : q i = idle := by
    obtain ⟨_ | _, h⟩ := done.conforms conform i <;> exact h
  have programmed := programmed_of_tracked hd isIdle delivered
  exact ⟨programmed.2.1, programmed.2.2, programmed.mem_iff⟩

/-- A check that opens a VLAN for a device, and the handler of its message. -/
def checkAndHandle : Config agent World (Except Error Unit) (Fin 2) :=
  ⟨World.empty fun _ => some (.granted (onVlan "eth1.10")),
    fun i => (if i = 0 then Task.checkAuthz 0 "00:00:00:00:00:01" none overridden else
      Task.handleAuthzChanged 0 "00:00:00:00:00:01").deliver.run⟩

/-- The handler starts while the check has still to announce the authorization. -/
theorem programmed_when_delivered_check :
    let w := (checkAndHandle.follow handler [0, 0, 0, 0, 0, 0, 0, 0, 1, 1, 0, 1, 1, 1, 1]).state
    let mac := "00:00:00:00:00:01"
    w.firewall.allowedVlans mac = allowedOn (w.stored mac) ∧
      w.firewall.bridgedVlans mac = bridgedTo (w.stored mac) ∧
      ∀ vlan, ((mac, vlan) ∈ w.firewall.macOnVlan ↔ vlan ∈ allowedOn (w.stored mac)) ∧
        ((mac, vlan) ∈ w.firewall.macToVlan ↔ vlan ∈ bridgedTo (w.stored mac)) := by
  have other : ∀ i j : Fin 2, j ≠ i → j = 1 - i := by decide
  refine programmed_when_delivered rfl (programmed_empty _) (fun i => if i = 0 then
    .checkAuthz 0 "00:00:00:00:00:01" none overridden else
    .handleAuthzChanged 0 "00:00:00:00:00:01") (fun i => ?_) (Config.follow_run ?_)
    (Config.done_iff.mpr (by decide)) (by decide) _
  · split <;> trivial
  · refine ⟨nofun, nofun, nofun, nofun, ?_, nofun, nofun, nofun, nofun, ?_, nofun, nofun, nofun,
      nofun, nofun, trivial⟩
    · rintro mac next h - j hj
      cases h
      rw [other _ _ hj]
      -- the handler has still to read
      rintro (⟨_, _, h⟩ | h)
      · cases h
      · rcases (h ()).2 with ⟨_, _, h⟩ | h
        · cases h
        · exact (h none).1 rfl
    · rintro mac next - - j hj
      rw [other _ _ hj]
      rintro (⟨_, _, h⟩ | h)
      · cases h
      · exact (h ()).2

/-- Two checks that open one VLAN and then another for a device, and the handlers of their
messages. -/
def twoChanges : Config agent World (Except Error Unit) (Fin 4) :=
  ⟨World.empty fun n => some (.granted (onVlan (if n = 0 then "eth1.10" else "eth1.20"))),
    fun i => (if i.val % 2 = 0 then Task.checkAuthz 0 "00:00:00:00:00:01" none overridden else
      Task.handleAuthzChanged 0 "00:00:00:00:00:01").deliver.run⟩

/-- The handler of the first message reads before the second check, and programs the
firewall after the handler of the second message. -/
theorem overlapping_handlers_stale : ∃ d : Config agent World (Except Error Unit) (Fin 4),
    Run handler (fun _ _ => True) twoChanges d ∧ d.Done ∧ d.state.changes = [] ∧
    d.state.firewall.allowedVlans "00:00:00:00:00:01" ≠
      allowedOn (d.state.stored "00:00:00:00:00:01") := by
  refine ⟨twoChanges.follow handler ([0, 0, 0, 0, 0, 0, 0, 0, 0] ++ [1, 1] ++
    [2, 2, 2, 2, 2, 2, 2, 2, 2, 2, 2] ++ [3, 3, 3, 3, 3, 3] ++ [1, 1, 1, 1]),
    Config.follow_run (Config.guarded_true _ _), Config.done_iff.mpr (by decide), by decide,
    by decide⟩

end ElanAgent.Nac
