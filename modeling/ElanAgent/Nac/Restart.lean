import ElanAgent.Nac.Delivery

/-!
# Stopping and restarting the manager

The manager's dictionaries are lost when it stops, the nft sets are not. A manager that
starts checks what has expired, reads every stored authorization, opens what it asks for
and then subscribes to the messages on changes. What the nft sets hold beyond that stays,
since only what the dictionaries know is ever closed, and what changes before the
subscription goes unnoticed.
-/

namespace ElanAgent.Nac

open Atomic Redis Session RedisMacAuthorization MacAuthorizationManager Handler Handler.Stage

/-- A thread of another process, the main thread of the manager, a timer, or a handler. -/
inductive Role where
  | process
  | boot
  | timer
  | handler
  deriving DecidableEq

/-- What a thread of each role runs. -/
inductive Role.Runs : Role → Call Unit → Prop
  | checkAuthz (now : ℚ) (mac : String) (source : Option String) (endReason : String) :
      Runs .process (Task.checkAuthz now mac source endReason).call
  | newAuthz (now : ℚ) (mac : String) (noDuplicateSource : Bool) (session : AuthSession) :
      Runs .process (Task.newAuthz now mac noDuplicateSource session).call
  | boot (now : ℚ) : Runs .boot (MacAuthorizationManager.init now >>= fun _ => subscribe)
  | timer (now : ℚ) : Runs .timer (checkExpiredAuthz now)
  | authzChanged (now : ℚ) (mac : String) :
      Runs .handler (Task.handleAuthzChanged now mac).deliver
  | disconnection (now : ℚ) (mac : String) :
      Runs .handler (MacAuthorizationManager.handleDisconnection now mac)
  | checkMacs (now : ℚ) (macs : List String) :
      Runs .handler (MacAuthorizationManager.checkMacs now macs)

/-- The dictionaries of a process that starts are empty. -/
def Firewall.forget (fw : Firewall) : Firewall :=
  { fw with allowedVlans := fun _ => ∅, bridgedVlans := fun _ => ∅ }

theorem contains_forget (fw : Firewall) (mac : String) : (fw.forget.device mac).Contains :=
  ⟨Mirror.contains_forget (m := (fw.device mac).allowed),
    Mirror.contains_forget (m := (fw.device mac).bridged)⟩

namespace Life

variable {ι : Type} (role : ι → Role)

/-- The threads of all processes. -/
abbrev Pool (ι : Type) := Config agent World (Except Error Unit) ι

/-- A manager thread is programming the firewall of `mac`. -/
def Programming (c : Pool ι) (mac : String) : Prop :=
  ∃ i allowOn bridgeTo next, role i ≠ .process ∧
    c.threads i = .op (.fwAllowMac mac allowOn bridgeTo) next

/-- What a manager that is killed may leave in the nft sets: those of a device that it was
programming can be in any state. -/
structure Leaves (c : Pool ι) (fw : Firewall) : Prop where
  onVlan : ∀ mac vlan, ¬Programming role c mac →
    ((mac, vlan) ∈ fw.macOnVlan ↔ (mac, vlan) ∈ c.state.firewall.macOnVlan)
  toVlan : ∀ mac vlan, ¬Programming role c mac →
    ((mac, vlan) ∈ fw.macToVlan ↔ (mac, vlan) ∈ c.state.firewall.macToVlan)

/-- The manager is killed: its threads are gone, and the messages to it are lost. -/
def killed (c : Pool ι) (fw : Firewall) : Pool ι where
  state := { c.state with firewall := fw, subscribed := false, changes := [], nextCheck := none }
  threads i := if role i = .process then c.threads i else .done (.ok ())

/-- The manager is started, with new threads. -/
def launched (c : Pool ι) (programs : ι → Call Unit) : Pool ι where
  state := { c.state with firewall := c.state.firewall.forget }
  threads i := if role i = .process then c.threads i else (programs i).run

/-- No manager is running. -/
structure Down (c : Pool ι) : Prop where
  unsubscribed : c.state.subscribed = false
  stopped : ∀ i, role i ≠ .process → ∃ a, c.threads i = .done a

end Life

/-- What happens while the manager is stopped and started again. -/
inductive Life {ι : Type} [DecidableEq ι] (role : ι → Role) (G : Life.Pool ι → ι → Prop) :
    Life.Pool ι → Life.Pool ι → Prop
  | refl (c : Life.Pool ι) : Life role G c c
  | run {c d e : Life.Pool ι} (life : Life role G c d) (run : Run handler G d e) : Life role G c e
  | stop {c d : Life.Pool ι} (life : Life role G c d) (fw : Firewall)
      (leaves : Life.Leaves role d fw) : Life role G c (Life.killed role d fw)
  | start {c d : Life.Pool ι} (life : Life role G c d) (down : Life.Down role d)
      (programs : ι → Call Unit) (runs : ∀ i, role i ≠ .process → (role i).Runs (programs i)) :
      Life role G c (Life.launched role d programs)

namespace Life

variable {ι : Type}

/-- A message is delivered to a manager that has subscribed. -/
def Awake (role : ι → Role) (c : Pool ι) (i : ι) : Prop :=
  role i = .handler → c.state.subscribed = true

/-- The main thread has listed the stored authorizations, and has still to subscribe. -/
def Listed {α : Type} (p : Prog agent α) : Prop := p.Owes (· = Op.subscribe) (· = Op.zmembers)

/-- The main thread will subscribe, and will not read the authorization of `mac` before. -/
def Passed {α : Type} (mac : String) (p : Prog agent α) : Prop :=
  p.Owes (· = Op.subscribe) (Op.Reads mac)

/-- What the manager relies on. When it lists the authorizations, the nft sets hold nothing
of a device that is not listed; when it then reads one, they hold nothing of the device that
it does not ask for; and it does not change between the reading, or the listing without it,
and the subscription. -/
structure Orderly (boot : ι) (c : Pool ι) (i : ι) : Prop where
  exclusive : Exclusive c i
  listing : ∀ next, c.threads i = .op .zmembers next →
    ∀ mac, mac ∉ c.state.expiry → (c.state.firewall.device mac).Within none
  reading : ∀ mac next, c.threads i = .op (.hget mac) next → i = boot → Listed (c.threads i) →
    (c.state.firewall.device mac).Within (c.state.stored mac)
  changing : ∀ mac o next, c.threads i = .op o next → o.Changes mac →
    ¬Passed mac (c.threads boot)

end Life

/-! ## The main thread -/

namespace Life

/-- The main thread before the listing; with device `m` to be read; past that reading. Any
other thread, and the main thread once it has subscribed, is outside. -/
inductive Phase where
  | outside
  | checking
  | listed
  | past

open Phase

/-- What a thread may issue, seen from device `m`. -/
inductive Permitted (m : String) (role : Role) : Monitor agent (Phase × Stage)
  | thread {q q' : Stage} {o : Op} {r : o.Reply} (other : role ≠ .boot)
      (h : Handler.Permitted m (decide (role = .handler)) q o r q') :
      Permitted m role (outside, q) o r (outside, q')
  | check {q q' : Stage} {o : Op} {r : o.Reply} (main : role = .boot)
      (h : Handler.Permitted m false q o r q') : Permitted m role (checking, q) o r (checking, q')
  | list (r : List String) (main : role = .boot) :
      Permitted m role (checking, idle) .zmembers r (if m ∈ r then listed else past, idle)
  | read (data : Serialized) (phase : Phase) (main : role = .boot)
      (next : phase = listed ∨ phase = past) :
      Permitted m role (listed, idle) (.hget m) (some data)
        (phase, holding (some (ofSerialized data)))
  | miss (phase : Phase) (main : role = .boot) (next : phase = listed ∨ phase = past) :
      Permitted m role (listed, idle) (.hget m) none (phase, idle)
  | apply (phase : Phase) (authz : Option RedisMacAuthorization) (main : role = .boot)
      (here : phase = listed ∨ phase = past) :
      Permitted m role (phase, holding authz)
        (.fwAllowMac m (allowedOn authz) (bridgedTo authz)) () (phase, idle)
  | other (phase : Phase) {o : Op} (r : o.Reply) (main : role = .boot)
      (here : phase = listed ∨ phase = past) (h : o.Spares m) (notRead : ¬o.Reads m)
      (notList : o ≠ .zmembers) : Permitted m role (phase, idle) o r (phase, idle)
  | subscribe (main : role = .boot) : Permitted m role (past, idle) .subscribe () (outside, idle)

/-- The stages at which a call may raise. -/
def Raised (s : Phase × Stage) : Prop := s = (outside, idle) ∨ s = (checking, idle)

/-- The stages at which a thread is done. -/
abbrev Ended : Except Error Unit → Phase × Stage → Prop :=
  Outcome (fun _ s => s = (outside, idle)) Raised

section Conforms

variable {m : String} {role : Role}

theorem conforms_map {α S T : Type} {A : Monitor agent S} {B : Monitor agent T} {f : S → T} {q : S}
    {post : α → S → Prop} {post' : α → T → Prop} {raised : S → Prop} {raised' : T → Prop}
    {p : Call α} (imp : ∀ q o r q', A q o r q' → B (f q) o r (f q'))
    (ends : ∀ a q, post a q → post' a (f q)) (aborts : ∀ q, raised q → raised' (f q))
    (hp : p.Conforms A q post raised) : p.Conforms B (f q) post' raised' := by
  refine Prog.Conforms.map imp (fun result s h => ?_) hp
  cases result with
  | ok a => exact ends a s h
  | error e => exact aborts s h

theorem conforms_thread {p : Call Unit} (other : role ≠ .boot)
    (hp : p.Conforms (Handler.Permitted m (decide (role = .handler))) idle (fun _ s => s = idle)
      (· = idle)) :
    p.Conforms (Permitted m role) (outside, idle) (fun _ s => s = (outside, idle)) Raised :=
  conforms_map (f := fun q => (outside, q)) (fun _ _ _ _ h => .thread other h)
    (fun _ _ h => congrArg _ h) (fun _ h => .inl (congrArg _ h)) hp

/-- The turns of `init_macs` that are still to be made. -/
theorem conforms_initMacs_each (l : List String) :
    (each (fun (mac : String) => do
      let authz ← getByMac mac
      match authz with
      | some authz => fwAllowMac mac authz.allowOn authz.bridgeTo
      | none => pure ()) l).Conforms (Permitted m .boot) (if m ∈ l then listed else past, idle)
      (fun _ s => s = (past, idle)) Raised := by
  induction l with
  | nil => exact rfl
  | cons mac l ih =>
    refine Call.Conforms.bind (M := fun _ s => s = (if m ∈ l then listed else past, idle)) ?_
      fun _ s h => ?_
    · have next : (if m ∈ l then listed else past) = listed ∨
          (if m ∈ l then listed else past) = past := by split <;> simp
      by_cases same : mac = m
      · subst mac
        rw [if_pos List.mem_cons_self]
        intro r
        cases r with
        | none => exact ⟨_, .miss _ rfl next, rfl⟩
        | some data =>
          exact ⟨_, .read data _ rfl next, fun _ => ⟨_, .apply _ _ rfl next, rfl⟩⟩
      · have unlisted : m ∈ mac :: l ↔ m ∈ l := by simp [Ne.symm same]
        simp only [unlisted]
        intro r
        have notRead : ¬Op.Reads m (.hget mac) := fun h => same (Op.hget.inj h)
        refine ⟨_, .other (o := .hget mac) _ r rfl next (spares_of_aside trivial) notRead nofun, ?_⟩
        cases r with
        | none => exact rfl
        | some data =>
          exact fun _ => ⟨_, .other _ _ rfl next (spares_fwAllowMac same _ _) nofun nofun, rfl⟩
    · subst h
      exact ih

theorem conforms_boot (now : ℚ) :
    (MacAuthorizationManager.init now >>= fun _ => Nac.subscribe).Conforms (Permitted m .boot)
      (checking, idle) (fun _ s => s = (outside, idle)) Raised := by
  refine Call.Conforms.bind (M := fun _ s => s = (past, idle)) ?_ fun _ _ h => ?_
  · refine Call.Conforms.bind (M := fun _ s => s = (checking, idle)) ?_ fun _ _ h => ?_
    · exact conforms_map (f := fun q => (checking, q)) (fun _ _ _ _ h => .check rfl h)
        (fun _ _ h => congrArg _ h) (fun _ h => .inr (congrArg _ h))
        (Handler.conforms_checkExpiredAuthz now)
    · subst h
      exact fun r => ⟨_, .list r rfl, conforms_initMacs_each r⟩
  · subst h
    exact fun _ => ⟨_, .subscribe rfl, rfl⟩

/-- The stage at which a thread of the role starts. -/
def first : Role → Phase × Stage
  | .boot => (checking, idle)
  | _ => (outside, idle)

theorem conforms_runs {p : Call Unit} (runs : role.Runs p) :
    p.Conforms (Permitted m role) (first role) (fun _ s => s = (outside, idle)) Raised := by
  cases runs with
  | checkAuthz now mac source endReason =>
    exact conforms_thread nofun ((Handler.conforms_checkAuthz now mac endReason source).bind
      fun _ _ h => conforms_pure h)
  | newAuthz now mac noDuplicateSource session =>
    exact conforms_thread nofun ((Handler.conforms_newAuthz now mac noDuplicateSource session).bind
      fun _ _ h => conforms_pure h)
  | boot now => exact conforms_boot now
  | timer now => exact conforms_thread nofun (Handler.conforms_checkExpiredAuthz now)
  | authzChanged now mac =>
    exact conforms_thread nofun (Handler.conforms_handleAuthzChanged now mac)
  | disconnection now mac =>
    exact conforms_thread nofun (Handler.conforms_handleDisconnection now mac)
  | checkMacs now macs => exact conforms_thread nofun (Handler.conforms_checkMacs now macs)

theorem only_runs {p : Call Unit} (runs : role.Runs p) : p.Only Op.Paired := by
  have sessions : ∀ o, Direct o → Op.Paired (.session o) := fun _ _ => .other nofun
  cases runs with
  | checkAuthz now mac source endReason =>
    exact only_call permits_paired sessions (.checkAuthz now mac source endReason)
  | newAuthz now mac noDuplicateSource session =>
    exact only_call permits_paired sessions (.newAuthz now mac noDuplicateSource session)
  | boot now =>
    exact (only_call permits_paired sessions (.init now)).bind fun _ => only_perform (.other nofun)
  | timer now => exact only_checkExpiredAuthz permits_paired sessions now
  | authzChanged now mac =>
    exact (only_perform (.other nofun)).bind fun _ =>
      only_call permits_paired sessions (.handleAuthzChanged now mac)
  | disconnection now mac =>
    exact only_call permits_paired sessions (.handleDisconnection now mac)
  | checkMacs now macs => exact only_checkMacs permits_paired sessions now macs

/-- The main thread has listed the authorizations. -/
theorem listed_of_conforms {p : Prog agent (Except Error Unit)} {phase : Phase} {q : Stage}
    (hp : p.Conforms (Permitted m .boot) (phase, q) Ended)
    (here : phase = listed ∨ phase = past) : Listed p := by
  refine hp.owes (R := fun s => s.1 = listed ∨ s.1 = past) ?_ ?_ here
  · rintro (_ | _) s here ends
    · rcases ends with rfl | rfl <;> simp at here
    · cases (ends : s = (outside, idle))
      simp at here
  · intro s o r s' here permitted
    cases permitted with
    | thread other => exact absurd rfl other
    | check => simp at here
    | list => simp at here
    | read _ _ _ next => exact .inr ⟨nofun, next⟩
    | miss _ _ next => exact .inr ⟨nofun, next⟩
    | apply => exact .inr ⟨nofun, here⟩
    | other _ _ _ _ _ _ notList => exact .inr ⟨notList, here⟩
    | subscribe => exact .inl rfl

/-- The main thread is past the reading of `m`. -/
theorem passed_of_conforms {p : Prog agent (Except Error Unit)} {q : Stage}
    (hp : p.Conforms (Permitted m .boot) (past, q) Ended) :
    Passed m p := by
  refine hp.owes (R := fun s => s.1 = past) ?_ ?_ rfl
  · rintro (_ | _) s here ends
    · rcases ends with rfl | rfl <;> cases here
    · cases (ends : s = (outside, idle))
      cases here
  · intro s o r s' here permitted
    cases permitted with
    | thread other => exact absurd rfl other
    | apply => exact .inr ⟨nofun, here⟩
    | other _ _ _ _ _ notRead _ => exact .inr ⟨notRead, here⟩
    | subscribe => exact .inl rfl
    | _ => cases here

/-- A thread at a critical stage is going to program the firewall of `m`. -/
theorem applying_of_critical {p : Prog agent (Except Error Unit)} {s : Phase × Stage}
    (hp : p.Conforms (Permitted m role) s Ended)
    (critical : s.2.Critical) : Applying m p := by
  refine hp.owes (R := fun s => s.2.Critical) ?_ ?_ critical
  · rintro (_ | _) s critical ends
    · rcases ends with rfl | rfl <;> exact critical
    · cases (ends : s = (outside, idle))
      exact critical
  · intro s o r s' critical permitted
    cases permitted with
    | thread _ h => exact critical_leaves critical h
    | check _ h => exact critical_leaves critical h
    | apply => exact .inl ⟨_, _, rfl⟩
    | _ => cases critical

end Conforms

/-! ## The invariant -/

section Kept

variable {ι : Type} [DecidableEq ι] {role : ι → Role} {boot : ι} {m : String} {w : World}
variable {q : ι → Phase × Stage} {i : ι} {s : Phase × Stage}

theorem execute_firewall (pipe : List Cmd) (w : World) :
    (execute pipe w).2.firewall = w.firewall := by
  induction pipe generalizing w with
  | nil => rfl
  | cons c pipe ih => exact (ih _).trans (by cases c <;> rfl)

theorem contains_handler (h : (w.firewall.device m).Contains) (o : Op) :
    ((handler o w).2.firewall.device m).Contains := by
  cases o with
  | fwAllowMac mac allowOn bridgeTo =>
    have programmed := device_fwAllowMac w.firewall mac allowOn bridgeTo m
    have device : (handler (.fwAllowMac mac allowOn bridgeTo) w).2.firewall.device m = _ :=
      programmed
    rw [device]
    split
    · exact ‹m = mac› ▸ h.program _ _
    · exact h
  | execute pipe => exact (execute_firewall pipe w).symm ▸ h
  | _ => exact h

omit [DecidableEq ι] in
/-- Nothing is stored for `m`, and the nft sets hold nothing of it. -/
theorem tracked_absent {q : ι → Stage} (absent : w.stored m = none)
    (contains : (w.firewall.device m).Contains) (within : (w.firewall.device m).Within none)
    (held : ∀ i authz, q i = holding authz → authz = none) : Tracked m w q := by
  have empty {μ : Mirror String} (contains : μ.Contains)
      (within : μ.actual ⊆ ↑(∅ : Finset String)) : μ.Exact ∧ μ.copy = ∅ := by
    have copy : μ.copy = ∅ := Finset.coe_subset.mp (contains.trans within) |> Finset.subset_empty.mp
    refine ⟨?_, copy⟩
    rw [Mirror.Exact, copy]
    exact Set.Subset.antisymm within (by simp)
  obtain ⟨exactOn, copyOn⟩ := empty contains.1 within.1
  obtain ⟨exactTo, copyTo⟩ := empty contains.2 within.2
  refine ⟨.inl ⟨exactOn, exactTo⟩, .inl ?_, fun i authz h => .inl ?_⟩
  · rw [absent]
    exact ⟨copyOn, copyTo⟩
  · rw [absent]
    exact held i authz h

/-- The main thread has read what is stored for `m`. -/
theorem tracked_first {q : ι → Stage} (contains : (w.firewall.device m).Contains)
    (within : (w.firewall.device m).Within (w.stored m))
    (alone : ∀ j, j ≠ i → ¬(q j).Critical) :
    Tracked m w (Function.update q i (holding (w.stored m))) := by
  refine ⟨.inr ⟨i, _, Function.update_self .., contains, within⟩,
    .inr (.inr ⟨i, Function.update_self ..⟩), fun j authz hj => .inl ?_⟩
  exact (Stage.holding.inj (holding_update alone hj).2).symm

theorem low_step {q q' : Stage} {o : Op} {r : o.Reply}
    (permitted : Handler.Permitted m false q o r q')
    (low : ∀ authz, q = holding authz → authz = none) :
    ∀ authz, q' = holding authz → authz = none := by
  cases permitted with
  | read r h =>
    obtain rfl := h.resolve_left nofun
    exact fun _ held => (Stage.holding.inj held).symm
  | answer r h =>
    obtain rfl := h.resolve_left nofun
    exact fun _ held => (Stage.holding.inj held).symm
  | remove => exact fun _ held => (Stage.holding.inj held).symm
  | tell => exact low
  | _ =>
    intro authz held
    cases held

/-- While the manager starts, the dictionaries hold no more than the nft sets, and nobody
holds an authorization for `m` but the main thread. Once it is past the reading of `m`, the
device is tracked. -/
structure Kept (role : ι → Role) (boot : ι) (m : String) (w : World) (q : ι → Phase × Stage) :
    Prop where
  single : Single (Prod.snd ∘ q)
  others : ∀ i, i ≠ boot → (q i).1 = outside
  silent : (q boot).1 ≠ outside → w.subscribed = false
  asleep : w.subscribed = false → ∀ i, role i = .handler → (q i).2 = idle
  low : ∀ i, role i ≠ .handler → (q i).1 = outside ∨ (q i).1 = checking →
    ∀ authz, (q i).2 = holding authz → authz = none
  contains : (q boot).1 = checking ∨ (q boot).1 = listed → (w.firewall.device m).Contains
  tracked : (q boot).1 = past ∨ w.subscribed = true → Tracked m w (Prod.snd ∘ q)

/-- The stage of one thread and the world change; the subscription does not. -/
theorem kept_update (hw : Kept role boot m w q) {w' : World}
    (subscribed : w'.subscribed = w.subscribed)
    (alone : s.2.Critical → ¬(q i).2.Critical → ∀ j, j ≠ i → ¬(q j).2.Critical)
    (phase : i ≠ boot → s.1 = outside)
    (silent : i = boot → s.1 ≠ outside → w.subscribed = false)
    (asleep : w.subscribed = false → role i = .handler → s.2 = idle)
    (low : role i ≠ .handler → s.1 = outside ∨ s.1 = checking → ∀ authz, s.2 = holding authz →
      authz = none)
    (contains : (Function.update q i s boot).1 = checking ∨
      (Function.update q i s boot).1 = listed → (w'.firewall.device m).Contains)
    (tracked : (Function.update q i s boot).1 = past ∨ w.subscribed = true →
      Tracked m w' (Function.update (Prod.snd ∘ q) i s.2)) :
    Kept role boot m w' (Function.update q i s) := by
  have stages : Prod.snd ∘ Function.update q i s = Function.update (Prod.snd ∘ q) i s.2 :=
    Function.comp_update ..
  constructor
  case single => exact stages ▸ single_step hw.single alone
  case others =>
    intro j hj
    rw [Function.update_apply]
    split
    · exact phase (‹j = i› ▸ hj)
    · exact hw.others j hj
  case silent =>
    rw [subscribed, Function.update_apply]
    split
    · exact silent (‹boot = i›).symm
    · exact hw.silent
  case asleep =>
    intro unsubscribed j hj
    rw [subscribed] at unsubscribed
    rw [Function.update_apply]
    split
    · exact asleep unsubscribed (‹j = i› ▸ hj)
    · exact hw.asleep unsubscribed j hj
  case low =>
    intro j hj
    rw [Function.update_apply]
    split
    · exact low (‹j = i› ▸ hj)
    · exact hw.low j hj
  case contains => exact contains
  case tracked => exact subscribed ▸ stages ▸ tracked

/-- Nobody holds an authorization for `m` as long as the main thread does not. -/
theorem Kept.nobody (hw : Kept role boot m w q) (unsubscribed : w.subscribed = false)
    (hb : (q boot).2 = idle) : ∀ i authz, (Prod.snd ∘ q) i = holding authz → authz = none := by
  intro i authz held
  have held : (q i).2 = holding authz := held
  by_cases same : i = boot
  · subst i
    rw [hb] at held
    cases held
  · by_cases asleep : role i = .handler
    · rw [hw.asleep unsubscribed i asleep] at held
      cases held
    · exact hw.low i asleep (.inl (hw.others i same)) authz held

/-- A step that only the firewall or the store of `m` can show, of a thread other than the
main one. -/
theorem kept_thread (hw : Kept role boot m w q) (other : i ≠ boot) {full : Bool}
    (timer : role i ≠ .handler → full = false) {o : Op} {q' : Stage}
    (awake : role i = .handler → w.subscribed = true)
    (alone : q'.Critical → ¬(q i).2.Critical → ∀ j, j ≠ i → ¬(q j).2.Critical)
    (unchanged : (q boot).1 = past → ¬o.Changes m)
    (h : Handler.Permitted m full (q i).2 o (handler o w).1 q') :
    Kept role boot m (handler o w).2 (Function.update q i (outside, q')) := by
  have phase : (Function.update q i (outside, q') boot).1 = (q boot).1 := by
    rw [Function.update_of_ne other.symm]
  refine kept_update hw (subscribed_step h) alone (fun _ => rfl) (fun same => absurd same other)
    (fun unsubscribed isHandler => ?_) (fun isTimer _ => ?_) (fun here => ?_) fun here => ?_
  · exact absurd ((awake isHandler).symm.trans unsubscribed) nofun
  · obtain rfl := timer isTimer
    exact low_step h fun authz held => hw.low i isTimer (.inl (hw.others i other)) authz held
  · exact contains_handler (hw.contains (phase ▸ here)) o
  · refine tracked_step (hw.tracked (phase ▸ here)) hw.single alone (fun unsubscribed => ?_) h
    refine unchanged ((phase ▸ here).resolve_right fun subscribed => ?_)
    exact absurd (subscribed.symm.trans unsubscribed) nofun

/-- The main thread checks what has expired. -/
theorem kept_check (hw : Kept role boot m w q) (main : role boot = .boot)
    (here : (q boot).1 = checking) {o : Op} {q' : Stage}
    (alone : q'.Critical → ¬(q boot).2.Critical → ∀ j, j ≠ boot → ¬(q j).2.Critical)
    (h : Handler.Permitted m false (q boot).2 o (handler o w).1 q') :
    Kept role boot m (handler o w).2 (Function.update q boot (checking, q')) := by
  have silent := hw.silent (here ▸ nofun)
  refine kept_update hw (subscribed_step h) alone (fun other => absurd rfl other)
    (fun _ _ => silent) (fun _ isHandler => ?_) (fun isTimer _ => ?_) (fun _ => ?_) fun past => ?_
  · exact absurd (main.symm.trans isHandler) nofun
  · exact low_step h fun authz held => hw.low boot isTimer (.inr here) authz held
  · exact contains_handler (hw.contains (.inl here)) o
  · rw [Function.update_self, silent] at past
    rcases past with h | h <;> cases h

/-- The main thread moves on without holding anything for `m`, which is tracked once it is
past the reading. -/
theorem kept_idle (hw : Kept role boot m w q) {w' : World}
    (subscribed : w'.subscribed = w.subscribed) (silent : w.subscribed = false) {phase : Phase}
    (next : phase = listed ∨ phase = past)
    (contains : phase = listed → (w'.firewall.device m).Contains)
    (tracked : phase = past → Tracked m w' (Function.update (Prod.snd ∘ q) boot idle)) :
    Kept role boot m w' (Function.update q boot (phase, idle)) := by
  refine kept_update hw subscribed (fun critical => critical.elim) (fun other => absurd rfl other)
    (fun _ _ => silent) (fun _ _ => rfl) (fun _ _ _ held => nomatch held) (fun here => ?_)
    fun here => ?_
  · rw [Function.update_self] at here
    rcases next with rfl | rfl
    · exact contains rfl
    · rcases here with h | h <;> cases h
  · rw [Function.update_self, silent] at here
    exact tracked (here.resolve_right nofun)

omit [DecidableEq ι] in
theorem update_idle [DecidableEq ι] (h : (q i).2 = idle) :
    Function.update (Prod.snd ∘ q) i idle = Prod.snd ∘ q := by
  rw [← h]
  exact Function.update_eq_self i (Prod.snd ∘ q)

/-- The main thread lists the authorizations. If that of `m` is not among them, the nft sets
hold nothing of it. -/
theorem kept_list (hw : Kept role boot m w q) (agrees : w.Agrees) (here : q boot = (checking, idle))
    (within : m ∉ w.expiry → (w.firewall.device m).Within none) :
    Kept role boot m w (Function.update q boot
      (if m ∈ (handler .zmembers w).1 then listed else past, idle)) := by
  have isIdle : (q boot).2 = idle := by rw [here]
  have silent := hw.silent (by simp [here])
  have contains := hw.contains (.inl (by rw [here]))
  refine kept_idle hw rfl silent (by split <;> simp) (fun _ => contains) fun isPast => ?_
  have absent : m ∉ w.expiry := fun h => by
    have h : m ∈ (handler .zmembers w).1 := AList.mem_keys.mp h
    rw [if_pos h] at isPast
    cases isPast
  have unstored : w.sessions.lookup m = none :=
    AList.lookup_eq_none.mpr fun h => absent ((agrees.members m).mpr h)
  rw [update_idle isIdle]
  exact tracked_absent (congrArg (Option.map ofSerialized) unstored) contains (within absent)
    (hw.nobody silent isIdle)

/-- The main thread reads the authorization of `m`, which the nft sets do not exceed. -/
theorem kept_read (hw : Kept role boot m w q) (main : role boot = .boot)
    (here : q boot = (listed, idle)) {phase : Phase} (next : phase = listed ∨ phase = past)
    (within : (w.firewall.device m).Within (w.stored m))
    (alone : ∀ j, j ≠ boot → ¬(q j).2.Critical) :
    Kept role boot m w (Function.update q boot (phase, holding (w.stored m))) := by
  have silent := hw.silent (by simp [here])
  have contains := hw.contains (.inr (by rw [here]))
  refine kept_update hw rfl (fun _ _ => alone) (fun other => absurd rfl other) (fun _ _ => silent)
    (fun _ isHandler => ?_) (fun _ h => ?_) (fun _ => contains) fun _ => ?_
  · exact absurd (main.symm.trans isHandler) nofun
  · rcases next with rfl | rfl <;> rcases h with h | h <;> cases h
  · exact tracked_first contains within alone

/-- The main thread finds no authorization of `m`, and the nft sets hold nothing of it. -/
theorem kept_miss (hw : Kept role boot m w q) (here : q boot = (listed, idle)) {phase : Phase}
    (next : phase = listed ∨ phase = past) (absent : w.stored m = none)
    (within : (w.firewall.device m).Within none) :
    Kept role boot m w (Function.update q boot (phase, idle)) := by
  have isIdle : (q boot).2 = idle := by rw [here]
  have silent := hw.silent (by simp [here])
  have contains := hw.contains (.inr (by rw [here]))
  refine kept_idle hw rfl silent next (fun _ => contains) fun _ => ?_
  rw [update_idle isIdle]
  exact tracked_absent absent contains within (hw.nobody silent isIdle)

/-- From now on messages are delivered. -/
theorem kept_subscribe (hw : Kept role boot m w q) (here : q boot = (past, idle)) :
    Kept role boot m { w with subscribed := true } (Function.update q boot (outside, idle)) := by
  have silent := hw.silent (by simp [here])
  have stages : Prod.snd ∘ Function.update q boot (outside, idle) = Prod.snd ∘ q :=
    (Function.comp_update ..).trans (update_idle (by rw [here]))
  have settled : ¬Debt m w (Prod.snd ∘ q) := fun debt =>
    absurd (debt.subscribed.symm.trans silent) nofun
  obtain ⟨mirrored, accurate, held⟩ := hw.tracked (.inl (by rw [here]))
  constructor
  case single => exact stages ▸ hw.single
  case others =>
    intro j hj
    rw [Function.update_of_ne hj]
    exact hw.others j hj
  case silent => exact fun h => absurd (by rw [Function.update_self]) h
  case asleep => exact nofun
  case low =>
    intro j hj
    rw [Function.update_apply]
    split
    · exact fun _ _ held => nomatch held
    · exact hw.low j hj
  case contains =>
    rw [Function.update_self]
    exact fun h => by rcases h with h | h <;> cases h
  case tracked =>
    intro _
    rw [stages]
    refine ⟨mirrored, ?_, fun j authz hj => .inl ((held j authz hj).resolve_right settled)⟩
    exact accurate.imp_right fun h => .inr (h.resolve_left settled)

theorem kept_step (unique : ∀ i, role i = .boot ↔ i = boot) (hw : Kept role boot m w q)
    (agrees : w.Agrees) {t : ι → Prog agent (Except Error Unit)}
    (conform : ∀ j, (t j).Conforms (Permitted m (role j)) (q j) Ended)
    (awake : Awake role ⟨w, t⟩ i) (orderly : Orderly boot ⟨w, t⟩ i) {o : Op}
    {next : o.Reply → Prog agent (Except Error Unit)} (hi : t i = .op o next)
    (permitted : Permitted m (role i) (q i) o (handler o w).1 s)
    (rest : (next (handler o w).1).Conforms (Permitted m (role i)) s Ended) :
    Kept role boot m (handler o w).2 (Function.update q i s) := by
  have main : role boot = .boot := (unique boot).mpr rfl
  have critical (j : ι) : (q j).2.Critical → Applying m (t j) := applying_of_critical (conform j)
  have now : s.2.Critical → Applying m (next (handler o w).1) := applying_of_critical rest
  have passed (here : (q boot).1 = past) : Passed m (t boot) := by
    have h := conform boot
    rw [main, show q boot = (past, (q boot).2) from Prod.ext here rfl] at h
    exact passed_of_conforms h
  have reading (here : (q boot).1 = listed ∨ (q boot).1 = past) : Listed (t boot) := by
    have h := conform boot
    rw [main] at h
    exact listed_of_conforms h here
  generalize hq : q i = qi at permitted
  generalize hr : (handler o w).1 = r at permitted
  cases permitted with
  | @thread q₀ q₁ _ _ other h =>
    subst hr
    obtain rfl : (q i).2 = q₀ := by rw [hq]
    refine kept_thread hw (fun same => other ((unique i).mpr same))
      (fun isTimer => decide_eq_false isTimer) awake
      (alone_of_exclusive (q := Prod.snd ∘ q) orderly.exclusive hi h now critical)
      (fun here => fun changes => orderly.changing m o next hi changes (passed here)) h
  | @check q₀ q₁ _ _ isMain h =>
    subst hr
    obtain rfl := (unique i).mp isMain
    obtain rfl : (q i).2 = q₀ := by rw [hq]
    exact kept_check hw main (by rw [hq])
      (alone_of_exclusive (q := Prod.snd ∘ q) orderly.exclusive hi h now critical) h
  | list r isMain =>
    obtain rfl := (unique i).mp isMain
    subst hr
    exact kept_list hw agrees hq (orderly.listing next hi m)
  | read data phase isMain here =>
    obtain rfl := (unique i).mp isMain
    have stored : w.stored m = some (ofSerialized data) := congrArg (Option.map ofSerialized) hr
    have alone : ∀ j, j ≠ i → ¬(q j).2.Critical := fun j hj held =>
      orderly.exclusive m next hi (now trivial) j hj (critical j held)
    have within := orderly.reading m next hi rfl (reading (.inl (by rw [hq])))
    exact stored ▸ kept_read hw main hq here within alone
  | miss phase isMain here =>
    obtain rfl := (unique i).mp isMain
    have absent : w.stored m = none := congrArg (Option.map ofSerialized) hr
    have within := orderly.reading m next hi rfl (reading (.inl (by rw [hq])))
    exact kept_miss hw hq here absent (absent ▸ within)
  | apply phase authz isMain here =>
    obtain rfl := (unique i).mp isMain
    have silent := hw.silent (by rcases here with rfl | rfl <;> simp [hq])
    have subscribed : (handler (.fwAllowMac m (allowedOn authz) (bridgedTo authz)) w).2.subscribed =
        w.subscribed := rfl
    refine kept_idle hw subscribed silent here (fun isListed => ?_) fun isPast => ?_
    · exact contains_handler (hw.contains (.inr (by rw [hq, isListed]))) _
    · exact tracked_apply (hw.tracked (.inl (by rw [hq, isPast]))) hw.single
        (congrArg Prod.snd hq)
  | other phase _ isMain here spares =>
    obtain rfl := (unique i).mp isMain
    have silent := hw.silent (by rcases here with rfl | rfl <;> simp [hq])
    refine kept_idle hw (spares.subscribed w) silent here (fun isListed => ?_) fun isPast => ?_
    · exact contains_handler (hw.contains (.inr (by rw [hq, isListed]))) _
    · rw [update_idle (by rw [hq])]
      exact tracked_spares (hw.tracked (.inl (by rw [hq, isPast]))) spares
  | subscribe isMain =>
    obtain rfl := (unique i).mp isMain
    exact kept_subscribe hw hq

/-! ## Every life of the manager -/

/-- What holds all along, seen from device `m`. -/
structure Lives (role : ι → Role) (boot : ι) (m : String) (c : Pool ι) (q : ι → Phase × Stage) :
    Prop where
  agrees : c.state.Agrees
  paired : ∀ i, (c.threads i).Only Op.Paired
  kept : Kept role boot m c.state q
  conform : ∀ i, (c.threads i).Conforms (Permitted m (role i)) (q i) Ended

omit [DecidableEq ι] in
theorem conforms_done {a : Except Error Unit} :
    (Prog.done a).Conforms (Permitted m (role i)) (outside, idle) Ended := by
  cases a with
  | ok _ => exact rfl
  | error _ => exact .inl rfl

theorem lives_run (unique : ∀ i, role i = .boot ↔ i = boot) {c d : Pool ι}
    (run : Run handler (fun c i => Awake role c i ∧ Orderly boot c i) c d)
    (hc : Lives role boot m c q) : ∃ q, Lives role boot m d q := by
  obtain ⟨q, ⟨⟨agrees, paired⟩, kept⟩, conform⟩ := run.monitored
    (Q := fun c q => (c.state.Agrees ∧ ∀ i, (c.threads i).Only Op.Paired) ∧
      Kept role boot m c.state q)
    (fun w t q i o next s hs conform guard hi permitted rest => by
      obtain ⟨only, kept⟩ := hs
      obtain ⟨awake, orderly⟩ := guard
      exact ⟨(Step.mk hi).only (fun _ _ => agrees_handler) only,
        kept_step unique kept only.1 conform awake orderly hi permitted rest⟩)
    ⟨⟨hc.agrees, hc.paired⟩, hc.kept⟩ hc.conform
  exact ⟨q, agrees, paired, kept, conform⟩

omit [DecidableEq ι] in
/-- The threads of the manager are replaced by others, which hold no authorization. -/
theorem lives_replaced (unique : ∀ i, role i = .boot ↔ i = boot) {c : Pool ι}
    {t : ι → Prog agent (Except Error Unit)} {f : ι → Phase × Stage}
    (hc : Lives role boot m c q) (agrees : w.Agrees) (unsubscribed : w.subscribed = false)
    (paired : ∀ i, role i ≠ .process → (t i).Only Op.Paired)
    (conform : ∀ i, role i ≠ .process → (t i).Conforms (Permitted m (role i)) (f i) Ended)
    (empty : ∀ i, (f i).2 = idle) (others : ∀ i, i ≠ boot → (f i).1 = outside)
    (early : (f boot).1 ≠ past)
    (contains : (f boot).1 = checking ∨ (f boot).1 = listed → (w.firewall.device m).Contains) :
    Lives role boot m ⟨w, fun i => if role i = .process then c.threads i else t i⟩
      fun i => if role i = .process then q i else f i := by
  have at_boot : (if role boot = .process then q boot else f boot) = f boot :=
    if_neg (by rw [(unique boot).mpr rfl]; nofun)
  constructor
  case agrees => exact agrees
  case paired =>
    intro i
    dsimp only
    split
    · exact hc.paired i
    · exact paired i ‹_›
  case conform =>
    intro i
    dsimp only
    split
    · exact hc.conform i
    · exact conform i ‹_›
  case kept =>
    constructor
    case single =>
      intro i j hi hj
      dsimp only [Function.comp_apply] at hi hj
      split at hi
      · split at hj
        · exact hc.kept.single i j hi hj
        · exact absurd hj (by rw [empty]; exact id)
      · exact absurd hi (by rw [empty]; exact id)
    case others =>
      intro i hi
      split
      · exact hc.kept.others i hi
      · exact others i hi
    case silent => exact fun _ => unsubscribed
    case asleep =>
      intro _ i hi
      rw [if_neg (by rw [hi]; nofun)]
      exact empty i
    case low =>
      intro i hi
      split
      · exact hc.kept.low i hi
      · rw [empty]
        exact fun _ _ held => nomatch held
    case contains => exact at_boot.symm ▸ contains
    case tracked =>
      rw [at_boot]
      rintro (h | h)
      · exact absurd h early
      · exact absurd (h.symm.trans unsubscribed) nofun

omit [DecidableEq ι] in
theorem lives_killed (unique : ∀ i, role i = .boot ↔ i = boot) {c : Pool ι} (fw : Firewall)
    (hc : Lives role boot m c q) :
    Lives role boot m (killed role c fw)
      fun i => if role i = .process then q i else (outside, idle) :=
  lives_replaced unique hc (hc.agrees.of_eq rfl rfl) rfl (fun _ _ => .done _)
    (fun _ _ => conforms_done) (fun _ => rfl) (fun _ _ => rfl) nofun
    fun h => by rcases h with h | h <;> cases h

omit [DecidableEq ι] in
theorem lives_launched (unique : ∀ i, role i = .boot ↔ i = boot) {c : Pool ι}
    (down : Down role c) {programs : ι → Call Unit}
    (runs : ∀ i, role i ≠ .process → (role i).Runs (programs i)) (hc : Lives role boot m c q) :
    Lives role boot m (launched role c programs)
      fun i => if role i = .process then q i else first (role i) := by
  refine lives_replaced unique hc (hc.agrees.of_eq rfl rfl) down.unsubscribed
    (fun i hi => only_runs (runs i hi)) (fun i hi => conforms_runs (runs i hi)) (fun i => ?_)
    (fun i hi => ?_) ?_ fun _ => contains_forget c.state.firewall m
  · cases role i <;> rfl
  · have notBoot : role i ≠ .boot := fun h => hi ((unique i).mp h)
    cases h : role i with
    | boot => exact absurd h notBoot
    | _ => rfl
  · rw [(unique boot).mpr rfl]
    nofun

theorem lives_life (unique : ∀ i, role i = .boot ↔ i = boot) {c d : Pool ι}
    (life : Life role (fun c i => Awake role c i ∧ Orderly boot c i) c d)
    (hc : Lives role boot m c q) : ∃ q, Lives role boot m d q := by
  induction life with
  | refl => exact ⟨q, hc⟩
  | run _ run ih =>
    obtain ⟨q, hd⟩ := ih
    exact lives_run unique run hd
  | stop _ fw _ ih =>
    obtain ⟨q, hd⟩ := ih
    exact ⟨_, lives_killed unique fw hd⟩
  | start _ down programs runs ih =>
    obtain ⟨q, hd⟩ := ih
    exact ⟨_, lives_launched unique down runs hd⟩

end Kept

end Life

/-- However often the manager is stopped and started, while other processes change the
authorizations at any time: if what it relies on holds at every step, the nft sets are what
is stored whenever it is up, all messages are delivered and all threads are done. -/
theorem exact_after_restarts {ι : Type} [DecidableEq ι] {role : ι → Role} {boot : ι}
    (unique : ∀ i, role i = .boot ↔ i = boot) {c d : Life.Pool ι} (down : Life.Down role c)
    (agrees : c.state.Agrees)
    (processes : ∀ i, role i = .process → ∃ p, Role.Runs .process p ∧ c.threads i = p.run)
    (life : Life role (fun c i => Life.Awake role c i ∧ Life.Orderly boot c i) c d)
    (up : d.state.subscribed = true) (done : d.Done) (delivered : d.state.changes = [])
    (mac vlan : String) :
    ((mac, vlan) ∈ d.state.firewall.macOnVlan ↔ vlan ∈ allowedOn (d.state.stored mac)) ∧
      ((mac, vlan) ∈ d.state.firewall.macToVlan ↔ vlan ∈ bridgedTo (d.state.stored mac)) := by
  have begins : Life.Lives role boot mac c fun _ => (.outside, idle) := by
    have thread (i : ι) : (∃ a, c.threads i = .done a) ∨
        ∃ p, Role.Runs .process p ∧ role i = .process ∧ c.threads i = p.run := by
      by_cases isProcess : role i = .process
      · obtain ⟨p, runs, same⟩ := processes i isProcess
        exact .inr ⟨p, runs, isProcess, same⟩
      · exact .inl (down.stopped i isProcess)
    refine ⟨agrees, fun i => ?_, ?_, fun i => ?_⟩
    · rcases thread i with ⟨a, same⟩ | ⟨p, runs, -, same⟩ <;> rw [same]
      · exact .done a
      · exact Life.only_runs runs
    · refine ⟨nofun, fun _ _ => rfl, fun h => absurd rfl h, fun _ _ _ => rfl,
        fun _ _ _ _ => nofun, ?_, ?_⟩
      · rintro (h | h) <;> cases h
      · rintro (h | h)
        · cases h
        · exact absurd (h.symm.trans down.unsubscribed) nofun
    · rcases thread i with ⟨a, same⟩ | ⟨p, runs, isProcess, same⟩ <;> rw [same]
      · exact Life.conforms_done
      · rw [isProcess]
        exact Life.conforms_runs runs
  obtain ⟨q, hd⟩ := Life.lives_life unique life begins
  have isIdle (i : ι) : (q i).2 = idle := by
    obtain ⟨_ | _, h⟩ := done.conforms hd.conform i
    · rcases (h : Life.Raised (q i)) with h | h <;> exact congrArg Prod.snd h
    · exact congrArg Prod.snd (h : q i = (.outside, idle))
  exact (programmed_of_tracked (hd.kept.tracked (.inr up)) isIdle delivered).mem_iff vlan

/-- The main thread of the manager, and processes. -/
def roles {n : Nat} (i : Fin (n + 2)) : Role := if i = 1 then .boot else .process

/-- The manager is down, and a device is to get a VLAN and then to lose it again. -/
def managerDown (n : Nat) : Life.Pool (Fin (n + 2)) where
  state := { World.empty fun n => some (if n = 0 then .granted (onVlan "eth1.10") else .none) with
    subscribed := false }
  threads i := if i = 1 then .done (.ok ()) else
    (Task.checkAuthz 0 "00:00:00:00:00:01" none overridden).call.run

theorem roles_boot {n : Nat} (i : Fin (n + 2)) : roles i = .boot ↔ i = 1 := by
  simp [roles]

theorem roles_runs {n : Nat} (i : Fin (n + 2)) (h : roles i ≠ .process) :
    (roles i).Runs (MacAuthorizationManager.init 0 >>= fun _ => subscribe) := by
  by_cases main : i = 1
  · rw [roles, if_pos main]
    exact .boot 0
  · exact absurd (if_neg main) h

theorem roles_down {n : Nat} {c : Life.Pool (Fin (n + 2))}
    (unsubscribed : c.state.subscribed = false) (stopped : (c.threads 1).isDone) :
    Life.Down roles c := by
  refine ⟨unsubscribed, fun i h => ?_⟩
  obtain rfl : i = 1 := by
    by_contra other
    exact h (if_neg other)
  cases hp : c.threads 1 with
  | done a => exact ⟨a, rfl⟩
  | op o next =>
    rw [hp] at stopped
    cases stopped

theorem leaves_refl {n : Nat} {c : Life.Pool (Fin (n + 2))} :
    Life.Leaves roles c c.state.firewall :=
  ⟨fun _ _ _ => Iff.rfl, fun _ _ _ => Iff.rfl⟩

theorem roles_awake {n : Nat} (c : Life.Pool (Fin (n + 2))) (i : Fin (n + 2)) :
    Life.Awake roles c i := by
  intro isHandler
  rw [roles] at isHandler
  split at isHandler <;> cases isHandler

/-- The nft sets hold nothing beyond what is listed, or what is read, and only the process
changes what is stored. -/
def Life.Fits (i : Fin 2) (w : World) (o : Op) : Prop :=
  match o with
  | .zmembers => ∀ x ∈ w.firewall.macOnVlan ∪ w.firewall.macToVlan, x.1 ∈ w.expiry
  | .hget mac => (∀ x ∈ w.firewall.macOnVlan, x.1 = mac → x.2 ∈ allowedOn (w.stored mac)) ∧
      ∀ x ∈ w.firewall.macToVlan, x.1 = mac → x.2 ∈ bridgedTo (w.stored mac)
  | .execute _ => i = 0
  | _ => True

instance (i : Fin 2) (w : World) (o : Op) : Decidable (Life.Fits i w o) := by
  unfold Life.Fits
  split <;> infer_instance

/-- Only thread `i` has something left to do. -/
def Life.Alone (c : Life.Pool (Fin 2)) (i : Fin 2) : Prop :=
  (c.threads (1 - i)).isDone ∧
    match c.threads i with
    | .op o _ => Life.Fits i c.state o
    | .done _ => True

instance (c : Life.Pool (Fin 2)) (i : Fin 2) : Decidable (Life.Alone c i) := by
  unfold Life.Alone
  cases c.threads i <;> infer_instance

theorem Life.Alone.orderly {c : Life.Pool (Fin 2)} {i : Fin 2} (alone : Life.Alone c i) :
    Life.Orderly 1 c i := by
  obtain ⟨finished, fits⟩ := alone
  have nothing {P Q : Op → Prop} : ¬(c.threads (1 - i)).Owes P Q := by
    cases hp : c.threads (1 - i) with
    | done a => exact id
    | op o next =>
      rw [hp] at finished
      cases finished
  have fits {o : Op} {next : o.Reply → Prog agent (Except Error Unit)}
      (h : c.threads i = .op o next) : Life.Fits i c.state o := by
    rw [h] at fits
    exact fits
  refine ⟨fun mac next _ _ j hj => ?_, fun next h mac unlisted => ?_, fun mac next h _ _ => ?_,
    fun mac o next h changes => ?_⟩
  · obtain rfl : j = 1 - i := by omega
    exact nothing
  · have listed := fits h
    exact ⟨fun vlan held => absurd (listed _ (Finset.mem_union_left _ held)) unlisted,
      fun vlan held => absurd (listed _ (Finset.mem_union_right _ held)) unlisted⟩
  · obtain ⟨allowed, bridged⟩ := fits h
    exact ⟨fun vlan held => allowed _ held rfl, fun vlan held => bridged _ held rfl⟩
  · obtain rfl : i = 0 := by
      rcases changes with rfl | ⟨authz, -, rfl⟩ <;> exact fits h
    exact nothing

theorem alone_run {c : Life.Pool (Fin 2)} {q : List (Fin 2)}
    (alone : Config.Guarded handler Life.Alone c q) :
    Run handler (fun c i => Life.Awake roles c i ∧ Life.Orderly 1 c i) c
      (c.follow handler q) :=
  Config.follow_run (alone.imp fun c i h => ⟨roles_awake c i, h.orderly⟩)

/-- The manager is started, stopped and started again, with a VLAN open for a device. -/
theorem exact_after_restarts_twice :
    let up (c : Life.Pool (Fin 2)) := (Life.launched roles c fun _ =>
      MacAuthorizationManager.init 0 >>= fun _ => subscribe).follow handler [1, 1, 1, 1, 1, 1, 1]
    let granted := (managerDown 0).follow handler [0, 0, 0, 0, 0, 0, 0, 0, 0]
    let w := (up (Life.killed roles (up granted) (up granted).state.firewall)).state
    let mac := "00:00:00:00:00:01"
    let vlan := "eth1.10"
    ((mac, vlan) ∈ w.firewall.macOnVlan ↔ vlan ∈ allowedOn (w.stored mac)) ∧
      ((mac, vlan) ∈ w.firewall.macToVlan ↔ vlan ∈ bridgedTo (w.stored mac)) := by
  have life : Life roles (fun c i => Life.Awake roles c i ∧ Life.Orderly 1 c i) (managerDown 0)
    (managerDown 0) := .refl _
  have granted := life.run
    (alone_run (q := [0, 0, 0, 0, 0, 0, 0, 0, 0]) (by decide))
  have once := (granted.start (roles_down rfl (by decide)) _ roles_runs).run
    (alone_run (q := [1, 1, 1, 1, 1, 1, 1]) (by decide))
  have twice := ((once.stop _ leaves_refl).start (roles_down rfl (by decide)) _ roles_runs).run
    (alone_run (q := [1, 1, 1, 1, 1, 1, 1]) (by decide))
  refine exact_after_restarts roles_boot (roles_down rfl (by decide))
    ((agrees_empty fun _ => none).of_eq rfl rfl) (fun i isProcess => ?_) twice (by decide)
    (Config.done_iff.mpr (by decide)) (by decide) _ _
  obtain rfl : i = 0 := by
    revert i
    decide
  exact ⟨_, .checkAuthz 0 "00:00:00:00:00:01" none overridden, rfl⟩

/-- The authorization is withdrawn while the manager is down, and the device stays on the VLAN
once the manager is up again. -/
theorem withdrawn_while_down : ∃ d : Life.Pool (Fin 3),
    Life roles (Life.Awake roles) (managerDown 1) d ∧ d.state.subscribed = true ∧ d.Done ∧
    d.state.changes = [] ∧ ¬∀ mac vlan,
      ((mac, vlan) ∈ d.state.firewall.macOnVlan ↔ vlan ∈ allowedOn (d.state.stored mac)) := by
  have follow (c : Life.Pool (Fin 3)) (schedule : List (Fin 3)) :
      Run handler (Life.Awake roles) c (c.follow handler schedule) :=
    Config.follow_run (Config.guarded_of_forall roles_awake c schedule)
  have life : Life roles (Life.Awake roles) (managerDown 1) (managerDown 1) := .refl _
  have granted := life.run (follow _ [0, 0, 0, 0, 0, 0, 0, 0, 0])
  have up := (granted.start (roles_down rfl rfl) _ roles_runs).run (follow _ [1, 1, 1, 1, 1, 1, 1])
  have withdrawn := (up.stop _ leaves_refl).run (follow _ [2, 2, 2, 2, 2, 2, 2, 2])
  have again := (withdrawn.start (roles_down rfl rfl) _ roles_runs).run
    (follow _ [1, 1, 1, 1, 1])
  exact ⟨_, again, by decide, Config.done_iff.mpr (by decide), by decide, fun exact =>
    absurd ((exact "00:00:00:00:00:01" "eth1.10").mp (by decide)) (by decide)⟩

end ElanAgent.Nac
