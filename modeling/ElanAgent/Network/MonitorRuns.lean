import ElanAgent.Network.Monitor
import Mathlib.Data.List.Chain
import Mathlib.Data.List.Dedup
import Mathlib.Data.List.Induction

/-!
# Runs of the network monitor

`NetworkMonitor.run` binds to the notifications of the kernel, reads the addresses, the
gateways and the name servers, publishes both families, and from then on reads again what a
notification is about. What it reads is the state when it reads, not the one that was
notified. The observer of the file of the name servers is scheduled but never started.

The dump of the addresses, the answers about `_gateway` and the file change at any time, also
while the monitor starts.
-/

namespace ElanAgent.Network

open Net

/-! ## The name servers -/

/-- What `str.split` takes for white space. -/
def isSpace (c : Char) : Bool :=
  c.val ∈ ([9, 10, 11, 12, 13, 28, 29, 30, 31, 32, 0x85, 0xa0, 0x1680, 0x2028, 0x2029, 0x202f,
    0x205f, 0x3000] : List UInt32) || (0x2000 ≤ c.val && c.val ≤ 0x200a)

/-- `line.split()` -/
def words (line : String) : List String :=
  ((line.toList.splitOnP isSpace).filter (· ≠ [])).map String.ofList

/-- `parse_resolvconf`, of the lines of the file if there is one. -/
def parseResolvconf (file : Option (List String)) : List String :=
  (file.getD []).flatMap fun line =>
    if "nameserver ".toList <+: line.toList then (words line).drop 1 else []

example : parseResolvconf (some ["# local\n", "nameserver 10.0.0.1 fd00::1\n", "search lan\n"]) =
    ["10.0.0.1", "fd00::1"] := by decide

/-! ## The other checks -/

namespace NetworkMonitor

/-- Take over the configuration of a family, and publish it. -/
def replace (publish : Bool) (f : Family) (next : Current) (m : NetworkMonitor) : NetworkMonitor :=
  let m := { m with current := Function.update m.current f next }
  if publish then m.publishCurrent f else m

/-- `check_gw4` and `check_gw6`. -/
def checkGw (publish : Bool) (f : Family) (gw : Option String) (m : NetworkMonitor) :
    NetworkMonitor :=
  if (m.current f).gw = gw then m else m.replace publish f { m.current f with gw }

/-- The part of `check_dns` for one family. -/
def checkDnsFamily (publish : Bool) (dns : List String) (f : Family) (m : NetworkMonitor) :
    NetworkMonitor :=
  let own := dns.filter fun d => mark f ∈ d.toList
  if own = (m.current f).dns then m else m.replace publish f { m.current f with dns := own }

/-- `check_dns` -/
def checkDns (publish : Bool) (file : Option (List String)) (m : NetworkMonitor) :
    NetworkMonitor :=
  let dns := parseResolvconf file
  (m.checkDnsFamily publish dns .ip).checkDnsFamily publish dns .ip6

/-- `__init__`, with what is retained of each family. -/
def start (retained : Family → Option Current) : NetworkMonitor :=
  { freshMonitor with current := fun f => (retained f).getD ⟨[], none, []⟩ }

/-- What has been published of a family. -/
def told (m : NetworkMonitor) (f : Family) : List Current :=
  (m.published.filter fun e => e.1 = m.topic f).map Prod.snd

end NetworkMonitor

/-! ## The monitor and what it monitors -/

/-- An order in which Python goes through the set of addresses. -/
structure SetOrder where
  order : List Entry → List String
  enumerates : ∀ entries, Enumerates (order entries) entries

/-- The dump of the addresses of the interface, what `_gateway` resolves to, and the lines of
`/run/systemd/resolve/resolv.conf`. -/
structure Env where
  entries : List Entry
  gw : Family → Option String
  resolv : Option (List String)

/-- An event of the kernel: on an address, of the monitored interface or of another; on a route,
of a family or of another. -/
inductive Netlink where
  | addr (own : Bool)
  | route (family : Option Family)
  | other
  deriving DecidableEq

/-- What `run` does next. -/
inductive Stage where
  | ips
  | gw4
  | gw6
  | dns
  | publish
  | loop
  deriving DecidableEq

structure System where
  env : Env
  queue : List Netlink
  stage : Stage
  monitor : NetworkMonitor

/-- The kernel notifies a change of addresses and of routes, and whatever else it does; a file
is written; or the monitor goes on. -/
inductive Action where
  | setAddresses (entries : List Entry)
  | setGateway (f : Family) (gw : Option String)
  | setResolv (file : Option (List String))
  | notify (event : Netlink)
  | monitor

/-- The body of the loop over the events. -/
def NetworkMonitor.handle (o : SetOrder) (env : Env) (m : NetworkMonitor) :
    Netlink → NetworkMonitor
  | .route (some f) => m.checkGw true f (env.gw f)
  | .addr true => m.checkIps true (o.order env.entries)
  | .route none | .addr false | .other => m

def System.step (o : SetOrder) (s : System) : Action → System
  | .setAddresses entries =>
    { s with env := { s.env with entries }, queue := s.queue ++ [.addr true] }
  | .setGateway f gw => { s with
      env := { s.env with gw := Function.update s.env.gw f gw }
      queue := s.queue ++ [.route (some f)] }
  | .setResolv file => { s with env := { s.env with resolv := file } }
  | .notify event => { s with queue := s.queue ++ [event] }
  | .monitor =>
    match s.stage with
    | .ips => { s with
        stage := .gw4, monitor := s.monitor.checkIps false (o.order s.env.entries) }
    | .gw4 => { s with stage := .gw6, monitor := s.monitor.checkGw false .ip (s.env.gw .ip) }
    | .gw6 => { s with stage := .dns, monitor := s.monitor.checkGw false .ip6 (s.env.gw .ip6) }
    | .dns => { s with stage := .publish, monitor := s.monitor.checkDns false s.env.resolv }
    | .publish => { s with
        stage := .loop, monitor := (s.monitor.publishCurrent .ip).publishCurrent .ip6 }
    | .loop =>
      match s.queue with
      | [] => s
      | event :: queue => { s with queue, monitor := s.monitor.handle o s.env event }

/-- From the binding on. -/
def System.start (retained : Family → Option Current) (env : Env) : System :=
  ⟨env, [], .ips, .start retained⟩

def System.run (o : SetOrder) (s : System) (actions : List Action) : System :=
  actions.foldl (System.step o) s

/-! ## What the checks change -/

namespace NetworkMonitor

variable {m m' : NetworkMonitor} {f g : Family} {publish : Bool}

theorem current_replace (next : Current) :
    (m.replace publish f next).current = Function.update m.current f next := by
  unfold replace
  split <;> rfl

theorem topic_replace (next : Current) : (m.replace publish f next).topic = m.topic := by
  unfold replace
  split <;> rfl

theorem checkFamily_eq (ips : List String) : m.checkFamily publish ips f =
    if SameSet (m.current f).ips (ips.filter fun ip => mark f ∈ ip.toList) then m
    else m.replace publish f { m.current f with ips := ips.filter fun ip => mark f ∈ ip.toList } :=
  rfl

/-- A check of addresses leaves the gateways and the name servers. -/
theorem rest_checkFamily (publish : Bool) (ips : List String) :
    ((m.checkFamily publish ips f).current g).gw = (m.current g).gw ∧
      ((m.checkFamily publish ips f).current g).dns = (m.current g).dns := by
  rw [checkFamily_eq]
  split
  · exact ⟨rfl, rfl⟩
  · rw [current_replace, Function.update_apply]
    split <;> simp [*]

theorem rest_checkIps (ips : List String) :
    ((m.checkIps publish ips).current g).gw = (m.current g).gw ∧
      ((m.checkIps publish ips).current g).dns = (m.current g).dns := by
  have first := rest_checkFamily (m := m) (f := .ip) (g := g) publish ips
  have second := rest_checkFamily (m := m.checkFamily publish ips .ip) (f := .ip6) (g := g)
    publish ips
  exact ⟨second.1.trans first.1, second.2.trans first.2⟩

theorem current_checkGw (gw : Option String) : (m.checkGw publish f gw).current g =
    if g = f then { m.current g with gw } else m.current g := by
  unfold checkGw
  by_cases same : (m.current f).gw = gw
  · subst gw
    rw [if_pos rfl]
    split <;> simp [*]
  · rw [if_neg same, current_replace, Function.update_apply]
    split <;> simp [*]

theorem current_checkDns (file : Option (List String)) : (m.checkDns publish file).current g =
    { m.current g with dns := (parseResolvconf file).filter fun d => mark g ∈ d.toList } := by
  have family (m : NetworkMonitor) (f : Family) :
      (m.checkDnsFamily publish (parseResolvconf file) f).current g = if g = f then
        { m.current g with dns := (parseResolvconf file).filter fun d => mark g ∈ d.toList }
      else m.current g := by
    simp only [checkDnsFamily]
    by_cases own : (parseResolvconf file).filter (fun d => mark f ∈ d.toList) = (m.current f).dns
    · rw [if_pos own]
      by_cases same : g = f
      · subst g
        simp [own]
      · simp [same]
    · rw [if_neg own, current_replace, Function.update_apply]
      split <;> simp [*]
  rw [checkDns, family, family]
  cases g <;> rfl

/-- The monitor takes configurations over one after the other, each another one than before. -/
inductive Moves (publish : Bool) : NetworkMonitor → NetworkMonitor → Prop where
  | refl (m : NetworkMonitor) : Moves publish m m
  | step {m m' : NetworkMonitor} (f : Family) (next : Current) (changed : next ≠ m.current f)
      (rest : Moves publish (m.replace publish f next) m') : Moves publish m m'

theorem Moves.trans {m'' : NetworkMonitor} (h : Moves publish m m') (h' : Moves publish m' m'') :
    Moves publish m m'' := by
  induction h with
  | refl m => exact h'
  | step f next changed _ ih => exact .step f next changed (ih h')

theorem moves_of_replace {next : Current} (changed : next ≠ m.current f) :
    Moves publish m (m.replace publish f next) := .step f next changed (.refl _)

theorem moves_checkIps (ips : List String) : Moves publish m (m.checkIps publish ips) := by
  have family (m : NetworkMonitor) (f : Family) : Moves publish m (m.checkFamily publish ips f) := by
    rw [checkFamily_eq]
    split
    · exact .refl m
    · rename_i other
      refine moves_of_replace fun same => other fun ip => ?_
      rw [← congrArg Current.ips same]
  exact (family m .ip).trans (family _ .ip6)

theorem moves_checkGw (gw : Option String) : Moves publish m (m.checkGw publish f gw) := by
  unfold checkGw
  split
  · exact .refl m
  · rename_i other
    exact moves_of_replace fun same => other (congrArg Current.gw same).symm

theorem moves_checkDns (file : Option (List String)) :
    Moves publish m (m.checkDns publish file) := by
  have family (m : NetworkMonitor) (f : Family) :
      Moves publish m (m.checkDnsFamily publish (parseResolvconf file) f) := by
    simp only [checkDnsFamily]
    split
    · exact .refl m
    · rename_i other
      exact moves_of_replace fun same => other (congrArg Current.dns same)
  exact (family m .ip).trans (family _ .ip6)

/-! ## What is published -/

/-- The last publication of each family is its configuration, and no publication repeats the one
before. -/
structure Tells (m : NetworkMonitor) : Prop where
  topics : Function.Injective m.topic
  last : ∀ f, (m.told f).getLast? = some (m.current f)
  changes : ∀ f, (m.told f).IsChain (· ≠ ·)

theorem told_publishCurrent (topics : Function.Injective m.topic) :
    (m.publishCurrent f).told g = m.told g ++ if g = f then [m.current f] else [] := by
  by_cases same : g = f
  · subst g
    simp [told, publishCurrent]
    rfl
  · have apart : m.topic f ≠ m.topic g := fun h => same (topics h).symm
    simp [told, publishCurrent, apart, same]
    rfl

theorem Tells.replace (tells : Tells m) {next : Current} (changed : next ≠ m.current f) :
    Tells (m.replace true f next) := by
  have topics : Function.Injective (m.replace true f next).topic := by
    rw [topic_replace]
    exact tells.topics
  have told : ∀ g, (m.replace true f next).told g = m.told g ++ if g = f then [next] else [] := by
    intro g
    have step := told_publishCurrent (m := { m with current := Function.update m.current f next })
      (f := f) (g := g) tells.topics
    simpa [NetworkMonitor.replace, NetworkMonitor.told] using step
  refine ⟨topics, fun g => ?_, fun g => ?_⟩
  · rw [told, current_replace, Function.update_apply]
    by_cases same : g = f
    · simp [same]
    · simp [same, tells.last g]
  · rw [told]
    by_cases same : g = f
    · subst g
      rw [if_pos rfl]
      refine List.isChain_append.mpr ⟨tells.changes f, by simp, fun a ha b hb => ?_⟩
      obtain rfl := Option.some.inj ((tells.last f).symm.trans ha)
      obtain rfl : next = b := by simpa using hb
      exact changed.symm
    · simpa [same] using tells.changes g

theorem Moves.tells (h : Moves true m m') (tells : Tells m) : Tells m' := by
  induction h with
  | refl m => exact tells
  | step f next changed _ ih => exact ih (tells.replace changed)

theorem Moves.topic (h : Moves publish m m') : m'.topic = m.topic := by
  induction h with
  | refl m => rfl
  | step f next _ _ ih => rw [ih, topic_replace]

theorem Moves.published (h : Moves false m m') : m'.published = m.published := by
  induction h with
  | refl m => rfl
  | step f next _ _ ih => rw [ih]; rfl

end NetworkMonitor

/-! ## Runs -/

section Runs

open NetworkMonitor

variable {o : SetOrder} {s : System} {retained : Family → Option Current} {env : Env}

/-- The addresses of a family. -/
def Env.ips (env : Env) (f : Family) : List String :=
  (getIps env.entries).filter fun ip => mark f ∈ ip.toList

/-- The gateway of the family has been read. -/
def Stage.hasGw : Family → Stage → Prop
  | .ip, stage => stage ≠ .ips ∧ stage ≠ .gw4
  | .ip6, stage => stage ≠ .ips ∧ stage ≠ .gw4 ∧ stage ≠ .gw6

/-- What has been read and not been notified since is as it was read, and once the loop runs
every change has been published. -/
structure Tracks (s : System) : Prop where
  topics : Function.Injective s.monitor.topic
  ips : s.stage ≠ .ips → .addr true ∉ s.queue →
    ∀ f, SameSet (s.monitor.current f).ips (s.env.ips f)
  gw : ∀ f, s.stage.hasGw f → .route (some f) ∉ s.queue → (s.monitor.current f).gw = s.env.gw f
  quiet : s.stage ≠ .loop → s.monitor.published = []
  tells : s.stage = .loop → Tells s.monitor

theorem sameSet_ips (o : SetOrder) (env : Env) (publish : Bool) (m : NetworkMonitor) (f : Family) :
    SameSet ((m.checkIps publish (o.order env.entries)).current f).ips (env.ips f) := by
  intro ip
  rw [sameSet_checkIps f ip, Env.ips, List.mem_filter, List.mem_filter,
    (o.enumerates env.entries).2 ip]

theorem tracks_start (retained : Family → Option Current) (env : Env) :
    Tracks (.start retained env) := by
  refine ⟨?_, by simp [System.start], ?_, fun _ => rfl, by simp [System.start]⟩
  · intro f g same
    cases f <;> cases g <;> simp_all [System.start, NetworkMonitor.start, freshMonitor]
  · intro f hf
    cases f <;> simp [Stage.hasGw, System.start] at hf

theorem Tracks.handle (tracks : Tracks s) (loop : s.stage = .loop) {event : Netlink}
    {queue : List Netlink} (hq : s.queue = event :: queue) :
    Tracks { s with queue, monitor := s.monitor.handle o s.env event } := by
  have moves : Moves true s.monitor (s.monitor.handle o s.env event) := by
    unfold NetworkMonitor.handle
    split
    · exact moves_checkGw _
    · exact moves_checkIps _
    all_goals exact .refl _
  refine ⟨moves.topic ▸ tracks.topics, fun _ rest f => ?_, fun f _ rest => ?_,
    fun other => absurd loop other, fun _ => moves.tells (tracks.tells loop)⟩
  · by_cases addr : event = .addr true
    · subst event
      exact sameSet_ips o s.env true s.monitor f
    · have before := tracks.ips (by simp [loop]) (by simp [hq, Ne.symm addr, rest]) f
      have same : ((s.monitor.handle o s.env event).current f).ips = (s.monitor.current f).ips := by
        unfold NetworkMonitor.handle
        split
        · rw [current_checkGw]
          split <;> rfl
        · exact absurd rfl addr
        all_goals rfl
      rwa [← same] at before
  · by_cases route : event = .route (some f)
    · subst event
      simp only [NetworkMonitor.handle, current_checkGw, if_true]
    · have before := tracks.gw f (by cases f <;> simp [Stage.hasGw, loop])
        (by simp [hq, Ne.symm route, rest])
      rw [← before]
      unfold NetworkMonitor.handle
      split
      · have other : f ≠ _ := fun same => route (congrArg _ (congrArg some same.symm))
        rw [current_checkGw, if_neg other]
      · exact (rest_checkIps _).1
      all_goals rfl

theorem tells_publish (m : NetworkMonitor) (topics : Function.Injective m.topic)
    (quiet : m.published = []) : Tells ((m.publishCurrent .ip).publishCurrent .ip6) := by
  have told : ∀ f, ((m.publishCurrent .ip).publishCurrent .ip6).told f = [m.current f] := by
    intro f
    have topics' : Function.Injective (m.publishCurrent .ip).topic := topics
    rw [told_publishCurrent topics', told_publishCurrent topics]
    cases f <;> simp [NetworkMonitor.told, quiet, publishCurrent]
  refine ⟨topics, fun f => ?_, fun f => ?_⟩
  · rw [told f]
    rfl
  · rw [told f]
    exact .singleton _

theorem Tracks.monitor (tracks : Tracks s) (o : SetOrder) : Tracks (s.step o .monitor) := by
  obtain ⟨env, queue, stage, m⟩ := s
  cases stage with
  | ips =>
    have moves : Moves false m (m.checkIps false (o.order env.entries)) := moves_checkIps _
    refine ⟨moves.topic ▸ tracks.topics, fun _ _ f => sameSet_ips o env false m f, ?_,
      fun _ => moves.published.trans (tracks.quiet (by simp)), by simp [System.step]⟩
    intro f hf
    cases f <;> simp [Stage.hasGw, System.step] at hf
  | gw4 =>
    have moves : Moves false m (m.checkGw false .ip (env.gw .ip)) := moves_checkGw _
    refine ⟨moves.topic ▸ tracks.topics, fun _ rest f => ?_, fun f hf _ => ?_,
      fun _ => moves.published.trans (tracks.quiet (by simp)), by simp [System.step]⟩
    · have before := tracks.ips (by simp) rest f
      simp only [System.step, current_checkGw]
      split <;> exact before
    · cases f with
      | ip => simp [System.step, current_checkGw]
      | ip6 => simp [Stage.hasGw, System.step] at hf
  | gw6 =>
    have moves : Moves false m (m.checkGw false .ip6 (env.gw .ip6)) := moves_checkGw _
    refine ⟨moves.topic ▸ tracks.topics, fun _ rest f => ?_, fun f hf rest => ?_,
      fun _ => moves.published.trans (tracks.quiet (by simp)), by simp [System.step]⟩
    · have before := tracks.ips (by simp) rest f
      simp only [System.step, current_checkGw]
      split <;> exact before
    · cases f with
      | ip =>
        have before := tracks.gw .ip (by simp [Stage.hasGw]) rest
        simpa [System.step, current_checkGw] using before
      | ip6 => simp [System.step, current_checkGw]
  | dns =>
    have moves : Moves false m (m.checkDns false env.resolv) := moves_checkDns _
    refine ⟨moves.topic ▸ tracks.topics, fun _ rest f => ?_, fun f hf rest => ?_,
      fun _ => moves.published.trans (tracks.quiet (by simp)), by simp [System.step]⟩
    · have before := tracks.ips (by simp) rest f
      simpa only [System.step, current_checkDns] using before
    · have before := tracks.gw f (by cases f <;> simp [Stage.hasGw]) rest
      simpa only [System.step, current_checkDns] using before
  | publish =>
    refine ⟨tracks.topics, fun _ rest f => tracks.ips (by simp) rest f, fun f hf rest =>
      tracks.gw f (by cases f <;> simp [Stage.hasGw]) rest, by simp [System.step], fun _ => ?_⟩
    exact tells_publish m tracks.topics (tracks.quiet (by simp))
  | loop =>
    cases queue with
    | nil => exact tracks
    | cons event queue => exact tracks.handle rfl rfl

theorem Tracks.step (tracks : Tracks s) (o : SetOrder) (a : Action) : Tracks (s.step o a) := by
  cases a with
  | setAddresses entries =>
    refine ⟨tracks.topics, fun _ rest => absurd rest (by simp [System.step]), fun f hf rest =>
      tracks.gw f hf fun h => rest (List.mem_append_left _ h), tracks.quiet, tracks.tells⟩
  | setGateway f gw =>
    refine ⟨tracks.topics, fun hs rest =>
      tracks.ips hs fun h => rest (List.mem_append_left _ h), fun g hg rest => ?_,
      tracks.quiet, tracks.tells⟩
    have other : g ≠ f := by
      rintro rfl
      simp [System.step] at rest
    simp only [System.step, Function.update_of_ne other]
    exact tracks.gw g hg fun h => rest (List.mem_append_left _ h)
  | setResolv file => exact ⟨tracks.topics, tracks.ips, tracks.gw, tracks.quiet, tracks.tells⟩
  | notify event =>
    exact ⟨tracks.topics, fun hs rest => tracks.ips hs fun h => rest (List.mem_append_left _ h),
      fun f hf rest => tracks.gw f hf fun h => rest (List.mem_append_left _ h), tracks.quiet,
      tracks.tells⟩
  | monitor => exact tracks.monitor o

theorem System.run_append (o : SetOrder) (s : System) (actions : List Action) (a : Action) :
    s.run o (actions ++ [a]) = (s.run o actions).step o a := by
  simp [System.run]

theorem tracks_run (o : SetOrder) (retained : Family → Option Current) (env : Env)
    (actions : List Action) : Tracks ((System.start retained env).run o actions) := by
  induction actions using List.reverseRecOn with
  | nil => exact tracks_start retained env
  | append_singleton actions a ih =>
    rw [System.run_append]
    exact ih.step o a

/-! ## The name servers of a run -/

/-- Neither a notification nor a change makes the monitor read the name servers. -/
theorem step_dns (s : System) (o : SetOrder) (a : Action) :
    (s.stage = .dns ∧ a = .monitor) ∨
      ∀ f, ((s.step o a).monitor.current f).dns = (s.monitor.current f).dns := by
  cases a with
  | setAddresses | setGateway | setResolv | notify => exact .inr fun f => rfl
  | monitor =>
    obtain ⟨env, queue, stage, m⟩ := s
    cases stage with
    | ips => exact .inr fun f => (rest_checkIps _).2
    | gw4 | gw6 =>
      right
      intro f
      simp only [System.step, current_checkGw]
      split <;> rfl
    | dns => exact .inl ⟨rfl, rfl⟩
    | publish => exact .inr fun f => rfl
    | loop =>
      right
      intro f
      cases queue with
      | nil => rfl
      | cons event queue =>
        simp only [System.step, NetworkMonitor.handle]
        split
        · rw [current_checkGw]
          split <;> rfl
        · exact (rest_checkIps _).2
        all_goals rfl

theorem step_late (s : System) (o : SetOrder) (a : Action)
    (past : (s.step o a).stage = .publish ∨ (s.step o a).stage = .loop) :
    (s.stage = .dns ∧ a = .monitor) ∨ s.stage = .publish ∨ s.stage = .loop := by
  cases a with
  | setAddresses | setGateway | setResolv | notify => exact .inr past
  | monitor =>
    obtain ⟨env, queue, stage, m⟩ := s
    cases stage with
    | ips | gw4 | gw6 => simp [System.step] at past
    | dns => exact .inl ⟨rfl, rfl⟩
    | publish => exact .inr (.inl rfl)
    | loop => exact .inr (.inr rfl)

/-- The name servers are those of the file as the monitor read it when it started. -/
theorem dns_run (o : SetOrder) (s : System) (actions : List Action)
    (past : (s.run o actions).stage = .publish ∨ (s.run o actions).stage = .loop)
    (early : s.stage ≠ .publish ∧ s.stage ≠ .loop) :
    ∃ before after, actions = before ++ .monitor :: after ∧ (s.run o before).stage = .dns ∧
      ∀ f, ((s.run o actions).monitor.current f).dns =
        (parseResolvconf (s.run o before).env.resolv).filter fun d => mark f ∈ d.toList := by
  induction actions using List.reverseRecOn with
  | nil => exact absurd past (not_or.mpr early)
  | append_singleton actions a ih =>
    rw [System.run_append] at past ⊢
    by_cases now : (s.run o actions).stage = .dns ∧ a = .monitor
    · obtain ⟨reading, rfl⟩ := now
      refine ⟨actions, [], rfl, reading, fun f => ?_⟩
      simp only [System.step, reading, current_checkDns]
    · have keeps := (step_dns (s.run o actions) o a).resolve_left now
      obtain ⟨first, after, rfl, reading, dns⟩ :=
        ih ((step_late (s.run o actions) o a past).resolve_left now)
      refine ⟨first, after ++ [a], by simp, reading, fun f => ?_⟩
      rw [keeps f, dns f]

/-- While the loop runs, the last publication of each family has the addresses and the gateway as
they are, unless a notification of a change is still to be handled, and the name servers of the
time when the monitor started; and no publication repeats the one before. -/
theorem published_tracks (o : SetOrder) (retained : Family → Option Current) (env : Env)
    (actions : List Action)
    (loop : ((System.start retained env).run o actions).stage = .loop) :
    let s := (System.start retained env).run o actions
    ∀ f, (s.monitor.told f).IsChain (· ≠ ·) ∧ ∃ last, (s.monitor.told f).getLast? = some last ∧
      (.addr true ∉ s.queue → SameSet last.ips (s.env.ips f)) ∧
      (.route (some f) ∉ s.queue → last.gw = s.env.gw f) ∧
      ∃ before after, actions = before ++ .monitor :: after ∧
        ((System.start retained env).run o before).stage = .dns ∧
        last.dns = (parseResolvconf ((System.start retained env).run o before).env.resolv).filter
          fun d => mark f ∈ d.toList := by
  intro s f
  have tracks := tracks_run o retained env actions
  have tells := tracks.tells loop
  obtain ⟨before, after, split, reading, dns⟩ := dns_run o (System.start retained env) actions
    (.inr loop) (by simp [System.start])
  refine ⟨tells.changes f, _, tells.last f, fun rest => ?_, fun rest => ?_, before, after, split,
    reading, dns f⟩
  · exact tracks.ips (by simp [loop]) rest f
  · exact tracks.gw f (by cases f <;> simp [Stage.hasGw, loop]) rest

end Runs

/-- The elements of the set in the order in which they are added. -/
def addedOrder : SetOrder where
  order entries := (getIps entries).dedup
  enumerates _ := ⟨List.nodup_dedup _, fun _ => List.mem_dedup⟩

/-- The interface gets an address, and the file of the name servers is written, once the monitor
has started. -/
def lateActions : List Action :=
  [.monitor, .monitor, .monitor, .monitor, .monitor,
    .setAddresses [⟨[.ifaAddress (.ip6 ⟨"fd00::2", colon_mem_peer⟩)], 64⟩],
    .setResolv (some ["nameserver fd00::1\n"]), .monitor]

theorem published_tracks_late :
    let s := (System.start (fun _ => none) ⟨[], fun _ => none, none⟩).run addedOrder lateActions
    ∃ last, (s.monitor.told .ip6).getLast? = some last ∧ SameSet last.ips ["fd00::2/64"] ∧
      last.gw = none := by
  obtain ⟨-, last, told, ips, gw, -⟩ := published_tracks addedOrder (fun _ => none)
    ⟨[], fun _ => none, none⟩ lateActions (by decide) .ip6
  exact ⟨last, told, ips (by decide), gw (by decide)⟩

end ElanAgent.Network
