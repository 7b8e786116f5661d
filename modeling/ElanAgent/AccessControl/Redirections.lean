import ElanAgent.AccessControl.Portals
import ElanAgent.CaptivePortal.Redirector
import Mathlib.Data.Finset.Option
import Mathlib.Data.Finset.Union

/-!
# The redirection of known devices

The bridge table, the NAT chain and `bin/redirector.py` together. A web request that access
control stops is logged for the redirector, which adds its connection to the sets of the
bridge table, so that the next attempt of the client is marked and goes to the portal; the
NAT chain then logs the connection for removal. The messages wait in a queue of the kernel,
which may lose some.

The sets of nft have the addresses that the texts of the commands stand for. How an IPv6
address is written and read is left open.
-/

namespace ElanAgent.CaptivePortal

open Raising

/-! ## The live redirections -/

section Live

variable {r : Redirector}

theorem redirected_get (r : Redirector) (now : ℚ) (conn conn' : Connection) (action : String) :
    (r.redirected now conn action).liveRedirections.get conn' =
      if conn' = conn then if action = "add" then some now else none
      else r.liveRedirections.get conn' := by
  unfold Redirector.redirected
  by_cases adds : action = "add"
  · rw [if_pos adds, written_table, Dict.get_set, if_pos adds]
  rw [if_neg adds, if_neg adds]
  split
  · rw [written_table, Dict.get_erase]
  · rename_i absent
    have hc := Option.not_isSome_iff_eq_none.mp absent
    by_cases same : conn' = conn <;> simp [same, hc]

/-- A packet replaces the entry of its connection, or removes it, and then what has expired. -/
theorem process_get (h : InStep r) {p : Packet} {conn : Connection} (hconn : p.conn = some conn)
    (conn' : Connection) : (r.process p).liveRedirections.get conn' =
      (if conn' = conn then if p.action = "add" then some p.now else none
        else r.liveRedirections.get conn').filter fun t => p.cleaned ≤ t + redirectionExpiry := by
  obtain ⟨r', removed, -, table⟩ := removeAll_exec (h.redirected p.now conn p.action) p.cleaned
    ((r.redirected p.now conn p.action).toRemove p.cleaned)
  have both := (exec_bind_ok (f := fun _ => doCleanup p.cleaned)
    (doRedirect_exec h.running p.now p.again conn p.action)).trans removed
  have same : r.process p = r' := by
    rw [Redirector.process, processPacket, hconn]
    exact congrArg Prod.snd (exec_catch_ok both _)
  rw [same, table, ← redirected_get]
  generalize r.redirected p.now conn p.action = next
  have expired : conn' ∈ next.toRemove p.cleaned ↔
      ∃ t, next.liveRedirections.get conn' = some t ∧ t + redirectionExpiry < p.cleaned := by
    simp [Redirector.toRemove, Dict.mem_items]
  cases found : next.liveRedirections.get conn' with
  | none => simp [expired, found]
  | some t =>
    by_cases late : t + redirectionExpiry < p.cleaned
    · simp [expired, found, late, Option.filter_some]
    · simp [expired, found, late, Option.filter_some, not_lt.mp late]

theorem process_none (r : Redirector) {p : Packet} (hconn : p.conn = none) :
    (r.process p).liveRedirections = r.liveRedirections := by
  rw [Redirector.process, processPacket, hconn]
  rfl

/-- The last packet of a connection was to add it at `t`, and no clean-up since has come later
than a minute after that. -/
structure Adds (conn : Connection) (t : ℚ) (p : Packet) (after : List Packet) : Prop where
  adds : p.conn = some conn ∧ p.action = "add" ∧ p.now = t
  last : ∀ q ∈ after, q.conn ≠ some conn
  fresh : ∀ q ∈ p :: after, q.conn ≠ none → q.cleaned ≤ t + redirectionExpiry

/-- A position in a longer list is its end, or a position in the list. -/
theorem exists_split_snoc {α : Type} {l : List α} {a : α} {P : α → List α → Prop} :
    (∃ before b after, l ++ [a] = before ++ b :: after ∧ P b after) ↔
      P a [] ∨ ∃ before b after, l = before ++ b :: after ∧ P b (after ++ [a]) := by
  constructor
  · rintro ⟨before, b, after, split, hp⟩
    rcases List.eq_nil_or_concat after with rfl | ⟨after, c, rfl⟩
    · obtain ⟨-, last⟩ := List.append_inj' split rfl
      obtain rfl := (List.cons.inj last).1
      exact .inl hp
    · have same : l ++ [a] = (before ++ b :: after) ++ [c] := by simp [split]
      obtain ⟨rfl, last⟩ := List.append_inj' same rfl
      obtain rfl := (List.cons.inj last).1
      exact .inr ⟨before, b, after, rfl, by simpa using hp⟩
  · rintro (hp | ⟨before, b, after, rfl, hp⟩)
    · exact ⟨l, a, [], rfl, hp⟩
    · exact ⟨before, b, after ++ [a], by simp, hp⟩

theorem adds_snoc {conn : Connection} {t : ℚ} {p q : Packet} {after : List Packet} :
    Adds conn t p (after ++ [q]) ↔ Adds conn t p after ∧ q.conn ≠ some conn ∧
      (q.conn ≠ none → q.cleaned ≤ t + redirectionExpiry) := by
  constructor
  · intro h
    refine ⟨⟨h.adds, fun r hr => h.last r (by simp [hr]), fun r hr => h.fresh r ?_⟩,
      h.last q (by simp), h.fresh q (by simp)⟩
    rcases List.mem_cons.mp hr with rfl | hr <;> simp [*]
  · rintro ⟨h, other, fresh⟩
    refine ⟨h.adds, fun r hr => ?_, fun r hr => ?_⟩
    · rcases List.mem_append.mp hr with hr | hr
      · exact h.last r hr
      · rwa [List.mem_singleton.mp hr]
    · rcases List.mem_cons.mp hr with rfl | hr
      · exact h.fresh r List.mem_cons_self
      rcases List.mem_append.mp hr with hr | hr
      · exact h.fresh r (List.mem_cons_of_mem _ hr)
      · rwa [List.mem_singleton.mp hr]

/-- What is live after any packets. -/
theorem get_run (packets : List Packet) (conn : Connection) (t : ℚ) :
    (Redirector.run packets).liveRedirections.get conn = some t ↔
      ∃ before p after, packets = before ++ p :: after ∧ Adds conn t p after := by
  induction packets using List.reverseRecOn with
  | nil => simp [Redirector.run, Redirector.start]
  | append_singleton packets q ih =>
    have step : InStep (.run packets) := (run_added packets).1
    have run : Redirector.run (packets ++ [q]) = (Redirector.run packets).process q := by
      simp [Redirector.run]
    have alone : Adds conn t q [] ↔ (q.conn = some conn ∧ q.action = "add" ∧ q.now = t) ∧
        q.cleaned ≤ t + redirectionExpiry := by
      constructor
      · exact fun h => ⟨h.adds, h.fresh q List.mem_cons_self (by simp [h.adds.1])⟩
      · rintro ⟨adds, fresh⟩
        exact ⟨adds, by simp, by simp [fresh]⟩
    rw [run, exists_split_snoc, alone]
    simp only [adds_snoc]
    cases hq : q.conn with
    | none =>
      rw [process_none _ hq, ih]
      simp
    | some conn' =>
      rw [process_get step hq, Option.filter_eq_some_iff, decide_eq_true_eq]
      by_cases same : conn = conn'
      · subst conn'
        by_cases adds : q.action = "add" <;> simp [adds]
      · have other : conn' ≠ conn := Ne.symm same
        rw [if_neg same, ih]
        simp only [Option.some.injEq, other, ne_eq, not_false_eq_true, true_and, false_and,
          reduceCtorEq, forall_const, false_or, exists_and_right, ← and_assoc]

end Live

end ElanAgent.CaptivePortal

namespace ElanAgent.AccessControl

open Nftables

/-! ## What the forward chain logs -/

namespace BridgeSets

open Packet

variable {s : BridgeSets}

theorem passive_acceptRows {r : List (List (Packet → Bool))}
    (enter : Chain → Packet × List Packet → Option (Outcome (Packet × List Packet))) :
    ∀ rule ∈ (r.map acceptIf).map fun rule => rule.map .traced, Passive enter rule := by
  intro rule hrule
  obtain ⟨_, hrow, rfl⟩ := List.mem_map.mp hrule
  obtain ⟨tests, -, rfl⟩ := List.mem_map.mp hrow
  exact passive_acceptIf enter tests

theorem passive_etherType (depth : Nat) :
    Passive (evalChain (traced s.rules) (depth + 1)) [.vmap fun t => etherTypeChain t.1] := by
  intro t
  have rows (chain : Chain) (rows : List (List (Packet → Bool)))
      (same : s.rules chain = rows.map acceptIf) :
      evalChain (traced s.rules) (depth + 1) chain t = some (.accept t) ∨
      evalChain (traced s.rules) (depth + 1) chain t = some (.next t) := by
    have passive := evalRules_passive
      (passive_acceptRows (r := rows) (evalChain (traced s.rules) depth)) t
    rwa [← same] at passive
  simp only [evalRule, etherTypeChain]
  split
  · exact rows .accessControlForwardArp _ rfl
  split
  · exact rows .accessControlForwardIp4 _ rfl
  split
  · exact rows .accessControlForwardIp6 _ rfl
  · exact .inr rfl

/-- What is logged is the unmarked web request that is dropped. -/
theorem accessControlForward_logged (depth : Nat) (p : Packet) :
    evalChain (traced s.rules) (depth + 2) .accessControlForward (p, []) = some (.accept (p, [])) ∨
    evalChain (traced s.rules) (depth + 2) .accessControlForward (p, []) =
      some (.drop (p, if unmarked p && web p then [p] else [])) := by
  have split : traced s.rules .accessControlForward =
      ((s.forwardRows.map acceptIf).map fun rule => rule.map .traced) ++
      ([.vmap fun t => etherTypeChain t.1] ::
       [[.test fun t => unmarked t.1, .test fun t => web t.1,
          .update fun t => some (t.1, t.2 ++ [t.1]), .verdict .drop],
        [.verdict .drop]]) := by
    simp [traced, rules, accessControlForward, Statement.traced]
  show evalRules (evalChain (traced s.rules) (depth + 1)) (traced s.rules .accessControlForward)
    (p, []) = _ ∨ evalRules _ (traced s.rules .accessControlForward) (p, []) = _
  rw [split, evalRules_append]
  rcases evalRules_passive (passive_acceptRows (r := s.forwardRows)
    (evalChain (traced s.rules) (depth + 1))) (p, []) with first | first
  · exact .inl (by rw [first]; rfl)
  rw [first]
  rcases passive_etherType (s := s) depth (p, []) with dispatched | dispatched
  · exact .inl (evalRules_cons_accept _ _ dispatched _)
  · right
    show evalRules _ _ _ = _
    rw [evalRules_cons_next _ _ dispatched]
    by_cases hu : unmarked p = true <;> by_cases hw : web p = true <;>
      simp [evalRules, evalRule, Verdict.follow, hu, hw]

theorem forward_logged (p : Packet) :
    baseChainLogged s.rules .forward p = some (true, p, []) ∨
    baseChainLogged s.rules .forward p =
      some (false, p, if unmarked p && web p then [p] else []) := by
  have rows : traced s.rules .forward =
      [[.test fun t => oifIn (s.ifs .ac) t.1, .verdict (.jump .accessControlForward)],
       [.test fun t => iifIn (s.ifs .ac) t.1, .verdict (.jump .accessControlForward)]] := rfl
  have left : evalChain (traced s.rules) 16 .forward (p, []) = some (.accept (p, [])) ∨
      evalChain (traced s.rules) 16 .forward (p, []) = some (.next (p, [])) ∨
      evalChain (traced s.rules) 16 .forward (p, []) =
        some (.drop (p, if unmarked p && web p then [p] else [])) := by
    show evalRules (evalChain (traced s.rules) 15) (traced s.rules .forward) (p, []) = _ ∨
      evalRules _ (traced s.rules .forward) (p, []) = _ ∨
      evalRules _ (traced s.rules .forward) (p, []) = _
    rw [rows]
    rcases accessControlForward_logged (s := s) 13 p with entered | entered <;>
      by_cases out : oifIn (s.ifs .ac) p = true <;> by_cases in' : iifIn (s.ifs .ac) p = true <;>
      simp [evalRules, out, in', entered]
  rcases left with left | left | left <;> simp [baseChainLogged, baseChain, jumpStackSize, left]

end BridgeSets

/-! ## Connections and their texts -/

section Octets

def octet (n : Nat) : Fin 256 := ⟨n % 256, Nat.mod_lt n (by decide)⟩

/-- The octets of an address. -/
def octets (b : BitVec 32) : Net.IPv4 where
  first := octet (b.toNat / 2 ^ 24)
  second := octet (b.toNat / 2 ^ 16)
  third := octet (b.toNat / 2 ^ 8)
  fourth := octet b.toNat

def bits (a : Net.IPv4) : BitVec 32 :=
  .ofNat 32 (((a.first * 256 + a.second) * 256 + a.third) * 256 + a.fourth)

theorem bits_octets (b : BitVec 32) : bits (octets b) = b := by
  have := b.isLt
  refine BitVec.eq_of_toNat_eq ?_
  simp only [bits, octets, octet, BitVec.toNat_ofNat]
  omega

end Octets

/-- How IPv6 addresses are written, by scapy, and read, by nft. -/
structure Ipv6Texts where
  render : BitVec 128 → Net.IPv6
  read : Net.IPv6 → Option (BitVec 128)
  read_render : ∀ b, read (render b) = some b

/-- An element of `ip_conn2mark`, and of `ip6_conn2mark`. -/
abbrev Element := BitVec 32 × BitVec 16 × BitVec 32 × BitVec 16
abbrev Element6 := BitVec 128 × BitVec 16 × BitVec 128 × BitVec 16

/-- How the redirector writes an element. -/
def ofElement (e : Element) : CaptivePortal.Connection :=
  ⟨.ip (octets e.1), e.2.1.toNat, .ip (octets e.2.2.1), e.2.2.2.toNat, rfl⟩

def ofElement6 (texts : Ipv6Texts) (e : Element6) : CaptivePortal.Connection :=
  ⟨.ip6 (texts.render e.1), e.2.1.toNat, .ip6 (texts.render e.2.2.1), e.2.2.2.toNat, rfl⟩

/-- How nft reads what is written. -/
def element (conn : CaptivePortal.Connection) : Option Element :=
  match conn.src, conn.dst with
  | .ip src, .ip dst => some (bits src, .ofNat 16 conn.srcPort, bits dst, .ofNat 16 conn.dstPort)
  | _, _ => none

def element6 (texts : Ipv6Texts) (conn : CaptivePortal.Connection) : Option Element6 :=
  match conn.src, conn.dst with
  | .ip6 src, .ip6 dst => (texts.read src).bind fun saddr => (texts.read dst).map fun daddr =>
      (saddr, .ofNat 16 conn.srcPort, daddr, .ofNat 16 conn.dstPort)
  | _, _ => none

@[simp] theorem element_ofElement (e : Element) : element (ofElement e) = some e := by
  simp [element, ofElement, bits_octets]

@[simp] theorem element6_ofElement6 (texts : Ipv6Texts) (e : Element6) :
    element6 texts (ofElement6 texts e) = some e := by
  simp [element6, ofElement6, texts.read_render]

/-- What the redirector reads of a frame. -/
def connection (texts : Ipv6Texts) (p : Packet) : Option CaptivePortal.Connection :=
  match p.transport with
  | some (.tcp sport dport) =>
    if p.etherType = etherIp then p.ip.map fun h => ofElement (h.saddr, sport, h.daddr, dport)
    else if p.etherType = etherIp6 then
      p.ip6.map fun h => ofElement6 texts (h.saddr, sport, h.daddr, dport)
    else none
  | _ => none

/-- The connection has been read of some frame. -/
def Rendered (texts : Ipv6Texts) (conn : CaptivePortal.Connection) : Prop :=
  ∃ p, connection texts p = some conn

/-- The sets of the bridge table, with the connections that nft has been told. -/
def BridgeSets.told (s : BridgeSets) (texts : Ipv6Texts) (sets : CaptivePortal.Sets) :
    BridgeSets :=
  { s with
    ipConn2mark := (sets .ip).biUnion fun conn => (element conn).toFinset
    ip6Conn2mark := (sets .ip6).biUnion fun conn => (element6 texts conn).toFinset }

variable {texts : Ipv6Texts} {sets : CaptivePortal.Sets}

theorem Rendered.cases {conn : CaptivePortal.Connection} (h : Rendered texts conn) :
    (∃ e, conn = ofElement e) ∨ ∃ e, conn = ofElement6 texts e := by
  obtain ⟨p, hp⟩ := h
  unfold connection at hp
  split at hp
  · split at hp
    · obtain ⟨ip, -, rfl⟩ := Option.map_eq_some_iff.mp hp
      exact .inl ⟨_, rfl⟩
    split at hp
    · obtain ⟨ip, -, rfl⟩ := Option.map_eq_some_iff.mp hp
      exact .inr ⟨_, rfl⟩
    · cases hp
  · cases hp

/-- Every connection that nft has been told is in the set of its family. -/
def Readable (texts : Ipv6Texts) (sets : CaptivePortal.Sets) : Prop :=
  ∀ family, ∀ conn ∈ sets family, conn.family = family ∧ Rendered texts conn

theorem Readable.mem_ip (readable : Readable texts sets) (s : BridgeSets) (e : Element) :
    e ∈ (s.told texts sets).ipConn2mark ↔ ofElement e ∈ sets .ip := by
  simp only [BridgeSets.told, Finset.mem_biUnion, Option.mem_toFinset, Option.mem_def]
  constructor
  · rintro ⟨conn, hconn, reads⟩
    obtain ⟨family, rendered⟩ := readable .ip conn hconn
    rcases rendered.cases with ⟨e', rfl⟩ | ⟨e', rfl⟩
    · obtain rfl := Option.some.inj ((element_ofElement e').symm.trans reads)
      exact hconn
    · cases family
  · exact fun h => ⟨_, h, element_ofElement e⟩

theorem Readable.mem_ip6 (readable : Readable texts sets) (s : BridgeSets) (e : Element6) :
    e ∈ (s.told texts sets).ip6Conn2mark ↔ ofElement6 texts e ∈ sets .ip6 := by
  simp only [BridgeSets.told, Finset.mem_biUnion, Option.mem_toFinset, Option.mem_def]
  constructor
  · rintro ⟨conn, hconn, reads⟩
    obtain ⟨family, rendered⟩ := readable .ip6 conn hconn
    rcases rendered.cases with ⟨e', rfl⟩ | ⟨e', rfl⟩
    · cases family
    · obtain rfl := Option.some.inj ((element6_ofElement6 texts e').symm.trans reads)
      exact hconn
  · exact fun h => ⟨_, h, element6_ofElement6 texts e⟩

/-- The bridge table finds a frame in the sets exactly if its connection has been told. -/
theorem Readable.conn2mark (readable : Readable texts sets) (s : BridgeSets) (p : Packet) :
    p.ipConn (s.told texts sets).ipConn2mark ∨ p.ip6Conn (s.told texts sets).ip6Conn2mark ↔
      ∃ conn, connection texts p = some conn ∧ conn ∈ sets conn.family := by
  have apart : etherIp6 ≠ etherIp := by decide
  unfold Packet.ipConn Packet.ip6Conn Packet.ipIs Packet.ip6Is Packet.tcpIs connection
  cases header : p.transport with
  | none => simp
  | some transport =>
    cases transport with
    | udp | icmpv6 | other => simp
    | tcp sport dport =>
      by_cases h4 : p.etherType = etherIp
      · cases hip : p.ip <;>
          simp [h4, Ne.symm apart, readable.mem_ip, ofElement, CaptivePortal.Connection.family,
            Net.Address.family]
      · by_cases h6 : p.etherType = etherIp6
        · cases hip : p.ip6 <;>
            simp [h6, apart, readable.mem_ip6, ofElement6, CaptivePortal.Connection.family,
              Net.Address.family]
        · simp [h4, h6]

/-! ## The loop -/

/-- A message of `log group 20`, with its prefix. -/
structure Message where
  conn : Option CaptivePortal.Connection
  action : String
  deriving DecidableEq

def logged (texts : Ipv6Texts) (action : String) (packets : List Packet) : List Message :=
  packets.map fun p => ⟨connection texts p, action⟩

/-- The packets that the redirector has processed, and the messages that it has not read. -/
structure Loop where
  processed : List CaptivePortal.Packet
  queue : List Message

def Loop.redirector (l : Loop) : CaptivePortal.Redirector := .run l.processed

/-- The sets as they are now. -/
def Loop.told (texts : Ipv6Texts) (l : Loop) (s : BridgeSets) : BridgeSets :=
  s.told texts (CaptivePortal.Sets.empty.applyAll l.redirector.emitted)

/-- The NAT chain that a packet comes to, if any, and what it logs. -/
def natLogged (r : Ruleset) (p : Packet) : Option (NatPacket × List Packet) :=
  let table protocol := (baseChainLogged (fun _ : Unit => natPrerouting protocol r) ()
    ⟨p, none⟩).map fun (_, q, logs) => (q, logs.map (·.packet))
  if p.etherType = etherIp then table .ip
  else if p.etherType = etherIp6 then table .ip6
  else some (⟨p, none⟩, [])

/-- What is logged of a frame that comes in. One that is redirected is not forwarded, any
other goes out on the interfaces of `outs`. -/
def messages (texts : Ipv6Texts) (s : BridgeSets) (p : Packet) (outs : List String) :
    List Message :=
  match baseChain s.rules .prerouting p with
  | some (true, q) =>
    match natLogged s.toRuleset q with
    | some (n, logs) => logged texts "remove" logs ++ if n.redirected.isSome then [] else
      outs.flatMap fun out =>
        match baseChainLogged s.rules .forward (q.towards out) with
        | some (_, _, logs) => logged texts "add" logs
        | none => []
    | none => []
  | _ => []

/-- A frame comes in, the other sets being `s` by then; the redirector processes the first
message; or a message is lost. -/
inductive Event where
  | frame (s : BridgeSets) (p : Packet) (outs : List String)
  | process (now again cleaned : ℚ)
  | lose (i : ℕ)

def Loop.step (texts : Ipv6Texts) (l : Loop) : Event → Loop
  | .frame s p outs => { l with queue := l.queue ++ messages texts (l.told texts s) p outs }
  | .process now again cleaned =>
    match l.queue with
    | [] => l
    | m :: queue => ⟨l.processed ++ [⟨m.conn, m.action, now, again, cleaned⟩], queue⟩
  | .lose i => { l with queue := l.queue.eraseIdx i }

def Loop.run (texts : Ipv6Texts) (events : List Event) : Loop :=
  events.foldl (Loop.step texts) ⟨[], []⟩

/-- A request of the connection is stopped on its way, without a mark. -/
def Stops (texts : Ipv6Texts) (l : Loop) (conn : CaptivePortal.Connection) : Event → Prop
  | .frame s p outs => connection texts p = some conn ∧
    ∃ q, baseChain (l.told texts s).rules .prerouting p = some (true, q) ∧ q.mark = 0 ∧ q.web ∧
      ∃ out ∈ outs, baseChain (l.told texts s).rules .forward (q.towards out) =
        some (false, q.towards out)
  | _ => False

/-- There was such a request. -/
def Stopped (texts : Ipv6Texts) (events : List Event) (conn : CaptivePortal.Connection) : Prop :=
  ∃ before e after, events = before ++ e :: after ∧ Stops texts (.run texts before) conn e

/-! ## What is logged -/

theorem MarkedFrom.connection {s : BridgeSets} {p q : Packet} (h : MarkedFrom s p q) :
    AccessControl.connection texts q = AccessControl.connection texts p := by
  rcases h with rfl | ⟨mark, -, rfl⟩ <;> rfl

theorem keeps_nat (protocol : Protocol) (r : Ruleset) (p : Packet) :
    ∀ rule ∈ natPrerouting protocol r, Keeps (fun _ => True) (fun n => n.packet = p) rule := by
  have redirects : ∀ n n' : NatPacket, n.packet = p → n.redirect = some n' → n'.packet = p := by
    intro n n' hn same
    obtain ⟨port, -, rfl⟩ := Option.map_eq_some_iff.mp same
    exact hn
  have redirectsTo : ∀ n n' : NatPacket, n.packet = p →
      n.redirectTo (r.captivePortals protocol) = some n' → n'.packet = p := by
    intro n n' hn same
    obtain ⟨dport, -, same⟩ := Option.bind_eq_some_iff.mp same
    obtain ⟨port, -, rfl⟩ := Option.map_eq_some_iff.mp same
    exact hn
  intro rule hrule
  simp only [natPrerouting, List.mem_cons, List.not_mem_nil, or_false] at hrule
  rcases hrule with rfl | rfl | rfl <;> constructor <;> simp
  · exact redirects
  · exact redirects
  · exact redirectsTo

/-- The chains of the NAT table change nothing but the redirection, and log the packet. -/
theorem natLogged_packets {r : Ruleset} {p : Packet} {n : NatPacket} {logs : List Packet}
    (h : natLogged r p = some (n, logs)) : ∀ q ∈ logs, q = p := by
  have table (protocol : Protocol) (h : (baseChainLogged (fun _ : Unit => natPrerouting protocol r)
      () ⟨p, none⟩).map (fun (_, q, logs) => (q, logs.map (·.packet))) = some (n, logs)) :
      ∀ q ∈ logs, q = p := by
    obtain ⟨⟨passed, n, all⟩, left, same⟩ := Option.map_eq_some_iff.mp h
    obtain ⟨rfl, rfl⟩ := Prod.mk.inj same
    have kept := baseChainLogged_keeps (fun chain _ => keeps_nat protocol r p) trivial rfl left
    intro q hq
    obtain ⟨l, hl, rfl⟩ := List.mem_map.mp hq
    exact kept.2 l hl
  unfold natLogged at h
  split at h
  · exact table .ip h
  split at h
  · exact table .ip6 h
  · obtain ⟨-, rfl⟩ := Prod.mk.inj (Option.some.inj h)
    simp

/-- What is logged for adding is an unmarked request that is stopped. -/
theorem mem_messages {s : BridgeSets} {p : Packet} {outs : List String} {m : Message}
    (h : m ∈ messages texts s p outs) : m.conn = connection texts p ∧
      (m.action = "add" → ∃ q, baseChain s.rules .prerouting p = some (true, q) ∧ q.mark = 0 ∧
        q.web ∧ ∃ out ∈ outs, baseChain s.rules .forward (q.towards out) =
          some (false, q.towards out)) := by
  unfold messages at h
  split at h
  · rename_i q hq
    have same : connection texts q = connection texts p := (prerouting_marked hq).connection
    split at h
    · rename_i n logs hn
      rcases List.mem_append.mp h with h | h
      · obtain ⟨r, hr, rfl⟩ := List.mem_map.mp h
        obtain rfl := natLogged_packets hn r hr
        exact ⟨same, by simp⟩
      split at h
      · cases h
      obtain ⟨out, hout, h⟩ := List.mem_flatMap.mp h
      have plain := baseChainLogged_fst s.rules .forward (q.towards out)
      rcases BridgeSets.forward_logged (s := s) (q.towards out) with left | left
      · rw [left] at h
        cases h
      rw [left] at h plain
      obtain ⟨r, hr, rfl⟩ := List.mem_map.mp h
      split at hr
      · rename_i request
        obtain rfl := List.mem_singleton.mp hr
        obtain ⟨hu, hw⟩ := (Bool.and_eq_true _ _).mp request
        exact ⟨same, fun _ => ⟨q, hq, of_decide_eq_true hu, hw, out, hout, plain.symm⟩⟩
      · cases hr
    · cases h
  · cases h

/-! ## Runs of the loop -/

section Runs

variable {events : List Event} {e : Event} {conn : CaptivePortal.Connection}

theorem Loop.run_append (texts : Ipv6Texts) (events : List Event) (e : Event) :
    Loop.run texts (events ++ [e]) = (Loop.run texts events).step texts e := by
  simp [Loop.run]

theorem Stopped.append (h : Stopped texts events conn) (e : Event) :
    Stopped texts (events ++ [e]) conn := by
  obtain ⟨before, stop, after, rfl, stops⟩ := h
  exact ⟨before, stop, after ++ [e], by simp, stops⟩

/-- The messages that have been logged and not lost, and whether they have been read. -/
def Loop.messages (l : Loop) : List Message :=
  (l.processed.map fun p => ⟨p.conn, p.action⟩) ++ l.queue

/-- Where a message comes from. -/
structure Message.Explained (texts : Ipv6Texts) (events : List Event) (m : Message) : Prop where
  rendered : ∀ conn, m.conn = some conn → Rendered texts conn
  stopped : m.action = "add" → ∀ conn, m.conn = some conn → Stopped texts events conn

theorem messages_explained (texts : Ipv6Texts) (events : List Event) :
    ∀ m ∈ (Loop.run texts events).messages, m.Explained texts events := by
  induction events using List.reverseRecOn with
  | nil => simp [Loop.run, Loop.messages]
  | append_singleton events e ih =>
    have old : ∀ m ∈ (Loop.run texts events).messages, m.Explained texts (events ++ [e]) :=
      fun m hm => ⟨(ih m hm).rendered, fun add conn hconn => ((ih m hm).stopped add conn hconn).append e⟩
    rw [Loop.run_append]
    intro m hm
    cases e with
    | frame s p outs =>
      simp only [Loop.messages, Loop.step, ← List.append_assoc] at hm
      rcases List.mem_append.mp hm with hm | hm
      · exact old m hm
      obtain ⟨read, adds⟩ := mem_messages hm
      refine ⟨fun conn hconn => ⟨p, read ▸ hconn⟩, fun add conn hconn => ?_⟩
      exact ⟨events, _, [], rfl, read ▸ hconn, adds add⟩
    | process now again cleaned =>
      refine old m ?_
      simp only [Loop.messages, Loop.step] at hm ⊢
      split at hm
      · exact hm
      · rename_i first queue same
        rw [same]
        simpa using hm
    | lose i =>
      refine old m ?_
      simp only [Loop.messages, Loop.step, List.mem_append] at hm ⊢
      exact hm.imp_right fun hm => List.mem_of_mem_eraseIdx hm

theorem Loop.mem_messages_processed {l : Loop} {p : CaptivePortal.Packet} (h : p ∈ l.processed) :
    ⟨p.conn, p.action⟩ ∈ l.messages :=
  List.mem_append_left _ (List.mem_map.mpr ⟨p, h, rfl⟩)

/-- The sets of nft have the live redirections, whose texts can be read back. -/
theorem readable_run (texts : Ipv6Texts) (events : List Event) :
    Readable texts (CaptivePortal.Sets.empty.applyAll
      (Loop.run texts events).redirector.emitted) := by
  intro family conn hconn
  obtain ⟨step, added⟩ := CaptivePortal.run_added (Loop.run texts events).processed
  obtain ⟨hfamily, live⟩ := (step.sets family conn).mp hconn
  obtain ⟨t, ht⟩ := Dict.mem_keys.mp live
  obtain ⟨p, hp, read, -⟩ := added conn t ht
  exact ⟨hfamily, (messages_explained texts events _ (Loop.mem_messages_processed hp)).rendered
    conn read⟩

/-- What the captive portal chain and the access control let in of a known device. -/
theorem prerouting_known {s : BridgeSets} {p : Packet} {mark : Nat}
    (known : (p.etherSaddr, p.iif) ∈ s.macOnVlan) (web : p.web)
    (portal : ¬p.ipIs (fun h => h.daddr = portalIp) ∧ ¬p.ip6Is fun h => h.daddr = portalIp6)
    (hmark : s.vlanMark.get p.iif = some mark) :
    baseChain s.rules .prerouting p = some (true,
      if p.ipConn s.ipConn2mark ∨ p.ip6Conn s.ip6Conn2mark then { p with mark } else p) := by
  have enters : evalChain s.rules 15 .captivePortal p =
      some (if p.ipConn s.ipConn2mark ∨ p.ip6Conn s.ip6Conn2mark then .accept { p with mark }
        else .next p) := by
    have rule := BridgeSets.evalRule_mark hmark (evalChain s.rules 14)
    have portalIs := rule (Packet.ipIs fun h => h.daddr = portalIp)
    have portalIs6 := rule (Packet.ip6Is fun h => h.daddr = portalIp6)
    rw [if_neg portal.1] at portalIs
    rw [if_neg portal.2] at portalIs6
    have conn := rule (Packet.ipConn s.ipConn2mark)
    have conn6 := rule (Packet.ip6Conn s.ip6Conn2mark)
    show evalRules _ s.captivePortal p = _
    rw [BridgeSets.captivePortal]
    by_cases four : p.ipConn s.ipConn2mark = true
    · rw [if_pos four] at conn
      rw [evalRules_cons_accept _ _ conn, if_pos (.inl four)]
    rw [if_neg four] at conn
    rw [evalRules_cons_next _ _ conn]
    by_cases six : p.ip6Conn s.ip6Conn2mark = true
    · rw [if_pos six] at conn6
      rw [evalRules_cons_accept _ _ conn6, if_pos (.inr six)]
    · rw [if_neg six] at conn6
      rw [evalRules_cons_next _ _ conn6, evalRules_cons_next _ _ portalIs,
        evalRules_cons_next _ _ portalIs6, evalRules, if_neg (not_or.mpr ⟨four, six⟩)]
  have passes : evalChain s.rules 15 .accessControlIn p = some (.accept p) := by
    have here : Packet.macIif Packet.etherSaddr s.macOnVlan p = true := decide_eq_true known
    show evalRules _ s.accessControlIn p = _
    simp [BridgeSets.accessControlIn, evalRules, here]
  have left : evalChain s.rules 16 .prerouting p =
      some (if p.ipConn s.ipConn2mark ∨ p.ip6Conn s.ip6Conn2mark then .accept { p with mark }
        else if Packet.iifIn (s.ifs .ac) p then .accept p else .next p) := by
    show evalRules _ s.prerouting p = _
    by_cases found : p.ipConn s.ipConn2mark ∨ p.ip6Conn s.ip6Conn2mark
    · simp [BridgeSets.prerouting, evalRules, web, enters, found]
    · by_cases controlled : Packet.iifIn (s.ifs .ac) p = true <;>
        simp [BridgeSets.prerouting, evalRules, web, enters, found, controlled, passes]
  rw [baseChain, jumpStackSize, left]
  split
  · rfl
  · split <;> rfl

/-- A web request of a known device, not for the portal itself, is marked for its portal exactly
if the last message of its connection that the redirector has processed was to add it and has
not expired; and a message to add a connection comes from a request of that connection that the
access control has stopped. -/
theorem redirected_iff (texts : Ipv6Texts) (events : List Event) (s : BridgeSets) (p : Packet)
    (mark : Nat) (known : (p.etherSaddr, p.iif) ∈ s.macOnVlan) (fresh : p.mark = 0) (web : p.web)
    (portal : ¬p.ipIs (fun h => h.daddr = portalIp) ∧ ¬p.ip6Is fun h => h.daddr = portalIp6)
    (hmark : s.vlanMark.get p.iif = some mark) (nonzero : mark ≠ 0) :
    let l := Loop.run texts events
    (∃ q, baseChain (l.told texts s).rules .prerouting p = some (true, q) ∧
      (q.mark ≠ 0 ↔ ∃ conn t before m after, connection texts p = some conn ∧
        l.processed = before ++ m :: after ∧ CaptivePortal.Adds conn t m after)) ∧
    ∀ m ∈ l.processed, m.action = "add" → ∀ conn, m.conn = some conn →
      Stopped texts events conn := by
  intro l
  refine ⟨⟨_, prerouting_known (s := l.told texts s) known web portal hmark, ?_⟩,
    fun m hm add conn hconn =>
      (messages_explained texts events _ (Loop.mem_messages_processed hm)).stopped add conn hconn⟩
  have live : ∀ conn, conn ∈ CaptivePortal.Sets.empty.applyAll l.redirector.emitted conn.family ↔
      ∃ t before m after, l.processed = before ++ m :: after ∧ CaptivePortal.Adds conn t m after := by
    intro conn
    obtain ⟨step, -⟩ := CaptivePortal.run_added l.processed
    rw [Loop.redirector, step.sets, Dict.mem_keys]
    simp only [true_and, CaptivePortal.get_run]
  have found : p.ipConn (l.told texts s).ipConn2mark ∨ p.ip6Conn (l.told texts s).ip6Conn2mark ↔
      ∃ conn, connection texts p = some conn ∧
        conn ∈ CaptivePortal.Sets.empty.applyAll l.redirector.emitted conn.family :=
    (readable_run texts events).conn2mark s p
  simp only [live] at found
  split
  · rename_i inSets
    obtain ⟨conn, read, t, before, m, after, rest⟩ := found.mp inSets
    exact ⟨fun _ => ⟨conn, t, before, m, after, read, rest⟩, fun _ => nonzero⟩
  · rename_i notIn
    refine ⟨fun marked => absurd fresh marked, ?_⟩
    rintro ⟨conn, t, before, m, after, read, rest⟩
    exact absurd (found.mpr ⟨conn, read, t, before, m, after, rest⟩) notIn

end Runs

/-- Texts that are right for the addresses up to `::9`. -/
def lowTexts : Ipv6Texts where
  render b := ⟨"::" ++ toString b.toNat, by simp⟩
  read a := some (.ofNat 128 (Nat.ofDigitChars 10 (a.text.toList.drop 2) 0))
  read_render b := by
    simp [Nat.toString_eq_repr, Nat.toList_repr, Nat.ofDigitChars_ten_toDigits]

/-- A known device asks for a site that it may not reach, and the redirector hears of it. -/
def knownSets : BridgeSets :=
  { guestSets with macOnVlan := {("00:00:00:00:00:02", "eth1")} }

def knownEvents : List Event := [.frame knownSets guestRequest ["eth0"], .process 10 10 10]

theorem redirected_iff_known :
    ∃ q, baseChain ((Loop.run lowTexts knownEvents).told lowTexts knownSets).rules .prerouting
      guestRequest = some (true, q) ∧ q.mark ≠ 0 := by
  obtain ⟨⟨q, hq, marked⟩, -⟩ := redirected_iff lowTexts knownEvents knownSets guestRequest 2
    (by decide) rfl (by decide) (by decide) (by decide) (by decide)
  refine ⟨q, hq, marked.mpr ?_⟩
  refine ⟨_, 10, [], _, [], rfl, rfl, ⟨rfl, rfl, rfl⟩, by simp, fun m hm _ => ?_⟩
  rw [List.mem_singleton.mp hm]
  norm_num [CaptivePortal.redirectionExpiry]

end ElanAgent.AccessControl
