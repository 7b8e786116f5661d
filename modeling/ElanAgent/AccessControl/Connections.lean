import ElanAgent.AccessControl.Redirections

/-!
# The connections that are logged

The bridge table marks the frames from and to the interfaces of `log_ifs`, and the chain of
`table inet elan` logs a marked packet that is new to connection tracking, whose mark it puts on
the connection.

An entry of connection tracking is made when a packet of no entry has been forwarded, and is
forgotten at any time. A packet is new until one has come from the other side. `κ` stands for
the endpoints of a connection, whichever of them is the sender.
-/

namespace ElanAgent.AccessControl

open Nftables

/-- A packet in `table inet elan`: `ct state new`, and `ct mark`. -/
structure CtPacket where
  packet : Packet
  new : Bool
  ctMark : Nat
  deriving DecidableEq

/-- The chain `connections` of `table inet elan`. -/
def ctConnections (_ : Unit) : List (Rule Unit CtPacket) :=
  [[.test fun p => p.ctMark = 0x40000000, .verdict .accept],
   [.test fun p => p.packet.mark = 0x40000000, .test CtPacket.new, .log,
    .update fun p => some { p with ctMark := p.packet.mark }]]

/-- An entry of connection tracking: the side that has sent the first packet, whether the other
one has answered, and the mark. -/
structure Tracked where
  origin : Bool
  answered : Bool
  mark : Nat
  deriving DecidableEq

/-- A packet at the forward hook of the bridge, from one of the two sides of its connection,
with the sets as they are then. -/
structure Crossing (κ : Type) where
  sets : BridgeSets
  key : κ
  side : Bool
  frame : Packet
  oif : String

inductive CtEvent (κ : Type) where
  | cross (c : Crossing κ)
  | forget (key : κ)

structure Tracking (κ : Type) where
  table : κ → Option Tracked
  log : List (κ × Packet)

namespace Crossing

variable {κ : Type} (c : Crossing κ)

/-- The packet after the bridge table, if it is forwarded. -/
def sent : Option Packet :=
  (hook c.sets.rules BridgeSets.forwardHook (c.frame.towards c.oif)).bind fun r =>
    if r.1 then some r.2 else none

/-- The entry that the packet finds or begins. -/
def meets : Option Tracked → Tracked
  | some e => { e with answered := e.answered || c.side ≠ e.origin }
  | none => ⟨c.side, false, 0⟩

/-- The packet goes from or to an interface that is logged, or has their mark already. -/
def watched : Bool :=
  c.frame.mark = 0x40000000 || c.oif ∈ c.sets.ifs .log || c.frame.iif ∈ c.sets.ifs .log

/-- The packet puts the mark on the connection, where `e` is its entry. -/
def marks (e : Tracked) : Bool := c.sent.isSome && c.watched && !e.answered

/-- The entry after the packet. One that is stopped begins no entry. -/
def leaves (entry : Option Tracked) : Option Tracked :=
  let e := c.meets entry
  if entry.isSome || c.sent.isSome then
    some { e with mark := if c.marks e then 0x40000000 else e.mark }
  else none

/-- The packet as it is logged. -/
def marked : Packet := { c.frame.towards c.oif with mark := 0x40000000 }

end Crossing

namespace Tracking

variable {κ : Type} [DecidableEq κ]

def start : Tracking κ := ⟨fun _ => none, []⟩

def step (t : Tracking κ) : CtEvent κ → Tracking κ
  | .forget key => { t with table := Function.update t.table key none }
  | .cross c =>
    let e := c.meets (t.table c.key)
    match c.sent with
    | none =>
      -- a packet that is stopped begins no entry
      { t with table := Function.update t.table c.key ((t.table c.key).map fun _ => e) }
    | some q =>
      match baseChainLogged ctConnections () ⟨q, !e.answered, e.mark⟩ with
      | some (true, p, logged) =>
        { table := Function.update t.table c.key (some { e with mark := p.ctMark })
          log := t.log ++ logged.map fun l => (c.key, l.packet) }
      | _ => t

def run (events : List (CtEvent κ)) : Tracking κ := events.foldl step start

theorem run_snoc (events : List (CtEvent κ)) (e : CtEvent κ) :
    run (events ++ [e]) = (run events).step e := by
  simp [run]

end Tracking

/-! ## What a packet does -/

section Chains

variable {κ : Type} {c : Crossing κ} {q : Packet}

/-- The chain logs a marked packet that is new, unless the connection has the mark. -/
theorem ctConnections_logged (q : Packet) (new : Bool) (mark : Nat) :
    baseChainLogged ctConnections () ⟨q, new, mark⟩ =
      if mark ≠ 0x40000000 ∧ q.mark = 0x40000000 ∧ new then
        some (true, ⟨q, new, 0x40000000⟩, [⟨q, new, mark⟩])
      else some (true, ⟨q, new, mark⟩, []) := by
  have chain : evalChain (traced ctConnections) 16 () (⟨q, new, mark⟩, []) =
      if mark = 0x40000000 then some (.accept (⟨q, new, mark⟩, []))
      else if q.mark = 0x40000000 ∧ new then
        some (.next (⟨q, new, 0x40000000⟩, [⟨q, new, mark⟩]))
      else some (.next (⟨q, new, mark⟩, [])) := by
    show evalRules _ (traced ctConnections ()) _ = _
    simp only [traced, ctConnections, List.map_cons, List.map_nil, Statement.traced, evalRules,
      evalRule, Verdict.follow]
    by_cases onConnection : mark = 0x40000000
    · simp [onConnection]
    by_cases onPacket : q.mark = 0x40000000
    · cases new <;> simp [onConnection, onPacket]
    · simp [onConnection, onPacket]
  unfold baseChainLogged baseChain jumpStackSize
  rw [chain]
  by_cases onConnection : mark = 0x40000000
  · simp [onConnection]
  by_cases opens : q.mark = 0x40000000 ∧ new
  · simp [onConnection, opens]
  · simp [onConnection, opens]

theorem connections_marks (s : BridgeSets) (p : Packet) :
    baseChain s.rules .connections p =
      some (true, if p.oifIn (s.ifs .log) || p.iifIn (s.ifs .log) then
        { p with mark := 0x40000000 } else p) := by
  have left : evalChain s.rules 16 .connections p =
      if p.oifIn (s.ifs .log) || p.iifIn (s.ifs .log) then
        some (.accept { p with mark := 0x40000000 }) else some (.next p) := by
    show evalRules _ s.connections p = _
    simp only [BridgeSets.connections, evalRules, evalRule, Verdict.follow]
    by_cases out : p.oifIn (s.ifs .log) = true
    · simp [out]
    · by_cases inward : p.iifIn (s.ifs .log) = true <;> simp [out, inward]
  unfold baseChain jumpStackSize
  rw [left]
  split <;> rfl

/-- The other chains of the hook change no frame. -/
theorem Crossing.sent_eq (h : c.sent = some q) :
    q = if c.watched then c.marked else c.frame.towards c.oif := by
  obtain ⟨passed, forward⟩ : ∃ passed, baseChain c.sets.rules .forward
      (c.frame.towards c.oif) = some (passed, c.frame.towards c.oif) := by
    rw [← baseChainLogged_fst]
    rcases BridgeSets.forward_logged (s := c.sets) (c.frame.towards c.oif) with h | h
    · exact ⟨true, by rw [h]; rfl⟩
    · exact ⟨false, by rw [h]; rfl⟩
  cases passed with
  | false => simp [Crossing.sent, hook, BridgeSets.forwardHook, forward] at h
  | true =>
    simp only [Crossing.sent, hook, BridgeSets.forwardHook, forward, BridgeSets.ids_passes,
      connections_marks, Option.bind_some, if_true, Option.some.injEq] at h
    rw [← h]
    have outward : (c.frame.towards c.oif).oifIn (c.sets.ifs .log) =
        decide (c.oif ∈ c.sets.ifs .log) := rfl
    have inward : (c.frame.towards c.oif).iifIn (c.sets.ifs .log) =
        decide (c.frame.iif ∈ c.sets.ifs .log) := rfl
    rw [outward, inward]
    by_cases logs :
        (decide (c.oif ∈ c.sets.ifs .log) || decide (c.frame.iif ∈ c.sets.ifs .log)) = true
    · have watched : c.watched = true := by
        simp only [Crossing.watched, Bool.or_assoc, logs, Bool.or_true]
      rw [if_pos logs, if_pos watched]
      rfl
    · rw [if_neg logs]
      by_cases already : c.frame.mark = 0x40000000
      · have watched : c.watched = true := by simp [Crossing.watched, already]
        rw [if_pos watched]
        unfold Crossing.marked
        rw [← already]
        rfl
      · have unwatched : ¬c.watched = true := by
          simpa [Crossing.watched, already] using logs
        rw [if_neg unwatched]

theorem Crossing.mark_sent (h : c.sent = some q) : q.mark = 0x40000000 ↔ c.watched = true := by
  rw [Crossing.sent_eq h]
  by_cases watched : c.watched = true
  · simp [watched, Crossing.marked]
  · have other : c.frame.mark ≠ 0x40000000 := fun same => watched (by simp [Crossing.watched, same])
    simpa [watched, Packet.towards] using other

end Chains

/-! ## The life of an entry -/

section Lives

variable {κ : Type}

def lifeStep [DecidableEq κ] (key : κ) (packets : List (Crossing κ)) :
    CtEvent κ → List (Crossing κ)
  | .cross c => if c.key = key then packets ++ [c] else packets
  | .forget key' => if key' = key then [] else packets

/-- The packets of a connection since its entry was forgotten. -/
def life [DecidableEq κ] (key : κ) (events : List (CtEvent κ)) : List (Crossing κ) :=
  events.foldl (lifeStep key) []

/-- The packets of a life from the one that begins the entry. -/
def known (packets : List (Crossing κ)) : List (Crossing κ) :=
  packets.dropWhile fun c => c.sent.isNone

/-- Both sides have sent a packet. -/
def answered (packets : List (Crossing κ)) : Bool :=
  (known packets).any fun c => (known packets).head?.any fun first => c.side ≠ first.side

/-- The first packet of a life that is forwarded from or to a logged interface before an
answer, where `before` are the packets before. -/
def openingAfter (before : List (Crossing κ)) : List (Crossing κ) → Option (Crossing κ)
  | [] => none
  | c :: rest =>
    if c.sent.isSome && c.watched && !answered (before ++ [c]) then some c
    else openingAfter (before ++ [c]) rest

def opening (packets : List (Crossing κ)) : Option (Crossing κ) := openingAfter [] packets

/-- The entry after the packets of a life. -/
def entryOf (packets : List (Crossing κ)) : Option Tracked :=
  (known packets).head?.map fun first =>
    ⟨first.side, answered packets, if (opening packets).isSome then 0x40000000 else 0⟩

theorem life_snoc [DecidableEq κ] (key : κ) (events : List (CtEvent κ)) (e : CtEvent κ) :
    life key (events ++ [e]) = lifeStep key (life key events) e := by
  simp [life]

variable {packets : List (Crossing κ)} {c : Crossing κ} {first : Crossing κ}

theorem opening_snoc (packets : List (Crossing κ)) (c : Crossing κ) :
    opening (packets ++ [c]) = (opening packets).or
      (if c.sent.isSome && c.watched && !answered (packets ++ [c]) then some c else none) := by
  have after (before : List (Crossing κ)) : openingAfter before (packets ++ [c]) =
      (openingAfter before packets).or (if c.sent.isSome && c.watched &&
        !answered (before ++ packets ++ [c]) then some c else none) := by
    induction packets generalizing before with
    | nil => simp [openingAfter]
    | cons d packets ih =>
      rw [List.cons_append, openingAfter, openingAfter, ih (before ++ [d])]
      split
      · rfl
      · simp
  exact after []

/-- Before an entry is begun, a packet begins it if it is forwarded. -/
theorem known_snoc_nil (h : known packets = []) (c : Crossing κ) :
    known (packets ++ [c]) = if c.sent.isSome then [c] else [] := by
  unfold known at h ⊢
  rw [List.dropWhile_append, h]
  cases hc : c.sent <;> simp [hc]

theorem known_snoc_cons (h : (known packets).head? = some first) (c : Crossing κ) :
    known (packets ++ [c]) = known packets ++ [c] := by
  have begun : (known packets).isEmpty = false := by
    cases hk : known packets with
    | nil => simp [hk] at h
    | cons => rfl
  unfold known at begun ⊢
  rw [List.dropWhile_append, begun]
  rfl

theorem answered_snoc (h : (known packets).head? = some first) (c : Crossing κ) :
    answered (packets ++ [c]) = (answered packets || c.side ≠ first.side) := by
  have head : (known packets ++ [c]).head? = some first := by
    rw [List.head?_append, h]
    rfl
  unfold answered
  rw [known_snoc_cons h, head, h, List.any_append]
  simp

theorem answered_snoc_nil (h : known packets = []) (c : Crossing κ) :
    answered (packets ++ [c]) = false := by
  unfold answered
  rw [known_snoc_nil h]
  cases c.sent <;> simp

/-- What is not forwarded has not opened anything. -/
theorem opening_of_unknown (h : known packets = []) : opening packets = none := by
  induction packets using List.reverseRecOn with
  | nil => rfl
  | append_singleton packets c ih =>
    have stopped : ∀ d ∈ packets ++ [c], d.sent.isNone = true := List.dropWhile_eq_nil_iff.mp h
    have before : known packets = [] :=
      List.dropWhile_eq_nil_iff.mpr fun d hd => stopped d (List.mem_append_left _ hd)
    have here : c.sent.isSome = false := by
      have := stopped c (by simp)
      simpa using this
    rw [opening_snoc, ih before, here]
    rfl

theorem answered_meets (packets : List (Crossing κ)) (c : Crossing κ) :
    (c.meets (entryOf packets)).answered = answered (packets ++ [c]) := by
  cases first : (known packets).head? with
  | none =>
    rw [answered_snoc_nil (List.head?_eq_none_iff.mp first)]
    simp [entryOf, first, Crossing.meets]
  | some first' => simp [answered_snoc first, entryOf, first, Crossing.meets]

theorem mark_meets (packets : List (Crossing κ)) (c : Crossing κ) :
    (c.meets (entryOf packets)).mark = if (opening packets).isSome then 0x40000000 else 0 := by
  cases first : (known packets).head? with
  | none =>
    rw [opening_of_unknown (List.head?_eq_none_iff.mp first)]
    simp [entryOf, first, Crossing.meets]
  | some first' => simp [entryOf, first, Crossing.meets]

/-- The entry that the packet leaves is that of the life with the packet. -/
theorem entryOf_snoc (packets : List (Crossing κ)) (c : Crossing κ) :
    entryOf (packets ++ [c]) = c.leaves (entryOf packets) := by
  cases first : (known packets).head? with
  | none =>
    have unknown : known packets = [] := List.head?_eq_none_iff.mp first
    have untracked : entryOf packets = none := by simp [entryOf, first]
    rw [untracked, entryOf, known_snoc_nil unknown, opening_snoc, opening_of_unknown unknown,
      answered_snoc_nil unknown]
    cases hc : c.sent with
    | none => simp [Crossing.leaves, hc]
    | some q =>
      cases hw : c.watched <;> simp [Crossing.leaves, Crossing.marks, Crossing.meets, hc, hw]
  | some first' =>
    have head : (known (packets ++ [c])).head? = some first' := by
      rw [known_snoc_cons first, List.head?_append, first]
      rfl
    have tracked : entryOf packets = some ⟨first'.side, answered packets,
        if (opening packets).isSome then 0x40000000 else 0⟩ := by simp [entryOf, first]
    rw [tracked, entryOf, head, opening_snoc, answered_snoc first]
    let replied := answered packets || decide (c.side ≠ first'.side)
    let opens := c.sent.isSome && c.watched && !replied
    show some (Tracked.mk first'.side replied (if ((opening packets).or
        (if opens then some c else none)).isSome then 0x40000000 else 0)) =
      some (Tracked.mk first'.side replied (if opens then 0x40000000
        else if (opening packets).isSome then 0x40000000 else 0))
    cases opening packets <;> cases opens <;> rfl

end Lives

/-! ## The log of a run -/

section Runs

variable {κ : Type} [DecidableEq κ]

/-- A packet is logged when it puts the mark on a connection that has not got it. -/
theorem step_cross (t : Tracking κ) (c : Crossing κ) :
    t.step (.cross c) =
      { table := Function.update t.table c.key (c.leaves (t.table c.key))
        log := t.log ++
          if c.marks (c.meets (t.table c.key)) &&
            (c.meets (t.table c.key)).mark ≠ 0x40000000 then [(c.key, c.marked)] else [] } := by
  generalize entry : t.table c.key = found
  cases hc : c.sent with
  | none =>
    have left : c.leaves found = found.map fun _ => c.meets found := by
      cases found <;> simp [Crossing.leaves, Crossing.marks, hc]
    simp [Tracking.step, Crossing.marks, hc, entry, left]
  | some q =>
    have mark := Crossing.mark_sent hc
    have sent := Crossing.sent_eq hc
    have already : c.marked.mark = 0x40000000 := rfl
    simp only [Tracking.step, entry, hc, ctConnections_logged]
    cases hw : c.watched with
    | false => simp [hw, mark, Crossing.leaves, Crossing.marks, hc]
    | true =>
      simp only [hw, if_true] at sent
      cases ha : (c.meets found).answered with
      | true => simp [hw, mark, ha, Crossing.leaves, Crossing.marks, hc]
      | false =>
        by_cases hm : (c.meets found).mark = 0x40000000 <;>
          simp [hw, already, ha, hm, Crossing.leaves, Crossing.marks, hc, sent]

theorem table_run (events : List (CtEvent κ)) (key : κ) :
    (Tracking.run events).table key = entryOf (life key events) := by
  induction events using List.reverseRecOn with
  | nil => rfl
  | append_singleton events e ih =>
    rw [Tracking.run_snoc, life_snoc]
    cases e with
    | forget key' =>
      by_cases same : key' = key
      · subst same
        simp [Tracking.step, lifeStep, entryOf, known]
      · simp [Tracking.step, lifeStep, same, Ne.symm same, ih]
    | cross c =>
      rw [step_cross]
      by_cases same : c.key = key
      · subst same
        simp [lifeStep, entryOf_snoc, ih]
      · simp [lifeStep, same, Ne.symm same, ih]

/-- In each life of its entry a connection is logged once at most: at its first packet that is
forwarded from or to a logged interface, unless both sides have sent by then. -/
theorem connections_logged {key : κ} {past events : List (CtEvent κ)}
    (fresh : life key past = []) (kept : .forget key ∉ events) :
    (Tracking.run (past ++ events)).log.filter (·.1 = key) =
      (Tracking.run past).log.filter (·.1 = key) ++
        ((opening (life key (past ++ events))).map fun c => (key, c.marked)).toList := by
  induction events using List.reverseRecOn with
  | nil => simp [fresh, opening, openingAfter]
  | append_singleton events e ih =>
    have before := ih fun h => kept (List.mem_append_left _ h)
    rw [← List.append_assoc, Tracking.run_snoc, life_snoc]
    cases e with
    | forget key' =>
      have other : key' ≠ key := by
        rintro rfl
        exact kept (by simp)
      simpa [Tracking.step, lifeStep, other] using before
    | cross c =>
      rw [step_cross, List.filter_append, before, List.append_assoc]
      refine congrArg _ ?_
      by_cases same : c.key = key
      · subst same
        rw [table_run, mark_meets, lifeStep, if_pos rfl, opening_snoc, Crossing.marks,
          answered_meets]
        cases opening (life c.key (past ++ events)) <;>
          by_cases opens : (c.sent.isSome && c.watched &&
            !answered (life c.key (past ++ events) ++ [c])) = true <;>
          simp [opens]
      · simp only [lifeStep, same, if_false]
        split <;> simp [same]

/-- A connection over an interface that is logged. -/
def overLogged (side : Bool) : Crossing Unit where
  sets := { twoVlans with ifs := fun set => if set = .log then {"eth1.10"} else ∅ }
  key := ()
  side := side
  frame := ⟨if side then "eth1.10" else "eth1.20", none, 0, "00:00:00:00:00:01",
    "00:00:00:00:00:02", etherIp, none, none, none⟩
  oif := if side then "eth1.20" else "eth1.10"

/-- It is logged again after it has been forgotten, and not when it is tried again. -/
theorem connections_logged_retried :
    let past := [.cross (overLogged true), .cross (overLogged false), .forget ()]
    let events := [.cross (overLogged true), .cross (overLogged true), .cross (overLogged false)]
    (Tracking.run (past ++ events)).log.filter (·.1 = ()) =
      (Tracking.run past).log.filter (·.1 = ()) ++ [((), (overLogged true).marked)] := by
  intro past events
  have opens : opening (life () (past ++ events)) = some (overLogged true) := by
    have sent : (overLogged true).sent.isSome = true := by decide
    have watched : (overLogged true).watched = true := by decide
    have alone : answered ([] ++ [overLogged true]) = false := answered_snoc_nil rfl _
    have lives : life () (past ++ events) =
        [overLogged true, overLogged true, overLogged false] := rfl
    rw [lives, opening, openingAfter, sent, watched, alone]
    rfl
  rw [connections_logged rfl (by simp [events]), opens]
  rfl

end Runs

end ElanAgent.AccessControl
