import ElanAgent.Library.Dict
import ElanAgent.Library.Raising
import ElanAgent.Net.Address
import Mathlib.Data.Finset.Basic
import Mathlib.Data.Rat.Defs

/-!
# The redirector of the captive portal

`bin/redirector.py` marks the connections that the firewall queues to it, by commands to
an interactive `nft`, and takes the mark back after a minute. It cannot read the sets of
nft, so it keeps the time at which it last added each connection.

Every write is on the standard input of the current process and raises once that process
has died. A run of the daemon is a list of packets, each with the readings of the clock
that its processing makes.
-/

namespace ElanAgent.CaptivePortal

open Net Raising

/-- The 4-tuple of a packet, in one family. -/
structure Connection where
  src : Address
  srcPort : Nat
  dst : Address
  dstPort : Nat
  sameFamily : src.family = dst.family
  deriving DecidableEq

def Connection.family (conn : Connection) : Family := conn.src.family

/-- A line on the standard input of `nft -i`: `add element` and `delete element` on
`ip_conn2mark` or `ip6_conn2mark`, and `quit`. -/
inductive Command where
  | add (family : Family) (conn : Connection)
  | delete (family : Family) (conn : Connection)
  | quit
  deriving DecidableEq

inductive RedirectError where
  | ioError
  | typeError
  | attributeError
  deriving DecidableEq

/-- What reaches `process_packet`. There is no connection to read from a packet that has
no ports, and reading one raises. `again` is the reading of the clock in a second attempt. -/
structure Packet where
  conn : Option Connection
  action : String
  now : ℚ
  again : ℚ
  cleaned : ℚ

/-- The daemon: whether its `nft` runs, `cmd_count`, `live_redirections`, every line that
it has written, oldest first, and the packets whose exceptions it has notified. -/
structure Redirector where
  running : Bool
  cmdCount : Nat
  liveRedirections : Dict Connection ℚ
  emitted : List Command
  notified : List Packet

/-- `REDIRECTION_EXPIRY`. -/
def redirectionExpiry : ℚ := 60

abbrev Act := Raising RedirectError Redirector

/-- `print(…, file=self.nft_process.stdin, flush=True)`. -/
def print (command : Command) : Act Unit := do
  let r ← get
  if r.running then set { r with emitted := r.emitted ++ [command] } else throw .ioError

/-- `self.nft_process = self.start_nft_process()`. -/
def startNftProcess : Act Unit := modify fun r => { r with running := true }

/-- Replace the process, which is left to quit unless the timeout is zero. -/
def restartNftProcess (timeout : Option Nat) : Act Unit := do
  if timeout ≠ some 0 then print .quit
  modify fun r => { r with cmdCount := 0 }
  startNftProcess

/-- The first part of `do_redirect`: keep the table, and choose the command. -/
def register (now : ℚ) (conn : Connection) (action : String) : Act (Option Command) := do
  let family := if ':' ∈ conn.src.text.toList then Family.ip6 else .ip
  let r ← get
  if action = "add" then
    set { r with liveRedirections := r.liveRedirections.set conn now }
    pure (some (.add family conn))
  else if (r.liveRedirections.get conn).isSome then
    set { r with liveRedirections := r.liveRedirections.erase conn }
    pure (some (.delete family conn))
  else pure none

/-- The second part: issue the command, `onIOError` being what is tried when nft is gone. -/
def issue (onIOError : Act Unit) (command : Command) : Act Unit := do
  tryCatch (print command) fun e => match e with
    | .ioError => onIOError
    | e => throw e
  modify fun r => { r with cmdCount := r.cmdCount + 1 }
  let r ← get
  if r.cmdCount > 100 then restartNftProcess (some 3)

def redirectOr (onIOError : Act Unit) (now : ℚ) (conn : Connection) (action : String) :
    Act Unit := do
  match ← register now conn action with
  | some command => issue onIOError command
  | none => pure ()

/-- `do_redirect` with `is_retry`: `terminate` takes no timeout, so that giving up raises
a `TypeError`. -/
def doRedirectRetry (now : ℚ) (conn : Connection) (action : String) : Act Unit :=
  redirectOr (throw .typeError) now conn action

def doRedirect (now again : ℚ) (conn : Connection) (action : String) : Act Unit :=
  redirectOr (do restartNftProcess (some 3); doRedirectRetry again conn action) now conn action

/-- The connections that `do_cleanup` removes. -/
def Redirector.toRemove (r : Redirector) (now : ℚ) : List Connection :=
  (r.liveRedirections.items.filter fun e => e.2 + redirectionExpiry < now).map Prod.fst

def removeAll (now : ℚ) : List Connection → Act Unit
  | [] => pure ()
  | conn :: conns => do
    doRedirect now now conn "remove"
    removeAll now conns

def doCleanup (now : ℚ) : Act Unit := do
  let r ← get
  removeAll now (r.toRemove now)

def processPacket (p : Packet) : Act Unit :=
  tryCatch (do
    match p.conn with
    | none => throw .attributeError
    | some conn =>
      doRedirect p.now p.again conn p.action
      doCleanup p.cleaned)
    fun _ => modify fun r => { r with notified := r.notified ++ [p] }

def Redirector.start : Redirector where
  running := true
  cmdCount := 0
  liveRedirections := .empty
  emitted := []
  notified := []

def Redirector.process (r : Redirector) (p : Packet) : Redirector :=
  (Raising.exec (processPacket p) r).2

/-- The daemon after the packets, in order. -/
def Redirector.run (packets : List Packet) : Redirector :=
  packets.foldl Redirector.process .start

/-! ## What the calls do while nft runs -/

/-- The command is written and counted, and the process replaced after a hundred. -/
def Redirector.written (r : Redirector) (command : Command) : Redirector :=
  if r.cmdCount + 1 > 100 then
    { r with cmdCount := 0, emitted := r.emitted ++ [command, .quit] }
  else { r with cmdCount := r.cmdCount + 1, emitted := r.emitted ++ [command] }

/-- The table and the commands after a redirection. -/
def Redirector.redirected (r : Redirector) (now : ℚ) (conn : Connection) (action : String) :
    Redirector :=
  if action = "add" then
    { r with liveRedirections := r.liveRedirections.set conn now }.written (.add conn.family conn)
  else if (r.liveRedirections.get conn).isSome then
    { r with liveRedirections := r.liveRedirections.erase conn }.written
      (.delete conn.family conn)
  else r

variable {r : Redirector}

theorem print_exec (h : r.running) (command : Command) :
    exec (print command) r = (.ok (), { r with emitted := r.emitted ++ [command] }) := by
  simp [print, h]

theorem restart_exec (h : r.running) :
    exec (restartNftProcess (some 3)) r =
      (.ok (), { r with cmdCount := 0, emitted := r.emitted ++ [.quit] }) := by
  have quit := print_exec h .quit
  rw [restartNftProcess, if_pos (by decide), exec_bind_ok quit]
  simp [startNftProcess, h]

theorem issue_exec (h : r.running) (onIOError : Act Unit) (command : Command) :
    exec (issue onIOError command) r = (.ok (), r.written command) := by
  have print := exec_catch_ok (print_exec h command) fun e => match e with
    | .ioError => onIOError
    | e => throw e
  rw [issue, exec_bind_ok print, exec_modify_bind, exec_get_bind, Redirector.written]
  split
  · rw [restart_exec (by exact h)]
    simp
  · rfl

theorem family_eq (conn : Connection) :
    (if ':' ∈ conn.src.text.toList then Family.ip6 else .ip) = conn.family := by
  have colon := conn.src.colon_mem_text
  unfold Connection.family
  cases hf : conn.src.family <;> simp [colon, hf]

theorem redirectOr_exec (h : r.running) (onIOError : Act Unit) (now : ℚ) (conn : Connection)
    (action : String) :
    exec (redirectOr onIOError now conn action) r = (.ok (), r.redirected now conn action) := by
  have registered (table : Dict Connection ℚ) (command : Command) :
      exec (issue onIOError command) { r with liveRedirections := table } =
        (.ok (), { r with liveRedirections := table }.written command) :=
    issue_exec (by exact h) onIOError command
  unfold redirectOr register Redirector.redirected
  simp only [family_eq]
  by_cases hadd : action = "add"
  · simp [hadd, registered]
  · cases hc : r.liveRedirections.get conn <;> simp [hadd, hc, registered]

theorem doRedirect_exec (h : r.running) (now again : ℚ) (conn : Connection) (action : String) :
    exec (doRedirect now again conn action) r = (.ok (), r.redirected now conn action) :=
  redirectOr_exec h _ now conn action

/-! ## The sets of nft -/

/-- `ip_conn2mark` and `ip6_conn2mark`. -/
abbrev Sets := Family → Finset Connection

def Sets.empty : Sets := fun _ => ∅

def Command.apply (sets : Sets) : Command → Sets
  | .add family conn => Function.update sets family (insert conn (sets family))
  | .delete family conn => Function.update sets family ((sets family).erase conn)
  | .quit => sets

def Sets.applyAll (sets : Sets) (commands : List Command) : Sets :=
  commands.foldl Command.apply sets

/-- A command that nft does not refuse: what it deletes is there. -/
def Command.Legal (sets : Sets) : Command → Prop
  | .delete family conn => conn ∈ sets family
  | _ => True

/-- Every command is legal where it is applied. -/
def Sets.AllLegal (sets : Sets) : List Command → Prop
  | [] => True
  | c :: commands => c.Legal sets ∧ AllLegal (c.apply sets) commands

theorem applyAll_append (sets : Sets) (l l' : List Command) :
    sets.applyAll (l ++ l') = (sets.applyAll l).applyAll l' := List.foldl_append

theorem allLegal_append {sets : Sets} {l l' : List Command} :
    sets.AllLegal (l ++ l') ↔ sets.AllLegal l ∧ (sets.applyAll l).AllLegal l' := by
  induction l generalizing sets with
  | nil => simp [Sets.AllLegal, Sets.applyAll]
  | cons c l ih =>
    simp only [List.cons_append, Sets.AllLegal, ih, and_assoc]
    rfl

/-- nft runs, was never told to delete what it lacks, and has what the table has. -/
structure InStep (r : Redirector) : Prop where
  running : r.running
  legal : Sets.empty.AllLegal r.emitted
  sets : ∀ family conn, conn ∈ Sets.empty.applyAll r.emitted family ↔
    conn.family = family ∧ conn ∈ r.liveRedirections.keys

theorem inStep_start : InStep .start := ⟨rfl, trivial, by simp [Redirector.start, Sets.applyAll,
  Sets.empty, Dict.keys, Dict.empty]⟩

theorem written_table (r : Redirector) (command : Command) :
    (r.written command).liveRedirections = r.liveRedirections := by
  unfold Redirector.written
  split <;> rfl

/-- A redirection adds its connection at most. -/
theorem redirected_table {r : Redirector} {now t : ℚ} {conn conn' : Connection}
    {action : String} (ht : (r.redirected now conn action).liveRedirections.get conn' = some t) :
    r.liveRedirections.get conn' = some t ∨ conn' = conn ∧ action = "add" ∧ t = now := by
  unfold Redirector.redirected at ht
  split at ht
  · rw [written_table, Dict.get_set] at ht
    split at ht
    · exact .inr ⟨‹_›, ‹_›, (Option.some.inj ht).symm⟩
    · exact .inl ht
  · split at ht
    · rw [written_table, Dict.get_erase] at ht
      split at ht
      · cases ht
      · exact .inl ht
    · exact .inl ht

/-- A legal command keeps the sets in step with the table that it brings them to. -/
theorem InStep.written (h : InStep r) {command : Command} {table : Dict Connection ℚ}
    (legal : command.Legal (Sets.empty.applyAll r.emitted))
    (sets : ∀ family conn, conn ∈ command.apply (Sets.empty.applyAll r.emitted) family ↔
      conn.family = family ∧ conn ∈ table.keys) :
    InStep ({ r with liveRedirections := table }.written command) := by
  unfold Redirector.written
  split
  · exact ⟨h.running, allLegal_append.mpr ⟨h.legal, legal, trivial, trivial⟩,
      fun family conn => by rw [applyAll_append]; exact sets family conn⟩
  · exact ⟨h.running, allLegal_append.mpr ⟨h.legal, legal, trivial⟩,
      fun family conn => by rw [applyAll_append]; exact sets family conn⟩

theorem InStep.redirected (h : InStep r) (now : ℚ) (conn : Connection) (action : String) :
    InStep (r.redirected now conn action) := by
  have before := h.sets
  unfold Redirector.redirected
  split
  · refine h.written trivial fun family conn' => ?_
    rw [Command.apply, Function.update_apply, Dict.mem_keys_set]
    by_cases hf : family = conn.family
    · subst hf
      rw [if_pos rfl, Finset.mem_insert, before]
      grind
    · rw [if_neg hf, before]
      grind
  · split
    · rename_i present
      have live : conn ∈ r.liveRedirections.keys :=
        Dict.mem_keys.mpr (Option.isSome_iff_exists.mp present)
      refine h.written ((before _ _).mpr ⟨rfl, live⟩) fun family conn' => ?_
      rw [Command.apply, Function.update_apply, Dict.mem_keys_erase]
      by_cases hf : family = conn.family
      · subst hf
        rw [if_pos rfl, Finset.mem_erase, before]
        grind
      · rw [if_neg hf, before]
        grind
    · exact h

/-! ## The clean-up -/

theorem redirected_remove (r : Redirector) (now : ℚ) (conn conn' : Connection) :
    (r.redirected now conn "remove").liveRedirections.get conn' =
      if conn' = conn then none else r.liveRedirections.get conn' := by
  unfold Redirector.redirected
  rw [if_neg (by decide)]
  split
  · rw [written_table, Dict.get_erase]
  · rename_i absent
    have hc := Option.not_isSome_iff_eq_none.mp absent
    split
    · rw [‹conn' = conn›, hc]
    · rfl

/-- The clean-up stays in step, and takes exactly the given connections away. -/
theorem removeAll_exec (h : InStep r) (now : ℚ) (conns : List Connection) :
    ∃ r', exec (removeAll now conns) r = (.ok (), r') ∧ InStep r' ∧
      ∀ conn, r'.liveRedirections.get conn =
        if conn ∈ conns then none else r.liveRedirections.get conn := by
  induction conns generalizing r with
  | nil => exact ⟨r, rfl, h, by simp⟩
  | cons conn conns ih =>
    obtain ⟨r', removed, step, table⟩ := ih (h.redirected now conn "remove")
    refine ⟨r', ?_, step, fun conn' => ?_⟩
    · rw [removeAll, exec_bind_ok (doRedirect_exec h.running now now conn "remove")]
      exact removed
    · rw [table, redirected_remove]
      simp only [List.mem_cons]
      split_ifs <;> grind

/-- What the clean-up leaves is not expired. -/
theorem doCleanup_exec (h : InStep r) (now : ℚ) :
    ∃ r', exec (doCleanup now) r = (.ok (), r') ∧ InStep r' ∧
      ∀ conn t, r'.liveRedirections.get conn = some t →
        r.liveRedirections.get conn = some t ∧ now ≤ t + redirectionExpiry := by
  obtain ⟨r', removed, step, table⟩ := removeAll_exec h now (r.toRemove now)
  refine ⟨r', removed, step, fun conn t ht => ?_⟩
  rw [table] at ht
  split at ht
  · cases ht
  · rename_i kept
    refine ⟨ht, Rat.not_lt.mp fun expired => kept ?_⟩
    exact List.mem_map.mpr ⟨(conn, t),
      List.mem_filter.mpr ⟨Dict.mem_items.mpr ht, decide_eq_true expired⟩, rfl⟩

/-! ## Runs -/

/-- One packet: the sets follow the table, whose entries are old ones or the packet's, and
fresh if it had a connection. -/
theorem process_effect (h : InStep r) (p : Packet) : InStep (r.process p) ∧
    ∀ conn t, (r.process p).liveRedirections.get conn = some t →
      (r.liveRedirections.get conn = some t ∨
        p.conn = some conn ∧ p.action = "add" ∧ t = p.now) ∧
      (p.conn ≠ none → p.cleaned ≤ t + redirectionExpiry) := by
  cases hc : p.conn with
  | none =>
    have same : r.process p = { r with notified := r.notified ++ [p] } := by
      rw [Redirector.process, processPacket, hc]
      rfl
    rw [same]
    exact ⟨⟨h.running, h.legal, h.sets⟩, fun conn t ht => ⟨.inl ht, by simp⟩⟩
  | some conn =>
    obtain ⟨r', cleaned, step, table⟩ :=
      doCleanup_exec (h.redirected p.now conn p.action) p.cleaned
    have both := (exec_bind_ok (f := fun _ => doCleanup p.cleaned)
      (doRedirect_exec h.running p.now p.again conn p.action)).trans cleaned
    have same : r.process p = r' := by
      rw [Redirector.process, processPacket, hc]
      exact congrArg Prod.snd (exec_catch_ok both _)
    rw [same]
    refine ⟨step, fun conn' t ht => ?_⟩
    obtain ⟨before, fresh⟩ := table conn' t ht
    refine ⟨(redirected_table before).imp_right ?_, fun _ => fresh⟩
    rintro ⟨rfl, added⟩
    exact ⟨rfl, added⟩

/-- Every live redirection comes from a packet that added it. -/
theorem run_added (packets : List Packet) :
    InStep (.run packets) ∧ ∀ conn t, (Redirector.run packets).liveRedirections.get conn = some t →
      ∃ p ∈ packets, p.conn = some conn ∧ p.action = "add" ∧ t = p.now := by
  induction packets using List.reverseRecOn with
  | nil => exact ⟨inStep_start, by simp [Redirector.run, Redirector.start]⟩
  | append_singleton packets p ih =>
    obtain ⟨before, added⟩ := ih
    obtain ⟨step, table⟩ := process_effect before p
    rw [Redirector.run, List.foldl_append]
    refine ⟨step, fun conn t ht => ?_⟩
    obtain ⟨old | new, -⟩ := table conn t ht
    · obtain ⟨q, hq, rest⟩ := added conn t old
      exact ⟨q, List.mem_append_left _ hq, rest⟩
    · exact ⟨p, by simp, new⟩

/-- After every packet the sets of nft have the live redirections, each in the set of its
family; nothing was deleted that was not there; and every live redirection was last added
within the minute before the packet. -/
theorem sets_are_live (packets : List Packet) :
    let r := Redirector.run packets
    Sets.empty.AllLegal r.emitted ∧
    (∀ family conn, conn ∈ Sets.empty.applyAll r.emitted family ↔
      conn.family = family ∧ conn ∈ r.liveRedirections.keys) ∧
    ∀ last ∈ packets.getLast?, last.conn ≠ none → ∀ conn ∈ r.liveRedirections.keys,
      ∃ p ∈ packets, p.conn = some conn ∧ p.action = "add" ∧
        last.cleaned ≤ p.now + redirectionExpiry := by
  obtain ⟨step, added⟩ := run_added packets
  refine ⟨step.legal, step.sets, fun last hlast hconn conn live => ?_⟩
  obtain ⟨t, ht⟩ := Dict.mem_keys.mp live
  obtain ⟨p, hp, hc, hadd, rfl⟩ := added conn t ht
  refine ⟨p, hp, hc, hadd, ?_⟩
  obtain ⟨earlier, rfl⟩ := List.getLast?_eq_some_iff.mp hlast
  rw [Redirector.run, List.foldl_append] at ht
  exact ((process_effect (run_added earlier).1 last).2 conn _ ht).2 hconn

end ElanAgent.CaptivePortal
