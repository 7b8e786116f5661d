import ElanAgent.CaptivePortal.Redirector

/-!
# The redirector after its nft has died

Whatever `do_redirect` writes then raises, and so does the `quit` with which
`restart_nft_process` wants to take leave of the dead process. The exception passes through
the restart, no other process is started, and the sets of nft stay what they were.
-/

namespace ElanAgent.CaptivePortal

open Net Raising

/-- nft has died, after these lines. -/
def Dead (lines : List Command) (r : Redirector) : Prop :=
  r.running = false ∧ r.emitted = lines

/-- The call returns, and an nft runs afterwards. -/
def Restarts (call : Act Unit) (r : Redirector) : Prop :=
  (exec call r).1 = .ok () ∧ (exec call r).2.running

/-- `do_redirect` gets over the loss of nft: its element is in the set if and only if it
was to be added. `sets` are those before the first line. -/
def Redirects (sets : Sets) (r : Redirector) (now again : ℚ) (conn : Connection)
    (action : String) : Prop :=
  Restarts (doRedirect now again conn action) r ∧
    (conn ∈ sets.applyAll (exec (doRedirect now again conn action) r).2.emitted conn.family ↔
      action = "add")

/-- `do_cleanup` gets over the loss of nft, and leaves nothing expired in the sets. -/
def CleansUp (sets : Sets) (r : Redirector) (now : ℚ) : Prop :=
  Restarts (doCleanup now) r ∧
    ∀ conn ∈ r.toRemove now,
      conn ∉ sets.applyAll (exec (doCleanup now) r).2.emitted conn.family

/-- The table once `do_redirect` has kept it. -/
def Redirector.registered (r : Redirector) (now : ℚ) (conn : Connection) (action : String) :
    Redirector :=
  { r with liveRedirections :=
    if action = "add" then r.liveRedirections.set conn now else r.liveRedirections.erase conn }

variable {r : Redirector} {lines : List Command}

/-! ## One call -/

theorem print_exec_dead (dead : r.running = false) (command : Command) :
    exec (print command) r = (.error .ioError, r) := by
  simp [print, dead]

theorem restart_exec_dead (dead : r.running = false) :
    exec (restartNftProcess (some 3)) r = (.error .ioError, r) := by
  rw [restartNftProcess, if_pos (by decide)]
  exact exec_bind_error (print_exec_dead dead .quit)

/-- The exception of the restart takes the place of that of the command. -/
theorem issue_exec_dead (dead : r.running = false) (retry : Act Unit) (command : Command) :
    exec (issue (do restartNftProcess (some 3); retry) command) r = (.error .ioError, r) := by
  have restart : exec (do restartNftProcess (some 3); retry) r = (.error .ioError, r) :=
    exec_bind_error (restart_exec_dead dead)
  refine exec_bind_error ?_
  rw [exec_catch, print_exec_dead dead]
  exact restart

/-- The table is changed all the same. Only what has no command to write returns. -/
theorem doRedirect_exec_dead (dead : r.running = false) (now again : ℚ) (conn : Connection)
    (action : String) :
    exec (doRedirect now again conn action) r =
      if action ≠ "add" ∧ r.liveRedirections.get conn = none then (.ok (), r)
      else (.error .ioError, r.registered now conn action) := by
  have raises (table : Dict Connection ℚ) (command : Command) :
      exec (issue (do restartNftProcess (some 3); doRedirectRetry again conn action) command)
        { r with liveRedirections := table } =
        (.error .ioError, { r with liveRedirections := table }) :=
    issue_exec_dead (by exact dead) _ command
  unfold doRedirect redirectOr register Redirector.registered
  by_cases hadd : action = "add"
  · subst hadd
    simp [raises]
  · cases hc : r.liveRedirections.get conn <;> simp [hadd, hc, raises]

theorem keeps_doRedirect (now again : ℚ) (conn : Connection) (action : String) :
    Keeps (doRedirect now again conn action) (Dead lines) := by
  intro s dead
  rw [doRedirect_exec_dead dead.1]
  split
  · exact dead
  · exact dead

theorem keeps_removeAll (now : ℚ) (conns : List Connection) :
    Keeps (removeAll now conns) (Dead lines) := by
  induction conns with
  | nil => exact keeps_pure ()
  | cons conn conns ih => exact (keeps_doRedirect now now conn "remove").then fun _ => ih

theorem keeps_doCleanup (now : ℚ) : Keeps (doCleanup now) (Dead lines) :=
  fun s dead => keeps_removeAll now (s.toRemove now) s dead

/-- A clean-up with something to remove raises at the first of it. -/
theorem doCleanup_exec_dead (dead : r.running = false) {now : ℚ}
    (expired : r.toRemove now ≠ []) : (exec (doCleanup now) r).1 = .error .ioError := by
  obtain ⟨conn, conns, cut⟩ := List.exists_cons_of_ne_nil expired
  have listed : conn ∈ r.toRemove now := cut ▸ List.mem_cons_self
  obtain ⟨⟨conn', time⟩, item, rfl⟩ := List.mem_map.mp listed
  have live := Dict.mem_items.mp (List.mem_of_mem_filter item)
  have raises := doRedirect_exec_dead dead now now conn' "remove"
  rw [if_neg (fun absent => by simp [live] at absent)] at raises
  rw [doCleanup, exec_get_bind, cut, removeAll, exec_bind_error raises]

theorem not_restarts {call : Act Unit} (keeps : Keeps call (Dead lines)) (dead : Dead lines r) :
    ¬ Restarts call r := by
  rintro ⟨-, running⟩
  rw [(keeps r dead).1] at running
  cases running

/-- From no state in which nft has died does `do_redirect` or `do_cleanup` get over it. -/
theorem not_redirects_and_not_cleansUp (dead : r.running = false) (sets : Sets) :
    (∀ now again conn action, ¬ Redirects sets r now again conn action) ∧
      ∀ now, ¬ CleansUp sets r now := by
  constructor
  · rintro now again conn action ⟨restarts, -⟩
    exact not_restarts (keeps_doRedirect now again conn action) ⟨dead, rfl⟩ restarts
  · rintro now ⟨restarts, -⟩
    exact not_restarts (keeps_doCleanup now) ⟨dead, rfl⟩ restarts

/-- The daemon as it starts, but that its nft has died. -/
def Redirector.bereft : Redirector := { Redirector.start with running := false }

theorem not_redirects_and_not_cleansUp_bereft :
    (∀ now again conn action, ¬ Redirects Sets.empty .bereft now again conn action) ∧
      ∀ now, ¬ CleansUp Sets.empty .bereft now :=
  not_redirects_and_not_cleansUp rfl Sets.empty

/-- A connection to a web server. -/
def webConnection : Connection where
  src := .ip6 ⟨"fd00::2", by decide⟩
  srcPort := 50000
  dst := .ip6 ⟨"fd00::1", by decide⟩
  dstPort := 80
  sameFamily := rfl

/-- The connection is in the table and not in the set, and the `IOError` is raised. -/
theorem doRedirect_bereft : ¬ Redirects Sets.empty .bereft 0 0 webConnection "add" := by
  rintro ⟨⟨returned, -⟩, -⟩
  rw [doRedirect_exec_dead rfl] at returned
  cases returned

/-! ## Every packet from then on -/

theorem process_dead (dead : Dead lines r) (p : Packet) : Dead lines (r.process p) := by
  unfold Redirector.process processPacket
  rw [exec_catch]
  cases p.conn with
  | none => exact dead
  | some conn =>
    have kept := (keeps_doRedirect p.now p.again conn p.action).then
      (fun _ => keeps_doCleanup p.cleaned) r dead
    split
    · rename_i ran
      rw [ran] at kept
      exact kept
    · rename_i ran
      rw [ran] at kept
      exact kept

/-- Once nft has died, the packets change nothing in its sets: whatever is in them goes on
being redirected, and whatever is added is not. -/
theorem applyAll_after_death (dead : r.running = false) (sets : Sets) (packets : List Packet) :
    (packets.foldl Redirector.process r).running = false ∧
      sets.applyAll (packets.foldl Redirector.process r).emitted = sets.applyAll r.emitted := by
  have after : Dead r.emitted (packets.foldl Redirector.process r) := by
    have start : Dead r.emitted r := ⟨dead, rfl⟩
    generalize r.emitted = lines at start
    clear dead
    induction packets generalizing r with
    | nil => exact start
    | cons p packets ih => exact ih (process_dead start p)
  exact ⟨after.1, congrArg sets.applyAll after.2⟩

end ElanAgent.CaptivePortal
