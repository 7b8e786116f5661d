import ElanAgent.Nac.Operations

/-!
# Concurrent logins

`newAuthz` with `no_duplicate_source` lists the authentication sessions of the device,
removes those of its source one by one, and adds its own. Nothing orders these operations
between the calls for one device: of several logins at least one session remains, and
exactly one does unless a call adds its session between the listing of another one and
the `SADD` of that other.
-/

namespace ElanAgent.Nac

open Atomic Redis Session

/-- A login: the clock reading of the call and the session to add. -/
structure Login where
  now : ℚ
  session : AuthSession

/-- The session that the login adds. -/
def Login.added (login : Login) : AuthSession := login.session.completed

def Login.call (mac : String) (login : Login) : Call (Option RedisMacAuthorization) :=
  newAuthz login.now mac true login.session

/-- The course of a call. -/
abbrev Logins.Process := Prog agent (Except Error (Option RedisMacAuthorization))

abbrev Logins.Pool (ι : Type) := Config agent World (Except Error (Option RedisMacAuthorization)) ι

/-- The authentication sessions of `mac`. -/
def World.authentications (w : World) (mac : String) : List AuthSession :=
  w.session.authentication (macAuthSessionPath mac)

/-- The operation adds no session, and removes none that lasts beyond `now`. -/
def Op.Tidies (mac : String) (now : ℚ) (o : Op) : Prop :=
  ∀ w, (∀ s ∈ (handler o w).2.authentications mac, s ∈ w.authentications mac) ∧
    ∀ s ∈ w.authentications mac, s.expired now = false →
      s ∈ (handler o w).2.authentications mac

/-! ## The stages of a login -/

/-- Before the listing, at the removal of the sessions listed, and after the `SADD`. -/
inductive Login.Stage where
  | listing
  | removing (left : List AuthSession)
  | gone

open Login.Stage

/-- What a login of the source may issue. -/
inductive Login.Permitted (mac source : String) (login : Login) : Monitor agent Login.Stage
  | list (r : List AuthSession) : Permitted mac source login listing
      (.session (.smembersAuth (macAuthSessionPath mac))) r
      (removing (r.filter fun s => s.source = source))
  | remove (s : AuthSession) (left : List AuthSession) :
      Permitted mac source login (removing (s :: left))
        (.session (.sremAuth (macAuthSessionPath mac) s)) () (removing left)
  | tidy {o : Op} (r : o.Reply) (h : Op.Tidies mac login.now o) :
      Permitted mac source login (removing []) o r (removing [])
  | add : Permitted mac source login (removing [])
      (.session (.saddAuth (macAuthSessionPath mac) login.added)) () gone
  | rest {o : Op} (r : o.Reply) (h : Op.Tidies mac login.now o) :
      Permitted mac source login gone o r gone

section Tidies

variable (mac : String) (now : ℚ)

theorem execute_session (pipe : List Cmd) (w : World) : (execute pipe w).2.session = w.session := by
  induction pipe generalizing w with
  | nil => rfl
  | cons c pipe ih => exact (ih _).trans (by cases c <;> rfl)

theorem tidies_of_session {o : Op} (h : ∀ w, (handler o w).2.session = w.session) :
    Op.Tidies mac now o := by
  intro w
  simp only [World.authentications, h w]
  exact ⟨fun _ hs => hs, fun _ hs _ => hs⟩

theorem permits_tidies : Permits (Op.Tidies mac now) where
  save _ := tidies_of_session mac now (execute_session _)
  delete _ := tidies_of_session mac now (execute_session _)
  plain o ho := by
    refine tidies_of_session mac now fun w => ?_
    cases o with
    | session o => cases ho
    | execute pipe => cases ho
    | _ => rfl

theorem tidies_sremAuth {key : String} {s : AuthSession} (expired : s.expired now = true) :
    Op.Tidies mac now (.session (.sremAuth key s)) := by
  intro w
  by_cases same : macAuthSessionPath mac = key
  · subst key
    have left : (handler (.session (.sremAuth (macAuthSessionPath mac) s)) w).2.authentications
        mac = (w.authentications mac).filter (· ≠ s) := Function.update_self ..
    rw [left]
    refine ⟨fun _ hs => (List.mem_filter.mp hs).1, fun s' hs lasts => List.mem_filter.mpr ⟨hs, ?_⟩⟩
    have : s' ≠ s := by
      rintro rfl
      rw [lasts] at expired
      cases expired
    exact decide_eq_true this
  · have left : (handler (.session (.sremAuth key s)) w).2.authentications mac =
        w.authentications mac := Function.update_of_ne same ..
    rw [left]
    exact ⟨fun _ hs => hs, fun _ hs _ => hs⟩

theorem only_removeExpired : (removeExpiredAuthenticationSession mac now).Only
    fun o => Op.Tidies mac now (.session o) := by
  refine .op (tidies_of_session mac now fun _ => rfl) fun listed => ?_
  show (Session.each _ listed).Only _
  induction listed with
  | nil => exact .done _
  | cons s listed ih =>
    refine Prog.Only.bind ?_ fun _ => ih
    dsimp only
    split
    · exact .op (tidies_sremAuth mac now ‹_›) fun _ => .done _
    · exact .done _

theorem only_checkAuthz_tidies (reason : String) :
    (checkAuthz now mac none reason).Only (Op.Tidies mac now) := by
  refine (only_pure _).bind fun _ => Call.Only.bind ?_ fun assignments =>
    (only_getByMac (permits_tidies mac now) mac).bind
      (only_settleAuthz (permits_tidies mac now) now mac reason assignments)
  have sessions : (getAuthenticationSessions now mac).Only
      fun o => Op.Tidies mac now (.session o) :=
    (only_removeExpired mac now).bind fun _ =>
      .op (tidies_of_session mac now fun _ => rfl) fun _ => .done _
  refine (only_embed sessions).bind fun authSessions => ?_
  refine (only_embed (.op (tidies_of_session mac now fun _ => rfl) fun _ => .done _)).bind
    fun port => ?_
  refine (only_perform ((permits_tidies mac now).plain _ (by trivial))).bind fun answer => ?_
  split
  · exact only_pure _
  · exact only_throw _

end Tidies

theorem conforms_login {mac source : String} {login : Login}
    (same : login.session.source = source) :
    (login.call mac).Conforms (login.Permitted mac source) listing (fun _ q => q = gone)
      (· = gone) := by
  refine Call.Conforms.bind (M := fun _ q => q = removing []) (conforms_onSessions ?_) ?_
  · refine fun listed => ⟨_, .list listed, ?_⟩
    show (Session.each _ listed).Conforms _ _ _
    rw [same]
    induction listed with
    | nil => exact rfl
    | cons s listed ih =>
      refine Prog.Conforms.bind (M := fun _ q => q = removing (listed.filter fun s =>
        s.source = source)) ?_ fun _ q hq => hq ▸ ih
      dsimp only
      by_cases met : s.source = source
      · rw [if_pos (decide_eq_true met), List.filter_cons_of_pos (by simpa using met)]
        exact fun _ => ⟨_, .remove s _, rfl⟩
      · rw [if_neg (by simpa using met), List.filter_cons_of_neg (by simpa using met)]
        exact rfl
  · rintro _ _ rfl
    refine Call.Conforms.bind (M := fun _ q => q = gone) (conforms_onSessions ?_) ?_
    · refine Prog.Conforms.bind ((only_removeExpired mac login.now).conforms
        fun o r ho => .tidy r ho) fun _ q hq => ?_
      subst hq
      exact fun _ => ⟨_, .add, rfl⟩
    · rintro _ _ rfl
      exact (only_checkAuthz_tidies mac login.now overridden).conforms (fun o r ho => .rest r ho)
        rfl

/-! ## What the operations do to the sessions -/

section Operations

variable {mac : String} {s s' : AuthSession} {w : World}

theorem mem_sremAuth :
    s' ∈ (handler (.session (.sremAuth (macAuthSessionPath mac) s)) w).2.authentications mac ↔
      s' ∈ w.authentications mac ∧ s' ≠ s := by
  have removed : (handler (.session (.sremAuth (macAuthSessionPath mac) s)) w).2.authentications
      mac = (w.authentications mac).filter (· ≠ s) := Function.update_self ..
  rw [removed, List.mem_filter, decide_eq_true_iff]

theorem mem_saddAuth :
    s' ∈ (handler (.session (.saddAuth (macAuthSessionPath mac) s)) w).2.authentications mac ↔
      s' = s ∨ s' ∈ w.authentications mac := by
  have added : (handler (.session (.saddAuth (macAuthSessionPath mac) s)) w).2.authentications
      mac = (w.authentications mac).insert s := Function.update_self ..
  rw [added, List.mem_insert_iff]

end Operations

/-! ## Every interleaving -/

section Interleaving

variable {ι : Type} [DecidableEq ι] {mac source : String} {logins : ι → Login}

/-- The logins, none of which has begun. -/
def atLogin (mac : String) (logins : ι → Login) (w : World) :
    Logins.Pool ι :=
  ⟨w, fun i => ((logins i).call mac).run⟩

/-- The operation adds an authentication session of `mac`. -/
def Op.Adds (mac : String) (o : Op) : Prop :=
  ∃ s, o = .session (.saddAuth (macAuthSessionPath mac) s)

/-- When a login adds its session, every other one either has not begun or has added its
own. -/
def Apart (mac : String) (logins : ι → Login)
    (c : Logins.Pool ι) (i : ι) : Prop :=
  ∀ s next, c.threads i = .op (.session (.saddAuth (macAuthSessionPath mac) s)) next →
    ∀ j, j ≠ i → c.threads j = ((logins j).call mac).run ∨
      ¬(c.threads j).Owes (Op.Adds mac) fun _ => False

/-- The login has still to remove `s`, should it find it. -/
def Login.Stage.Removes : Login.Stage → AuthSession → Prop
  | listing, _ => True
  | removing left, s => s ∈ left
  | gone, _ => False

/-- A session of the source was added by a login, or every login has still to remove it.
When all logins are over, a session of theirs is left. -/
structure Remains (mac source : String) (logins : ι → Login) (w : World)
    (q : ι → Login.Stage) : Prop where
  own : ∀ s ∈ w.authentications mac, s.source = source →
    (∃ i, s = (logins i).added) ∨ ∀ i, (q i).Removes s
  left : (∃ i, q i ≠ gone) ∨ ∃ i, (logins i).added ∈ w.authentications mac

/-- A step of a login that is not the `SADD` keeps the sessions that are not removed. -/
theorem remains_shrunk {w w' : World} {q : ι → Login.Stage} {i : ι} {q' : Login.Stage}
    (hw : Remains mac source logins w q)
    (sub : ∀ s ∈ w'.authentications mac, s ∈ w.authentications mac)
    (removes : ∀ s ∈ w'.authentications mac, (q i).Removes s → s.source = source → q'.Removes s)
    (left : q' ≠ gone ∨ q i = gone ∧
      ∀ j, (logins j).added ∈ w.authentications mac → (logins j).added ∈ w'.authentications mac) :
    Remains mac source logins w' (Function.update q i q') := by
  constructor
  · intro s hs ofSource
    refine (hw.own s (sub s hs) ofSource).imp_right fun all j => ?_
    rw [Function.update_apply]
    split
    · subst j
      exact removes s hs (all i) ofSource
    · exact all j
  · rcases left with notOver | ⟨isOver, kept⟩
    · exact .inl ⟨i, by rwa [Function.update_self]⟩
    · refine hw.left.imp (fun ⟨j, hj⟩ => ⟨j, ?_⟩) fun ⟨j, hj⟩ => ⟨j, kept j hj⟩
      rwa [Function.update_of_ne]
      rintro rfl
      exact hj isOver

theorem remains_step (lasting : ∀ i j, (logins i).added.expired (logins j).now = false)
    {w : World} {q : ι → Login.Stage} {i : ι} {o : Op} {q' : Login.Stage}
    (hw : Remains mac source logins w q)
    (permitted : (logins i).Permitted mac source (q i) o (handler o w).1 q') :
    Remains mac source logins (handler o w).2 (Function.update q i q') := by
  generalize hq : q i = qi at permitted
  generalize hr : (handler o w).1 = r at permitted
  cases permitted with
  | list =>
    subst hr
    refine remains_shrunk hw (fun _ hs => hs) (fun s hs _ ofSource => ?_) (.inl nofun)
    exact List.mem_filter.mpr ⟨hs, decide_eq_true ofSource⟩
  | remove s left =>
    refine remains_shrunk hw (fun s' hs => (mem_sremAuth.mp hs).1) (fun s' hs listed _ => ?_)
      (.inl nofun)
    rw [hq] at listed
    exact (List.mem_cons.mp listed).resolve_left (mem_sremAuth.mp hs).2
  | tidy _ h =>
    exact remains_shrunk hw (h w).1 (fun s _ listed _ => hq ▸ listed) (.inl nofun)
  | rest _ h =>
    refine remains_shrunk hw (h w).1 (fun s _ listed _ => hq ▸ listed) (.inr ⟨hq, fun j hj => ?_⟩)
    exact (h w).2 _ hj (lasting j i)
  | add =>
    constructor
    · intro s hs ofSource
      rcases mem_saddAuth.mp hs with rfl | hs
      · exact .inl ⟨i, rfl⟩
      · refine (hw.own s hs ofSource).imp_right fun all => ?_
        have mine := all i
        rw [hq] at mine
        exact absurd mine List.not_mem_nil
    · exact .inr ⟨i, mem_saddAuth.mpr (.inl rfl)⟩

/-- While no `SADD` falls between the listing of a login and its own `SADD`, what the
login has still to remove is all there is of the source, and what the last one added is
alone. -/
structure Alone (mac source : String) (logins : ι → Login)
    (c : Logins.Pool ι)
    (q : ι → Login.Stage) : Prop where
  begun : ∀ i, q i = listing ∧ c.threads i = ((logins i).call mac).run ∨
    Relation.TransGen Prog.Next (c.threads i) ((logins i).call mac).run
  listed : ∀ i left, q i = removing left → ∀ s ∈ c.state.authentications mac,
    s.source = source → s ∈ left
  single : (∃ i, q i = gone) → ∀ s ∈ c.state.authentications mac,
    ∀ s' ∈ c.state.authentications mac, s.source = source → s'.source = source → s = s'

/-- A login that is removing sessions has still to add its own. -/
theorem owes_adds {login : Login} {p : Logins.Process}
    {left : List AuthSession}
    (hp : p.Conforms (login.Permitted mac source) (removing left)
      (Outcome (fun _ q => q = gone) (· = gone))) :
    p.Owes (Op.Adds mac) fun _ => False := by
  refine hp.owes (R := fun q => ∃ left, q = removing left) ?_ ?_ ⟨left, rfl⟩
  · rintro (_ | _) _ ⟨left, rfl⟩ h <;> exact nomatch (h : removing left = gone)
  · rintro _ o r q' ⟨left, rfl⟩ permitted
    cases permitted with
    | remove _ left => exact .inr ⟨id, left, rfl⟩
    | tidy => exact .inr ⟨id, [], rfl⟩
    | add => exact .inl ⟨_, rfl⟩

theorem begun_step {t : ι → Logins.Process}
    {q : ι → Login.Stage} {i : ι} {o : Op}
    {next : o.Reply → Logins.Process} (r : o.Reply)
    (q' : Login.Stage) (hi : t i = .op o next)
    (begun : ∀ j, q j = listing ∧ t j = ((logins j).call mac).run ∨
      Relation.TransGen Prog.Next (t j) ((logins j).call mac).run) (j : ι) :
    Function.update q i q' j = listing ∧
        Function.update t i (next r) j = ((logins j).call mac).run ∨
      Relation.TransGen Prog.Next (Function.update t i (next r) j) ((logins j).call mac).run := by
  by_cases same : j = i
  · subst j
    have now : Prog.Next (next r) (t i) := by
      rw [hi]
      exact .mk (I := agent) r
    right
    rw [Function.update_self]
    rcases begun i with ⟨-, initial⟩ | later
    · exact initial ▸ .single now
    · exact .head now later
  · rw [Function.update_of_ne same, Function.update_of_ne same]
    exact begun j

/-- A step of a login that adds nothing keeps it so. -/
theorem alone_shrunk {t t' : ι → Logins.Process}
    {w w' : World} {q : ι → Login.Stage} {i : ι} {q' : Login.Stage}
    (hw : Alone mac source logins ⟨w, t⟩ q)
    (begun : ∀ j, Function.update q i q' j = listing ∧ t' j = ((logins j).call mac).run ∨
      Relation.TransGen Prog.Next (t' j) ((logins j).call mac).run)
    (sub : ∀ s ∈ w'.authentications mac, s ∈ w.authentications mac)
    (listed : ∀ left, q' = removing left → ∀ s ∈ w'.authentications mac, s.source = source →
      s ∈ left) (gone : q' = gone → q i = gone) :
    Alone mac source logins ⟨w', t'⟩ (Function.update q i q') := by
  refine ⟨begun, fun j left => ?_, fun ⟨j, hj⟩ s hs s' hs' => ?_⟩
  · rw [Function.update_apply]
    split
    · exact listed left
    · exact fun hj s hs => hw.listed j left hj s (sub s hs)
  · refine hw.single ⟨j, ?_⟩ s (sub s hs) s' (sub s' hs')
    rw [Function.update_apply] at hj
    split at hj
    · subst j
      exact gone hj
    · exact hj

/-- A login that has removed what there was of the source adds its session. -/
theorem alone_add {t t' : ι → Logins.Process} {w : World} {q : ι → Login.Stage} {i : ι}
    (hw : Alone mac source logins ⟨w, t⟩ q)
    (begun : ∀ j, Function.update q i gone j = listing ∧ t' j = ((logins j).call mac).run ∨
      Relation.TransGen Prog.Next (t' j) ((logins j).call mac).run)
    (hq : q i = removing []) (others : ∀ j, j ≠ i → ∀ left, q j ≠ removing left) :
    Alone mac source logins
      ⟨(handler (.session (.saddAuth (macAuthSessionPath mac) (logins i).added)) w).2, t'⟩
      (Function.update q i gone) := by
  have mine : ∀ s ∈ (handler (.session (.saddAuth (macAuthSessionPath mac) (logins i).added))
      w).2.authentications mac, s.source = source → s = (logins i).added := by
    intro s hs ofSource
    refine (mem_saddAuth.mp hs).resolve_right fun old => ?_
    exact List.not_mem_nil (hw.listed i [] hq s old ofSource)
  refine ⟨begun, fun j left => ?_, fun _ s hs s' hs' ofSource ofSource' => ?_⟩
  · rw [Function.update_apply]
    split
    · exact nofun
    · exact fun between => absurd between (others j ‹_› left)
  · rw [mine s hs ofSource, mine s' hs' ofSource']

theorem alone_step {w : World} {t : ι → Logins.Process}
    {q : ι → Login.Stage} {i : ι} {o : Op}
    {next : o.Reply → Logins.Process}
    {q' : Login.Stage} (hw : Alone mac source logins ⟨w, t⟩ q)
    (conform : ∀ j, (t j).Conforms ((logins j).Permitted mac source) (q j)
      (Outcome (fun _ q => q = gone) (· = gone)))
    (apart : Apart mac logins ⟨w, t⟩ i) (hi : t i = .op o next)
    (permitted : (logins i).Permitted mac source (q i) o (handler o w).1 q') :
    Alone mac source logins ⟨(handler o w).2, Function.update t i (next (handler o w).1)⟩
      (Function.update q i q') := by
  have begun := begun_step (handler o w).1 q' hi hw.begun
  generalize hq : q i = qi at permitted
  generalize hr : (handler o w).1 = r at permitted begun ⊢
  cases permitted with
  | list =>
    subst hr
    refine alone_shrunk hw begun (fun _ hs => hs) (fun left h s hs ofSource => ?_) nofun
    cases h
    exact List.mem_filter.mpr ⟨hs, decide_eq_true ofSource⟩
  | remove s left =>
    refine alone_shrunk hw begun (fun s' hs => (mem_sremAuth.mp hs).1)
      (fun left' h s' hs ofSource => ?_) nofun
    cases h
    obtain ⟨hs, other⟩ := mem_sremAuth.mp hs
    exact (List.mem_cons.mp (hw.listed i _ hq s' hs ofSource)).resolve_left other
  | tidy _ h =>
    refine alone_shrunk hw begun (h w).1 (fun left' same s hs ofSource => ?_) nofun
    cases same
    exact hw.listed i _ hq s ((h w).1 s hs) ofSource
  | rest _ h => exact alone_shrunk hw begun (h w).1 nofun fun _ => hq
  | add =>
    -- the others are not between their listing and their `SADD`
    have others : ∀ j, j ≠ i → ∀ left, q j ≠ removing left := by
      intro j hj left between
      rcases apart _ next hi j hj with initial | added
      · rcases hw.begun j with ⟨before, -⟩ | later
        · rw [before] at between
          cases between
        · exact Prog.ne_of_later later initial
      · exact added (owes_adds (between ▸ conform j))
    exact alone_add hw begun hq others

/-! ## When all logins are over -/

omit [DecidableEq ι] in
theorem remains_begin (w : World) [Nonempty ι] :
    Remains mac source logins w fun _ => listing := by
  exact ⟨fun _ _ _ => .inr fun _ => trivial, ‹Nonempty ι›.elim fun i => .inl ⟨i, nofun⟩⟩

omit [DecidableEq ι] in
theorem alone_begin (w : World) : Alone mac source logins (atLogin mac logins w) fun _ => listing :=
  ⟨fun _ => .inl ⟨rfl, rfl⟩, nofun, fun ⟨_, h⟩ => nomatch h⟩

/-- Logins of one source that overlap in any way leave at least one session of the source
and only sessions that one of them added. Exactly one is left if no login adds its session
between the listing of another one and the `SADD` of that other. -/
theorem logins_leave_own [Nonempty ι] (w : World) (mac source : String) (logins : ι → Login)
    (same : ∀ i, (logins i).session.source = source)
    (lasting : ∀ i j, (logins i).added.expired (logins j).now = false) {d : Logins.Pool ι}
    (run : Run handler (fun _ _ => True) (atLogin mac logins w) d) (done : d.Done) :
    (∀ s ∈ d.state.authentications mac, s.source = source → ∃ i, s = (logins i).added) ∧
      (∃ i, (logins i).added ∈ d.state.authentications mac) ∧
      (Run handler (Apart mac logins) (atLogin mac logins w) d →
        ∃! s, s ∈ d.state.authentications mac ∧ s.source = source) := by
  have conform : ∀ j, (((logins j).call mac).run : Logins.Process).Conforms
      ((logins j).Permitted mac source) listing (Outcome (fun _ q => q = gone) (· = gone)) :=
    fun j => conforms_login (same j)
  have ends {q : ι → Login.Stage} (conform : ∀ j, (d.threads j).Conforms
      ((logins j).Permitted mac source) (q j) (Outcome (fun _ q => q = gone) (· = gone)))
      (j : ι) : q j = gone := by
    obtain ⟨_ | _, h⟩ := done.conforms conform j <;> exact h
  obtain ⟨q, hd, conform'⟩ := run.monitored (Q := fun c => Remains mac source logins c.state)
    (fun s t q i o next q' hs _ _ _ permitted _ => remains_step lasting hs permitted)
    (remains_begin w) conform
  have isOver := ends conform'
  have left := hd.left.resolve_left fun ⟨j, notOver⟩ => notOver (isOver j)
  refine ⟨fun s hs ofSource => (hd.own s hs ofSource).resolve_right fun all => ?_, left,
    fun apart => ?_⟩
  · obtain ⟨j⟩ := ‹Nonempty ι›
    have pending := all j
    rw [isOver j] at pending
    exact pending
  · obtain ⟨q, hd, conform'⟩ := apart.monitored (Q := Alone mac source logins)
      (fun s t q i o next q' hs conform apart hi permitted _ =>
        alone_step hs conform apart hi permitted)
      (alone_begin w) conform
    obtain ⟨i, hi⟩ := left
    refine ⟨(logins i).added, ⟨hi, same i⟩, fun s ⟨hs, ofSource⟩ => ?_⟩
    exact hd.single ⟨i, ends conform' i⟩ s hs _ hi ofSource (same i)

end Interleaving

/-- Two logins at time 0, whose sessions last until 100 and 200. -/
def twoLogins : Fin 2 → Login
  | 0 => ⟨0, ⟨"radius", some 100, none, ∅⟩⟩
  | 1 => ⟨0, ⟨"radius", some 200, none, ∅⟩⟩

/-- The second login lists the sessions after the `SADD` of the first, which is still busy. -/
theorem logins_leave_own_two :
    ∃! s, s ∈ ((atLogin "00:00:00:00:00:01" twoLogins
      (World.empty fun _ => some .none)).follow handler
        [0, 0, 0, 1, 0, 0, 0, 0, 0, 1, 1, 1, 1, 1, 1, 1, 1]).state.authentications
          "00:00:00:00:00:01" ∧ s.source = "radius" := by
  refine (logins_leave_own _ "00:00:00:00:00:01" "radius" twoLogins (by decide) (by decide)
    (Config.follow_run (Config.guarded_true _ _)) (Config.done_iff.mpr (by decide))).2.2
    (Config.follow_run ?_)
  have other : ∀ i j : Fin 2, j ≠ i → j = 1 - i := by decide
  refine ⟨nofun, nofun, ?_, nofun, nofun, nofun, nofun, nofun, nofun, nofun, nofun, ?_, nofun,
    nofun, nofun, nofun, nofun, trivial⟩
  · rintro s next - j hj
    rw [other _ _ hj]
    exact .inl rfl
  · rintro s next - j hj
    rw [other _ _ hj]
    exact .inr id

/-- Both logins list before either adds, and the sessions of both are left. -/
theorem overlapping_logins_leave_two : ∃ d : Logins.Pool (Fin 2),
    Run handler (fun _ _ => True) (atLogin "00:00:00:00:00:01" twoLogins
      (World.empty fun _ => some .none)) d ∧ d.Done ∧
    ¬∃! s, s ∈ d.state.authentications "00:00:00:00:00:01" ∧ s.source = "radius" := by
  refine ⟨Config.follow handler (atLogin "00:00:00:00:00:01" twoLogins
    (World.empty fun _ => some .none)) [0, 1, 0, 0, 1, 1, 0, 0, 0, 0, 0, 1, 1, 1, 1, 1],
    Config.follow_run (Config.guarded_true _ _), Config.done_iff.mpr (by decide), ?_⟩
  rintro ⟨s, -, unique⟩
  have first := unique (twoLogins 0).added (by decide)
  have second := unique (twoLogins 1).added (by decide)
  exact absurd (first.trans second.symm) (by decide)

end ElanAgent.Nac
