import ElanAgent.Nac.Ledger

/-!
# The reasons for which sessions end

The end of an authorization session is announced with a reason. `expired` should mean
that the authorization was past its date, and the reason of an authorization that is
withdrawn by `checkAuthz` should be the one that its caller gives. `checkAuthz` says
`expired` whenever the control center grants nothing any more, so both hold exactly in
the calls that `Honest` describes.
-/

namespace ElanAgent.Nac

open Atomic Redis Session RedisMacAuthorization MacAuthorizationManager

/-- The authorization has a date and is past it. -/
def RedisMacAuthorization.PastDue (authz : RedisMacAuthorization) (now : ℚ) : Prop :=
  ∃ till, authz.till = some till ∧ till ≤ now

/-- The messages that a call has published. -/
def World.newly (w w' : World) : List Notice := w'.published.drop w.published.length

/-- What is announced as expired was stored for the device, and past its date. -/
def SaysExpired (w w' : World) (now : ℚ) : Prop :=
  ∀ ended mac id, .ends "expired" ended mac id ∈ w.newly w' →
    ∃ authz, w.stored mac = some authz ∧ authz.localId = id ∧ authz.PastDue now

/-- When the answer is empty, every end has the reason `endReason`. -/
def SaysReason (w w' : World) (endReason : String) : Prop :=
  w.answers w.asked = some .none →
    ∀ reason ended mac id, .ends reason ended mac id ∈ w.newly w' → reason = endReason

/-- The reasons that a call announces are the true ones. -/
def Task.Reasoned (w : World) (task : Task) : Prop :=
  match task with
  | .checkAuthz now _ _ endReason =>
    SaysExpired w (w.after task) now ∧ SaysReason w (w.after task) endReason
  | .newAuthz now _ _ _ => SaysExpired w (w.after task) now ∧ SaysReason w (w.after task) overridden
  | .removeAuthz now _ _ _ | .handleAuthzChanged now _ | .handleDisconnection now _
  | .checkMacs now _ | .checkExpiredAuthz now | .init now => SaysExpired w (w.after task) now

/-- The caller's reason is true of the authorization that the check will end, and is
`expired` if nothing is granted in its place. -/
structure HonestCheck (w : World) (now : ℚ) (mac endReason : String) : Prop where
  withdrawn : w.answers w.asked = some .none → ∀ authz, w.stored mac = some authz →
    endReason = "expired" ∧ authz.PastDue now
  replaced : endReason = "expired" → ∀ a, w.answers w.asked = some (.granted a) →
    ∀ authz, w.stored mac = some authz → (ofAssignments mac a).eq authz = false →
      authz.PastDue now

/-- The call gives no reason that is not true. -/
def Task.Honest (w : World) : Task → Prop
  | .checkAuthz now mac _ endReason => HonestCheck w now mac endReason
  | .newAuthz now mac _ _ => HonestCheck w now mac overridden
  | .removeAuthz now mac reason _ =>
    reason = "expired" → ∀ authz, w.stored mac = some authz → authz.PastDue now
  | _ => True

/-- The calls that end authorization sessions, with `removeAuthz` left to look up what it
removes. -/
def Task.Ends : Task → Prop
  | .checkAuthz .. | .newAuthz .. | .handleDisconnection .. | .checkExpiredAuthz _ => True
  | .removeAuthz _ _ _ authz => authz = none
  | _ => False

section Calls

variable {grants : String → Prop} {removes : String → String → RedisMacAuthorization → Prop}
variable {w w' : World} {now : ℚ} {mac endReason : String}

/-- A history that removes with true reasons says so. -/
theorem History.saysExpired (h : History grants removes w w') (keyed : w.Keyed)
    (allowed : ∀ mac authz, removes mac "expired" authz →
      w.stored mac = some authz ∧ authz.PastDue now) : SaysExpired w w' now := by
  obtain ⟨new, published, removed⟩ := h.said
  intro ended mac id said
  rw [World.newly, published, List.drop_left] at said
  obtain ⟨key, authz, ok, rfl, rfl⟩ := removed _ ended mac id said
  obtain ⟨stored, due⟩ := allowed key authz ok
  rw [keyed key authz stored]
  exact ⟨authz, stored, rfl, due⟩

theorem History.saysReason (h : History grants removes w w')
    (allowed : w.answers w.asked = some .none → ∀ mac reason authz, removes mac reason authz →
      reason = endReason) : SaysReason w w' endReason := by
  obtain ⟨new, published, removed⟩ := h.said
  intro answer reason ended mac id said
  rw [World.newly, published, List.drop_left] at said
  obtain ⟨key, authz, ok, -⟩ := removed reason ended mac id said
  exact allowed answer key reason authz ok

/-- The removals of a check, with their reasons. -/
def Checked (w : World) (now : ℚ) (mac endReason : String) (key reason : String)
    (authz : RedisMacAuthorization) : Prop :=
  w.stored key = some authz ∧ (reason = "expired" → authz.PastDue now) ∧
    (w.answers w.asked = some .none → reason = endReason) ∧ key = mac

theorem HonestCheck.reasoned (keyed : w.Keyed)
    (h : History grants (Checked w now mac endReason) w w') :
    SaysExpired w w' now ∧ SaysReason w w' endReason :=
  ⟨h.saysExpired keyed fun _ _ ok => ⟨ok.1, ok.2.1 rfl⟩,
    h.saysReason fun answer _ _ _ ok => ok.2.2.1 answer⟩

theorem HonestCheck.allows_replaced (honest : HonestCheck w now mac endReason) {a : Assignments}
    {authz : RedisMacAuthorization} (answer : w.answers w.asked = some (.granted a))
    (stored : w.stored mac = some authz) (differs : (ofAssignments mac a).eq authz = false) :
    Checked w now mac endReason mac endReason authz :=
  ⟨stored, fun expired => honest.replaced expired a answer authz stored differs, fun _ => rfl, rfl⟩

theorem HonestCheck.allows_withdrawn (honest : HonestCheck w now mac endReason)
    {authz : RedisMacAuthorization} (answer : w.answers w.asked = some .none)
    (stored : w.stored mac = some authz) :
    Checked w now mac endReason mac "expired" authz := by
  obtain ⟨expired, due⟩ := honest.withdrawn answer authz stored
  exact ⟨stored, fun _ => due, fun _ => expired.symm, rfl⟩

end Calls

/-- What is due for the expiry check is past its date. -/
theorem World.Agrees.pastDue {w : World} (agrees : w.Agrees) {now : ℚ} {mac : String}
    {authz : RedisMacAuthorization} (due : w.Due now mac) (stored : w.stored mac = some authz) :
    authz.PastDue now := by
  obtain ⟨data, hdata, rfl⟩ := Option.map_eq_some_iff.mp stored
  obtain ⟨q, hq, le⟩ := ExpirySet.mem_rangeByScore.mp due
  rw [agrees.scores mac data hdata] at hq
  have same := Option.some.inj hq
  unfold RedisMacAuthorization.score at same
  cases till : (ofSerialized data).till with
  | none =>
    rw [till] at same
    cases same
  | some t =>
    rw [till] at same
    cases WithTop.coe_inj.mp same
    exact ⟨_, till, le⟩

/-- A call that gives no untrue reason announces no untrue reason. -/
theorem reasoned_of_honest {w : World} (keyed : w.Keyed) (agrees : w.Agrees) {task : Task}
    (ends : task.Ends) (honest : task.Honest w) : task.Reasoned w := by
  have expired (now : ℚ) (mac : String) (authz : RedisMacAuthorization) (due : w.Due now mac)
      (stored : w.stored mac = some authz) : w.stored mac = some authz ∧
        ("expired" = "expired" → authz.PastDue now) :=
    ⟨stored, fun _ => agrees.pastDue due stored⟩
  let allowed (now : ℚ) (key reason : String) (authz : RedisMacAuthorization) : Prop :=
    w.stored key = some authz ∧ (reason = "expired" → authz.PastDue now)
  cases task with
  | checkAuthz now mac source endReason =>
    have honest : HonestCheck w now mac endReason := honest
    have h : History (fun _ => True) _ w _ := history_checkAuthz w now mac endReason source trivial
      (fun a authz => honest.allows_replaced) fun authz => honest.allows_withdrawn
    exact HonestCheck.reasoned keyed (h.bind fun _ _ => .refl _)
  | newAuthz now mac noDuplicateSource session =>
    have honest : HonestCheck w now mac overridden := honest
    have h : History (fun _ => True) _ w _ := history_newAuthz w now mac noDuplicateSource session
      trivial (fun a authz => honest.allows_replaced) fun authz => honest.allows_withdrawn
    exact HonestCheck.reasoned keyed (h.bind fun _ _ => .refl _)
  | removeAuthz now mac reason authz =>
    obtain rfl : authz = none := ends
    have h : History (fun _ => True) (allowed now) w _ := history_removeAuthz w now mac reason
      fun authz stored => ⟨stored, fun hr => honest hr authz stored⟩
    exact (h.bind fun _ _ => .refl _).saysExpired keyed fun _ _ ok => ⟨ok.1, ok.2 rfl⟩
  | handleDisconnection now mac =>
    have h : History (fun _ => True) (allowed now) w _ := history_handleDisconnection w now mac
      (fun _ => trivial) (fun authz stored => ⟨stored, fun h => absurd h (by decide)⟩) (expired now)
    exact h.saysExpired keyed fun _ _ ok => ⟨ok.1, ok.2 rfl⟩
  | checkExpiredAuthz now =>
    have h : History (fun _ => True) (allowed now) w _ := history_checkExpiredAuthz w now
      (fun _ _ => trivial) fun mac due authz stored => expired now mac authz due stored
    exact h.saysExpired keyed fun _ _ ok => ⟨ok.1, ok.2 rfl⟩
  | handleAuthzChanged | checkMacs | init => exact ends.elim

/-! ## The converse -/

/-- A check that gets an empty answer announces one end, as expired. -/
theorem newly_withdrawn {w : World} (now : ℚ) {mac : String} (endReason : String)
    (source : Option String) {authz : RedisMacAuthorization}
    (answer : w.answers w.asked = some .none) (stored : w.stored mac = some authz) :
    .ends "expired" (formatDate now none) authz.mac authz.localId ∈
      w.newly ((checkAuthz now mac source endReason).exec w).2 := by
  obtain ⟨session, h⟩ := exec_checkAuthz w now mac endReason source
  simp only [h, answer, stored, settleAuthz, withdrawAuthz, exec_bind, exec_deleteByMac,
    Nac.exec_authzChanged, exec_notifyEnd, exec_pure]
  show _ ∈ List.drop _ (w.published ++ [_])
  rw [List.drop_left]
  exact List.mem_singleton_self _

/-- A check that replaces an authorization announces its end with the caller's reason. -/
theorem newly_replaced {w : World} {now : ℚ} {mac endReason : String} {source : Option String}
    {authz : RedisMacAuthorization} {a : Assignments}
    (answer : w.answers w.asked = some (.granted a)) (stored : w.stored mac = some authz)
    (differs : (ofAssignments mac a).eq authz = false) :
    .ends endReason (formatDate now none) authz.mac authz.localId ∈
      w.newly ((checkAuthz now mac source endReason).exec w).2 := by
  obtain ⟨session, h⟩ := exec_checkAuthz w now mac endReason source
  rw [h, answer, stored]
  dsimp only [settleAuthz, Option.any_some]
  rw [if_neg (by simp [differs]), exec_bind_pure, grantAuthz, exec_bind, exec_endAuthz]
  dsimp only [Option.elim_some]
  obtain ⟨published, said, hv⟩ := exec_storeAuthz ((({ w with session, asked := w.asked + 1 } :
    World).deleted mac).say (.ends endReason (formatDate now none) authz.mac authz.localId)) now
    mac a
  rw [World.newly, hv]
  show _ ∈ List.drop w.published.length published
  rcases said with ⟨start, till, rfl⟩ | ⟨-, rfl⟩
  · show _ ∈ List.drop _ (w.published ++ [_] ++ [_])
    rw [List.append_assoc, List.drop_left]
    simp
  · show _ ∈ List.drop _ (w.published ++ [_])
    rw [List.drop_left]
    simp

theorem honestCheck_of_says {w : World} (keyed : w.Keyed) {now : ℚ} {mac endReason : String}
    {source : Option String} {w' : World}
    (hw' : w' = ((checkAuthz now mac source endReason).exec w).2)
    (expired : SaysExpired w w' now) (reason : SaysReason w w' endReason) :
    HonestCheck w now mac endReason := by
  subst hw'
  have due {authz : RedisMacAuthorization} (stored : w.stored mac = some authz)
      (h : .ends "expired" (formatDate now none) authz.mac authz.localId ∈
        w.newly ((checkAuthz now mac source endReason).exec w).2) : authz.PastDue now := by
    obtain ⟨authz', stored', -, due⟩ := expired _ _ _ h
    rw [keyed mac authz stored, stored] at stored'
    cases stored'
    exact due
  constructor
  · intro answer authz stored
    have said := newly_withdrawn now endReason source answer stored
    exact ⟨(reason answer _ _ _ _ said).symm, due stored said⟩
  · rintro rfl a answer authz stored differs
    exact due stored (newly_replaced answer stored differs)

theorem honest_of_reasoned {w : World} (keyed : w.Keyed) {task : Task} (ends : task.Ends)
    (reasoned : task.Reasoned w) : task.Honest w := by
  cases task with
  | checkAuthz now mac source endReason =>
    exact honestCheck_of_says keyed (exec_bind_pure _ (checkAuthz now mac source endReason) _)
      reasoned.1 reasoned.2
  | newAuthz now mac noDuplicateSource session =>
    obtain ⟨session', h⟩ := exec_newAuthz w now mac noDuplicateSource session
    have hw : w.after (.newAuthz now mac noDuplicateSource session) =
        ((checkAuthz now mac none overridden).exec (w.setSession session')).2 :=
      (exec_bind_pure ..).trans (congrArg Prod.snd h)
    obtain ⟨withdrawn, replaced⟩ := honestCheck_of_says (w := w.setSession session') keyed hw
      reasoned.1 reasoned.2
    exact ⟨withdrawn, replaced⟩
  | removeAuthz now mac reason authz =>
    obtain rfl : authz = none := ends
    rintro rfl authz stored
    have hw : w.after (.removeAuthz now mac "expired" none) =
        ((removeAuthz now mac "expired" none).exec w).2 := exec_bind_pure ..
    obtain ⟨authz', stored', -, due⟩ := reasoned (formatDate now none) authz.mac authz.localId (by
      rw [hw, exec_removeAuthz, exec_endAuthz, stored]
      show _ ∈ List.drop _ (w.published ++ [_])
      rw [List.drop_left]
      exact List.mem_singleton_self _)
    rw [keyed mac authz stored, stored] at stored'
    cases stored'
    exact due
  | _ => trivial

/-! ## Every sequence of calls -/

theorem agrees_after {w : World} (hw : w.Agrees) (task : Task) : (w.after task).Agrees :=
  (only_call permits_paired (fun _ _ => .other (by simp)) task).run (fun _ _ => agrees_handler) hw

theorem run_keyed_agrees {w : World} (keyed : w.Keyed) (agrees : w.Agrees) {tasks : List Task}
    (ends : ∀ task ∈ tasks, task.Ends) : (w.run tasks).Keyed ∧ (w.run tasks).Agrees := by
  induction tasks generalizing w with
  | nil => exact ⟨keyed, agrees⟩
  | cons task tasks ih =>
    obtain ⟨first, rest⟩ := List.forall_mem_cons.mp ends
    have removesStored : task.RemovesStored := by
      cases task <;> trivial
    exact ih ((history_after w removesStored).keyed keyed) (agrees_after agrees task) rest

/-- In a run from an empty store, the reasons announced are the true ones in exactly the
calls that give no reason that is not true. -/
theorem reasons_told (answers : Nat → Option NetworkAssignments) (session : Session.World)
    (tasks : List Task) (ends : ∀ task ∈ tasks, task.Ends) :
    let w := ({ World.empty answers with session } : World)
    ∀ before task later, tasks = before ++ task :: later →
      (task.Reasoned (w.run before) ↔ task.Honest (w.run before)) := by
  rintro w before task later rfl
  have endsBefore : ∀ task ∈ before, task.Ends := fun task h => ends task (by simp [h])
  obtain ⟨keyed, agrees⟩ := run_keyed_agrees (w := w) (fun _ _ h => nomatch h)
    (World.Agrees.of_eq (agrees_empty answers) rfl rfl) endsBefore
  have endsNow : task.Ends := ends task (by simp)
  exact ⟨honest_of_reasoned keyed endsNow, reasoned_of_honest keyed agrees endsNow⟩

/-- A login, whose authorization is then withdrawn by a logout. -/
def loginLogout : List Task :=
  [.newAuthz 0 "00:00:00:00:00:01" true ⟨"captive-portal-web", none, some true, ∅⟩,
    .checkAuthz 60 "00:00:00:00:00:01" (some "captive-portal-web") "logout"]

/-- The control center grants access once. -/
def grantedOnce (n : Nat) : Option NetworkAssignments :=
  some (if n = 0 then .granted (onVlan "eth1.10") else .none)

theorem reasons_told_loginLogout :
    let w := ({ World.empty grantedOnce with session := .empty } : World)
    ∀ before task later, loginLogout = before ++ task :: later →
      (task.Reasoned (w.run before) ↔ task.Honest (w.run before)) := by
  refine reasons_told grantedOnce .empty loginLogout fun task h => ?_
  simp only [loginLogout, List.mem_cons, List.not_mem_nil, or_false] at h
  rcases h with rfl | rfl <;> trivial

/-- The logout is announced as an expiry, of an authorization without a date. -/
theorem logout_says_expired :
    ¬(Task.checkAuthz 60 "00:00:00:00:00:01" (some "captive-portal-web") "logout").Reasoned
      ((World.empty grantedOnce).run (loginLogout.take 1)) := by
  rintro ⟨-, reason⟩
  set w := (World.empty grantedOnce).run (loginLogout.take 1) with hw
  have stored : w.stored "00:00:00:00:00:01" =
      some { ofAssignments "00:00:00:00:00:01" (onVlan "eth1.10") with localId := some 1 } := by
    decide
  have answer : w.answers w.asked = some .none := by decide
  have said := newly_withdrawn 60 "logout" (some "captive-portal-web") answer stored
  rw [World.after, Task.call, exec_bind_pure] at reason
  exact absurd (reason answer _ _ _ _ said) (by decide)

end ElanAgent.Nac
