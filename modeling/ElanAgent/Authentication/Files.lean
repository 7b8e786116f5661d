import ElanAgent.Authentication.Modules
import ElanAgent.Library.Retries

/-!
# The files of a configuration

Whether `new_authentication_conf` leaves the files of the configuration that it is handed. The
mark of a join that has failed is made in what is remembered, so that only entries that are
alike up to this mark may be taken for one another.
-/

namespace ElanAgent.Authentication

open Raising

/-! ## What is handed over -/

/-- The authentications that are handed over, unless one of them has no id. -/
inductive Handed where
  | entries (conf : List Auth)
  | noId

/-- `new_authentication_conf`, where `auth['id']` may raise. -/
def handle (env : Environment) : Handed → Act Unit
  | .entries conf => newAuthenticationConf env conf
  | .noId => throw (.keyError "id")

/-- The authentications that are handed over are not those that are remembered. -/
def Differs (p : Provider) : Handed → Prop
  | .entries conf =>
      ¬∃ current, p.authentications = some current ∧ (Authentications.ofConf conf).same current
  | .noId => True

/-! ## What is written -/

/-- The entry without the mark. -/
def Auth.unmarked (auth : Auth) : Auth := { auth with joinFailed := false }

/-- The same entries, whatever their order, up to the mark. -/
def Authentications.Alike (auths other : Authentications) : Prop :=
  ∀ id, (auths.entries.get id).map Auth.unmarked = (other.entries.get id).map Auth.unmarked

/-- The files are generated from the authentications. -/
structure WrittenFrom (auths : Authentications) (p : Provider) : Prop where
  texts : ∃ env q out q', exec (generate env auths) q = (.ok out, q') ∧
    p.moduleFile = some out.moduleFile ∧ p.policyFile = some out.cases
  serverCas : ∀ name ca, serverCaOf auths.values name = some ca → p.serverCas.get name = some ca

/-- The files are those of a configuration, with the domains that could be joined then. -/
def Written : Handed → Provider → Prop
  | .entries conf, p => ∃ auths, auths.Alike (.ofConf conf) ∧ WrittenFrom auths p
  | .noId, _ => False

variable {auths other third : Authentications} {auth : Auth} {p p' : Provider} {env : Environment}

namespace Authentications

theorem Alike.trans (h : auths.Alike other) (h' : other.Alike third) : auths.Alike third :=
  fun id => (h id).trans (h' id)

theorem Alike.symm (h : auths.Alike other) : other.Alike auths := fun id => (h id).symm

theorem alike_of_same (same : auths.same other) : auths.Alike other := by
  intro id
  obtain ⟨here, there⟩ := of_decide_eq_true same
  cases found : auths.entries.get id with
  | some auth => rw [← here id (Dict.mem_keys.mpr ⟨auth, found⟩), found]
  | none =>
    cases found' : other.entries.get id with
    | some auth => rw [← found, there id (Dict.mem_keys.mpr ⟨auth, found'⟩), found']
    | none => rfl

/-- The mark leaves the entries alike. -/
theorem alike_setJoinFailed (alike : other.Alike auths) (mem : auth ∈ auths.values) :
    (other.setJoinFailed auth).Alike auths := by
  intro id
  simp only [setJoinFailed, Dict.get_set]
  split
  · rename_i same
    subst same
    rw [mem_values.mp mem]
    rfl
  · exact alike id

end Authentications

/-! ## What is remembered -/

/-- What is remembered is alike to the authentications. -/
def Remembers (auths : Authentications) (p : Provider) : Prop :=
  ∃ current, p.authentications = some current ∧ current.Alike auths

theorem keeps_onAd {α : Type} (x : Ad.Act α) : Keeps (onAd x) (Remembers auths) :=
  fun _ h => h

theorem keeps_renderLdap (auth : Auth) : Keeps (renderLdap auth) (Remembers auths) :=
  keeps_ite (keeps_throw _) (keeps_pure _)

theorem keeps_renderAd : Keeps renderAd (Remembers auths) := by
  intro p h
  unfold renderAd
  rw [exec_get_bind]
  cases p.ad.info with
  | none => exact h
  | some info => exact keeps_ite (keeps_throw _) (keeps_pure _) p h

theorem keeps_unfoldGroup (other : Authentications) (auth : Auth) :
    Keeps (unfoldGroup other auth) (Remembers auths) := by
  unfold unfoldGroup
  split
  · exact keeps_pure _
  · exact keeps_throw _

/-- The loop over the authentications marks some of them. -/
theorem keeps_configure (mem : auth ∈ auths.values) :
    Keeps (configure env auths auth) (Remembers auths) := by
  unfold configure
  split
  · exact (keeps_renderLdap auth).then fun _ => keeps_pure _
  · refine (keeps_onAd _).then fun inDomain => ?_
    refine keeps_ite (keeps_renderAd.then fun _ => keeps_pure _) ?_
    rintro p ⟨current, remembered, alike⟩
    exact ⟨current.setJoinFailed auth, by simp [remembered],
      Authentications.alike_setJoinFailed alike mem⟩
  · exact (keeps_unfoldGroup auths auth).then fun _ => keeps_pure _
  · exact keeps_pure _

theorem keeps_configureAll {items : List Auth} (mem : ∀ auth ∈ items, auth ∈ auths.values) :
    Keeps (configureAll env auths items) (Remembers auths) := by
  induction items with
  | nil => exact keeps_pure _
  | cons auth rest ih =>
    refine (keeps_configure (mem auth List.mem_cons_self)).then fun _ => ?_
    refine (ih fun other h => mem other (List.mem_cons_of_mem _ h)).then fun _ => ?_
    exact keeps_pure _

theorem keeps_generate : Keeps (generate env auths) (Remembers auths) := by
  refine (keeps_configureAll fun _ h => h).then fun out => Keeps.then ?_ fun _ => keeps_pure _
  unfold quitDomain
  refine keeps_ite ((keeps_onAd _).then fun _ => ?_) (keeps_pure _)
  exact keeps_ite (keeps_onAd _) (keeps_pure _)

/-- A file that is written is not remembered. -/
theorem keeps_write {file : File} {put : Provider → Provider}
    (frame : ∀ p, (put p).authentications = p.authentications) :
    Keeps (write env file put) (Remembers auths) := by
  refine keeps_ite (fun p h => ?_) (keeps_throw _)
  show Remembers auths (put p)
  rwa [Remembers, frame]

theorem keeps_applyConf (configured : p.authentications = some auths)
    (ran : exec (applyConf env) p = (.ok (), p')) : Remembers auths p' := by
  unfold applyConf at ran
  rw [exec_get_bind, configured] at ran
  have kept : Keeps (do
      let out ← generate env auths
      write env .modules fun p => { p with moduleFile := some out.moduleFile }
      write env .policy fun p => { p with policyFile := some out.cases }
      writeServerCas env auths.values
      modify fun p => { p with providedServices := out.services } : Act Unit)
      (Remembers auths) := by
    refine keeps_generate.then fun out => ?_
    refine Keeps.then (keeps_write ?_) fun _ => Keeps.then (keeps_write ?_) fun _ => ?_
    · exact fun _ => rfl
    · exact fun _ => rfl
    · exact (keeps_writeServerCas (fun _ _ h => h) env auths.values).then fun _ _ h => h
  have start : Remembers auths p := ⟨auths, configured, fun _ => rfl⟩
  have done := kept p start
  rwa [ran] at done

/-! ## The handler -/

theorem writtenFrom_applyConf (configured : p.authentications = some auths)
    (ran : exec (applyConf env) p = (.ok (), p')) : WrittenFrom auths p' := by
  obtain ⟨out, q, generated, modules, policy, serverCas⟩ := applyConf_files ran configured
  exact ⟨⟨env, p, out, q, generated, modules, policy⟩, serverCas⟩

/-- A handling that finds a difference and returns has applied the authentications. -/
theorem applied_of_differs {handed : Handed} (ran : exec (handle env handed) p = (.ok (), p'))
    (differs : Differs p handed) : ∃ conf q, handed = .entries conf ∧
      q.authentications = some (.ofConf conf) ∧ exec (applyConf env) q = (.ok (), p') := by
  cases handed with
  | noId => cases ran
  | entries conf =>
    refine ⟨conf, { p with authentications := some (.ofConf conf) }, rfl, rfl, ?_⟩
    unfold handle newAuthenticationConf at ran
    simp only [exec_get_bind] at ran
    cases current : p.authentications with
    | none => simpa only [current, exec_modify_bind] using ran
    | some auths =>
      have other : ¬(Authentications.ofConf conf).same auths := fun same =>
        differs ⟨auths, current, same⟩
      simpa only [current, if_neg other, exec_modify_bind] using ran

theorem rewrites_handle : Rewrites handle Differs Written := by
  refine ⟨fun ran differs => ?_, fun ran differs handed same => ?_,
    fun {env handed p p'} ran same => ?_⟩
  · obtain ⟨conf, q, rfl, configured, ran⟩ := applied_of_differs ran differs
    exact ⟨_, fun _ => rfl, writtenFrom_applyConf configured ran⟩
  · obtain ⟨conf, q, rfl, configured, ran⟩ := applied_of_differs ran differs
    obtain ⟨current, remembered, alike⟩ := keeps_applyConf configured ran
    cases handed with
    | noId => exact absurd trivial same
    | entries conf' =>
      obtain ⟨current', remembered', same⟩ := not_not.mp same
      obtain rfl := Option.some.inj (remembered.symm.trans remembered')
      exact ⟨_, ((Authentications.alike_of_same same).trans alike).symm,
        writtenFrom_applyConf configured ran⟩
  · cases handed with
    | noId => exact absurd trivial same
    | entries conf =>
      obtain ⟨current, remembered, same⟩ := not_not.mp same
      unfold handle newAuthenticationConf at ran
      simp only [exec_get_bind, remembered, if_pos same] at ran
      exact (exec_pure_eq_ok.mp ran).2.symm

end ElanAgent.Authentication
