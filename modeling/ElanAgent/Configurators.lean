import ElanAgent.Authentication.Files
import ElanAgent.Radius.Configurator
import ElanAgent.Snmp.Configurator

/-!
# Whether a configuration is in service

Each of the three handlers compares what it is handed with what it remembers, remembers it, and
generates its files last. A configuration whose handling has failed is remembered all the same,
and is skipped when it is sent again. The files are right wherever nothing is skipped but what
has been generated.
-/

namespace ElanAgent

/-- The configurations of FreeRADIUS that are handed over, from the start. -/
def radiusRun (files : Radius.Configurator.Files)
    (steps : List (Radius.Configurator.Environment × Radius.Configurator.Conf)) :
    List (Visit Radius.Configurator.Conf Radius.Configurator.RadiusConfigurator) :=
  visits Radius.Configurator.agentConfUpdated (Radius.Configurator.start files) steps

/-- Those of the trap receiver. -/
def snmpRun (files : Snmp.Configurator.Files)
    (steps : List (Snmp.Configurator.Environment × Snmp.Configurator.Conf)) :
    List (Visit Snmp.Configurator.Conf Snmp.Configurator.SnmpConfigurator) :=
  visits Snmp.Configurator.agentConfUpdated (Snmp.Configurator.start files) steps

/-- Those of the authentications. -/
def authRun (p : Authentication.Provider)
    (steps : List (Authentication.Environment × Authentication.Handed)) :
    List (Visit Authentication.Handed Authentication.Provider) :=
  visits Authentication.handle { p with authentications := none } steps

/-- In every run that skips nothing but what has been generated, the files are those of the
configuration whenever its handling returns. -/
theorem written_of_retried (files : Radius.Configurator.Files)
    (steps : List (Radius.Configurator.Environment × Radius.Configurator.Conf))
    (files' : Snmp.Configurator.Files)
    (steps' : List (Snmp.Configurator.Environment × Snmp.Configurator.Conf))
    (p : Authentication.Provider)
    (steps'' : List (Authentication.Environment × Authentication.Handed)) :
    (Retried Radius.Configurator.Differs False (radiusRun files steps) →
      ∀ v ∈ radiusRun files steps, v.returned →
        Radius.Configurator.Written v.value v.after.files) ∧
    (Retried Snmp.Configurator.Differs False (snmpRun files' steps') →
      ∀ v ∈ snmpRun files' steps', v.returned →
        Snmp.Configurator.Written v.value v.after.files) ∧
    (Retried Authentication.Differs False (authRun p steps'') →
      ∀ v ∈ authRun p steps'', v.returned → Authentication.Written v.value v.after) :=
  ⟨Radius.Configurator.rewrites_agentConfUpdated.written False.elim,
    Snmp.Configurator.rewrites_agentConfUpdated.written False.elim,
    Authentication.rewrites_handle.written False.elim⟩

/-! ## Sent twice -/

/-- A configuration that is sent twice, where the first handling returns. -/
theorem retried_twice {ε σ γ η : Type} {handle : η → γ → Raising ε σ Unit}
    {Differs : σ → γ → Prop} {s : σ} {value : γ} (env : η) (differs : Differs s value)
    (returned : (Raising.exec (handle env value) s).1.isOk) :
    Retried Differs False (visits handle s [(env, value), (env, value)]) :=
  ⟨.inl differs, .inr (.inl ⟨returned, differs⟩), trivial⟩

def radiusConf : Radius.Configurator.Conf
  | .dot1xAuthentication => some (.int 1)
  | _ => some "secret"

/-- The files of FreeRADIUS, where that of the certificate may be written or not. -/
def radiusEnv (pem : Bool) : Radius.Configurator.Environment := ⟨true, true, pem⟩

def snmpConf : Snmp.Configurator.Conf
  | .credentials => some (.list [⟨some "public", none, none, none, none⟩])
  | .engineIds => some (.list [])

def snmpEnv (snmptrapd : Bool) : Snmp.Configurator.Environment := ⟨true, true, snmptrapd⟩

/-- An external authentication, of which nothing is generated but the files. -/
def authConf : Authentication.Handed := .entries [.bare (.int 1) .external]

def authEnv (writable : Bool) : Authentication.Environment :=
  ⟨fun _ => .raised, fun _ => writable⟩

def unconfigured : Authentication.Provider := ⟨none, [], ⟨none, []⟩, none, none, .empty⟩

theorem differs_radiusConf :
    Radius.Configurator.Differs (Radius.Configurator.start ⟨none, none⟩) radiusConf := by
  intro agrees
  have same := agrees .dot1xAuthentication (Radius.Configurator.mem_keys _)
  cases same

theorem differs_snmpConf :
    Snmp.Configurator.Differs (Snmp.Configurator.start ⟨none, none⟩) snmpConf := by
  intro agrees
  have same := agrees .credentials (Snmp.Configurator.mem_keys _)
  cases same

theorem differs_authConf : Authentication.Differs unconfigured authConf := by
  rintro ⟨current, ⟨⟩, -⟩

theorem written_of_retried_twice :
    (∀ v ∈ radiusRun ⟨none, none⟩ [(radiusEnv true, radiusConf), (radiusEnv true, radiusConf)],
      v.returned → Radius.Configurator.Written v.value v.after.files) ∧
    (∀ v ∈ snmpRun ⟨none, none⟩ [(snmpEnv true, snmpConf), (snmpEnv true, snmpConf)],
      v.returned → Snmp.Configurator.Written v.value v.after.files) ∧
    ∀ v ∈ authRun unconfigured [(authEnv true, authConf), (authEnv true, authConf)],
      v.returned → Authentication.Written v.value v.after := by
  obtain ⟨radius, snmp, auth⟩ := written_of_retried ⟨none, none⟩
    [(radiusEnv true, radiusConf), (radiusEnv true, radiusConf)] ⟨none, none⟩
    [(snmpEnv true, snmpConf), (snmpEnv true, snmpConf)] unconfigured
    [(authEnv true, authConf), (authEnv true, authConf)]
  exact ⟨radius (retried_twice _ differs_radiusConf (by decide +kernel)),
    snmp (retried_twice _ differs_snmpConf (by decide +kernel)),
    auth (retried_twice _ differs_authConf (by decide +kernel))⟩

/-- A file cannot be written, and the same configuration is sent again when it can be. It is
handled without a word, and its file is still not there. -/
theorem not_written_resent :
    (∃ v ∈ radiusRun ⟨none, none⟩ [(radiusEnv false, radiusConf), (radiusEnv true, radiusConf)],
      v.returned ∧ ¬Radius.Configurator.Written v.value v.after.files) ∧
    (∃ v ∈ snmpRun ⟨none, none⟩ [(snmpEnv false, snmpConf), (snmpEnv true, snmpConf)],
      v.returned ∧ ¬Snmp.Configurator.Written v.value v.after.files) ∧
    ∃ v ∈ authRun unconfigured [(authEnv false, authConf), (authEnv true, authConf)],
      v.returned ∧ ¬Authentication.Written v.value v.after := by
  refine ⟨⟨_, .tail _ (.head _), rfl, ?_⟩, ⟨_, .tail _ (.head _), rfl, ?_⟩,
    ⟨_, .tail _ (.head _), rfl, ?_⟩⟩
  · rintro ⟨-, chain, key, -, -, file⟩
    cases file
  · rintro ⟨lines, -, file⟩
    cases file
  · rintro ⟨auths, -, ⟨env, q, out, q', -, file, -⟩, -⟩
    cases file

end ElanAgent
