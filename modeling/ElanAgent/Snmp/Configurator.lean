import ElanAgent.Library.Retries
import ElanAgent.Value

/-!
# The configuration of the trap receiver

`SnmpConfigurator` of `bin/snmp_configurator.py` generates the users and communities of
`snmptrapd.conf`, and stores the default credentials in Redis as soon as it remembers them. The
lines of the file that do not depend on the configuration are left out.
-/

namespace ElanAgent.Snmp.Configurator

open Raising Remembering

/-- `KEYS` -/
inductive Key where
  | credentials
  | engineIds
  deriving DecidableEq

def Key.name : Key → String
  | .credentials => "credentials"
  | .engineIds => "engine_ids"

def keys : List Key := [.credentials, .engineIds]

theorem mem_keys (k : Key) : k ∈ keys := by
  cases k <;> simp [keys]

/-- Credentials, of which any key may be missing. -/
structure Credentials where
  community : Option Value
  authProto : Option Value
  authKey : Option Value
  privProto : Option Value
  privKey : Option Value
  deriving DecidableEq

/-- A list, or the empty dictionary that stands for one that is not remembered. -/
inductive Setting (α : Type) where
  | empty
  | list (items : List α)
  deriving DecidableEq

def Setting.items {α : Type} : Setting α → List α
  | .empty => []
  | .list items => items

/-- The values of a key. -/
def Held : Key → Type
  | .credentials => Setting Credentials
  | .engineIds => Setting Value

instance : ∀ k, DecidableEq (Held k)
  | .credentials => inferInstanceAs (DecidableEq (Setting Credentials))
  | .engineIds => inferInstanceAs (DecidableEq (Setting Value))

/-- A configuration, of which any key may be missing. -/
abbrev Conf := ∀ k, Option (Held k)

/-- What handling a configuration may raise. -/
inductive ConfError where
  | keyError (key : String)
  | typeError
  | templateError
  | osError
  | connectionError

/-- The default credentials in Redis, and the generated file, which has no lines before it is
first written, and while it is being rendered. -/
structure Files where
  defaultCredentials : Option (Setting Credentials)
  snmptrapd : Option (List String)

/-- What can be done during a call. -/
structure Environment where
  redis : Bool
  template : Bool
  snmptrapd : Bool

/-- `SnmpConfigurator`, with the file. -/
abbrev SnmpConfigurator := Remembering Held Files

abbrev ConfAct := Raising ConfError SnmpConfigurator

/-! ## The template -/

/-- `${creds[key]}` -/
def field (key : String) : Option Value → Except ConfError String
  | some value => .ok value.format
  | none => .error (.keyError key)

/-- `creds.get(key, '')`, as a condition. -/
def given (value : Option Value) : Bool := (value.map Value.truthy).getD false

/-- `createUser`, of anybody, and of every engine. -/
def createUser (engineIds : Option (Setting Value)) (user : String) :
    Except ConfError (List String) :=
  match engineIds with
  | none => .error .typeError
  | some engineIds => .ok (("createUser " ++ user) ::
      engineIds.items.map fun engineId => "createUser -e 0x" ++ engineId.format ++ " " ++ user)

/-- The lines for credentials. -/
def renderCredentials (engineIds : Option (Setting Value)) (creds : Credentials) :
    Except ConfError (List String) := do
  let community ← field "community" creds.community
  if given creds.authKey then
    let authProto ← field "auth_proto" creds.authProto
    let authKey ← field "auth_key" creds.authKey
    let user := community ++ " " ++ authProto ++ " " ++ authKey
    if given creds.privKey then
      let privProto ← field "priv_proto" creds.privProto
      let privKey ← field "priv_key" creds.privKey
      let users ← createUser engineIds (user ++ " " ++ privProto ++ " " ++ privKey)
      pure (users ++ ["authUser log " ++ community ++ " priv"])
    else
      let users ← createUser engineIds user
      pure (users ++ ["authUser log " ++ community])
  else pure ["authUser log " ++ community ++ " noauth", "authCommunity log " ++ community]

/-- `% for creds in credentials` -/
def renderAll (engineIds : Option (Setting Value)) :
    List Credentials → Except ConfError (List String)
  | [] => .ok []
  | creds :: rest => do
    let lines ← renderCredentials engineIds creds
    let more ← renderAll engineIds rest
    pure (lines ++ more)

/-- `snmp_template.render(**conf)`. Nothing can be iterated over that is not remembered. -/
def renderSnmptrapd (conf : Conf) : Except ConfError (List String) :=
  match conf .credentials with
  | none => .error .typeError
  | some credentials => renderAll (conf .engineIds) (Setting.items credentials)

/-! ## The handler -/

/-- `self.synapse.set(SNMP_DEFAULT_CREDENTIALS_PATH, conf[key])`, of one of the keys. -/
def save (env : Environment) : ∀ k, Held k → ConfAct Unit
  | .credentials, value => do
    ensure env.redis .connectionError
    modify fun s => { s with files := { s.files with defaultCredentials := some value } }
  | .engineIds, _ => pure ()

/-- What follows `if conf_changed`. Restarting the receiver raises nothing. -/
def generate (env : Environment) : ConfAct Unit := do
  ensure env.template .templateError
  ensure env.snmptrapd .osError
  modify fun s => { s with files := { s.files with snmptrapd := none } }
  let lines ← rendered renderSnmptrapd
  modify fun s => { s with files := { s.files with snmptrapd := some lines } }

/-- `self.conf.get(key, {})` -/
def default : ∀ k, Held k
  | .credentials => .empty
  | .engineIds => .empty

/-- `__init__`, with what is there already. -/
def start (files : Files) : SnmpConfigurator := ⟨fun _ => none, files⟩

/-- `agent_conf_updated` -/
def agentConfUpdated (env : Environment) (conf : Conf) : ConfAct Unit :=
  update default (fun k => .keyError k.name) (save env) conf keys (generate env)

/-- Some key of the configuration is not as it is remembered. -/
def Differs (s : SnmpConfigurator) (conf : Conf) : Prop := ¬Agrees default keys s.conf conf

/-! ## What is written -/

/-- The file is that of a configuration. -/
def Written (conf : Conf) (files : Files) : Prop :=
  ∃ lines, renderSnmptrapd conf = .ok lines ∧ files.snmptrapd = some lines

variable {s s' : SnmpConfigurator} {conf : Conf} {env : Environment}

theorem conf_save (env : Environment) (k : Key) (value : Held k) (s : SnmpConfigurator) :
    (exec (save env k value) s).2.conf = s.conf := by
  cases k with
  | engineIds => rfl
  | credentials =>
    unfold save
    cases env.redis <;> rfl

/-- Only the file is written. -/
theorem keeps_generate (env : Environment) (conf : Conf) :
    Keeps (generate env) fun s => s.conf = conf := by
  refine (keeps_ensure _ _).then fun _ => (keeps_ensure _ _).then fun _ => ?_
  refine Keeps.then (fun _ h => h) fun _ => (keeps_rendered _ _).then fun lines => ?_
  exact fun _ h => h

theorem generate_eq_ok (ran : exec (generate env) s = (.ok (), s')) :
    Written s.conf s'.files := by
  unfold generate at ran
  rw [exec_bind_eq_ok] at ran
  obtain ⟨_, s₁, loaded, ran⟩ := ran
  obtain ⟨-, rfl⟩ := exec_ensure_eq_ok.mp loaded
  rw [exec_bind_eq_ok] at ran
  obtain ⟨_, s₂, opened, ran⟩ := ran
  obtain ⟨-, rfl⟩ := exec_ensure_eq_ok.mp opened
  rw [exec_modify_bind, exec_bind_eq_ok] at ran
  obtain ⟨lines, s₃, rendered, ran⟩ := ran
  obtain ⟨text, rfl⟩ := rendered_eq_ok.mp rendered
  obtain ⟨-, rfl⟩ := Prod.mk.inj ran
  exact ⟨lines, text, rfl⟩

theorem bind_eq_ok {α β : Type} {x : Except ConfError α} {f : α → Except ConfError β} {b : β} :
    (x >>= f) = .ok b ↔ ∃ a, x = .ok a ∧ f a = .ok b := by
  cases x <;> simp [bind, Except.bind]

/-- Without engines, no user can be created. -/
theorem given_of_none {creds : Credentials} {lines : List String}
    (rendered : renderCredentials none creds = .ok lines) : ¬given creds.authKey := by
  intro auth
  unfold renderCredentials at rendered
  obtain ⟨community, -, rendered⟩ := bind_eq_ok.mp rendered
  rw [if_pos auth] at rendered
  obtain ⟨authProto, -, rendered⟩ := bind_eq_ok.mp rendered
  obtain ⟨authKey, -, rendered⟩ := bind_eq_ok.mp rendered
  split at rendered
  · obtain ⟨privProto, -, rendered⟩ := bind_eq_ok.mp rendered
    obtain ⟨privKey, -, rendered⟩ := bind_eq_ok.mp rendered
    obtain ⟨users, created, -⟩ := bind_eq_ok.mp rendered
    cases created
  · obtain ⟨users, created, -⟩ := bind_eq_ok.mp rendered
    cases created

/-- Credentials that no user is created for do without the engines. -/
theorem renderCredentials_of_none {creds : Credentials} {lines : List String}
    (rendered : renderCredentials none creds = .ok lines) (engineIds : Option (Setting Value)) :
    renderCredentials engineIds creds = .ok lines := by
  have noUser := given_of_none rendered
  unfold renderCredentials at rendered ⊢
  simpa only [if_neg noUser] using rendered

theorem renderAll_of_none {all : List Credentials} {lines : List String}
    (rendered : renderAll none all = .ok lines) (engineIds : Option (Setting Value)) :
    renderAll engineIds all = .ok lines := by
  induction all generalizing lines with
  | nil => exact rendered
  | cons creds rest ih =>
    unfold renderAll at rendered ⊢
    obtain ⟨first, here, rendered⟩ := bind_eq_ok.mp rendered
    obtain ⟨more, there, rendered⟩ := bind_eq_ok.mp rendered
    rw [renderCredentials_of_none here, ih there]
    exact rendered

/-- Engines that are not remembered have not been asked for. -/
theorem renderSnmptrapd_of_agrees {lines : List String} (agrees : Agrees default keys s.conf conf)
    (rendered : renderSnmptrapd s.conf = .ok lines) : renderSnmptrapd conf = .ok lines := by
  unfold renderSnmptrapd at rendered ⊢
  cases credentials : s.conf .credentials with
  | none =>
    rw [credentials] at rendered
    cases rendered
  | some value =>
    rw [credentials] at rendered
    rw [agrees.eq_some (mem_keys _) credentials]
    cases engineIds : s.conf .engineIds with
    | none =>
      rw [engineIds] at rendered
      exact renderAll_of_none rendered _
    | some value =>
      rw [engineIds] at rendered
      rwa [agrees.eq_some (mem_keys _) engineIds]

/-- The generator writes the file of the configurations that agree with what it remembers. -/
theorem generates_generate : Generates default keys generate Written := by
  refine ⟨fun env s => keeps_generate env s.conf s rfl, fun ran agrees => ?_⟩
  obtain ⟨lines, rendered, file⟩ := generate_eq_ok ran
  exact ⟨lines, renderSnmptrapd_of_agrees agrees rendered, file⟩

theorem rewrites_agentConfUpdated : Rewrites agentConfUpdated
    Differs fun conf s => Written conf s.files :=
  generates_generate.rewrites conf_save

/-- A configuration with all its keys is skipped when it is sent again, even if the file could
not be written. Where Redis fails, a part of it has not been remembered. -/
theorem agentConfUpdated_resent (complete : ∀ k, (conf k).isSome) (reachable : env.redis)
    (env' : Environment) (s : SnmpConfigurator) :
    exec (agentConfUpdated env' conf) (exec (agentConfUpdated env conf) s).2 =
      (.ok (), (exec (agentConfUpdated env conf) s).2) := by
  have stores (k : Key) (value : Held k) (s : SnmpConfigurator) :
      ∃ t, exec (save env k value) s = (.ok (), t) := by
    cases k with
    | credentials =>
      unfold save
      rw [reachable]
      exact ⟨_, rfl⟩
    | engineIds => exact ⟨s, rfl⟩
  obtain ⟨changed, t, ran⟩ := exists_remember complete stores keys false s
  exact generates_generate.skipped (conf_save env) ran env'

end ElanAgent.Snmp.Configurator
