import Mathlib.Data.List.Infix
import ElanAgent.Library.Retries
import ElanAgent.Value

/-!
# The configuration of FreeRADIUS

`RadiusConfigurator` of `bin/radius_configurator.py` generates the server of FreeRADIUS and
the file of its certificate. Of the server only what the template fills in is kept. What
cannot be done, a template that cannot be read or a file that cannot be written, is the
environment of a call.
-/

namespace ElanAgent.Radius.Configurator

open Raising Remembering

/-- `KEYS` -/
inductive Key where
  | dot1xAuthentication
  | defaultSecret
  | caCert
  | certKey
  | certChain
  deriving DecidableEq

def Key.name : Key → String
  | .dot1xAuthentication => "dot1x_authentication"
  | .defaultSecret => "default_secret"
  | .caCert => "ca_cert"
  | .certKey => "cert_key"
  | .certChain => "cert_chain"

def keys : List Key := [.dot1xAuthentication, .defaultSecret, .caCert, .certKey, .certChain]

theorem mem_keys (k : Key) : k ∈ keys := by
  cases k <;> simp [keys]

/-- A configuration, of which any key may be missing. -/
abbrev Conf := Key → Option Value

/-- What handling a configuration may raise. -/
inductive ConfError where
  | keyError (key : String)
  | nameError
  | attributeError (name : String)
  | typeError
  | templateError
  | osError

/-- What the template fills in: the secret of the clients, if they are written, and the
provider. -/
structure ServerText where
  secret : Option String
  provider : String
  deriving DecidableEq

/-- The generated files. There is no text of the server before it is first written, and while
it is being rendered. -/
structure Files where
  server : Option ServerText
  pem : Option (List Char)
  deriving DecidableEq

/-- What can be done during a call. -/
structure Environment where
  template : Bool
  server : Bool
  pem : Bool

/-- `RadiusConfigurator`, with the files. -/
abbrev RadiusConfigurator := Remembering (fun _ : Key => Value) Files

abbrev ConfAct := Raising ConfError RadiusConfigurator

/-! ## The texts -/

/-- `server_template.render(**conf)` -/
def renderServer (conf : Conf) : Except ConfError ServerText :=
  match conf .dot1xAuthentication with
  | none => .error .nameError
  | some provider =>
    .ok ⟨match conf .defaultSecret with
      | some secret => if secret.truthy then some secret.format else none
      | none => none, provider.format⟩

/-- The rest of `text.split(separator)`, where `skip` characters of a separator are still to
come, or else `piece` has been read. -/
def splitFrom (separator : List Char) : ℕ → List Char → List Char → List (List Char)
  | _, piece, [] => [piece]
  | skip + 1, piece, _ :: rest => splitFrom separator skip piece rest
  | 0, piece, c :: rest =>
    if separator <+: c :: rest then piece :: splitFrom separator (separator.length - 1) [] rest
    else splitFrom separator 0 (piece ++ [c]) rest

/-- `text.split(separator)` -/
def split (separator text : List Char) : List (List Char) := splitFrom separator 0 [] text

def beginMark : List Char := "-----BEGIN CERTIFICATE-----".toList

def endMark : List Char := "-----END CERTIFICATE-----".toList

/-- `cert_list` -/
def certList (chain : List Char) : List (List Char) :=
  ((split endMark chain).filter fun cert => beginMark <:+: cert).map fun cert =>
    cert ++ endMark ++ ['\n']

/-- What is written to `nac.pem`: the certificates, the last one first, and the key. -/
def pemText (chain key : String) : List Char :=
  (certList chain.toList).reverse.flatten ++ key.toList

/-! ## The handler -/

/-- `open(file, "w")` -/
def openFile (writable : Bool) (truncate : Files → Files) : ConfAct Unit := do
  ensure writable .osError
  modify fun s => { s with files := truncate s.files }

/-- `self.conf[key]` -/
def stored (k : Key) : ConfAct Value := do
  match (← get).conf k with
  | some value => pure value
  | none => throw (.keyError k.name)

/-- The text of a value that has to be one. -/
def textOr (error : ConfError) : Value → ConfAct String
  | .str text => pure text
  | _ => throw error

/-- `file.write(text)` to `nac.pem`. -/
def writePem (text : List Char) : ConfAct Unit :=
  modify fun s => { s with files := { s.files with pem := s.files.pem.map (· ++ text) } }

/-- What follows `if conf_changed`. Restarting FreeRADIUS raises nothing. -/
def generate (env : Environment) : ConfAct Unit := do
  ensure env.template .templateError
  openFile env.server fun files => { files with server := none }
  let server ← rendered renderServer
  modify fun s => { s with files := { s.files with server := some server } }
  openFile env.pem fun files => { files with pem := some [] }
  let chain ← textOr (.attributeError "split") (← stored .certChain)
  writePem (certList chain.toList).reverse.flatten
  let key ← textOr .typeError (← stored .certKey)
  writePem key.toList

/-- `self.conf.get(key, "")` -/
def default (_ : Key) : Value := ""

/-- `__init__`, with what is there already. -/
def start (files : Files) : RadiusConfigurator := ⟨fun _ => none, files⟩

/-- `agent_conf_updated` -/
def agentConfUpdated (env : Environment) (conf : Conf) : ConfAct Unit :=
  update default (fun k => .keyError k.name) (fun _ _ => pure ()) conf keys (generate env)

/-- Some key of the configuration is not as it is remembered. -/
def Differs (s : RadiusConfigurator) (conf : Conf) : Prop := ¬Agrees default keys s.conf conf

/-! ## What is written -/

/-- The files are those of a configuration. -/
structure Written (conf : Conf) (files : Files) : Prop where
  server : ∃ text, renderServer conf = .ok text ∧ files.server = some text
  pem : ∃ chain key, conf .certChain = some (.str chain) ∧ conf .certKey = some (.str key) ∧
    files.pem = some (pemText chain key)

variable {s s' : RadiusConfigurator} {conf : Conf} {env : Environment}

theorem stored_eq_ok {k : Key} {value : Value} :
    exec (stored k) s = (.ok value, s') ↔ s.conf k = some value ∧ s = s' := by
  unfold stored
  rw [exec_get_bind]
  cases s.conf k <;> simp

theorem textOr_eq_ok {error : ConfError} {value : Value} {text : String} :
    exec (textOr error value) s = (.ok text, s') ↔ value = .str text ∧ s = s' := by
  cases value <;> simp [textOr]

theorem openFile_eq_ok {writable : Bool} {truncate : Files → Files} {u : Unit}
    (ran : exec (openFile writable truncate) s = (.ok u, s')) :
    s' = { s with files := truncate s.files } := by
  rw [openFile, exec_bind_eq_ok] at ran
  obtain ⟨_, t, ensured, ran⟩ := ran
  obtain ⟨-, rfl⟩ := exec_ensure_eq_ok.mp ensured
  exact (Prod.mk.inj ran).2.symm

section Keeps

variable {I : RadiusConfigurator → Prop}

theorem keeps_stored (k : Key) : Keeps (stored k) I := by
  refine keeps_get_bind fun s => ?_
  cases s.conf k with
  | some value => exact keeps_pure value
  | none => exact keeps_throw _

theorem keeps_textOr (error : ConfError) (value : Value) : Keeps (textOr error value) I := by
  cases value with
  | str text => exact keeps_pure text
  | _ => exact keeps_throw error

/-- Only files are written. -/
theorem keeps_generate (env : Environment) (conf : Conf) :
    Keeps (generate env) fun s => s.conf = conf := by
  have opened (writable : Bool) (truncate : Files → Files) :
      Keeps (openFile writable truncate) fun s => s.conf = conf :=
    (keeps_ensure _ _).then fun _ _ h => h
  have wrote (text : List Char) : Keeps (writePem text) fun s => s.conf = conf := fun _ h => h
  refine (keeps_ensure _ _).then fun _ => (opened _ _).then fun _ => ?_
  refine (keeps_rendered _ _).then fun server => Keeps.then (fun _ h => h) fun _ => ?_
  refine (opened _ _).then fun _ => (keeps_stored _).then fun chain => ?_
  refine (keeps_textOr _ _).then fun chain => (wrote _).then fun _ => ?_
  exact (keeps_stored _).then fun key => (keeps_textOr _ _).then fun key => wrote _

end Keeps

/-- A generation that returns has found its values, and has written both files. -/
theorem generate_eq_ok (ran : exec (generate env) s = (.ok (), s')) :
    ∃ text chain key, renderServer s.conf = .ok text ∧ s.conf .certChain = some (.str chain) ∧
      s.conf .certKey = some (.str key) ∧ s'.files = ⟨some text, some (pemText chain key)⟩ := by
  unfold generate at ran
  rw [exec_bind_eq_ok] at ran
  obtain ⟨_, s₁, loaded, ran⟩ := ran
  obtain ⟨-, rfl⟩ := exec_ensure_eq_ok.mp loaded
  rw [exec_bind_eq_ok] at ran
  obtain ⟨_, s₂, opened, ran⟩ := ran
  obtain rfl := openFile_eq_ok opened
  rw [exec_bind_eq_ok] at ran
  obtain ⟨text, s₃, rendered, ran⟩ := ran
  obtain ⟨server, rfl⟩ := rendered_eq_ok.mp rendered
  rw [exec_modify_bind, exec_bind_eq_ok] at ran
  obtain ⟨_, s₄, opened', ran⟩ := ran
  obtain rfl := openFile_eq_ok opened'
  rw [exec_bind_eq_ok] at ran
  obtain ⟨value, s₅, found, ran⟩ := ran
  obtain ⟨hchain, rfl⟩ := stored_eq_ok.mp found
  rw [exec_bind_eq_ok] at ran
  obtain ⟨chain, s₆, isText, ran⟩ := ran
  obtain ⟨rfl, rfl⟩ := textOr_eq_ok.mp isText
  rw [writePem, exec_modify_bind, exec_bind_eq_ok] at ran
  obtain ⟨value, s₇, found', ran⟩ := ran
  obtain ⟨hkey, rfl⟩ := stored_eq_ok.mp found'
  rw [exec_bind_eq_ok] at ran
  obtain ⟨key, s₈, isText', ran⟩ := ran
  obtain ⟨rfl, rfl⟩ := textOr_eq_ok.mp isText'
  obtain ⟨-, rfl⟩ := Prod.mk.inj ran
  exact ⟨text, chain, key, server, hchain, hkey, by simp [pemText]⟩

/-- A secret that is not remembered is the empty one, which the template leaves out as well. -/
theorem renderServer_of_agrees {text : ServerText} (agrees : Agrees default keys s.conf conf)
    (rendered : renderServer s.conf = .ok text) : renderServer conf = .ok text := by
  unfold renderServer at rendered ⊢
  cases provider : s.conf .dot1xAuthentication with
  | none =>
    rw [provider] at rendered
    cases rendered
  | some value =>
    rw [provider] at rendered
    rw [agrees.eq_some (mem_keys _) provider, ← rendered]
    cases secret : s.conf .defaultSecret with
    | some value => rw [agrees.eq_some (mem_keys _) secret]
    | none =>
      have empty := agrees .defaultSecret (mem_keys _)
      rw [recalled, secret] at empty
      rw [empty]
      rfl

/-- The generator writes the files of the configurations that agree with what it remembers. -/
theorem generates_generate : Generates default keys generate Written := by
  refine ⟨fun env s => keeps_generate env s.conf s rfl, fun ran agrees => ?_⟩
  obtain ⟨text, chain, key, rendered, hchain, hkey, files⟩ := generate_eq_ok ran
  rw [files]
  exact ⟨⟨text, renderServer_of_agrees agrees rendered, rfl⟩, chain, key,
    agrees.eq_some (mem_keys _) hchain, agrees.eq_some (mem_keys _) hkey, rfl⟩

/-- The handler differs from its generator only in what it skips. -/
theorem rewrites_agentConfUpdated : Rewrites agentConfUpdated
    Differs fun conf s => Written conf s.files :=
  generates_generate.rewrites fun _ _ _ _ => rfl

/-- A configuration with all its keys is skipped when it is sent again, even if its files could
not be written. -/
theorem agentConfUpdated_resent (complete : ∀ k, (conf k).isSome) (env env' : Environment)
    (s : RadiusConfigurator) :
    exec (agentConfUpdated env' conf) (exec (agentConfUpdated env conf) s).2 =
      (.ok (), (exec (agentConfUpdated env conf) s).2) := by
  obtain ⟨changed, t, ran⟩ := exists_remember complete (fun _ _ s => ⟨s, rfl⟩) keys false s
  exact generates_generate.skipped (fun _ _ _ => rfl) ran env'

end ElanAgent.Radius.Configurator
