import ElanAgent.Authentication.Groups
import ElanAgent.Library.Raising

/-!
# The configuration of the authentications

`AuthenticationProvider.apply_conf` of `elan/authentication.py`, which joins the Active
Directory domains and generates two files for FreeRADIUS: the modules, and the policy that
calls them. A module file is the list of the modules that it defines.

What the commands of Samba do, and which files can be written, is the environment of a call.
-/

namespace ElanAgent.Authentication

open Raising

/-! ## Active Directory -/

/-- `AD.info()`: what `net ads info` told about the domain that was joined. -/
structure AdInfo where
  ldapServerIp : Option String
  ldapServerName : Option String
  ldapPort : Option String
  ldapBaseDn : Option String
  realm : Option String
  deriving DecidableEq

/-- An empty dictionary is false. -/
def AdInfo.truthy (info : AdInfo) : Bool := info ≠ ⟨none, none, none, none, none⟩

/-- What becomes of `AD.join`: it stores what it was told, or raises `AD.Error`, or raises
something else. -/
inductive Joining where
  | joined (info : AdInfo)
  | refused (message : String)
  | raised
  deriving DecidableEq

inductive JoinStatus where
  | joined
  | error (message : String)
  deriving DecidableEq

/-- The information in Redis, and the statuses published so far, by provider. -/
structure Ad where
  info : Option AdInfo
  statuses : List (Value × JoinStatus)
  deriving DecidableEq

/-- The files that are generated. -/
inductive File where
  | modules
  | policy
  | serverCa (id : String)
  deriving DecidableEq

/-- What becomes of the join for each entry, and the files that can be written. -/
structure Environment where
  join : Value → Joining
  writable : File → Bool

namespace Ad

abbrev Act := Raising Error Ad

/-- `AD.joined()`. -/
def joinedAny : Act Bool := do
  let ad ← get
  pure (match ad.info with
    | some info => info.truthy
    | none => false)

/-- `realm.upper()`, of an ASCII text. -/
def upper (realm : String) : List Char := realm.toList.map Char.toUpper

/-- `AD.joined(realm)`. -/
def joined (realm : String) : Act Bool := do
  let ad ← get
  match ad.info with
  | none => pure false
  | some info =>
    if info.truthy then
      if realm = "" then pure true
      else
        match info.realm with
        | none => throw (.keyError "realm")
        | some current => pure (upper realm = upper current)
    else pure false

/-- `AD.leave()`. -/
def leave : Act Unit := modify fun ad => { ad with info := none }

/-- `auth[key]`. -/
def required {α : Type} (key : String) : Option α → Act α
  | some a => pure a
  | none => throw (.keyError key)

/-- Try to join, an `AD.Error` being a status. -/
def tryJoin (env : Environment) (auth : Auth) : Act JoinStatus := do
  let _ ← required "adminLogin" auth.adminLogin
  let _ ← required "adminPwd" auth.adminPwd
  match env.join auth.id with
  | .joined info =>
    modify fun ad => { ad with info := some info }
    pure .joined
  | .refused message => pure (.error message)
  | .raised => throw .osError

/-- Join the domain of the entry if that is not done. Is the agent in that domain now? -/
def inDomain (env : Environment) (auth : Auth) : Act Bool := do
  let domain ← required "domain" auth.domain
  if ← joined domain then pure true
  else do
    if ← joinedAny then leave
    let status ← tryJoin env auth
    modify fun ad => { ad with statuses := ad.statuses ++ [(auth.id, status)] }
    joined domain

/-- The Active Directory entries at whose turn the agent is in their domain. -/
def joinedEntries (env : Environment) : List Auth → Act (List Auth)
  | [] => pure []
  | auth :: auths =>
    if auth.type = .activeDirectory then do
      if ← inDomain env auth then (auth :: ·) <$> joinedEntries env auths
      else joinedEntries env auths
    else joinedEntries env auths

end Ad

/-! ## The texts -/

/-- A module that is defined: one that is always there, or one that a template renders. -/
inductive Module where
  | static (name : String)
  | ldap (auth : Auth)
  | adLdap (info : AdInfo)
  deriving DecidableEq

def Module.name : Module → String
  | .static name => name
  | .ldap auth => ldapModule auth.id
  | .adLdap _ => "ADldap"

/-- The modules that do not depend on the configuration. -/
def staticModules : List Module :=
  ["external-auth", "ADpap", "ADmschap", "auth_provider_failed", "auth_provider_failed_in_group",
    "auth_all_providers_failed_in_group"].map .static

/-- `case <id> { … }` in the policy. -/
structure Case where
  id : Value
  pieces : List Piece
  deriving DecidableEq

/-- The case for any other provider. -/
def defaultCase : List Piece := [.externalAuth, .failed]

/-- What is generated for an entry, or for several. -/
structure Generated where
  modules : List Module
  cases : List Case
  services : List String
  hasActiveDirectory : Bool
  deriving DecidableEq

def Generated.empty : Generated := ⟨[], [], [], false⟩

def Generated.append (one other : Generated) : Generated where
  modules := one.modules ++ other.modules
  cases := one.cases ++ other.cases
  services := one.services ++ other.services
  hasActiveDirectory := one.hasActiveDirectory || other.hasActiveDirectory

/-- The modules that the module file defines. -/
def Generated.moduleFile (out : Generated) : List Module := staticModules ++ out.modules

/-- The modules that the policy file names. -/
def Generated.named (out : Generated) : List String :=
  (out.cases.flatMap Case.pieces ++ defaultCase).map Piece.module

/-- The services of a provider that authenticates here. -/
def services (id : Value) : List String :=
  ["authenticate", "authorize"].map fun call =>
    "authentication/provider/" ++ id.format ++ "/" ++ call

/-- `AuthenticationProvider`: its attributes, what it reads in Redis and the files it writes. -/
structure Provider where
  authentications : Option Authentications
  providedServices : List String
  ad : Ad
  moduleFile : Option (List Module)
  policyFile : Option (List Case)
  serverCas : Dict String Value

abbrev Act := Raising Error Provider

/-- A call of `AD`. -/
def onAd {α : Type} (x : Ad.Act α) : Act α := zoom Provider.ad (fun ad p => { p with ad }) x

/-- `self.ldap_template.render(**auth)`. -/
def renderLdap (auth : Auth) : Act Module :=
  if auth.host.isNone || auth.baseDN.isNone || auth.userAttr.isNone then throw .nameError
  else pure (.ldap auth)

/-- `self.ad_template.render(**AD.info())`. -/
def renderAd : Act Module := do
  let p ← get
  match p.ad.info with
  | none => throw .nameError
  | some info =>
    if info.ldapServerName.isNone || info.ldapBaseDn.isNone then throw .nameError
    else pure (.adLdap info)

/-- `auth['join_failed'] = True`. -/
def Authentications.setJoinFailed (auths : Authentications) (auth : Auth) : Authentications where
  entries := auths.entries.set auth.id { auth with joinFailed := true }
  keyed id auth' h := by
    rw [Dict.get_set] at h
    split at h
    · rename_i same
      obtain rfl := Option.some.inj h
      exact same.symm
    · exact auths.keyed id auth' h

/-- The text for a group. -/
def unfoldGroup (auths : Authentications) (auth : Auth) : Act (List Piece) :=
  match groupInnerCase auths auth.id with
  | .ok text => pure text
  | .error e => throw e

/-- The body of the loop over the authentications. -/
def configure (env : Environment) (auths : Authentications) (auth : Auth) : Act Generated :=
  match auth.type with
  | .ldap => do
    let module ← renderLdap auth
    pure ⟨[module], [⟨auth.id, [.provider .ldap auth.id, .failed]⟩], services auth.id, false⟩
  | .activeDirectory => do
    if ← onAd (Ad.inDomain env auth) then
      let module ← renderAd
      pure ⟨[module], [⟨auth.id, [.provider .activeDirectory auth.id, .failed]⟩],
        services auth.id, true⟩
    else
      -- a configuration that is sent again is not the same one, so that joining is tried again
      modify fun p =>
        { p with authentications := p.authentications.map (·.setJoinFailed auth) }
      pure .empty
  | .group => do
    let text ← unfoldGroup auths auth
    pure ⟨[], [⟨auth.id, text ++ [.allFailedInGroup]⟩], [], false⟩
  | .external => pure .empty

/-- The loop over the authentications. -/
def configureAll (env : Environment) (auths : Authentications) : List Auth → Act Generated
  | [] => pure .empty
  | auth :: rest => do
    let one ← configure env auths auth
    let more ← configureAll env auths rest
    pure (one.append more)

/-- Leave the domain unless an entry needs it. -/
def quitDomain (out : Generated) : Act Unit := do
  if !out.hasActiveDirectory then
    if ← onAd Ad.joinedAny then onAd Ad.leave

/-- The texts for a configuration. -/
def generate (env : Environment) (auths : Authentications) : Act Generated := do
  let out ← configureAll env auths auths.values
  quitDomain out
  pure out

/-! ## The files -/

/-- Open a file and write it. -/
def write (env : Environment) (file : File) (put : Provider → Provider) : Act Unit :=
  if env.writable file then modify put else throw .osError

/-- The certificates of the servers. -/
def writeServerCas (env : Environment) : List Auth → Act Unit
  | [] => pure ()
  | auth :: auths => do
    match auth.serverCa with
    | none => writeServerCas env auths
    | some ca =>
      if ca.truthy then
        write env (.serverCa auth.id.format) fun p =>
          { p with serverCas := p.serverCas.set auth.id.format ca }
      writeServerCas env auths

/-- `apply_conf`. -/
def applyConf (env : Environment) : Act Unit := do
  match (← get).authentications with
  | none => pure ()
  | some auths =>
    let out ← generate env auths
    write env .modules fun p => { p with moduleFile := some out.moduleFile }
    write env .policy fun p => { p with policyFile := some out.cases }
    writeServerCas env auths.values
    modify fun p => { p with providedServices := out.services }

/-- The same entries, whatever their order. -/
def Authentications.same (auths other : Authentications) : Bool :=
  (∀ id ∈ auths.entries.keys, auths.entries.get id = other.entries.get id) ∧
  (∀ id ∈ other.entries.keys, auths.entries.get id = other.entries.get id)

/-- `new_authentication_conf`. -/
def newAuthenticationConf (env : Environment) (conf : List Auth) : Act Unit := do
  let auths := Authentications.ofConf conf
  match (← get).authentications with
  | some current =>
    if auths.same current then pure ()
    else do
      modify fun p => { p with authentications := some auths }
      applyConf env
  | none =>
    modify fun p => { p with authentications := some auths }
    applyConf env

end ElanAgent.Authentication
