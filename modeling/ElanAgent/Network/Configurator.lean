import Mathlib.Data.List.Induction
import Mathlib.Logic.Function.Basic
import ElanAgent.Net.Address

/-!
# The file of the IP configuration

`NetworkConfigurator` of `elan/network.py` writes the configurations of both families to one
file, from the template `netplan-ip-conf.yaml`. It starts from what is cached in Redis. Where
Redis cannot be reached and the file is there already, it knows neither of the families, and
leaves the file alone until both have been handed over.
-/

namespace ElanAgent.Network

open Net

/-- How a family gets its addresses. The template looks up the address of a static one. -/
inductive Addressing where
  | static (address mask gateway : String)
  | automatic (type : String) (notStatic : type ≠ "static")
  deriving DecidableEq

/-- `conf['type']` -/
def Addressing.type : Addressing → String
  | .static _ _ _ => "static"
  | .automatic type _ => type

/-- The configuration of a family. -/
structure IpConf where
  addressing : Addressing
  dns : List String
  deriving DecidableEq

def IpConf.type (conf : IpConf) : String := conf.addressing.type

/-- `DEFAULT_IPv4_CONF` and `DEFAULT_IPv6_CONF` -/
def defaultConf : Family → IpConf
  | .ip => ⟨.automatic "dhcp" (by decide), []⟩
  | .ip6 => ⟨.automatic "autoconf" (by decide), []⟩

/-! ## The template -/

/-- The lines about a static address. -/
def IpConf.static (lines : String → String → String → List String) (conf : IpConf) :
    List String :=
  match conf.addressing with
  | .static address mask gateway => lines address mask gateway
  | .automatic _ _ => []

/-- The types whose name servers are written. -/
def resolving : Family → List String
  | .ip => ["dhcp", "static"]
  | .ip6 => ["autoconf", "dhcp", "static"]

/-- `% for ip in conf['dns']` -/
def IpConf.dnsLines (f : Family) (conf : IpConf) : List String :=
  if conf.type ∈ resolving f then conf.dns.map fun ip => "        - " ++ ip else []

/-- `render` of `netplan-ip-conf.yaml`, by lines. -/
def render (ipv4 ipv6 : IpConf) (bridgeName : String) : List String :=
  ["network:", "  version: 2", "  renderer: networkd", "  bridges:",
    "    " ++ bridgeName ++ ":", "      critical: true"] ++
  (if ipv4.type = "dhcp" then ["      dhcp4: true"] else []) ++
  (if ipv6.type = "autoconf" then ["      accept-ra: true"]
    else if ipv6.type = "dhcp" then ["      dhcp6: true"] else []) ++
  (if ipv4.type = "static" ∨ ipv6.type = "static" then
    ["      addresses:"] ++
    ipv4.static (fun address mask _ => ["        - address " ++ address ++ "/" ++ mask]) ++
    ipv6.static (fun address mask gateway =>
      ["        - address " ++ address ++ "/" ++ mask, "      gateway6: " ++ gateway]) ++
    ipv4.static (fun _ _ gateway => ["      gateway4: " ++ gateway])
  else []) ++
  (if ipv4.dns ≠ [] ∧ ipv4.type ∈ resolving .ip ∨ ipv6.dns ≠ [] ∧ ipv6.type ∈ resolving .ip6 then
    ["      nameservers:"] ++ ipv4.dnsLines .ip ++ ipv6.dnsLines .ip6
  else [])

/-! ## The configurator -/

/-- `BRIDGE_NAME` -/
def bridgeName : String := "elan"

structure ConnectionFailed

/-- `NetworkConfigurator`, with `ipv4` and `ipv6`, the file, and what netplan has found in
the file each time that it was run. -/
structure NetworkConfigurator where
  conf : Family → Option IpConf
  ipConfFile : Option (List String)
  applied : List (Option (List String))

namespace NetworkConfigurator

/-- `generate_ip_conf` -/
def generateIpConf (c : NetworkConfigurator) : NetworkConfigurator :=
  match c.conf .ip, c.conf .ip6 with
  | some ipv4, some ipv6 => { c with ipConfFile := some (render ipv4 ipv6 bridgeName) }
  | _, _ => c

/-- `reload` -/
def reload (c : NetworkConfigurator) : NetworkConfigurator :=
  { c with applied := c.applied ++ [c.ipConfFile] }

/-- `apply_ip_conf` -/
def applyIpConf (c : NetworkConfigurator) : NetworkConfigurator := c.generateIpConf.reload

def set (f : Family) (kwargs : Option IpConf) (c : NetworkConfigurator) : NetworkConfigurator :=
  { c with conf := Function.update c.conf f kwargs }.applyIpConf

/-- `set_ipv4` -/
def setIpv4 (kwargs : Option IpConf) (c : NetworkConfigurator) : NetworkConfigurator :=
  c.set .ip kwargs

/-- `set_ipv6` -/
def setIpv6 (kwargs : Option IpConf) (c : NetworkConfigurator) : NetworkConfigurator :=
  c.set .ip6 kwargs

end NetworkConfigurator

/-- What a configurator finds when it starts: what `get_conf` makes of either topic, and the
file. -/
structure Start where
  getConf : Family → Except ConnectionFailed (Option IpConf)
  ipConfFile : Option (List String)

namespace Start

/-- The body of the `try` of `load_configuration`. -/
def loadCached (s : Start) : Except ConnectionFailed (Family → IpConf) := do
  let ipv4 ← s.getConf .ip
  let ipv6 ← s.getConf .ip6
  pure fun f => match f with
    | .ip => ipv4.getD (defaultConf .ip)
    | .ip6 => ipv6.getD (defaultConf .ip6)

/-- `load_configuration` -/
def loadConfiguration (s : Start) : Family → Option IpConf :=
  match s.loadCached with
  | .ok conf => fun f => some (conf f)
  | .error _ => if s.ipConfFile.isSome then fun _ => none else fun f => some (defaultConf f)

/-- `__init__` -/
def init (s : Start) : NetworkConfigurator :=
  NetworkConfigurator.applyIpConf ⟨s.loadConfiguration, s.ipConfFile, []⟩

end Start

/-- A call of `set_ipv4` or of `set_ipv6`. -/
inductive Call where
  | setIpv4 (kwargs : Option IpConf)
  | setIpv6 (kwargs : Option IpConf)

namespace Call

def family : Call → Family
  | .setIpv4 _ => .ip
  | .setIpv6 _ => .ip6

def kwargs : Call → Option IpConf
  | .setIpv4 kwargs => kwargs
  | .setIpv6 kwargs => kwargs

def handle : Call → NetworkConfigurator → NetworkConfigurator
  | .setIpv4 kwargs => NetworkConfigurator.setIpv4 kwargs
  | .setIpv6 kwargs => NetworkConfigurator.setIpv6 kwargs

theorem handle_eq (call : Call) (c : NetworkConfigurator) :
    call.handle c = c.set call.family call.kwargs := by
  cases call <;> rfl

end Call

/-- The configurator after the calls. -/
def Start.run (s : Start) (calls : List Call) : NetworkConfigurator :=
  calls.foldl (fun c call => call.handle c) s.init

theorem Start.run_append (s : Start) (calls : List Call) (call : Call) :
    s.run (calls ++ [call]) = call.handle (s.run calls) := by
  simp [Start.run]

/-! ## What is known of a family -/

/-- Both topics could be read. -/
def Start.Reachable (s : Start) : Prop := ∀ f, (s.getConf f).isOk

instance (s : Start) : Decidable s.Reachable :=
  decidable_of_iff ((s.getConf .ip).isOk ∧ (s.getConf .ip6).isOk)
    ⟨fun h f => match f with
      | .ip => h.1
      | .ip6 => h.2, fun h => ⟨h .ip, h .ip6⟩⟩

/-- What is cached of the family, or its default. Of a file that was there when Redis could
not be reached, nobody knows what it was written from. -/
def Start.known (s : Start) (f : Family) : Option IpConf :=
  if s.Reachable then some ((s.getConf f).toOption.join.getD (defaultConf f))
  else if s.ipConfFile.isSome then none
  else some (defaultConf f)

/-- What was handed over last of the family, or else what was known of it at the start. -/
def Start.lastKnown (s : Start) (calls : List Call) (f : Family) : Option IpConf :=
  ((calls.filter fun call => call.family = f).getLast?.map Call.kwargs).getD (s.known f)

theorem Start.lastKnown_append (s : Start) (calls : List Call) (call : Call) :
    s.lastKnown (calls ++ [call]) =
      Function.update (s.lastKnown calls) call.family call.kwargs := by
  funext f
  by_cases same : f = call.family
  · subst same
    simp [lastKnown]
  · rw [Function.update_of_ne same]
    simp [lastKnown, Ne.symm same]

/-- What is loaded is what is known at the start. -/
theorem Start.loadConfiguration_eq (s : Start) : s.loadConfiguration = s.known := by
  funext f
  cases ip : s.getConf .ip with
  | error e =>
    have unreachable : ¬s.Reachable := fun reachable => by
      have ok := reachable .ip
      rw [ip] at ok
      cases ok
    have failed : s.loadCached = .error e := by
      simp only [loadCached, ip]
      rfl
    simp only [loadConfiguration, failed, known, if_neg unreachable]
    split <;> rfl
  | ok ipv4 =>
    cases ip6 : s.getConf .ip6 with
    | error e =>
      have unreachable : ¬s.Reachable := fun reachable => by
        have ok := reachable .ip6
        rw [ip6] at ok
        cases ok
      have failed : s.loadCached = .error e := by
        simp only [loadCached, ip, ip6]
        rfl
      simp only [loadConfiguration, failed, known, if_neg unreachable]
      split <;> rfl
    | ok ipv6 =>
      have reachable : s.Reachable := fun f => by
        cases f
        · rw [ip]
          rfl
        · rw [ip6]
          rfl
      simp only [loadConfiguration, loadCached, ip, ip6, known, if_pos reachable]
      cases f
      · simp [ip, bind, Except.bind, pure, Except.pure, Except.toOption]
      · simp [ip6, bind, Except.bind, pure, Except.pure, Except.toOption]

/-! ## The file after any calls -/

section Calls

open NetworkConfigurator

@[simp] theorem conf_applyIpConf (c : NetworkConfigurator) : c.applyIpConf.conf = c.conf := by
  simp only [applyIpConf, reload, generateIpConf]
  split <;> rfl

@[simp] theorem conf_set (c : NetworkConfigurator) (f : Family) (kwargs : Option IpConf) :
    (c.set f kwargs).conf = Function.update c.conf f kwargs := conf_applyIpConf _

@[simp] theorem ipConfFile_applyIpConf (c : NetworkConfigurator) :
    c.applyIpConf.ipConfFile = match c.conf .ip, c.conf .ip6 with
      | some ipv4, some ipv6 => some (render ipv4 ipv6 bridgeName)
      | _, _ => c.ipConfFile := by
  simp only [applyIpConf, reload, generateIpConf]
  split <;> rfl

/-- The configurator goes by what is known last. -/
theorem conf_run (s : Start) (calls : List Call) : (s.run calls).conf = s.lastKnown calls := by
  induction calls using List.reverseRecOn with
  | nil =>
    show s.init.conf = s.lastKnown []
    rw [Start.init, conf_applyIpConf]
    exact s.loadConfiguration_eq
  | append_singleton calls call ih =>
    rw [Start.run_append, call.handle_eq, conf_set, ih, Start.lastKnown_append]

/-- What netplan has found in the file last is what is in it. -/
theorem applied_run (s : Start) (calls : List Call) :
    (s.run calls).applied.getLast? = some (s.run calls).ipConfFile := by
  have applied (c : NetworkConfigurator) :
      c.applyIpConf.applied.getLast? = some c.applyIpConf.ipConfFile := by
    simp [applyIpConf, reload]
  cases calls using List.reverseRecOn with
  | nil => exact applied _
  | append_singleton calls call =>
    rw [Start.run_append, call.handle_eq]
    exact applied _

/-- Unless Redis could not be reached and the file was there, both families are always known. -/
theorem isSome_lastKnown {s : Start} (found : s.Reachable ∨ s.ipConfFile = none)
    {calls : List Call} (given : ∀ call ∈ calls, call.kwargs.isSome) (f : Family) :
    (s.lastKnown calls f).isSome := by
  induction calls using List.reverseRecOn with
  | nil =>
    show (s.known f).isSome
    unfold Start.known
    split
    · rfl
    · rename_i unreachable
      rw [found.resolve_left unreachable]
      rfl
  | append_singleton calls call ih =>
    rw [Start.lastKnown_append]
    by_cases same : f = call.family
    · subst same
      simpa using given call (by simp)
    · rw [Function.update_of_ne same]
      exact ih fun other mem => given other (List.mem_append_left _ mem)

/-- A call writes its configuration along with the one that is known of the other family. The
file stays as it was while there is none of either. -/
theorem ipConfFile_set (s : Start) (calls : List Call) :
    (∀ ipv4, ((s.run calls).setIpv4 (some ipv4)).ipConfFile = match s.lastKnown calls .ip6 with
      | some ipv6 => some (render ipv4 ipv6 bridgeName)
      | none => (s.run calls).ipConfFile) ∧
    (∀ ipv6, ((s.run calls).setIpv6 (some ipv6)).ipConfFile = match s.lastKnown calls .ip with
      | some ipv4 => some (render ipv4 ipv6 bridgeName)
      | none => (s.run calls).ipConfFile) ∧
    ((s.run calls).setIpv4 none).ipConfFile = (s.run calls).ipConfFile ∧
    ((s.run calls).setIpv6 none).ipConfFile = (s.run calls).ipConfFile := by
  refine ⟨fun ipv4 => ?_, fun ipv6 => ?_, ?_, ?_⟩
  · rw [setIpv4, NetworkConfigurator.set, ipConfFile_applyIpConf, conf_run]
    cases other : s.lastKnown calls .ip6 <;> simp [other]
  · rw [setIpv6, NetworkConfigurator.set, ipConfFile_applyIpConf, conf_run]
    cases other : s.lastKnown calls .ip <;> simp [other]
  · rw [setIpv4, NetworkConfigurator.set, ipConfFile_applyIpConf]
    simp
  · rw [setIpv6, NetworkConfigurator.set, ipConfFile_applyIpConf]
    simp

end Calls

/-! ## A start without Redis -/

/-- The file has been written from the defaults, and Redis cannot be reached. -/
def offlineStart : Start where
  getConf _ := .error ⟨⟩
  ipConfFile := some (render (defaultConf .ip) (defaultConf .ip6) bridgeName)

def staticConf : IpConf := ⟨.static "10.0.0.2" "24" "10.0.0.1", []⟩

/-- The configuration that is handed over is not written. -/
theorem not_written_offline : ((offlineStart.run []).setIpv4 (some staticConf)).ipConfFile ≠
    some (render staticConf (defaultConf .ip6) bridgeName) := by
  decide

end ElanAgent.Network
