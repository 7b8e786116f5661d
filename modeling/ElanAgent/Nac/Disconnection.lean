import ElanAgent.Library.Watch
import ElanAgent.Nac.Firewall

/-!
# Devices that disconnect

The message that a MAC session has ended names the device and nothing more. Its handler
looks at what is stored when it runs, and not at when that was stored.
-/

namespace ElanAgent.Nac

open Atomic Session RedisMacAuthorization MacAuthorizationManager

section Handle

variable {now : ℚ} {mac : String} {authz : RedisMacAuthorization} {rest : Call Unit}

end Handle

section Run

variable {ι : Type} [DecidableEq ι] {i : ι} {now : ℚ} {data : Message} {seen : List World}
variable {c d : Config agent World (Except Error Unit) ι}

end Run

/-- Access on one VLAN, until the device disconnects. -/
def tillDisconnect (vlan : String) : Assignments := { onVlan vlan with tillDisconnect := some true }

end ElanAgent.Nac
