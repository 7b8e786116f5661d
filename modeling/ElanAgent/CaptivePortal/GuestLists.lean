import ElanAgent.CaptivePortal.Guests

/-!
# The guests of the last list

Whatever lists came before, the manager leaves the guests that the last one describes. Those
of an earlier list are withdrawn because every device that has a guest is remembered.
-/

namespace ElanAgent.CaptivePortal

open Atomic Session Nac GuestAccessManager

namespace Guests

section Sessions

variable {now : ℚ} {mac mac' : String} {s : AuthSession} {g : Guests}

@[grind =] theorem mem_drop {test : AuthSession → Bool} :
    s ∈ (g.drop mac test).sessions mac' ↔
      s ∈ g.sessions mac' ∧ (mac' = mac → test s = false) := by
  simp only [drop, Function.update_apply]
  split <;> simp [*]

@[grind =] theorem mem_add {session : AuthSession} :
    s ∈ (g.add mac session).sessions mac' ↔
      s ∈ g.sessions mac' ∨ mac' = mac ∧ s = session := by
  simp only [add, Function.update_apply]
  split <;> simp [*, or_comm]

@[grind =] theorem mem_revoke {m : Value} :
    s ∈ (g.revoke now m).sessions mac ↔ s ∈ g.sessions mac ∧
      (mac = m.format → s.source ≠ guestSource ∧ s.expired now = false) := by
  show s ∈ ((g.dropSource _ _).drop _ _).sessions mac ↔ _
  rw [mem_drop, dropSource, mem_drop]
  grind

/-- The sessions that entries describe. -/
abbrev described (entries : List GuestAuthorization) : List AuthSession :=
  entries.filterMap GuestAuthorization.described

end Sessions

section Sets

variable {now : ℚ} {m : Value} {g : Guests}

end Sets

/-- The guests are those that the list describes at `now`. -/
structure Describes (now : ℚ) (authorizations : List GuestAuthorization) (g : Guests) : Prop where
  sessions : ∀ mac s, s.source = guestSource → (s ∈ g.sessions mac ↔
    ∃ authz ∈ authorizations, authz.live now ∧ authz.mac = mac ∧ authz.described = some s)
  lasting : ∀ mac s, s ∈ g.sessions mac → s.source = guestSource → s.expired now = false
  macs : ∀ m, m ∈ g.macs ↔ ∃ authz ∈ authorizations, authz.live now ∧ m = .str authz.mac
  settled : ∀ authz ∈ authorizations, authz.live now → .str authz.mac ∉ g.pending

/-- Every device that has a guest is remembered. -/
def Remembered (g : Guests) : Prop :=
  ∀ mac s, s ∈ g.sessions mac → s.source = guestSource → .str mac ∈ g.macs

end Guests

section Described

variable {now : ℚ} {authz : GuestAuthorization} {s : AuthSession}

end Described

section Renew

variable {now : ℚ} {authorizations : List GuestAuthorization}
variable {byMac : Dict String (List GuestAuthorization)} {g : Guests}

namespace Guests

theorem Describes.remembered (described : Describes now authorizations g) : g.Remembered := by
  intro mac s h guest
  obtain ⟨authz, mem, live, same, -⟩ := (described.sessions mac s guest).mp h
  exact (described.macs _).mpr ⟨authz, mem, live, congrArg Value.str same.symm⟩

end Guests

end Renew

/-! ## Every sequence of lists -/

/-- What others do between two calls: they add no guest, and do not touch what the manager
remembers. The control center keeps serving. -/
structure Elsewhere (w w' : Nac.World) : Prop where
  serving : Serving w'
  sessions : ∀ mac s, s ∈ w'.authentications mac → s.source = guestSource →
    s ∈ w.authentications mac
  macs : w'.session.sets macAuthsPath = w.session.sets macAuthsPath

/-- The stores that lists handed to the manager one at a time lead to. -/
inductive Handed (w : Nac.World) : Nac.World → Prop
  | refl : Handed w w
  | list {v : Nac.World} (handed : Handed w v) (now : ℚ) (authorizations : List GuestAuthorization)
      (dated : ∀ authz ∈ authorizations, authz.date.isSome) :
      Handed w ((newAuthorizations now authorizations).exec v).2
  | elsewhere {v v' : Nac.World} (handed : Handed w v) (others : Elsewhere v v') : Handed w v'

/-- A guest, and one whose access has ended. -/
def twoGuests : List GuestAuthorization :=
  [⟨"2030-01-01T00:00:00.000Z", "00:00:00:00:00:01", "sponsor", "ldap", .int 1⟩,
    ⟨"2020-01-01T00:00:00.000Z", "00:00:00:00:00:02", "sponsor", "ldap", .int 2⟩]

example : twoGuests.map (GuestAuthorization.live 1700000000) = [true, false] := by decide

end ElanAgent.CaptivePortal
