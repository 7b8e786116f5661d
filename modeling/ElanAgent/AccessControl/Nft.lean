import ElanAgent.Library.Dict
import Mathlib.Data.Finset.Prod
import Mathlib.Data.Fintype.Defs

/-!
# The nft sets of access control

The commands that the access control configurator sends to `nft -i`, and what they
do to the sets and maps of the `elan` tables. Interfaces are their names. Adding a
present element and deleting an absent one have no effect, and an element that a map
has keeps its value.
-/

namespace ElanAgent.AccessControl

/-- The sets of interfaces: `ac_ifs`, `ids_ifs` and `log_ifs`. -/
inductive IfSet where
  | ac
  | ids
  | log
  deriving DecidableEq

/-- The sets of passthroughs: `dhcp_pt_ifs`, `dns_pt_ifs`, `ndp_pt_ifs` and `mdns_pt_ifs`. -/
inductive PtSet where
  | dhcp
  | dns
  | ndp
  | mdns
  deriving DecidableEq

instance : Fintype PtSet := ⟨{.dhcp, .dns, .ndp, .mdns}, fun set => by cases set <;> simp⟩

inductive Protocol where
  | ip
  | ip6
  deriving DecidableEq

/-- One line of standard input of `nft -i`. -/
inductive Nft where
  | flushPts (set : PtSet)
  | flushCaptivePortals (protocol : Protocol)
  | addIf (set : IfSet) (nic : String)
  | deleteIf (set : IfSet) (nic : String)
  | addMark (nic : String) (mark : Nat)
  | addCaptivePortals (protocol : Protocol) (mark httpPort httpsPort : Nat)
  | addPt (set : PtSet) (nic nicOut : String)
  | quit
  deriving DecidableEq

/-- The sets and maps that the commands work on. `captivePortals` sends a mark and a
destination port to the port of the portal. -/
structure Ruleset where
  ifs : IfSet → Finset String
  pts : PtSet → Finset (String × String)
  vlanMark : Dict String Nat
  captivePortals : Protocol → Dict (Nat × Nat) Nat

def Ruleset.empty : Ruleset where
  ifs _ := ∅
  pts _ := ∅
  vlanMark := .empty
  captivePortals _ := .empty

/-- `add element` on a map. -/
def addElement {κ α : Type} [DecidableEq κ] (d : Dict κ α) (k : κ) (a : α) : Dict κ α :=
  if (d.get k).isSome then d else d.set k a

theorem get_addElement {κ α : Type} [DecidableEq κ] (d : Dict κ α) (k k' : κ) (a : α) :
    (addElement d k a).get k' = if k' = k then (d.get k).or (some a) else d.get k' := by
  unfold addElement
  cases hk : d.get k with
  | none => simp [Dict.get_set]
  | some b =>
    simp only [Option.isSome_some, if_true, Option.some_or]
    split
    · simp [*]
    · rfl

/-- What a command does to the sets and maps. -/
def Nft.apply (r : Ruleset) : Nft → Ruleset
  | .flushPts set => { r with pts := Function.update r.pts set ∅ }
  | .flushCaptivePortals protocol =>
    { r with captivePortals := Function.update r.captivePortals protocol .empty }
  | .addIf set nic => { r with ifs := Function.update r.ifs set (insert nic (r.ifs set)) }
  | .deleteIf set nic => { r with ifs := Function.update r.ifs set ((r.ifs set).erase nic) }
  | .addMark nic mark => { r with vlanMark := addElement r.vlanMark nic mark }
  | .addCaptivePortals protocol mark httpPort httpsPort =>
    let portals := addElement (r.captivePortals protocol) (mark, 80) httpPort
    { r with captivePortals :=
      Function.update r.captivePortals protocol (addElement portals (mark, 443) httpsPort) }
  | .addPt set nic nicOut =>
    { r with pts := Function.update r.pts set (insert (nic, nicOut) (r.pts set)) }
  | .quit => r

/-- The sets and maps after the commands, in order. -/
def Ruleset.applyAll (r : Ruleset) (commands : List Nft) : Ruleset := commands.foldl Nft.apply r

@[simp] theorem applyAll_nil (r : Ruleset) : r.applyAll [] = r := rfl

@[simp] theorem applyAll_cons (r : Ruleset) (c : Nft) (commands : List Nft) :
    r.applyAll (c :: commands) = (c.apply r).applyAll commands := rfl

theorem applyAll_append (r : Ruleset) (l l' : List Nft) :
    r.applyAll (l ++ l') = (r.applyAll l).applyAll l' := List.foldl_append

theorem mem_ifs_apply {r : Ruleset} {c : Nft} {s : IfSet} {nic : String} :
    nic ∈ (c.apply r).ifs s ↔ c = .addIf s nic ∨ (nic ∈ r.ifs s ∧ c ≠ .deleteIf s nic) := by
  cases c with
  | addIf s' nic' | deleteIf s' nic' =>
    by_cases hs : s = s'
    · subst s'
      simp [Nft.apply]
      grind
    · simp [Nft.apply, hs, Ne.symm hs]
  | _ => simp [Nft.apply]

/-- What `cause` alone brings about and no command of a list undoes. -/
theorem applyAll_brings {P : Ruleset → Prop} {cause : Nft} {commands : List Nft}
    (h : ∀ c ∈ commands, ∀ r, P (c.apply r) ↔ P r ∨ c = cause) (r : Ruleset) :
    P (r.applyAll commands) ↔ P r ∨ cause ∈ commands := by
  induction commands generalizing r with
  | nil => simp
  | cons c commands ih =>
    rw [applyAll_cons, ih (fun c hc => h c (List.mem_cons_of_mem _ hc)), h c List.mem_cons_self,
      List.mem_cons, or_assoc, @eq_comm _ c]

/-- Commands that do not delete an interface only add it. -/
theorem mem_ifs_of_not_deleted {commands : List Nft} {s : IfSet} {nic : String}
    (h : .deleteIf s nic ∉ commands) (r : Ruleset) :
    nic ∈ (r.applyAll commands).ifs s ↔ nic ∈ r.ifs s ∨ .addIf s nic ∈ commands := by
  refine applyAll_brings (P := fun r => nic ∈ r.ifs s) (fun c hc r => ?_) r
  have kept : c ≠ .deleteIf s nic := fun deletes => h (deletes ▸ hc)
  rw [mem_ifs_apply, and_iff_left kept, or_comm]

/-- Commands that do not add an interface only delete it. -/
theorem mem_ifs_of_not_added {commands : List Nft} {s : IfSet} {nic : String}
    (h : .addIf s nic ∉ commands) (r : Ruleset) :
    nic ∈ (r.applyAll commands).ifs s ↔ nic ∈ r.ifs s ∧ .deleteIf s nic ∉ commands := by
  have gone : nic ∉ (r.applyAll commands).ifs s ↔
      nic ∉ r.ifs s ∨ .deleteIf s nic ∈ commands := by
    refine applyAll_brings (P := fun r => nic ∉ r.ifs s) (fun c hc r => ?_) r
    have other : c ≠ .addIf s nic := fun adds => h (adds ▸ hc)
    rw [mem_ifs_apply, or_iff_right other, not_and_or, not_not]
  rw [← not_iff_not, gone, not_and_or, not_not]

/-- Without a flush, passthroughs only accumulate. -/
theorem mem_pts_of_not_flushed {commands : List Nft} {s : PtSet}
    (h : .flushPts s ∉ commands) (r : Ruleset) {p : String × String} :
    p ∈ (r.applyAll commands).pts s ↔ p ∈ r.pts s ∨ .addPt s p.1 p.2 ∈ commands := by
  refine applyAll_brings (P := fun r => p ∈ r.pts s) (fun c hc r => ?_) r
  cases c with
  | flushPts s' =>
    have hs : s ≠ s' := fun e => h (e ▸ hc)
    simp [Nft.apply, hs]
  | addPt s' nic nicOut =>
    by_cases hs : s = s'
    · subst s'
      simp [Nft.apply, Prod.ext_iff, or_comm, eq_comm]
    · simp [Nft.apply, hs, Ne.symm hs]
  | _ => simp [Nft.apply]

/-- A mark in the map was there before, or a command has added it. -/
theorem vlanMark_applyAll {commands : List Nft} (r : Ruleset) {nic : String} {mark : Nat}
    (h : (r.applyAll commands).vlanMark.get nic = some mark) :
    r.vlanMark.get nic = some mark ∨ .addMark nic mark ∈ commands := by
  induction commands generalizing r with
  | nil => exact .inl h
  | cons c commands ih =>
    rcases ih _ h with h | h
    · cases c with
      | addMark nic' mark' =>
        rw [Nft.apply, get_addElement] at h
        split at h
        · subst nic'
          rcases Option.or_eq_some_iff.mp h with h | ⟨-, h⟩
          · exact .inl h
          · exact .inr (by simp [Option.some.inj h])
        · exact .inl h
      | _ => exact .inl h
    · exact .inr (List.mem_cons_of_mem c h)

/-- Marks are never removed, and a command that adds one leaves one. -/
theorem vlanMark_applyAll_isSome {commands : List Nft} (r : Ruleset) {nic : String}
    (h : (r.vlanMark.get nic).isSome ∨ ∃ mark, .addMark nic mark ∈ commands) :
    ((r.applyAll commands).vlanMark.get nic).isSome := by
  induction commands generalizing r with
  | nil => simpa using h
  | cons c commands ih =>
    refine ih _ ?_
    cases c with
    | addMark nic' mark' =>
      rw [Nft.apply, get_addElement]
      by_cases hn : nic = nic'
      · simp [hn]
      · simpa [hn] using h
    | _ => simpa [Nft.apply] using h

end ElanAgent.AccessControl
