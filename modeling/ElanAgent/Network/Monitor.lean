import Mathlib.Logic.Function.Basic
import ElanAgent.Net.Address

/-!
# The addresses of the monitored interface

`check_ips` of `elan/network.py` takes the addresses of an interface from a dump of the
kernel, tells the families apart by the characters of their texts, and publishes the
configuration of a family whose addresses have changed. The loop over the attributes of an
entry ends after the first of them, whatever it is.
-/

namespace ElanAgent.Network

open Net

/-- An attribute of an entry. Of any other than `IFA_ADDRESS`, only the key is read. -/
inductive Attr where
  | ifaAddress (value : Address)
  | other (key : String) (key_ne : key ≠ "IFA_ADDRESS")

/-- An address of the dump. -/
structure Entry where
  attrs : List Attr
  prefixlen : ℕ

/-- `'{ip}/{mask}'.format(ip=value, mask=entry['prefixlen'])` -/
def cidr (value : Address) (prefixlen : ℕ) : String := value.text ++ "/" ++ toString prefixlen

/-- What the loop over the attributes adds. -/
def Entry.ips (entry : Entry) : List String :=
  match entry.attrs with
  | .ifaAddress value :: _ => [cidr value entry.prefixlen]
  | _ => []

/-- `get_ips`, with the elements of its set in the order in which they are added. -/
def getIps (entries : List Entry) : List String := entries.flatMap Entry.ips

/-- What is published of a family. -/
structure Current where
  ips : List String
  gw : Option String
  dns : List String
  deriving DecidableEq

/-- `NetworkMonitor`, with `current_ipv4` and `current_ipv6`, and what it has published. -/
structure NetworkMonitor where
  topic : Family → String
  current : Family → Current
  published : List (String × Current)

/-- The character that tells a family. -/
def mark : Family → Char
  | .ip => '.'
  | .ip6 => ':'

/-- `set(ips) == set(ips')` -/
def SameSet (ips ips' : List String) : Prop := ∀ ip, ip ∈ ips ↔ ip ∈ ips'

instance (ips ips' : List String) : Decidable (SameSet ips ips') :=
  decidable_of_iff ((∀ ip ∈ ips, ip ∈ ips') ∧ ∀ ip ∈ ips', ip ∈ ips)
    ⟨fun h ip => ⟨h.1 ip, h.2 ip⟩, fun h => ⟨fun ip => (h ip).mp, fun ip => (h ip).mpr⟩⟩

namespace NetworkMonitor

/-- `publish_current_ipv4` and `publish_current_ipv6`. -/
def publishCurrent (f : Family) (m : NetworkMonitor) : NetworkMonitor :=
  { m with published := m.published ++ [(m.topic f, m.current f)] }

/-- The part of `check_ips` for one family. -/
def checkFamily (publish : Bool) (ips : List String) (f : Family) (m : NetworkMonitor) :
    NetworkMonitor :=
  let own := ips.filter fun ip => mark f ∈ ip.toList
  if SameSet (m.current f).ips own then m
  else
    let m := { m with current := Function.update m.current f { m.current f with ips := own } }
    if publish then m.publishCurrent f else m

/-- `check_ips`, where the set of addresses is gone through in the order of `ips`. -/
def checkIps (publish : Bool) (ips : List String) (m : NetworkMonitor) : NetworkMonitor :=
  (m.checkFamily publish ips .ip).checkFamily publish ips .ip6

end NetworkMonitor

/-- The order in which a set of addresses is gone through. -/
def Enumerates (ips : List String) (entries : List Entry) : Prop :=
  ips.Nodup ∧ SameSet ips (getIps entries)

instance (ips : List String) (entries : List Entry) : Decidable (Enumerates ips entries) :=
  inferInstanceAs (Decidable (_ ∧ _))

/-! ## What the dump has -/

/-- An entry of the dump has the attribute. -/
def HasAddress (entries : List Entry) (value : Address) (prefixlen : ℕ) : Prop :=
  ∃ entry ∈ entries, .ifaAddress value ∈ entry.attrs ∧ entry.prefixlen = prefixlen

/-- The attribute is the first one of an entry of the dump. -/
def HasFirst (entries : List Entry) (value : Address) (prefixlen : ℕ) : Prop :=
  ∃ entry ∈ entries, entry.attrs.head? = some (.ifaAddress value) ∧ entry.prefixlen = prefixlen

/-- The text of the address tells both families. -/
def Mixed (value : Address) : Prop := ∀ f, mark f ∈ value.text.toList

/-- The set of addresses of a family is another one than before. -/
def Changed (m m' : NetworkMonitor) (f : Family) : Prop :=
  ¬SameSet (m.current f).ips (m'.current f).ips

instance (m m' : NetworkMonitor) (f : Family) : Decidable (Changed m m' f) :=
  inferInstanceAs (Decidable (¬_))

/-- Together the lists are the addresses of the dump, no address is in both, and what is
published are the families whose addresses have changed. -/
structure Checked (entries : List Entry) (m m' : NetworkMonitor) : Prop where
  addresses : ∀ ip, (∃ f, ip ∈ (m'.current f).ips) ↔
    ∃ value prefixlen, HasAddress entries value prefixlen ∧ ip = cidr value prefixlen
  once : ∀ ip f f', ip ∈ (m'.current f).ips → ip ∈ (m'.current f').ips → f = f'
  published : m'.published = m.published ++
    ([Family.ip, .ip6].filter fun f => Changed m m' f).map fun f => (m.topic f, m'.current f)

/-! ## The texts -/

theorem mark_mem_cidr (f : Family) (value : Address) (prefixlen : ℕ) :
    mark f ∈ (cidr value prefixlen).toList ↔ mark f ∈ value.text.toList := by
  have notSlash : mark f ≠ '/' := by cases f <;> decide
  have notDigit : mark f ∉ decimal prefixlen := not_mem_decimal (by cases f <;> decide)
  have split : (cidr value prefixlen).toList =
      value.text.toList ++ ['/'] ++ decimal prefixlen := by
    simp [cidr, decimal]
  simp [split, notSlash, notDigit]

/-- Every address tells a family. -/
theorem exists_mark (value : Address) : ∃ f, mark f ∈ value.text.toList := by
  cases value with
  | ip a =>
    refine ⟨.ip, ?_⟩
    simp [Address.text, IPv4.toList_text, mark]
  | ip6 a => exact ⟨.ip6, a.colon⟩

theorem mem_getIps {entries : List Entry} {ip : String} : ip ∈ getIps entries ↔
    ∃ value prefixlen, HasFirst entries value prefixlen ∧ ip = cidr value prefixlen := by
  rw [getIps, List.mem_flatMap]
  constructor
  · rintro ⟨entry, hentry, h⟩
    unfold Entry.ips at h
    split at h
    · rename_i value rest first
      exact ⟨value, entry.prefixlen, ⟨entry, hentry, by rw [first]; rfl, rfl⟩,
        List.mem_singleton.mp h⟩
    · cases h
  · rintro ⟨value, _, ⟨entry, hentry, first, rfl⟩, rfl⟩
    refine ⟨entry, hentry, ?_⟩
    obtain ⟨rest, attrs⟩ := List.head?_eq_some_iff.mp first
    simp [Entry.ips, attrs]

theorem HasFirst.hasAddress {entries : List Entry} {value : Address} {prefixlen : ℕ}
    (h : HasFirst entries value prefixlen) : HasAddress entries value prefixlen := by
  obtain ⟨entry, hentry, first, len⟩ := h
  exact ⟨entry, hentry, List.mem_of_head? first, len⟩

/-! ## The check -/

section Check

variable {publish : Bool} {ips : List String} {f g : Family} {m : NetworkMonitor}

open NetworkMonitor

@[simp] theorem topic_checkFamily : (m.checkFamily publish ips f).topic = m.topic := by
  simp only [checkFamily]
  split
  · rfl
  · split <;> rfl

/-- Afterwards the list has the addresses with the mark of the family. -/
theorem sameSet_checkFamily :
    SameSet ((m.checkFamily publish ips f).current f).ips
      (ips.filter fun ip => mark f ∈ ip.toList) := by
  simp only [checkFamily]
  split
  · assumption
  · intro ip
    split <;> simp [publishCurrent]

theorem current_checkFamily_of_ne (ne : g ≠ f) :
    (m.checkFamily publish ips f).current g = m.current g := by
  simp only [checkFamily]
  split
  · rfl
  · split <;> simp [publishCurrent, ne]

/-- The family is published exactly if its addresses have changed. -/
theorem published_checkFamily : (m.checkFamily true ips f).published = m.published ++
    if Changed m (m.checkFamily true ips f) f
    then [(m.topic f, (m.checkFamily true ips f).current f)] else [] := by
  have after : SameSet ((m.checkFamily true ips f).current f).ips
      (ips.filter fun ip => mark f ∈ ip.toList) := sameSet_checkFamily
  by_cases same : SameSet (m.current f).ips (ips.filter fun ip => mark f ∈ ip.toList)
  · have unchanged : m.checkFamily true ips f = m := by simp only [checkFamily, if_pos same]
    have still : ¬Changed m m f := fun changed => changed fun ip => Iff.rfl
    rw [unchanged, if_neg still, List.append_nil]
  · have changed : Changed m (m.checkFamily true ips f) f := fun before =>
      same fun ip => (before ip).trans (after ip)
    rw [if_pos changed]
    simp [checkFamily, same, publishCurrent]

theorem sameSet_checkIps (f : Family) :
    SameSet ((m.checkIps publish ips).current f).ips
      (ips.filter fun ip => mark f ∈ ip.toList) := by
  cases f with
  | ip =>
    rw [checkIps, current_checkFamily_of_ne (by decide)]
    exact sameSet_checkFamily
  | ip6 => exact sameSet_checkFamily

theorem published_checkIps : (m.checkIps true ips).published = m.published ++
    ([Family.ip, .ip6].filter fun f => Changed m (m.checkIps true ips) f).map fun f =>
      (m.topic f, (m.checkIps true ips).current f) := by
  have first : (m.checkIps true ips).current .ip = (m.checkFamily true ips .ip).current .ip :=
    current_checkFamily_of_ne (by decide)
  have second : (m.checkFamily true ips .ip).current .ip6 = m.current .ip6 :=
    current_checkFamily_of_ne (by decide)
  have changed : Changed (m.checkFamily true ips .ip) (m.checkIps true ips) .ip6 ↔
      Changed m (m.checkIps true ips) .ip6 := by
    rw [Changed, Changed, second]
  have changed' : Changed m (m.checkFamily true ips .ip) .ip ↔
      Changed m (m.checkIps true ips) .ip := by
    rw [Changed, Changed, first]
  have later := @published_checkFamily ips .ip6 (m.checkFamily true ips .ip)
  rw [← checkIps, published_checkFamily, topic_checkFamily] at later
  rw [later, ← first]
  simp only [changed, changed', List.filter_cons, List.filter_nil, List.append_assoc]
  by_cases four : Changed m (m.checkIps true ips) .ip <;>
    by_cases six : Changed m (m.checkIps true ips) .ip6 <;> simp [four, six]

/-- The check is right exactly if every address of the dump is the first attribute of an
entry, and no address is written with the characters of both families. -/
theorem checked_checkIps_iff {entries : List Entry} (enumerates : Enumerates ips entries) :
    Checked entries m (m.checkIps true ips) ↔
      (∀ value prefixlen, HasAddress entries value prefixlen →
        ∃ value' prefixlen', HasFirst entries value' prefixlen' ∧
          cidr value' prefixlen' = cidr value prefixlen) ∧
      ∀ value prefixlen, HasAddress entries value prefixlen → ¬Mixed value := by
  have member (ip : String) (f : Family) : ip ∈ ((m.checkIps true ips).current f).ips ↔
      ip ∈ getIps entries ∧ mark f ∈ ip.toList := by
    rw [sameSet_checkIps f ip, List.mem_filter, enumerates.2 ip, decide_eq_true_eq]
  have listed (ip : String) : (∃ f, ip ∈ ((m.checkIps true ips).current f).ips) ↔
      ∃ value prefixlen, HasFirst entries value prefixlen ∧ ip = cidr value prefixlen := by
    rw [← mem_getIps]
    constructor
    · rintro ⟨f, hip⟩
      exact ((member ip f).mp hip).1
    · intro hip
      obtain ⟨value, prefixlen, -, rfl⟩ := mem_getIps.mp hip
      obtain ⟨f, hf⟩ := exists_mark value
      exact ⟨f, (member _ f).mpr ⟨hip, (mark_mem_cidr f value prefixlen).mpr hf⟩⟩
  constructor
  · intro checked
    have first : ∀ value prefixlen, HasAddress entries value prefixlen →
        ∃ value' prefixlen', HasFirst entries value' prefixlen' ∧
          cidr value' prefixlen' = cidr value prefixlen := by
      intro value prefixlen has
      have here := (checked.addresses _).mpr ⟨value, prefixlen, has, rfl⟩
      obtain ⟨value', prefixlen', has', same⟩ := (listed _).mp here
      exact ⟨value', prefixlen', has', same.symm⟩
    refine ⟨first, fun value prefixlen has mixed => ?_⟩
    obtain ⟨value', prefixlen', has', same⟩ := first value prefixlen has
    have here : cidr value prefixlen ∈ getIps entries :=
      mem_getIps.mpr ⟨value', prefixlen', has', same.symm⟩
    have both (f : Family) := (member (cidr value prefixlen) f).mpr
      ⟨here, (mark_mem_cidr f value prefixlen).mpr (mixed f)⟩
    exact absurd (checked.once _ _ _ (both .ip) (both .ip6)) (by decide)
  · rintro ⟨first, pure⟩
    refine ⟨fun ip => (listed ip).trans ⟨?_, ?_⟩, fun ip f f' hf hf' => ?_, published_checkIps⟩
    · rintro ⟨value, prefixlen, has, same⟩
      exact ⟨value, prefixlen, has.hasAddress, same⟩
    · rintro ⟨value, prefixlen, has, rfl⟩
      obtain ⟨value', prefixlen', has', same⟩ := first value prefixlen has
      exact ⟨value', prefixlen', has', same.symm⟩
    · obtain ⟨here, marked⟩ := (member ip f).mp hf
      obtain ⟨-, marked'⟩ := (member ip f').mp hf'
      obtain ⟨value, prefixlen, has, rfl⟩ := mem_getIps.mp here
      rw [mark_mem_cidr] at marked marked'
      by_contra ne
      refine pure value prefixlen has.hasAddress fun g => ?_
      cases f <;> cases f' <;> cases g <;> first | assumption | exact absurd rfl ne

end Check

/-! ## An address with a peer -/

theorem ifaLocal_ne : "IFA_LOCAL" ≠ "IFA_ADDRESS" := by decide

theorem colon_mem_peer : ':' ∈ "fd00::2".toList := by decide

/-- The interface has one IPv6 address, of which the kernel tells the local end first. -/
def peerDump : List Entry :=
  [⟨[.other "IFA_LOCAL" ifaLocal_ne, .ifaAddress (.ip6 ⟨"fd00::2", colon_mem_peer⟩)], 128⟩]

/-- Nothing has been published. -/
def freshMonitor : NetworkMonitor where
  topic f := match f with
    | .ip => "ipv4/current"
    | .ip6 => "ipv6/current"
  current _ := ⟨[], none, []⟩
  published := []

theorem checked_checkIps_iff_peer :
    Checked peerDump freshMonitor (freshMonitor.checkIps true []) ↔
      (∀ value prefixlen, HasAddress peerDump value prefixlen →
        ∃ value' prefixlen', HasFirst peerDump value' prefixlen' ∧
          cidr value' prefixlen' = cidr value prefixlen) ∧
      ∀ value prefixlen, HasAddress peerDump value prefixlen → ¬Mixed value :=
  checked_checkIps_iff (by decide)

/-- The address is in neither list. -/
theorem not_checked_peer : Enumerates [] peerDump ∧
    ¬Checked peerDump freshMonitor (freshMonitor.checkIps true []) := by
  refine ⟨by decide, fun checked => ?_⟩
  have has : HasAddress peerDump (.ip6 ⟨"fd00::2", colon_mem_peer⟩) 128 :=
    ⟨_, List.mem_singleton.mpr rfl, by simp, rfl⟩
  obtain ⟨f, listed⟩ := (checked.addresses _).mpr ⟨_, _, has, rfl⟩
  cases f <;> cases listed

end ElanAgent.Network
